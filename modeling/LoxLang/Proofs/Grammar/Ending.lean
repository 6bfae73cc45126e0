import LoxLang.Proofs.Grammar.Trials

/-!
# The end of the tokens

Tokens end where they run out, or at a token that closes the source. Every reader asks about the end
in its own place and in its own way, and they all take the two for the same: a **uniform** reader
gives one result on tokens with no end among them, and leaves the same of them, whatever end stands
behind (`Uniform`). Uniform readers can be put one after the other, so the law reaches from the
expression machine to the declaration.

The end shows in one place only, the diagnostic of a fault that is met there. So what stands behind
the token that closes a source is never looked at, and where that token is missing, the one error
reported at it says that the input ended (`attempts_ending`).
-/

namespace LoxLang

/-- What is reported in the place of a diagnostic where the token that closes the source is missing:
at that token, that the input ended. -/
def Diagnostic.unclosed (close : Token) : Diagnostic → Diagnostic
  | .syntactic token message =>
    if token = close then .inputEnded else .syntactic token message
  | other => other

namespace Grammar

/-- An attempt where the token that closes the source is missing. -/
def Attempt.unclosed (close : Token) (a : Attempt) : Attempt :=
  ⟨a.result.mapError (Diagnostic.unclosed close), a.skipped⟩

theorem kind_of_isEnd {t : Token} (ends : t.isEnd = true) : t.kind = .endOfFile := by
  simpa [Token.isEnd] using ends

/-! ## Uniform readers -/

/-- A reading that is the same in front of every end. -/
def Uniform {α : Type} (read : List Token → Reading α) : Prop :=
  ∀ us : List Token, (∀ t ∈ us, t.isEnd = false) → ∃ result vs, vs <:+ us ∧
    ∀ rest, atEnd rest = true → read (us ++ rest) = ⟨result, vs ++ rest⟩

/-- The machine takes no token that closes a source. -/
theorem State.shift_of_isEnd (s : State) {t : Token} (ends : t.isEnd = true) :
    s.shift t = none := by
  unfold State.shift
  split <;> simp [kind_of_isEnd ends, isPrefixOperator, atom?, level]

theorem uniform_readFrom (s : State) : Uniform (readFrom s) := by
  intro us inside
  induction us generalizing s with
  | nil =>
    refine ⟨s.stop, [], List.suffix_refl _, ?_⟩
    intro rest done
    cases rest with
    | nil => rfl
    | cons t rest => simp only [List.nil_append, readFrom, s.shift_of_isEnd done]
  | cons u us ih =>
    cases shifted : s.shift u with
    | none =>
      refine ⟨s.stop, u :: us, List.suffix_refl _, ?_⟩
      intro rest _
      simp only [List.cons_append, readFrom, shifted]
    | some s' =>
      obtain ⟨result, vs, left, reads⟩ := ih s' fun t mem => inside t (List.mem_cons_of_mem _ mem)
      refine ⟨result, vs, left.trans (List.suffix_cons u us), ?_⟩
      intro rest done
      simpa only [List.cons_append, readFrom, shifted] using reads rest done

/-- A reading that takes nothing is uniform. -/
theorem uniform_stay {α : Type} (result : Except SyntaxFault α) :
    Uniform fun tokens => ⟨result, tokens⟩ :=
  fun us _ => ⟨result, us, List.suffix_refl _, fun _ _ => rfl⟩

/-- A reader that stays at an end, and elsewhere looks at its first token and then is uniform, is
uniform. It may have taken that token or not. -/
theorem Uniform.of_first {α : Type} {read : List Token → Reading α}
    (ends : ∃ result, ∀ rest, atEnd rest = true → read rest = ⟨result, rest⟩)
    (first : ∀ t, (∃ next, Uniform next ∧ ∀ rest, read (t :: rest) = next rest) ∨
      ∃ next, Uniform next ∧ ∀ rest, read (t :: rest) = next (t :: rest)) : Uniform read := by
  intro us inside
  cases us with
  | nil =>
    obtain ⟨result, stays⟩ := ends
    exact ⟨result, [], List.suffix_refl _, stays⟩
  | cons u us =>
    rcases first u with ⟨next, uniform, same⟩ | ⟨next, uniform, same⟩
    · obtain ⟨result, vs, left, reads⟩ :=
        uniform us fun t mem => inside t (List.mem_cons_of_mem _ mem)
      refine ⟨result, vs, left.trans (List.suffix_cons u us), ?_⟩
      intro rest done
      rw [List.cons_append, same, reads rest done]
    · obtain ⟨result, vs, left, reads⟩ := uniform (u :: us) inside
      refine ⟨result, vs, left, ?_⟩
      intro rest done
      exact (same _).trans (reads rest done)

/-- Uniform readers one after the other are a uniform reader. -/
theorem Uniform.andThen {α β : Type} {read : List Token → Reading α}
    {next : α → List Token → Reading β} (first : Uniform read) (second : ∀ a, Uniform (next a)) :
    Uniform fun tokens => (read tokens).andThen next := by
  intro us inside
  obtain ⟨result, vs, left, reads⟩ := first us inside
  cases result with
  | error fault =>
    refine ⟨.error fault, vs, left, ?_⟩
    intro rest done
    simp only [reads rest done, Reading.andThen]
  | ok a =>
    obtain ⟨result', ws, left', reads'⟩ := second a vs fun t mem => inside t (left.subset mem)
    refine ⟨result', ws, left'.trans left, ?_⟩
    intro rest done
    simp only [reads rest done, Reading.andThen, reads' rest done]

theorem uniform_expect (kind : TokenKind) (notEnd : kind ≠ .endOfFile) (fault : SyntaxFault) :
    Uniform (expect kind fault) := by
  refine .of_first ⟨.error fault, ?_⟩ fun t => ?_
  · intro rest done
    cases rest with
    | nil => rfl
    | cons t rest =>
      have other : t.kind ≠ kind := fun same => notEnd (same.symm.trans (kind_of_isEnd done))
      rw [expect, if_neg other]
  · by_cases same : t.kind = kind
    · refine .inl ⟨_, uniform_stay (.ok t), ?_⟩
      intro rest
      rw [expect, if_pos same]
    · refine .inr ⟨_, uniform_stay (.error fault), ?_⟩
      intro rest
      rw [expect, if_neg same]

theorem uniform_closed (clause : Clause) (make : Expr → Stmt) : Uniform (closed clause make) :=
  (uniform_readFrom .start).andThen fun e =>
    (uniform_expect (.mark .semicolon) (by simp) _).andThen fun _ => uniform_stay (.ok (make e))

/-- A clause is missed at an end. -/
theorem closed_of_atEnd (clause : Clause) (make : Expr → Stmt) {rest : List Token}
    (done : atEnd rest = true) : closed clause make rest = ⟨.error .expression, rest⟩ := by
  cases rest with
  | nil => rfl
  | cons t rest =>
    rw [closed, expression, readFrom, State.shift_of_isEnd _ done]
    rfl

theorem uniform_initializer (name : Token) : Uniform (initializer name) := by
  refine .of_first ⟨.error (.semicolon .variableDeclaration), ?_⟩ fun t => ?_
  · intro rest done
    cases rest with
    | nil => rfl
    | cons t rest =>
      have ends := kind_of_isEnd done
      rw [initializer, if_neg (by simp [ends]), expect, if_neg (by simp [ends])]
      rfl
  · by_cases assigns : t.kind = .mark .equal
    · refine .inl ⟨_, uniform_closed .variableDeclaration fun e => .declare name (some e), ?_⟩
      intro rest
      rw [initializer, if_pos assigns]
    · refine .inr ⟨_, (uniform_expect (.mark .semicolon) (by simp)
        (.semicolon .variableDeclaration)).andThen
        fun _ => uniform_stay (.ok (.declare name none)), ?_⟩
      intro rest
      rw [initializer, if_neg assigns]

/-- A declaration is read or fails in the same way in front of every end. -/
theorem uniform_declaration : Uniform declaration := by
  refine .of_first ⟨.error .expression, ?_⟩ fun t => ?_
  · intro rest done
    cases rest with
    | nil => rfl
    | cons t rest =>
      have ends := kind_of_isEnd done
      rw [declaration, if_neg (by simp [ends]), if_neg (by simp [ends])]
      exact closed_of_atEnd _ _ done
  · by_cases isVar : t.kind = .keyword .varDecl
    · refine .inl ⟨_, (uniform_expect .identifier (by simp) .variableName).andThen
        uniform_initializer, ?_⟩
      intro rest
      rw [declaration, if_pos isVar]
    by_cases isPrint : t.kind = .keyword .print
    · refine .inl ⟨_, uniform_closed .value .print, ?_⟩
      intro rest
      rw [declaration, if_neg isVar, if_pos isPrint]
    · refine .inr ⟨_, uniform_closed .expression .expression, ?_⟩
      intro rest
      rw [declaration, if_neg isVar, if_neg isPrint]

/-! ## Recovery -/

theorem recover_of_atEnd {rest : List Token} (done : atEnd rest = true) :
    recover rest = ([], rest) := by
  cases rest with
  | nil => rfl
  | cons t rest => exact if_pos done

/-- Nothing at an end begins a statement. -/
theorem atStatement_of_atEnd {rest : List Token} (done : atEnd rest = true) :
    atStatement rest = false := by
  cases rest with
  | nil => rfl
  | cons t rest =>
    have ends := kind_of_isEnd done
    rw [atStatement, ends]
    rfl

/-- Recovery skips the same tokens in front of every end. -/
theorem recover_uniform {us : List Token} (inside : ∀ t ∈ us, t.isEnd = false) :
    ∃ skipped vs, vs <:+ us ∧
      ∀ rest, atEnd rest = true → recover (us ++ rest) = (skipped, vs ++ rest) := by
  induction us with
  | nil => exact ⟨[], [], List.suffix_refl _, fun _ => recover_of_atEnd⟩
  | cons u us ih =>
    obtain ⟨first, later⟩ := List.forall_mem_cons.mp inside
    have more : ¬ u.isEnd = true := Bool.eq_false_iff.mp first
    have next {rest : List Token} (done : atEnd rest = true) :
        atStatement (us ++ rest) = atStatement us := by
      cases us with
      | nil => exact atStatement_of_atEnd done
      | cons => rfl
    by_cases stops : (u.kind = .mark .semicolon || atStatement us) = true
    · refine ⟨[u], us, List.suffix_cons u us, ?_⟩
      intro rest done
      rw [List.cons_append, recover, if_neg more, next done, if_pos stops]
    · obtain ⟨skipped, vs, left, recovers⟩ := ih later
      refine ⟨u :: skipped, vs, left.trans (List.suffix_cons u us), ?_⟩
      intro rest done
      rw [List.cons_append, recover, if_neg more, next done, if_neg stops, recovers rest done]

/-! ## Attempts -/

/-- Only where no token is left in front of the end does a diagnostic tell one end from another. -/
theorem diagnose_ending (fault : SyntaxFault) {us : List Token}
    (inside : ∀ t ∈ us, t.isEnd = false) {close : Token} (closes : close.isEnd = true) :
    (∀ junk, diagnose fault (us ++ close :: junk) = diagnose fault (us ++ [close])) ∧
      diagnose fault us = (diagnose fault (us ++ [close])).unclosed close := by
  cases us with
  | nil => exact ⟨fun _ => rfl, (if_pos rfl).symm⟩
  | cons t us =>
    have other : t ≠ close := by
      rintro rfl
      exact absurd closes (Bool.eq_false_iff.mp (inside t List.mem_cons_self))
    exact ⟨fun _ => rfl, (if_neg other).symm⟩

/-- One declaration tried in front of an end. -/
theorem attempt_ending {us : List Token} (inside : ∀ t ∈ us, t.isEnd = false) {close : Token}
    (closes : close.isEnd = true) :
    ∃ vs, vs <:+ us ∧
      (∀ junk, attempt (us ++ close :: junk) =
        ((attempt (us ++ [close])).1, vs ++ close :: junk)) ∧
      attempt us = ((attempt (us ++ [close])).1.unclosed close, vs) := by
  have closed (junk : List Token) : atEnd (close :: junk) = true := closes
  obtain ⟨result, ws, left, reads⟩ := uniform_declaration us inside
  have unread := reads [] rfl
  rw [List.append_nil, List.append_nil] at unread
  cases result with
  | ok s =>
    refine ⟨ws, left, fun junk => ?_, ?_⟩
    · rw [attempt, attempt, reads _ (closed junk), reads _ (closed [])]
    · rw [attempt, attempt, reads _ (closed []), unread]
      rfl
  | error fault =>
    have inner : ∀ t ∈ ws, t.isEnd = false := fun t mem => inside t (left.subset mem)
    obtain ⟨same, missing⟩ := diagnose_ending fault inner closes
    obtain ⟨skipped, vs, left', recovers⟩ := recover_uniform inner
    have recovered := recovers [] rfl
    rw [List.append_nil, List.append_nil] at recovered
    refine ⟨vs, left'.trans left, fun junk => ?_, ?_⟩
    · simp only [attempt, reads _ (closed junk), reads _ (closed []), recovers _ (closed junk),
        recovers _ (closed []), same junk]
    · simp only [attempt, reads _ (closed []), unread, recovers _ (closed []), recovered, missing,
        Attempt.unclosed, Except.mapError]

/-- All declarations tried in front of an end. -/
theorem program_ending {us : List Token} (inside : ∀ t ∈ us, t.isEnd = false) {close : Token}
    (closes : close.isEnd = true) :
    (∀ junk, program (us ++ close :: junk) =
        ((program (us ++ [close])).1, close :: junk)) ∧
      program us = ((program (us ++ [close])).1.map (Attempt.unclosed close), []) := by
  have closed (junk : List Token) : atEnd (close :: junk) = true := closes
  -- Every attempt leaves fewer of the tokens in front of the end.
  induction us using WellFounded.induction (measure List.length).wf with
  | _ us ih =>
    cases us with
    | nil =>
      have alone : program [close] = ([], [close]) := program_of_atEnd (closed [])
      refine ⟨fun junk => ?_, ?_⟩
      · rw [List.nil_append, List.nil_append, alone, program_of_atEnd (closed junk)]
      · rw [List.nil_append, alone, program_of_atEnd rfl, List.map_nil]
    | cons u us =>
      have more (rest : List Token) : atEnd (u :: us ++ rest) = false :=
        inside u List.mem_cons_self
      have more' : atEnd (u :: us) = false := inside u List.mem_cons_self
      obtain ⟨vs, left, first, unread⟩ := attempt_ending inside closes
      have shorter := length_attempt_lt more'
      rw [unread] at shorter
      obtain ⟨others, unread'⟩ := ih vs shorter fun t mem => inside t (left.subset mem)
      constructor
      · intro junk
        rw [program_of_not_atEnd (more _), program_of_not_atEnd (more _), first junk, first [],
          others junk, others []]
      · rw [program_of_not_atEnd more', program_of_not_atEnd (more _), unread, first [], unread',
          List.map_cons]

/-- The end of the tokens is **uniform**. What stands behind the token that closes a source is never
looked at. Where that token is missing, the same attempts are made, one for one, with the same
results and the same tokens skipped, but that an error reported at that token says that the input
ended. And on what one reading leaves, whatever the tokens, another finds nothing to read. -/
theorem attempts_ending {us : List Token} (inside : ∀ t ∈ us, t.kind ≠ .endOfFile) {close : Token}
    (closes : close.kind = .endOfFile) :
    (∀ junk, attempts (us ++ [close] ++ junk) = attempts (us ++ [close])) ∧
      attempts us = (attempts (us ++ [close])).map (Attempt.unclosed close) ∧
      ∀ tokens, attempts (program tokens).2 = [] := by
  have inner : ∀ t ∈ us, t.isEnd = false := by
    intro t mem
    simpa [Token.isEnd] using inside t mem
  have ends : close.isEnd = true := by simp [Token.isEnd, closes]
  obtain ⟨closed, unread⟩ := program_ending inner ends
  refine ⟨fun junk => ?_, ?_, fun tokens => ?_⟩
  · rw [attempts, List.append_assoc, List.singleton_append, closed junk, attempts]
  · rw [attempts, unread, attempts]
  · rw [attempts, program_of_atEnd (atEnd_program tokens)]

/-- A print statement, an error inside and an error at the end: only the last one tells whether the
source is closed, and the print statement behind its end is not read. -/
theorem attempts_ending_missing :
    let us : List Token := [⟨.keyword .print, "print", 1⟩, ⟨.identifier, "a", 1⟩,
      ⟨.mark .semicolon, ";", 1⟩, ⟨.mark .semicolon, ";", 2⟩, ⟨.keyword .print, "print", 3⟩,
      ⟨.mark .leftParen, "(", 3⟩]
    let close : Token := ⟨.endOfFile, "", 4⟩
    let inner := [.ok (.print (.name ⟨.identifier, "a", 1⟩)),
      .error (.syntactic ⟨.mark .semicolon, ";", 2⟩ SyntaxFault.expression.message)]
    (attempts (us ++ [close] ++ us)).map Attempt.result =
        inner ++ [.error (.syntactic close SyntaxFault.expression.message)] ∧
      (attempts us).map Attempt.result = inner ++ [.error .inputEnded] ∧
      attempts (program (us ++ [close] ++ us)).2 = [] := by
  intro us close inner
  have inside : ∀ t ∈ us, t.kind ≠ .endOfFile := by simp [us]
  have closes : close.kind = .endOfFile := rfl
  obtain ⟨junk, missing, again⟩ := attempts_ending inside closes
  have closed : (attempts (us ++ [close])).map Attempt.result =
      inner ++ [.error (.syntactic close SyntaxFault.expression.message)] := by
    decide +kernel
  refine ⟨?_, ?_, again _⟩
  · rw [junk, closed]
  · have results : (attempts us).map Attempt.result =
        ((attempts (us ++ [close])).map Attempt.result).map
          (Except.mapError (Diagnostic.unclosed close)) := by
      rw [missing, List.map_map, List.map_map]
      rfl
    rw [results, closed]
    rfl

end Grammar

end LoxLang
