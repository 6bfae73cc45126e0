import Mathlib.Order.Bounds.Defs
import LoxLang.Proofs.Grammar.Trials

/-!
# Where reading resumes

After a failure tokens are skipped up to a **boundary**: behind a semicolon, in front of a token
that begins a statement, or the end of the source. Reading resumes at the first boundary from the
fault on, with one exception: the token at the fault is skipped whatever it is
(`resumes_at_boundary`). So where that token begins a statement, it is not the boundary that it
would be elsewhere.

The exception has a price. A declaration that lacks only its semicolon fails at the word that begins
the next one, and that word is skipped with all that follows it, up to the semicolon that closes the
next declaration (`attempts_of_missing`).

What is skipped is told by what may stand in front of a semicolon, a **body** (`recover_body`).
-/

namespace LoxLang.Grammar

/-! ## Bodies -/

/-- Tokens that can stand in front of the semicolon of a declaration, as far as recovery sees: no
semicolon and no end of the source is among them, and only the first may begin a statement. -/
structure IsBody (ts : List Token) : Prop where
  notSemicolon : ∀ t ∈ ts, t.kind ≠ .mark .semicolon
  notEnd : ∀ t ∈ ts, t.isEnd = false
  notStart : ∀ t ∈ ts.tail, t.kind.startsStatement = false

/-- What stands behind a part of a body is one too. -/
theorem IsBody.of_append {us ts : List Token} (body : IsBody (us ++ ts)) : IsBody ts where
  notSemicolon t mem := body.notSemicolon t (List.mem_append_right us mem)
  notEnd t mem := body.notEnd t (List.mem_append_right us mem)
  notStart t mem := by
    refine body.notStart t ?_
    cases us with
    | nil => exact mem
    | cons u us => exact List.mem_append_right us (List.mem_of_mem_tail mem)

/-- Recovery from within a body skips just up to its semicolon. -/
theorem recover_body {ts : List Token} (body : IsBody ts) {semicolon : Token}
    (closes : semicolon.kind = .mark .semicolon) (rest : List Token) :
    recover (ts ++ semicolon :: rest) = (ts ++ [semicolon], rest) := by
  induction ts with
  | nil => simp [recover, Token.isEnd, closes]
  | cons t ts ih =>
    have more : t.isEnd = false := body.notEnd t List.mem_cons_self
    have opened : t.kind ≠ .mark .semicolon := body.notSemicolon t List.mem_cons_self
    have continues : atStatement (ts ++ semicolon :: rest) = false := by
      cases ts with
      | nil => simp [atStatement, closes, TokenKind.startsStatement]
      | cons u ts => exact body.notStart u List.mem_cons_self
    have whole : IsBody ([t] ++ ts) := body
    have later := ih whole.of_append
    simp [recover, more, opened, continues, later]

/-- Only the first token of a declaration may begin a statement. -/
theorem IsDeclaration.notStart_of_mem_tail {ts : List Token} {s : Stmt}
    (declared : IsDeclaration ts s) : ∀ t ∈ ts.tail, t.kind.startsStatement = false := by
  have other {t : Token} {kind : TokenKind} (same : t.kind = kind)
      (differs : kind.startsStatement = false) : t.kind.startsStatement = false := same ▸ differs
  have clause {ts : List Token} {e : Expr} {semicolon : Token} (value : Derives .equality ts e)
      (closes : semicolon.kind = .mark .semicolon) :
      ∀ t ∈ ts ++ [semicolon], t.kind.startsStatement = false := by
    intro t mem
    rcases List.mem_append.mp mem with inside | last
    · exact (value.inner t inside).notStart
    · cases List.mem_singleton.mp last
      exact other closes rfl
  cases declared with
  | initialised kind named assigns initial closes =>
    simp only [List.tail_cons, List.forall_mem_cons]
    exact ⟨other named rfl, other assigns rfl, clause initial closes⟩
  | bare kind named closes =>
    simp only [List.tail_cons, List.forall_mem_cons]
    exact ⟨other named rfl, other closes rfl, by simp⟩
  | statement stated =>
    cases stated with
    | print kind value closes => exact clause value closes
    | expression value closes => exact fun t mem => clause value closes t (List.mem_of_mem_tail mem)

/-- A declaration is a body and its semicolon. -/
theorem IsDeclaration.exists_body {ts : List Token} {s : Stmt} (declared : IsDeclaration ts s) :
    ∃ body semicolon, ts = body ++ [semicolon] ∧ IsBody body ∧
      semicolon.kind = .mark .semicolon := by
  obtain ⟨body, semicolon, rfl, closes, notSemicolon⟩ := declared.exists_semicolon
  refine ⟨body, semicolon, rfl, ⟨notSemicolon, ?_, ?_⟩, closes⟩
  · exact fun t mem => declared.not_isEnd t (List.mem_append_left _ mem)
  · intro t mem
    refine declared.notStart_of_mem_tail t ?_
    rw [List.tail_append_of_ne_nil (List.ne_nil_of_mem (List.mem_of_mem_tail mem))]
    exact List.mem_append_left _ mem

/-! ## A declaration without its semicolon -/

/-- Words that begin a statement can go on with no expression, and close none. -/
theorem of_startsStatement {t : Token} (starts : t.kind.startsStatement = true) :
    ∃ word, t.kind = .keyword word := by
  cases kind : t.kind with
  | keyword word => exact ⟨word, rfl⟩
  | _ =>
    rw [kind] at starts
    cases starts

/-- An expression in front of such a word misses its semicolon there. -/
theorem closed_of_missing {ts : List Token} {e : Expr} (value : Derives .equality ts e) {t : Token}
    (starts : t.kind.startsStatement = true) (clause : Clause) (make : Expr → Stmt)
    (rest : List Token) :
    closed clause make (ts ++ t :: rest) = ⟨.error (.semicolon clause), t :: rest⟩ := by
  obtain ⟨word, kind⟩ := of_startsStatement starts
  have first : expression (ts ++ t :: rest) = ⟨.ok e, t :: rest⟩ :=
    expression_complete value (by simp [kind, level]) (by simp [kind]) rest
  have second : expect (.mark .semicolon) (.semicolon clause) (t :: rest) =
      ⟨.error (.semicolon clause), t :: rest⟩ := by
    rw [expect, if_neg (by simp [kind])]
  rw [closed, first, Reading.andThen, second, Reading.andThen]

/-- A declaration that lacks its semicolon in front of a word that begins a statement fails at that
word. -/
theorem declaration_of_missing {us : List Token} {semicolon : Token} {s : Stmt}
    (declared : IsDeclaration (us ++ [semicolon]) s) {t : Token}
    (starts : t.kind.startsStatement = true) (rest : List Token) :
    ∃ clause, declaration (us ++ t :: rest) = ⟨.error (.semicolon clause), t :: rest⟩ := by
  obtain ⟨word', other⟩ := of_startsStatement starts
  generalize whole : us ++ [semicolon] = ts at declared
  cases declared with
  | @initialised word name equal semicolon' ts e kind named assigns initial closes =>
    have parts : us ++ [semicolon] = word :: name :: equal :: ts ++ [semicolon'] := whole
    obtain ⟨rfl, -⟩ := List.append_inj' parts rfl
    refine ⟨.variableDeclaration, ?_⟩
    rw [List.cons_append, List.cons_append, List.cons_append, declaration_of_varDecl kind named,
      initializer, if_pos assigns]
    exact closed_of_missing initial starts _ _ rest
  | @bare word name semicolon' kind named closes =>
    have parts : us ++ [semicolon] = [word, name] ++ [semicolon'] := whole
    obtain ⟨rfl, -⟩ := List.append_inj' parts rfl
    refine ⟨.variableDeclaration, ?_⟩
    have second : expect (.mark .semicolon) (.semicolon .variableDeclaration) (t :: rest) =
        ⟨.error (.semicolon .variableDeclaration), t :: rest⟩ := by
      rw [expect, if_neg (by simp [other])]
    rw [List.cons_append, List.cons_append, List.nil_append, declaration_of_varDecl kind named,
      initializer, if_neg (by simp [other]), second, Reading.andThen]
  | statement stated =>
    cases stated with
    | @print word semicolon' ts e kind value closes =>
      have parts : us ++ [semicolon] = word :: ts ++ [semicolon'] := whole
      obtain ⟨rfl, -⟩ := List.append_inj' parts rfl
      refine ⟨.value, ?_⟩
      rw [List.cons_append, declaration, if_neg (by simp [kind]), if_pos kind]
      exact closed_of_missing value starts _ _ rest
    | @expression semicolon' ts e value closes =>
      obtain ⟨rfl, -⟩ := List.append_inj' whole rfl
      refine ⟨.expression, ?_⟩
      rw [declaration_of_derives value]
      exact closed_of_missing value starts _ _ rest

/-- A failure is reported at the first token not taken, and recovery starts there. -/
theorem attempt_of_error {tokens rest : List Token} {fault : SyntaxFault}
    (failed : declaration tokens = ⟨.error fault, rest⟩) :
    attempt tokens = (⟨.error (diagnose fault rest), (recover rest).1⟩, (recover rest).2) := by
  rw [attempt, failed]

/-- A declaration that lacks only its semicolon **costs the next one** too, if that begins with a
word that begins a statement: the whole of the next declaration is skipped, and what stands behind
it is read as it would be alone. -/
theorem attempts_of_missing {us more : List Token} {semicolon word : Token} {s s' : Stmt}
    (declared : IsDeclaration (us ++ [semicolon]) s) (starts : word.kind.startsStatement = true)
    (next : IsDeclaration (word :: more) s') (rest : List Token) :
    ∃ clause, attempts (us ++ (word :: more ++ rest)) =
      ⟨.error (.syntactic word (SyntaxFault.semicolon clause).message), word :: more⟩ ::
        attempts rest := by
  obtain ⟨clause, failed⟩ := declaration_of_missing declared starts (more ++ rest)
  obtain ⟨body, closing, whole, isBody, closes⟩ := next.exists_body
  have recovered : recover (word :: (more ++ rest)) = (word :: more, rest) := by
    have skipped := recover_body isBody closes rest
    rwa [List.append_cons, ← whole] at skipped
  have tried := attempt_of_error failed
  rw [recovered] at tried
  have notEnd : atEnd (us ++ (word :: more ++ rest)) = false := by
    cases us with
    | nil => exact next.not_isEnd word List.mem_cons_self
    | cons u us => exact declared.not_isEnd u List.mem_cons_self
  refine ⟨clause, ?_⟩
  rw [attempts, program_of_not_atEnd notEnd, List.cons_append, tried]
  rfl

/-! ## Boundaries -/

/-- Positions at which reading may resume after a fault: behind a semicolon that stands at the fault
or later, in front of a token from a given position on that begins a statement, and at the end. -/
inductive Boundary (tokens : List Token) (fault first : Nat) : Nat → Prop
  | semicolon {i : Nat} {t : Token} (behind : fault ≤ i) (stands : tokens[i]? = some t)
      (closes : t.kind = .mark .semicolon) : Boundary tokens fault first (i + 1)
  | statement {i : Nat} {t : Token} (behind : first ≤ i) (stands : tokens[i]? = some t)
      (starts : t.kind.startsStatement = true) : Boundary tokens fault first i
  | finish : Boundary tokens fault first (tokens.findIdx Token.isEnd)

/-- Whether the token at a position counts is of no account if it begins no statement. -/
theorem boundary_iff_of_not_start {tokens : List Token} {p q : Nat}
    (other : ∀ u, tokens[p]? = some u → u.kind.startsStatement = false) :
    Boundary tokens p p q ↔ Boundary tokens p (p + 1) q := by
  constructor
  · intro boundary
    cases boundary with
    | semicolon behind stands closes => exact .semicolon behind stands closes
    | finish => exact .finish
    | @statement _ t behind stands starts =>
      rcases Nat.eq_or_lt_of_le behind with rfl | later
      · cases starts.symm.trans (other t stands)
      · exact .statement later stands starts
  · intro boundary
    cases boundary with
    | semicolon behind stands closes => exact .semicolon behind stands closes
    | finish => exact .finish
    | statement behind stands starts => exact .statement (Nat.le_of_succ_le behind) stands starts

/-- Behind the first token, recovery skips none that begins a statement. -/
theorem notStart_of_mem_tail_recover (tokens : List Token) :
    ∀ t ∈ (recover tokens).1.tail, t.kind.startsStatement = false := by
  fun_induction recover tokens with
  | case1 => simp
  | case2 => simp
  | case3 => simp
  | case4 t rest more goesOn skipped others found ih =>
    have spelled := (recover_skips rest).spelled
    rw [found] at ih spelled
    obtain ⟨-, notStart⟩ := Bool.or_eq_false_iff.mp (Bool.eq_false_iff.mpr goesOn)
    cases skipped with
    | nil => simp
    | cons u skipped =>
      -- The second token skipped is the one behind the first.
      rw [← spelled] at notStart
      exact List.forall_mem_cons.mpr ⟨notStart, ih⟩

/-- A statement begins nowhere at the end. -/
theorem not_atEnd_of_atStatement {tokens : List Token} (starts : atStatement tokens = true) :
    atEnd tokens = false := by
  cases tokens with
  | nil => cases starts
  | cons t rest =>
    obtain ⟨word, kind⟩ := of_startsStatement starts
    simp [atEnd, Token.isEnd, kind]

section

variable {front rest skipped others : List Token}

/-- Tokens skipped, by their positions. -/
theorem getElem?_skipped (spelled : skipped ++ others = rest) {i : Nat} (behind : front.length ≤ i)
    (inside : i < front.length + skipped.length) :
    (front ++ rest)[i]? = skipped[i - front.length]? := by
  rw [List.getElem?_append_right behind, ← spelled, List.getElem?_append_left (by omega)]

theorem Skips.clear_append (skips : Skips rest skipped others)
    (clear : ∀ t ∈ front, t.isEnd = false) : ∀ t ∈ front ++ skipped, t.isEnd = false := by
  intro t mem
  rcases List.mem_append.mp mem with first | later
  · exact clear t first
  · exact skips.notEnd t later

/-- What is skipped reaches to a boundary. -/
theorem Skips.boundary (skips : Skips rest skipped others)
    (clear : ∀ t ∈ front, t.isEnd = false) :
    Boundary (front ++ rest) front.length (front.length + 1) (front.length + skipped.length) := by
  have spelled := skips.spelled
  rcases skips.stops with ⟨before, semicolon, rfl, closes⟩ | starts | done
  · rw [List.length_append, ← Nat.add_assoc]
    refine .semicolon (Nat.le_add_right _ _) ?_ closes
    rw [← spelled]
    simp
  · have nonempty : skipped ≠ [] := by
      intro none
      have done := skips.eq_nil_iff.mp none
      rw [← spelled, none, List.nil_append, not_atEnd_of_atStatement starts] at done
      cases done
    have pos := List.length_pos_iff.mpr nonempty
    cases others with
    | nil => cases starts
    | cons u others =>
      refine .statement (by omega) ?_ starts
      rw [← spelled]
      simp
  · have ends := findIdx_isEnd (skips.clear_append clear) done
    rw [List.append_assoc, spelled, List.length_append] at ends
    rw [← ends]
    exact .finish

/-- What is skipped reaches to no later boundary than the first. -/
theorem Skips.le_boundary (skips : Skips rest skipped others)
    (clear : ∀ t ∈ front, t.isEnd = false)
    (notStart : ∀ t ∈ skipped.tail, t.kind.startsStatement = false) {q : Nat}
    (boundary : Boundary (front ++ rest) front.length (front.length + 1) q) :
    front.length + skipped.length ≤ q := by
  by_contra earlier
  have spelled := skips.spelled
  cases boundary with
  | @semicolon i t behind stands closes =>
    rw [getElem?_skipped spelled behind (by omega)] at stands
    have inside : skipped.dropLast[i - front.length]? = some t := by
      rw [List.getElem?_dropLast, if_pos (by omega), stands]
    exact skips.inner t (List.mem_of_getElem? inside) closes
  | @statement _ t behind stands starts =>
    rw [getElem?_skipped spelled (by omega) (by omega)] at stands
    have inside : skipped.tail[q - front.length - 1]? = some t := by
      rw [List.getElem?_tail, Nat.sub_add_cancel (by omega), stands]
    cases starts.symm.trans (notStart t (List.mem_of_getElem? inside))
  | finish =>
    apply earlier
    rw [← spelled, ← List.append_assoc, List.findIdx_append,
      List.findIdx_eq_length.mpr (skips.clear_append clear), if_neg (Nat.lt_irrefl _),
      List.length_append]
    exact Nat.le_add_left _ _

end

/-! ## Where a trial stops -/

/-- What stands behind a trial are the trials from its stop on. -/
theorem trials_behind {start : Nat} {tokens : List Token} {front back : List Trial} {t : Trial}
    (cut : trials start tokens = front ++ t :: back) :
    ∃ before rest, tokens = before ++ rest ∧ (∀ u ∈ before, u.isEnd = false) ∧
      t = trial (start + before.length) rest ∧ back = trials t.stop (attempt rest).2 := by
  induction front generalizing start tokens with
  | nil =>
    rw [trials] at cut
    split at cut
    · cases cut
    · cases cut
      exact ⟨[], tokens, rfl, by simp, rfl, rfl⟩
  | cons first front ih =>
    rw [trials] at cut
    split at cut
    · cases cut
    · obtain ⟨rfl, later⟩ := List.cons.inj cut
      obtain ⟨before, rest, spelled, clear, same, behind⟩ := ih later
      refine ⟨(trial start tokens).slice ++ before, rest, ?_, ?_, ?_, behind⟩
      · rw [List.append_assoc, ← spelled, slice_trial_append]
      · intro u mem
        rcases List.mem_append.mp mem with now | behind
        · exact not_isEnd_of_mem_slice u now
        · exact clear u behind
      · rw [same, Trial.stop, List.length_append, ← Nat.add_assoc]
        rfl

section

variable {before tokens : List Token} {d : Diagnostic}

/-- A failed trial stops at the first boundary. -/
theorem stop_isLeast (clear : ∀ t ∈ before, t.isEnd = false)
    (failed : (trial before.length tokens).attempt.result = .error d) :
    IsLeast {q | Boundary (before ++ tokens) (trial before.length tokens).fault
      ((trial before.length tokens).fault + 1) q} (trial before.length tokens).stop := by
  obtain ⟨us, rest, fault, -, rfl, begins, -, tried, -, -⟩ := trial_of_error failed
  have clear' : ∀ t ∈ before ++ us, t.isEnd = false := by
    intro t mem
    rcases List.mem_append.mp mem with first | later
    · exact clear t first
    · exact (begins.inner t later).2
  have skips := recover_skips rest
  have same : trial before.length (us ++ rest) =
      ⟨before.length, us, ⟨.error (diagnose fault rest), (recover rest).1⟩⟩ := by
    rw [trial, taken_eq tried, attempt_of_error tried]
  rw [same]
  simp only [Trial.fault, Trial.stop, Trial.slice, List.length_append, ← Nat.add_assoc]
  rw [← List.append_assoc, ← List.length_append]
  refine ⟨skips.boundary clear', fun q boundary => ?_⟩
  exact skips.le_boundary clear' (notStart_of_mem_tail_recover rest) boundary

/-- The token at the fault is skipped even if it begins a statement, so that just then the stop is
not the first boundary from the fault on. -/
theorem stop_isLeast_iff (clear : ∀ t ∈ before, t.isEnd = false)
    (failed : (trial before.length tokens).attempt.result = .error d) :
    IsLeast {q | Boundary (before ++ tokens) (trial before.length tokens).fault
        (trial before.length tokens).fault q} (trial before.length tokens).stop ↔
      ∀ u, (before ++ tokens)[(trial before.length tokens).fault]? = some u →
        u.kind.startsStatement = false := by
  constructor
  · rintro ⟨-, least⟩ u stands
    by_contra notOther
    have starts : u.kind.startsStatement = true := Bool.not_eq_false _ ▸ notOther
    have early := least (Boundary.statement (Nat.le_refl _) stands starts)
    rcases fault_cases failed with inside | ⟨same, done⟩
    · exact absurd early (Nat.not_le.mpr inside)
    · rw [same, getElem?_stop] at stands
      obtain ⟨others, left⟩ := List.head?_eq_some_iff.mp stands
      have notEnd : atEnd (u :: others) = false := not_atEnd_of_atStatement starts
      rw [left, notEnd] at done
      cases done
  · intro other
    simp only [boundary_iff_of_not_start other]
    exact stop_isLeast clear failed

end

/-- Reading resumes at the **first boundary behind the fault**. A failure is about the token at its
fault, and the trials behind it are those of the tokens from its stop on: the first position behind
a semicolon that is at the fault or later, in front of a token later than the fault that begins a
statement, or at the end. It is also the first boundary from the fault on, except where the token at
the fault itself begins a statement. So a declaration that lacks only its semicolon keeps such a
word and the whole of the declaration that it begins from being read. -/
theorem resumes_at_boundary (tokens : List Token) :
    (∀ (front back : List Trial) (t : Trial), trials 0 tokens = front ++ t :: back →
      ∀ d, t.attempt.result = .error d →
        d.token? = tokens[t.fault]? ∧ back = trials t.stop (tokens.drop t.stop) ∧
        IsLeast {q | Boundary tokens t.fault (t.fault + 1) q} t.stop ∧
        (IsLeast {q | Boundary tokens t.fault t.fault q} t.stop ↔
          ∀ u, tokens[t.fault]? = some u → u.kind.startsStatement = false)) ∧
    ∀ (us more rest : List Token) (semicolon word : Token) (s s' : Stmt),
      tokens = us ++ (word :: more ++ rest) → IsDeclaration (us ++ [semicolon]) s →
      word.kind.startsStatement = true → IsDeclaration (word :: more) s' →
        ∃ clause, attempts tokens =
          ⟨.error (.syntactic word (SyntaxFault.semicolon clause).message), word :: more⟩ ::
            attempts rest := by
  constructor
  · intro front back t cut d failed
    obtain ⟨before, rest, rfl, clear, rfl, behind⟩ := trials_behind cut
    rw [Nat.zero_add] at failed behind ⊢
    obtain ⟨whole, stop⟩ := append_trial before rest
    refine ⟨token?_of_error failed, ?_, stop_isLeast clear failed, stop_isLeast_iff clear failed⟩
    rw [behind, stop, whole, List.drop_left]
  · rintro us more rest semicolon word s s' rfl declared starts next
    exact attempts_of_missing declared starts next rest

/-- In `a + + var b;` the second operator is the fault, and reading resumes at the word behind it.
In `print a print b;` the second word is the fault, and the statement that it begins is skipped. -/
theorem resumes_at_boundary_word :
    let tokens : List Token := [⟨.identifier, "a", 1⟩, ⟨.mark .plus, "+", 1⟩, ⟨.mark .plus, "+", 1⟩,
      ⟨.keyword .varDecl, "var", 1⟩, ⟨.identifier, "b", 1⟩, ⟨.mark .semicolon, ";", 1⟩]
    let first : List Token := [⟨.keyword .print, "print", 1⟩, ⟨.identifier, "a", 1⟩]
    let second : List Token := [⟨.identifier, "b", 1⟩, ⟨.mark .semicolon, ";", 1⟩]
    ((trial 0 tokens).fault = 2 ∧ (trial 0 tokens).stop = 3 ∧
      IsLeast {q | Boundary tokens 2 2 q} 3) ∧
    ∃ clause, attempts (first ++ (⟨.keyword .print, "print", 1⟩ :: second ++ [])) =
      [⟨.error (.syntactic ⟨.keyword .print, "print", 1⟩ (SyntaxFault.semicolon clause).message),
        ⟨.keyword .print, "print", 1⟩ :: second⟩] := by
  intro tokens first second
  have fault : (trial 0 tokens).fault = 2 := by decide +kernel
  have stop : (trial 0 tokens).stop = 3 := by decide +kernel
  have failed : (trial 0 tokens).failed = true := by decide +kernel
  obtain ⟨d, error⟩ := Trial.failed_iff.mp failed
  have cut : trials 0 tokens = [] ++ trial 0 tokens :: trials 3 (attempt tokens).2 := by
    rw [trials, if_neg (by decide), stop]
    rfl
  obtain ⟨-, -, -, resumes⟩ := (resumes_at_boundary tokens).1 _ _ _ cut d error
  rw [fault, stop] at resumes
  have declared (name : Token) (named : name.kind = .identifier) : IsDeclaration
      [⟨.keyword .print, "print", 1⟩, name, ⟨.mark .semicolon, ";", 1⟩] (.print (.name name)) := by
    have value : Derives .equality [name] (.name name) := (Derives.name named).loosen (by decide)
    exact .statement (.print rfl value rfl)
  obtain ⟨clause, skips⟩ := (resumes_at_boundary _).2 first second [] _ _ _ _ rfl
    (declared ⟨.identifier, "a", 1⟩ rfl) rfl (declared ⟨.identifier, "b", 1⟩ rfl)
  have nothing : attempts [] = [] := by
    rw [attempts, program_of_atEnd rfl]
  rw [nothing] at skips
  exact ⟨⟨fault, stop, resumes.mpr (by decide)⟩, clause, skips⟩

/-- The second word of `print a print b;` is not where reading resumes, although it begins a
statement and tokens have been taken in front of it. The statement that it begins is lost. -/
theorem not_resumes_at_fault :
    let tokens : List Token := [⟨.keyword .print, "print", 1⟩, ⟨.identifier, "a", 1⟩,
      ⟨.keyword .print, "print", 1⟩, ⟨.identifier, "b", 1⟩, ⟨.mark .semicolon, ";", 1⟩,
      ⟨.endOfFile, "", 1⟩]
    let t := trial 0 tokens
    t.failed = true ∧ t.taken ≠ [] ∧ t.fault = 2 ∧ t.stop = 5 ∧
      ¬ IsLeast {q | Boundary tokens t.fault t.fault q} t.stop ∧ (attempts tokens).length = 1 := by
  intro tokens t
  have fault : t.fault = 2 := by decide +kernel
  have stop : t.stop = 5 := by decide +kernel
  refine ⟨by decide +kernel, by decide +kernel, fault, stop, ?_, by decide +kernel⟩
  rw [fault, stop]
  rintro ⟨-, least⟩
  have early : 5 ≤ 2 := least (Boundary.statement (Nat.le_refl 2) rfl rfl)
  exact absurd early (by decide)

end LoxLang.Grammar
