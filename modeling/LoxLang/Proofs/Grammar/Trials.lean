import LoxLang.Proofs.Grammar.Viable

/-!
# Every token is accounted for

A program is read declaration by declaration, and one that fails costs the tokens that are skipped
after it. A **trial** is one declaration tried, in its place: the position it starts at, the tokens
that it takes, and the attempt made of it. Its **slice** is what it costs: the tokens taken and the
tokens skipped.

What a trial can be is said once (`trial_cases`): a declaration that is read and takes just its
tokens, or the beginning of one and what recovery skips behind it. Every law about whole programs
follows from this by induction over the trials: the slices cut up the tokens in front of the end of
the source, and the positions of the faults increase strictly (`trials_account`).

Nothing is assumed of the tokens: the end of the source may be missing or stand in the middle.
-/

namespace LoxLang.Grammar

/-! ## Semicolons in a declaration -/

/-- A declaration ends in its only semicolon. -/
theorem IsDeclaration.exists_semicolon {ts : List Token} {s : Stmt}
    (declared : IsDeclaration ts s) :
    ∃ front semicolon, ts = front ++ [semicolon] ∧ semicolon.kind = .mark .semicolon ∧
      ∀ t ∈ front, t.kind ≠ .mark .semicolon := by
  have other {t : Token} {kind : TokenKind} (same : t.kind = kind)
      (differs : kind ≠ .mark .semicolon) : t.kind ≠ .mark .semicolon := same ▸ differs
  have inside {ts : List Token} {e : Expr} (value : Derives .equality ts e) :
      ∀ t ∈ ts, t.kind ≠ .mark .semicolon := fun t mem => (value.inner t mem).notSemicolon
  cases declared with
  | @initialised word name equal semicolon ts e kind named assigns initial closes =>
    refine ⟨word :: name :: equal :: ts, semicolon, rfl, closes, ?_⟩
    simp only [List.forall_mem_cons]
    exact ⟨other kind (by simp), other named (by simp), other assigns (by simp), inside initial⟩
  | @bare word name semicolon kind named closes =>
    refine ⟨[word, name], semicolon, rfl, closes, ?_⟩
    simp only [List.forall_mem_cons]
    exact ⟨other kind (by simp), other named (by simp), by simp⟩
  | statement stated =>
    cases stated with
    | @print word semicolon ts e kind value closes =>
      refine ⟨word :: ts, semicolon, rfl, closes, ?_⟩
      simp only [List.forall_mem_cons]
      exact ⟨other kind (by simp), inside value⟩
    | @expression semicolon ts e value closes => exact ⟨ts, semicolon, rfl, closes, inside value⟩

/-- What only begins a declaration has neither its semicolon nor the end of the source. -/
theorem Begins.inner {us : List Token} (begins : Begins us) :
    ∀ t ∈ us, t.kind ≠ .mark .semicolon ∧ t.isEnd = false := by
  obtain ⟨more, s, nonempty, declared⟩ := begins
  obtain ⟨front, semicolon, whole, -, before⟩ := declared.exists_semicolon
  have shorter : us <+: front := by
    rw [← List.dropLast_append_getLast nonempty, ← List.append_assoc] at whole
    obtain ⟨same, -⟩ := List.append_inj' whole rfl
    exact ⟨_, same⟩
  intro t mem
  exact ⟨before t (shorter.subset mem), declared.not_isEnd t (List.mem_append_left more mem)⟩

/-! ## Recovery -/

/-- Tokens of which the last is a semicolon. -/
def EndsInSemicolon (ts : List Token) : Prop :=
  ∃ front semicolon, ts = front ++ [semicolon] ∧ semicolon.kind = .mark .semicolon

/-- What recovery skips: nothing at the end, and otherwise up to a semicolon, to a token that begins
a statement or to the end. -/
structure Skips (tokens skipped others : List Token) : Prop where
  spelled : skipped ++ others = tokens
  eq_nil_iff : skipped = [] ↔ atEnd tokens = true
  inner : ∀ t ∈ skipped.dropLast, t.kind ≠ .mark .semicolon
  notEnd : ∀ t ∈ skipped, t.isEnd = false
  stops : EndsInSemicolon skipped ∨ atStatement others = true ∨ atEnd others = true

theorem recover_skips (tokens : List Token) :
    Skips tokens (recover tokens).1 (recover tokens).2 := by
  fun_induction recover tokens with
  | case1 => exact ⟨rfl, by simp [atEnd], by simp, by simp, .inr (.inr rfl)⟩
  | case2 t rest ends =>
    exact ⟨rfl, by simp [atEnd, ends], by simp, by simp, .inr (.inr ends)⟩
  | case3 t rest more stops =>
    refine ⟨rfl, by simpa [atEnd] using more, by simp, by simpa using more, ?_⟩
    rcases Bool.or_eq_true_iff.mp stops with closes | starts
    · exact .inl ⟨[], t, rfl, of_decide_eq_true closes⟩
    · exact .inr (.inl starts)
  | case4 t rest more goesOn skipped others found ih =>
    rw [found] at ih
    have notSemicolon : t.kind ≠ .mark .semicolon := by
      intro closes
      simp [closes] at goesOn
    refine ⟨congrArg (t :: ·) ih.spelled, by simpa [atEnd] using more, ?_, ?_, ?_⟩
    · intro u mem
      cases skipped with
      | nil => cases mem
      | cons v skipped =>
        rcases List.mem_cons.mp mem with rfl | later
        · exact notSemicolon
        · exact ih.inner u later
    · exact List.forall_mem_cons.mpr ⟨by simpa using more, ih.notEnd⟩
    · rcases ih.stops with ⟨front, semicolon, rfl, closes⟩ | others
      · exact .inl ⟨t :: front, semicolon, rfl, closes⟩
      · exact .inr others

/-! ## Trials -/

/-- The tokens that a declaration takes from the front, whether it is read or fails. -/
def taken (tokens : List Token) : List Token :=
  tokens.take (tokens.length - (declaration tokens).rest.length)

theorem taken_eq {us rest : List Token} {result : Except SyntaxFault Stmt}
    (tried : declaration (us ++ rest) = ⟨result, rest⟩) : taken (us ++ rest) = us := by
  simp [taken, tried]

/-- One declaration tried, in its place: the position at which it starts, the tokens that it takes,
and what is made of it. -/
structure Trial where
  start : Nat
  taken : List Token
  attempt : Attempt

namespace Trial

/-- The tokens that a trial costs: those taken, and those skipped after a failure. -/
def slice (t : Trial) : List Token := t.taken ++ t.attempt.skipped

/-- The position of the first token that the declaration does not take. A failure is about it. -/
def fault (t : Trial) : Nat := t.start + t.taken.length

/-- The position at which reading goes on. -/
def stop (t : Trial) : Nat := t.start + t.slice.length

/-- Whether the declaration failed. -/
def failed (t : Trial) : Bool := !t.attempt.result.isOk

theorem failed_iff {t : Trial} : t.failed = true ↔ ∃ d, t.attempt.result = .error d := by
  unfold failed
  cases t.attempt.result with
  | ok s => simp [Except.isOk, Except.toBool]
  | error d => simp [Except.isOk, Except.toBool]

end Trial

/-- The first declaration tried on tokens that begin at a position. -/
def trial (start : Nat) (tokens : List Token) : Trial :=
  ⟨start, taken tokens, (attempt tokens).1⟩

/-- The declarations tried on tokens that begin at a position, up to their end. -/
def trials (start : Nat) (tokens : List Token) : List Trial :=
  if atEnd tokens then []
  else trial start tokens :: trials (trial start tokens).stop (attempt tokens).2
termination_by tokens.length
decreasing_by exact length_attempt_lt (Bool.eq_false_iff.2 ‹_›)

/-- The trials are the attempts in their places. -/
theorem map_attempt_trials (start : Nat) (tokens : List Token) :
    (trials start tokens).map Trial.attempt = attempts tokens := by
  unfold attempts
  fun_induction trials start tokens with
  | case1 start tokens done => rw [program_of_atEnd done, List.map_nil]
  | case2 start tokens more ih =>
    rw [program_of_not_atEnd (Bool.eq_false_iff.mpr more), List.map_cons, ih]
    rfl

/-- What a trial can be: a declaration and nothing else, or the beginning of one and what recovery
skips behind it. -/
theorem trial_cases (start : Nat) (tokens : List Token) :
    (∃ ts s, tokens = ts ++ (attempt tokens).2 ∧ IsDeclaration ts s ∧
      trial start tokens = ⟨start, ts, ⟨.ok s, []⟩⟩) ∨
    ∃ us rest fault skipped, tokens = us ++ rest ∧ Begins us ∧
      Skips rest skipped (attempt tokens).2 ∧ declaration tokens = ⟨.error fault, rest⟩ ∧
      trial start tokens = ⟨start, us, ⟨.error (diagnose fault rest), skipped⟩⟩ := by
  cases tried : declaration tokens with
  | mk result rest =>
    cases result with
    | ok s =>
      obtain ⟨ts, rfl, declared⟩ := declaration_eq_ok_iff.mp tried
      refine .inl ⟨ts, s, ?_, declared, ?_⟩
      · rw [attempt, tried]
      · rw [trial, taken_eq tried, attempt, tried]
    | error fault =>
      obtain ⟨us, rfl, begins⟩ := begins_of_error tried
      refine .inr ⟨us, rest, fault, (recover rest).1, rfl, begins, ?_, rfl, ?_⟩
      · rw [attempt, tried]
        exact recover_skips rest
      · rw [trial, taken_eq tried, attempt, tried]

/-- A trial costs the tokens in front of which reading goes on. -/
theorem slice_trial_append (start : Nat) (tokens : List Token) :
    (trial start tokens).slice ++ (attempt tokens).2 = tokens := by
  rcases trial_cases start tokens with ⟨ts, s, spelled, -, same⟩ |
    ⟨us, rest, fault, skipped, spelled, -, skips, -, same⟩
  · rw [same, Trial.slice, List.append_nil]
    exact spelled.symm
  · rw [same, Trial.slice, List.append_assoc, skips.spelled]
    exact spelled.symm

/-- A trial never costs the end of the source. -/
theorem not_isEnd_of_mem_slice {start : Nat} {tokens : List Token} :
    ∀ t ∈ (trial start tokens).slice, t.isEnd = false := by
  intro t mem
  rcases trial_cases start tokens with ⟨ts, s, -, declared, same⟩ |
    ⟨us, rest, fault, skipped, -, begins, skips, -, same⟩
  · rw [same, Trial.slice, List.append_nil] at mem
    exact declared.not_isEnd t mem
  · rw [same] at mem
    rcases List.mem_append.mp mem with taken | later
    · exact (begins.inner t taken).2
    · exact skips.notEnd t later

/-- Every trial stands at its position, in front of a token that does not end the source and behind
none that does. -/
theorem exists_of_mem_trials {start : Nat} {tokens : List Token} {t : Trial}
    (mem : t ∈ trials start tokens) :
    ∃ before rest, tokens = before ++ rest ∧ (∀ u ∈ before, u.isEnd = false) ∧
      atEnd rest = false ∧ t = trial (start + before.length) rest := by
  fun_induction trials start tokens with
  | case1 => cases mem
  | case2 start tokens more ih =>
    rcases List.mem_cons.mp mem with rfl | later
    · exact ⟨[], tokens, rfl, by simp, Bool.eq_false_iff.mpr more, rfl⟩
    · obtain ⟨before, rest, spelled, clear, more', same⟩ := ih later
      refine ⟨(trial start tokens).slice ++ before, rest, ?_, ?_, more', ?_⟩
      · rw [List.append_assoc, ← spelled, slice_trial_append]
      · intro u mem
        rcases List.mem_append.mp mem with first | behind
        · exact not_isEnd_of_mem_slice u first
        · exact clear u behind
      · rw [same, Trial.stop, List.length_append, ← Nat.add_assoc]
        rfl

/-- A trial is what is attempted of the tokens from its start. -/
theorem attempt_of_mem_trials {tokens : List Token} {t : Trial} (mem : t ∈ trials 0 tokens) :
    t.attempt = (attempt (tokens.drop t.start)).1 := by
  obtain ⟨before, rest, rfl, -, -, rfl⟩ := exists_of_mem_trials mem
  show (attempt rest).1 = (attempt ((before ++ rest).drop (0 + before.length))).1
  rw [Nat.zero_add, List.drop_left]

/-! ## The account of one trial -/

/-- The first end of the source stands where the tokens before it are over. -/
theorem findIdx_isEnd {before rest : List Token} (clear : ∀ t ∈ before, t.isEnd = false)
    (done : atEnd rest = true) : (before ++ rest).findIdx Token.isEnd = before.length := by
  have none : before.findIdx Token.isEnd = before.length := List.findIdx_eq_length.mpr clear
  have first : rest.findIdx Token.isEnd = 0 := by
    cases rest with
    | nil => rfl
    | cons t rest => simp [List.findIdx_cons, show t.isEnd = true from done]
  rw [List.findIdx_append, none, if_neg (Nat.lt_irrefl _), first, Nat.zero_add]

theorem diagnose_token? (fault : SyntaxFault) (tokens : List Token) :
    (diagnose fault tokens).token? = tokens.head? := by
  cases tokens <;> rfl

theorem slice_trial_ne_nil {start : Nat} {tokens : List Token} (more : atEnd tokens = false) :
    (trial start tokens).slice ≠ [] := by
  intro none
  have whole := slice_trial_append start tokens
  rw [none, List.nil_append] at whole
  have shorter := length_attempt_lt more
  rw [whole] at shorter
  exact Nat.lt_irrefl _ shorter

/-- A semicolon stands at most at the end of a slice. -/
theorem ne_semicolon_of_mem_dropLast (start : Nat) (tokens : List Token) :
    ∀ u ∈ (trial start tokens).slice.dropLast, u.kind ≠ .mark .semicolon := by
  intro u mem
  rcases trial_cases start tokens with ⟨ts, s, -, declared, same⟩ |
    ⟨us, rest, fault, skipped, -, begins, skips, -, same⟩
  · obtain ⟨front, semicolon, rfl, -, inner⟩ := declared.exists_semicolon
    rw [same, Trial.slice, List.append_nil, List.dropLast_concat] at mem
    exact inner u mem
  · rw [same, Trial.slice] at mem
    cases skipped with
    | nil =>
      rw [List.append_nil] at mem
      exact (begins.inner u (List.dropLast_subset us mem)).1
    | cons v skipped =>
      rw [List.dropLast_append_of_ne_nil (by simp)] at mem
      rcases List.mem_append.mp mem with taken | later
      · exact (begins.inner u taken).1
      · exact skips.inner u later

theorem endsInSemicolon_of_ok {start : Nat} {tokens : List Token} {s : Stmt}
    (read : (trial start tokens).attempt.result = .ok s) :
    EndsInSemicolon (trial start tokens).slice := by
  rcases trial_cases start tokens with ⟨ts, s', -, declared, same⟩ |
    ⟨us, rest, fault, skipped, -, -, -, -, same⟩
  · obtain ⟨front, semicolon, rfl, closes, -⟩ := declared.exists_semicolon
    rw [same, Trial.slice, List.append_nil]
    exact ⟨front, semicolon, rfl, closes⟩
  · rw [same] at read
    cases read

/-- What a failed trial is. -/
theorem trial_of_error {start : Nat} {tokens : List Token} {d : Diagnostic}
    (failed : (trial start tokens).attempt.result = .error d) :
    ∃ us rest fault skipped, tokens = us ++ rest ∧ Begins us ∧
      Skips rest skipped (attempt tokens).2 ∧ declaration tokens = ⟨.error fault, rest⟩ ∧
      d = diagnose fault rest ∧ trial start tokens = ⟨start, us, ⟨.error d, skipped⟩⟩ := by
  rcases trial_cases start tokens with ⟨ts, s, -, -, same⟩ |
    ⟨us, rest, fault, skipped, spelled, begins, skips, tried, same⟩
  · rw [same] at failed
    cases failed
  · rw [same] at failed
    cases failed
    exact ⟨us, rest, fault, skipped, spelled, begins, skips, tried, rfl, same⟩

/-- A failure is about the token at its fault. -/
theorem token?_of_error {before tokens : List Token} {d : Diagnostic}
    (failed : (trial before.length tokens).attempt.result = .error d) :
    d.token? = (before ++ tokens)[(trial before.length tokens).fault]? := by
  obtain ⟨us, rest, fault, skipped, rfl, -, -, -, rfl, same⟩ := trial_of_error failed
  rw [same, Trial.fault, diagnose_token?, ← List.length_append, ← List.append_assoc,
    List.getElem?_append_right (Nat.le_refl _), Nat.sub_self, List.head?_eq_getElem?]

/-- A failure is about the token at the fault of its trial. -/
theorem token?_of_mem_trials {tokens : List Token} {t : Trial} {d : Diagnostic}
    (mem : t ∈ trials 0 tokens) (failed : t.attempt.result = .error d) :
    d.token? = tokens[t.fault]? := by
  obtain ⟨before, rest, rfl, -, -, rfl⟩ := exists_of_mem_trials mem
  rw [Nat.zero_add] at failed ⊢
  exact token?_of_error failed

/-- Where a declaration fails in tokens that have an end. -/
theorem exists_token_of_error {tokens : List Token} {close : Token} (closes : close.isEnd = true)
    {t : Trial} {d : Diagnostic} (mem : t ∈ trials 0 (tokens ++ [close]))
    (failed : t.attempt.result = .error d) :
    ∃ before us u behind fault, tokens ++ [close] = before ++ (us ++ u :: behind) ∧
      t.start = before.length ∧ Begins us ∧
      declaration (us ++ u :: behind) = ⟨.error fault, u :: behind⟩ ∧
      d = .syntactic u fault.message := by
  obtain ⟨before, rest, whole, clear, -, rfl⟩ := exists_of_mem_trials mem
  obtain ⟨us, left, fault, skipped, rfl, begins, -, tried, rfl, -⟩ := trial_of_error failed
  cases left with
  | cons u behind =>
    exact ⟨before, us, u, behind, fault, whole, Nat.zero_add _, begins, tried, rfl⟩
  | nil =>
    -- The closing token is not taken, so it is left.
    have taken : close ∈ before ++ us := by
      rw [List.append_nil] at whole
      rw [← whole]
      exact List.mem_append_right tokens (List.mem_singleton_self close)
    have inside : close.isEnd = false := by
      rcases List.mem_append.mp taken with first | later
      · exact clear close first
      · exact (begins.inner close later).2
    rw [inside] at closes
    cases closes

/-- A fault is skipped, unless it is where the tokens are over. -/
theorem fault_cases {start : Nat} {tokens : List Token} {d : Diagnostic}
    (failed : (trial start tokens).attempt.result = .error d) :
    (trial start tokens).fault < (trial start tokens).stop ∨
      (trial start tokens).fault = (trial start tokens).stop ∧ atEnd (attempt tokens).2 = true := by
  obtain ⟨us, rest, fault, skipped, -, -, skips, -, -, same⟩ := trial_of_error failed
  rw [same]
  by_cases none : skipped = []
  · have others : (attempt tokens).2 = rest := by
      have spelled := skips.spelled
      rwa [none] at spelled
    refine .inr ⟨?_, ?_⟩
    · rw [Trial.fault, Trial.stop, Trial.slice, none, List.append_nil]
    · rw [others]
      exact skips.eq_nil_iff.mp none
  · have pos := List.length_pos_iff.mpr none
    refine .inl ?_
    simp only [Trial.fault, Trial.stop, Trial.slice, List.length_append]
    omega

/-! ## The account of one trial among all tokens -/

/-- Tokens are cut by a trial into those in front of it, its slice and those behind it. -/
theorem append_trial (before tokens : List Token) :
    before ++ tokens = before ++ (trial before.length tokens).slice ++ (attempt tokens).2 ∧
      (trial before.length tokens).stop =
        (before ++ (trial before.length tokens).slice).length := by
  rw [List.append_assoc, slice_trial_append, List.length_append]
  exact ⟨rfl, rfl⟩

theorem extract_append (before part behind : List Token) :
    (before ++ (part ++ behind)).extract before.length (before.length + part.length) = part := by
  simp [List.extract]

theorem extract_trial (before tokens : List Token) :
    (before ++ tokens).extract (trial before.length tokens).start
      (trial before.length tokens).stop = (trial before.length tokens).slice := by
  have cut := extract_append before (trial before.length tokens).slice (attempt tokens).2
  rwa [slice_trial_append] at cut

theorem getElem?_stop (before tokens : List Token) :
    (before ++ tokens)[(trial before.length tokens).stop]? = (attempt tokens).2.head? := by
  obtain ⟨cut, stop⟩ := append_trial before tokens
  rw [cut, stop, List.getElem?_append_right (Nat.le_refl _), Nat.sub_self,
    List.head?_eq_getElem?]

/-- A trial in front of the end of the source stops at it. -/
theorem stop_eq_findIdx {before tokens : List Token} (clear : ∀ t ∈ before, t.isEnd = false)
    (done : atEnd (attempt tokens).2 = true) :
    (trial before.length tokens).stop = (before ++ tokens).findIdx Token.isEnd := by
  obtain ⟨cut, stop⟩ := append_trial before tokens
  have clear' : ∀ t ∈ before ++ (trial before.length tokens).slice, t.isEnd = false := by
    intro t mem
    rcases List.mem_append.mp mem with first | behind
    · exact clear t first
    · exact not_isEnd_of_mem_slice t behind
  rw [cut, stop, findIdx_isEnd clear' done]

/-- What holds of one trial on tokens whose end is at a position. -/
structure Trial.Accounted (tokens : List Token) (n : Nat) (t : Trial) : Prop where
  /-- The slice is the tokens from the start of the trial to its stop. -/
  stands : tokens.extract t.start t.stop = t.slice
  nonempty : t.slice ≠ []
  /-- A semicolon stands at most at the end. -/
  inner : ∀ u ∈ t.slice.dropLast, u.kind ≠ .mark .semicolon
  /-- A declaration that is read ends in its semicolon. -/
  read : ∀ s, t.attempt.result = .ok s → EndsInSemicolon t.slice
  /-- After a failure reading goes on behind a semicolon, at the beginning of a statement or at the
  end. -/
  resumes : ∀ d, t.attempt.result = .error d → EndsInSemicolon t.slice ∨
    (∃ u, tokens[t.stop]? = some u ∧ u.kind.startsStatement = true) ∨ t.stop = n
  /-- A failure is about the token at its fault, which is in the slice or at the end. -/
  faults : ∀ d, t.attempt.result = .error d → d.token? = tokens[t.fault]? ∧
    (t.start ≤ t.fault ∧ t.fault < t.stop ∨ t.fault = n)

/-- One trial behind tokens that do not end the source. -/
theorem trial_accounted {before tokens : List Token} (clear : ∀ t ∈ before, t.isEnd = false)
    (more : atEnd tokens = false) :
    (trial before.length tokens).Accounted (before ++ tokens)
      ((before ++ tokens).findIdx Token.isEnd) where
  stands := extract_trial before tokens
  nonempty := slice_trial_ne_nil more
  inner := ne_semicolon_of_mem_dropLast before.length tokens
  read _ := endsInSemicolon_of_ok
  resumes d failed := by
    obtain ⟨us, rest, fault, skipped, -, -, skips, -, -, same⟩ := trial_of_error failed
    rcases skips.stops with ⟨front, semicolon, rfl, closes⟩ | starts | done
    · refine .inl ⟨us ++ front, semicolon, ?_, closes⟩
      rw [same, Trial.slice, List.append_assoc]
    · refine .inr (.inl ?_)
      rw [getElem?_stop]
      cases others : (attempt tokens).2 with
      | nil =>
        rw [others] at starts
        cases starts
      | cons u others' =>
        rw [others] at starts
        exact ⟨u, rfl, starts⟩
    · exact .inr (.inr (stop_eq_findIdx clear done))
  faults d failed := by
    refine ⟨token?_of_error failed, ?_⟩
    rcases fault_cases failed with inside | ⟨same, done⟩
    · exact .inl ⟨Nat.le_add_right _ _, inside⟩
    · exact .inr (same.trans (stop_eq_findIdx clear done))

/-! ## All trials -/

/-- Reading stops at the end of the source. -/
theorem atEnd_program (tokens : List Token) : atEnd (program tokens).2 = true := by
  fun_induction program tokens with
  | case1 tokens done => exact done
  | case2 tokens more first others ih => exact ih

/-- The slices of the trials are the tokens in front of which reading stops. -/
theorem flatMap_slice_trials (start : Nat) (tokens : List Token) :
    (trials start tokens).flatMap Trial.slice ++ (program tokens).2 = tokens := by
  fun_induction trials start tokens with
  | case1 start tokens done => rw [program_of_atEnd done, List.flatMap_nil, List.nil_append]
  | case2 start tokens more ih =>
    rw [program_of_not_atEnd (Bool.eq_false_iff.mpr more), List.flatMap_cons, List.append_assoc, ih,
      slice_trial_append]

theorem not_isEnd_of_mem_slices (start : Nat) (tokens : List Token) :
    ∀ u ∈ (trials start tokens).flatMap Trial.slice, u.isEnd = false := by
  intro u mem
  obtain ⟨t, tried, inside⟩ := List.mem_flatMap.mp mem
  obtain ⟨before, rest, -, -, -, rfl⟩ := exists_of_mem_trials tried
  exact not_isEnd_of_mem_slice u inside

/-- The slices reach just to the first end of the source, and reading stops there. -/
theorem slices_eq_take (start : Nat) (tokens : List Token) :
    (trials start tokens).flatMap Trial.slice = tokens.take (tokens.findIdx Token.isEnd) ∧
      (program tokens).2 = tokens.drop (tokens.findIdx Token.isEnd) := by
  have whole := flatMap_slice_trials start tokens
  have ends := findIdx_isEnd (not_isEnd_of_mem_slices start tokens) (atEnd_program tokens)
  rw [whole] at ends
  have front := congrArg (List.take (tokens.findIdx Token.isEnd)) whole
  have back := congrArg (List.drop (tokens.findIdx Token.isEnd)) whole
  rw [ends, List.take_left] at front
  rw [ends, List.drop_left] at back
  rw [ends]
  exact ⟨front, back⟩

/-- Every trial starts where the slices in front of it are over. -/
theorem start_of_mem_trials {start : Nat} {tokens : List Token} {front back : List Trial}
    {t : Trial} (cut : trials start tokens = front ++ t :: back) :
    t.start = start + (front.flatMap Trial.slice).length := by
  induction front generalizing start tokens with
  | nil =>
    rw [trials] at cut
    split at cut
    · cases cut
    · cases cut
      rfl
  | cons u front ih =>
    rw [trials] at cut
    split at cut
    · cases cut
    · obtain ⟨rfl, later⟩ := List.cons.inj cut
      rw [ih later, Trial.stop, List.flatMap_cons, List.length_append, ← Nat.add_assoc]
      rfl

/-- The faults of the failed trials increase. -/
theorem pairwise_fault_trials (start : Nat) (tokens : List Token) :
    (((trials start tokens).filter Trial.failed).map Trial.fault).Pairwise (· < ·) := by
  fun_induction trials start tokens with
  | case1 => exact .nil
  | case2 start tokens more ih =>
    by_cases failed : (trial start tokens).failed = true
    · rw [List.filter_cons_of_pos failed, List.map_cons, List.pairwise_cons]
      refine ⟨?_, ih⟩
      intro position mem
      obtain ⟨t, filtered, rfl⟩ := List.mem_map.mp mem
      have tried := List.mem_of_mem_filter filtered
      obtain ⟨d, error⟩ := Trial.failed_iff.mp failed
      rcases fault_cases error with inside | ⟨-, done⟩
      · obtain ⟨before, rest, -, -, -, rfl⟩ := exists_of_mem_trials tried
        have later : (trial start tokens).stop ≤
            (trial ((trial start tokens).stop + before.length) rest).fault := by
          rw [Trial.fault]
          exact Nat.le_add_right_of_le (Nat.le_add_right _ _)
        omega
      · rw [trials, if_pos done] at tried
        cases tried
    · rw [List.filter_cons_of_neg failed]
      exact ih

/-- Reading **accounts for every token** in front of the end of the source, wherever that is. The
attempts stand for consecutive slices which cut up these tokens, and the end itself is never taken;
each slice is accounted for, and the faults increase strictly, so that at most one of them is at the
end. -/
theorem trials_account (tokens : List Token) :
    let n := tokens.findIdx Token.isEnd
    let cut := trials 0 tokens
    cut.map Trial.attempt = attempts tokens ∧
      cut.flatMap Trial.slice = tokens.take n ∧ (program tokens).2 = tokens.drop n ∧
      (∀ front t back, cut = front ++ t :: back →
        t.start = (front.flatMap Trial.slice).length) ∧
      (∀ t ∈ cut, t.Accounted tokens n) ∧
      ((cut.filter Trial.failed).map Trial.fault).Pairwise (· < ·) ∧
      ((cut.filter Trial.failed).map Trial.fault).count n ≤ 1 := by
  intro n cut
  have increase := pairwise_fault_trials 0 tokens
  obtain ⟨front, back⟩ := slices_eq_take 0 tokens
  refine ⟨map_attempt_trials 0 tokens, front, back, ?_, ?_, increase, ?_⟩
  · intro front t back same
    rw [start_of_mem_trials same, Nat.zero_add]
  · intro t mem
    obtain ⟨before, rest, rfl, clear, more, rfl⟩ := exists_of_mem_trials mem
    rw [Nat.zero_add]
    exact trial_accounted clear more
  · exact List.nodup_iff_count.mp (increase.imp Nat.ne_of_lt) n

/-- Both declarations of `print ; a` fail, the first at its semicolon and the second at the end of
the source. What stands behind the end is not tried. -/
theorem trials_account_middle :
    let tokens : List Token := [⟨.keyword .print, "print", 1⟩, ⟨.mark .semicolon, ";", 1⟩,
      ⟨.identifier, "a", 1⟩, ⟨.endOfFile, "", 1⟩, ⟨.identifier, "b", 1⟩]
    (trials 0 tokens).map (fun t => (t.start, t.fault, t.stop)) = [(0, 1, 2), (2, 3, 3)] ∧
      (program tokens).2 = [⟨.endOfFile, "", 1⟩, ⟨.identifier, "b", 1⟩] ∧
      ∀ t ∈ trials 0 tokens, t.Accounted tokens 3 := by
  intro tokens
  have ends : tokens.findIdx Token.isEnd = 3 := by decide
  have account := trials_account tokens
  rw [ends] at account
  obtain ⟨-, -, left, -, accounted, -⟩ := account
  exact ⟨by decide +kernel, left, accounted⟩

end LoxLang.Grammar
