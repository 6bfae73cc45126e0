import LoxLang.Proofs.Session.History
import LoxLang.Proofs.Source.Segmentation

/-!
# Nothing breaks

Two things could go wrong that are no errors of a program: a tree whose operator is none, and a
string whose lexeme is cut where it cannot be. Neither happens (`never_broken`).

The first is a matter of trees alone. What is read from tokens is operable, whatever the tokens, so
no statement of it is broken; a run executes nothing else, and a sequence of calls is one run after
another. The room in the sinks is of no account here: where one is full, the step fails otherwise.

The second is a matter of lexemes. A string has a quote of one byte at each end, and between them
stands what it denotes.
-/

namespace LoxLang

/-! ## Statements -/

theorem Stmt.Operable.execute_ne_broken {s : Stmt} (operable : s.Operable) (b : Bindings)
    (tree : BrokenTree) : s.execute b ≠ .error (.broken tree) := by
  rw [Stmt.execute_eq]
  cases computes : s.value b with
  | ok v => simp [Except.map]
  | error failure =>
    intro same
    cases same
    exact operable.value_ne_broken b computes

/-- A tree that was not read can be broken. -/
example : Stmt.execute .empty (.expression (.unary ⟨.mark .plus, "+", 1⟩ (.literal .nil))) =
    .error (.broken .notUnary) :=
  rfl

/-- A statement that was read is operable, whatever was read beside it. -/
theorem Grammar.operable_of_mem_attempts {tokens : List Token} {a : Attempt}
    (mem : a ∈ attempts tokens) {s : Stmt} (read : a.result = .ok s) : s.Operable := by
  refine operable_of_mem_statements tokens s (List.mem_filterMap.mpr ⟨a, mem, ?_⟩)
  rw [read]
  rfl

/-! ## Runs and calls -/

/-- A run ends with a status. -/
theorem run_ending_ne_error (b : Bindings) (source : String) (tree : BrokenTree) :
    (run b source).ending ≠ .error tree := by
  by_cases formed : WellFormed source
  · rcases run_cases_of_wellFormed formed b with ⟨ended, -⟩ | ⟨ended, -⟩ <;> simp [ended]
  · rw [run_of_not_wellFormed formed]
    simp

/-- A step that is not refused by a sink ends as its run does. -/
theorem Session.step_result {ω : Type} {s : Session} {room : Option Nat} {r : Run ω} {ending : ω}
    (ended : (s.step room r).1.result = .ok ending) : r.ending = ending := by
  simp only [Session.step] at ended
  split at ended
  · exact Except.ok.inj ended
  · cases ended

theorem Session.run_ne_broken (s : Session) (source : String) (tree : BrokenTree) :
    (s.run source).1.result ≠ .ok (.error tree) := fun ended =>
  run_ending_ne_error s.bindings source tree (Session.step_result ended)

/-- One call. -/
theorem Session.call_ne_broken (s : Session) (c : Call) (tree : BrokenTree) :
    (s.call c).1.result ≠ .ok (.error tree) := by
  cases c with
  | run source => exact s.run_ne_broken source tree
  | outline source =>
    simp only [Session.call]
    cases (s.outline none source).1.result <;> simp [Except.map]
  | runFile file =>
    simp only [Session.call, Session.runFile]
    split
    · exact s.run_ne_broken _ tree
    · simp

/-- All calls, from any state of a session. -/
theorem Session.calls_ne_broken (s : Session) (calls : List Call) (tree : BrokenTree) :
    ∀ step ∈ (s.calls calls).1, step.result ≠ .ok (.error tree) := by
  induction calls generalizing s with
  | nil =>
    intro step mem
    cases mem
  | cons c rest ih =>
    intro step mem
    rcases List.mem_cons.mp mem with rfl | later
    · exact s.call_ne_broken c tree
    · exact ih _ step later

/-! ## Strings -/

/-- A range of the bytes of a text that can be cut out of it, and the text that it holds: its ends
are in order, and both are between characters. -/
structure Slices (text : String) (first last : Nat) (part : String) : Prop where
  ordered : first ≤ last
  first_isValid : String.Pos.Raw.IsValid text ⟨first⟩
  last_isValid : String.Pos.Raw.IsValid text ⟨last⟩
  bytes : text.toByteArray.extract first last = part.toByteArray

theorem slices_append (front part back : String) :
    Slices (front ++ part ++ back) front.utf8ByteSize (front ++ part).utf8ByteSize part where
  ordered := by
    rw [String.utf8ByteSize_append]
    exact Nat.le_add_right _ _
  first_isValid := by
    rw [String.append_assoc]
    exact String.Pos.Raw.isValid_iff_exists_append.mpr ⟨front, part ++ back, rfl, rfl⟩
  last_isValid := String.Pos.Raw.isValid_iff_exists_append.mpr ⟨front ++ part, back, rfl, rfl⟩
  bytes := by
    rw [String.toByteArray_append, ← String.size_toByteArray, ← String.size_toByteArray,
      ByteArray.extract_append_size_left, String.toByteArray_append]
    exact ByteArray.extract_append_eq_right rfl ByteArray.size_append

/-- What a string denotes can be cut out of its lexeme between the quotes. -/
theorem slices_string {t : Token} {contents : String}
    (is : Source.IsLexeme (.string contents) t.lexeme.toList) :
    Slices t.lexeme 1 (t.lexeme.utf8ByteSize - 1) contents := by
  have spelled : t.lexeme = "\"" ++ contents ++ "\"" := by
    apply String.toList_inj.mp
    simpa using is.eq_of_string
  have size : ("\"" ++ contents ++ "\"").utf8ByteSize - 1 = ("\"" ++ contents).utf8ByteSize := by
    rw [String.utf8ByteSize_append]
    rfl
  rw [spelled, size]
  exact slices_append "\"" contents "\""

/-- **Nothing breaks.** No statement read from tokens, whatever these are, is broken under any
bindings; so no call of a session ends in a broken tree, whatever was called before and whatever
room its sinks have. And what a string of a source denotes can be cut out of its lexeme. -/
theorem never_broken :
    (∀ (tokens : List Token), ∀ a ∈ Grammar.attempts tokens, ∀ s, a.result = .ok s →
      ∀ b tree, s.execute b ≠ .error (.broken tree)) ∧
    (∀ (s : Session) (calls : List Call), ∀ step ∈ (s.calls calls).1,
      ∀ tree, step.result ≠ .ok (.error tree)) ∧
    ∀ (source : String), ∀ t ∈ Source.tokens (Source.scan source),
      ∀ contents, t.kind = .string contents →
        Slices t.lexeme 1 (t.lexeme.utf8ByteSize - 1) contents := by
  refine ⟨?_, ?_, ?_⟩
  · intro tokens a mem s read b tree
    exact (Grammar.operable_of_mem_attempts mem read).execute_ne_broken b tree
  · intro s calls step mem tree
    exact s.calls_ne_broken calls tree step mem
  · intro source t mem contents kind
    rw [Source.tokens_scan] at mem
    rcases List.mem_append.mp mem with inside | last
    · have cut : Source.Segments (Source.split source.toList) source.toList :=
        Source.split_eq_iff.mp rfl
      have is := cut.isLexeme_of_mem t inside
      rw [kind] at is
      exact slices_string is
    · cases List.mem_singleton.mp last
      cases kind

/-- A string whose bytes are more than its characters, and operators on operands that have no value:
the first call ends with its fault, and the second has no room to report its own. -/
theorem never_broken_accented :
    Slices "\"é\"" 1 3 "é" ∧
      ∀ step ∈ ((Session.start none (some 60)).calls [.run "-\"é\";", .run "!(a + 1);"]).1,
        ∀ tree, step.result ≠ .ok (.error tree) := by
  refine ⟨?_, never_broken.2.1 _ _⟩
  have mem : (⟨.string "é", "\"é\"", 1⟩ : Token) ∈ Source.tokens (Source.scan "-\"é\";") := by
    decide +kernel
  exact never_broken.2.2 _ _ mem _ rfl

end LoxLang
