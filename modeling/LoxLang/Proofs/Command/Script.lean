import LoxLang.Proofs.Command.Streams
import LoxLang.Proofs.Command.Text
import LoxLang.Proofs.Session.Outlines
import LoxLang.Proofs.Session.Safety

/-!
# Scripts and their exit codes

The file of a script is no text, or the text of a malformed source, or of one that is run or
outlined. Both ways to process a source refuse the same ones, and of those that are left only a run
can fail (`exitCode_process`). So the exit code tells what the file is, in both modes
(`invoke_script`).

The verbosity has no part in this: it is read where lines of the log are chosen and nowhere else.
What remains of the error stream without these lines are the reports (`plain_scriptEntries`).
-/

namespace LoxLang

/-! ## Sources -/

/-- A source with an error in its text: a lexical error, or tokens that are not declarations up to
the end. -/
def Malformed (source : String) : Prop :=
  Source.HasFault source ∨ ¬ Grammar.IsProgram (Source.tokens (Source.scan source))

theorem malformed_iff {source : String} : Malformed source ↔ ¬ WellFormed source := by
  rw [wellFormed_iff, not_and_or, not_not]
  rfl

/-- A source whose statements meet a fault when they are executed from no variables on. -/
def Faults (source : String) : Prop :=
  ∃ ss done site cause, Grammar.Declares (Source.tokens (Source.scan source)) ss ∧
    Course .empty ss done (.error (.fault site cause))

/-- Tokens of a source are the declarations of its statements only. -/
theorem eq_statementsOf {source : String} {ss : List Stmt}
    (declares : Grammar.Declares (Source.tokens (Source.scan source)) ss) :
    statementsOf source = ss := by
  obtain ⟨slices, close, spelled, closes, all⟩ := declares
  have ends : Grammar.atEnd [close] = true := by simp [Grammar.atEnd, Token.isEnd, closes]
  have read := (Grammar.program_eq_ok_iff.mpr ⟨slices, spelled, all, ends⟩).1
  exact (results_eq_ok_iff.mp read).2

/-- A well-formed source meets a fault exactly if its run ends so. -/
theorem faults_iff {source : String} (formed : WellFormed source) :
    Faults source ↔ (run .empty source).ending = .ok .runtimeError := by
  have ended := (run_of_wellFormed formed .empty).2.2
  constructor
  · rintro ⟨ss, done, site, cause, declares, course⟩
    rw [ended, eq_statementsOf declares, course.execute]
    rfl
  · intro fails
    obtain ⟨done, ending, course⟩ := exists_course .empty (statementsOf source)
    rw [ended, course.execute] at fails
    obtain ⟨site, cause, rfl⟩ := exists_of_conclude_ending_eq_runtimeError fails
    exact ⟨_, done, site, cause, declares_statementsOf formed, course⟩

namespace Command

/-! ## Processing a source -/

/-- A malformed source is only analysed, in both modes. -/
theorem process_of_malformed {source : String} (malformed : Malformed source) (o : Options)
    (b : Bindings) : process o b source = ⟨(analyse source).events, .ok .staticError⟩ := by
  have notFormed := malformed_iff.mp malformed
  cases mode : o.outline with
  | true =>
    simp only [process, mode, if_true, outline, analyse_ending_of_not_wellFormed notFormed]
  | false =>
    simp [process, mode, run_of_not_wellFormed notFormed]

/-- How a source is processed does not depend on the verbosity. -/
theorem process_congr {o o' : Options} (same : o.outline = o'.outline) (b : Bindings)
    (source : String) : process o b source = process o' b source := by
  rw [process, process, same]

/-- The exit code of a processed source: it is malformed, or it is run and meets a fault, or it
succeeds. -/
theorem exitCode_process (o : Options) (source : String) :
    let code := runExitCode (process o .empty source).ending
    Malformed source ∧ code = 65 ∨
      (¬ Malformed source ∧ o.outline = false ∧ Faults source) ∧ code = 70 ∨
      ¬ Malformed source ∧ ¬ (o.outline = false ∧ Faults source) ∧ code = 0 := by
  intro code
  by_cases malformed : Malformed source
  · refine .inl ⟨malformed, ?_⟩
    simp only [code, process_of_malformed malformed]
    rfl
  have formed : WellFormed source := not_not.mp (mt malformed_iff.mpr malformed)
  -- An outline executes nothing, so only a run can fail from here on.
  cases mode : o.outline with
  | true =>
    refine .inr (.inr ⟨malformed, by simp, ?_⟩)
    simp only [code, process, mode, if_true, (outline_of_wellFormed formed).1]
    rfl
  | false =>
    have codeIs : code = runExitCode (run .empty source).ending := by
      simp [code, process, mode]
    rcases run_cases_of_wellFormed formed .empty with ⟨ended, -⟩ | ⟨ended, -⟩
    · refine .inr (.inr ⟨malformed, ?_, by rw [codeIs, ended]; rfl⟩)
      rintro ⟨-, faults⟩
      cases ended.symm.trans ((faults_iff formed).mp faults)
    · refine .inr (.inl ⟨⟨malformed, rfl, (faults_iff formed).mpr ended⟩, ?_⟩)
      rw [codeIs, ended]
      rfl

/-! ## Entries of a script -/

/-- The entries that a script makes on the error stream. -/
def scriptEntries (o : Options) (path : String) (file : Except IoError (List UInt8)) :
    List Entry :=
  match fileText file with
  | .ok source => entries o.verbosity (process o .empty source).events
  | .error error => [.log (unreadable path), .ofDiagnostic (.io error)]

/-- The error stream of a script is its entries, one behind the other. -/
theorem stderr_script (o : Options) (path : String) (file : Except IoError (List UInt8)) :
    (script o path file).streams.stderr =
      String.join ((scriptEntries o path file).map Entry.text) := by
  rw [script, scriptEntries]
  cases fileText file with
  | ok source => exact stderr_eq_join o.verbosity _
  | error error => simp [String.join_cons, Entry.text, Entry.ofDiagnostic, String.append_assoc]

/-- The diagnostics that a script reports. -/
def scriptReports (o : Options) (file : Except IoError (List UInt8)) : List Diagnostic :=
  match fileText file with
  | .ok source => reports (process o .empty source).events
  | .error error => [.io error]

/-- The entries of a script that are no lines of the log are its reports. -/
theorem plain_scriptEntries (o : Options) (path : String) (file : Except IoError (List UInt8)) :
    (scriptEntries o path file).filter Entry.isPlain =
      (scriptReports o file).map Entry.ofDiagnostic := by
  rw [scriptEntries, scriptReports]
  cases fileText file with
  | ok source => exact plain_entries o.verbosity _
  | error error => rfl

/-! ## Exit codes -/

/-- What a script does, by its file: one that is no text is reported, and any other is processed. -/
theorem script_cases (o : Options) (path : String) (file : Except IoError (List UInt8)) :
    (∀ source, file ≠ .ok (utf8 source)) ∧ (script o path file).exit = 74 ∧
        (script o path file).streams.stdout = "" ∨
      ∃ source, file = .ok (utf8 source) ∧
        script o path file = ⟨runExitCode (process o .empty source).ending,
          streams o.verbosity (process o .empty source).events⟩ := by
  cases text : fileText file with
  | ok source =>
    refine .inr ⟨source, fileText_eq_ok_iff.mp text, ?_⟩
    rw [script, text]
  | error error =>
    refine .inl ⟨?_, by rw [script, text], by rw [script, text]⟩
    rintro source rfl
    cases text.symm.trans (fileText_eq_ok_iff.mpr rfl)

/-- Exit codes of scripts **classify** their files. -/
structure Classifies (outlined : Bool) (file : Except IoError (List UInt8)) (exit : Nat) :
    Prop where
  unreadable : exit = 74 ↔ ¬ ∃ source, file = .ok (utf8 source)
  malformed : exit = 65 ↔ ∃ source, file = .ok (utf8 source) ∧ Malformed source
  fails : exit = 70 ↔ ∃ source, file = .ok (utf8 source) ∧ ¬ Malformed source ∧
    outlined = false ∧ Faults source
  otherwise : exit ≠ 74 → exit ≠ 65 → exit ≠ 70 → exit = 0

/-- The text of a file is only one. -/
theorem exists_text_iff {source : String} (p : String → Prop) :
    (∃ source', (.ok (utf8 source) : Except IoError (List UInt8)) = .ok (utf8 source') ∧
      p source') ↔ p source := by
  constructor
  · rintro ⟨source', same, holds⟩
    rwa [utf8_injective (Except.ok.inj same)]
  · exact fun holds => ⟨source, rfl, holds⟩

/-- A code classifies a text by its source. -/
theorem classifies_text {outlined : Bool} {source : String} {code : Nat} (readable : code ≠ 74)
    (malformed : code = 65 ↔ Malformed source)
    (fails : code = 70 ↔ ¬ Malformed source ∧ outlined = false ∧ Faults source)
    (otherwise : code ≠ 65 → code ≠ 70 → code = 0) :
    Classifies outlined (.ok (utf8 source)) code where
  unreadable := iff_of_false readable (not_not.mpr ⟨source, rfl⟩)
  malformed := malformed.trans (exists_text_iff Malformed).symm
  fails := fails.trans (exists_text_iff fun source =>
    ¬ Malformed source ∧ outlined = false ∧ Faults source).symm
  otherwise _ := otherwise

/-- The exit code of a script classifies its file, and a malformed one leaves the standard output
empty. -/
theorem script_classifies (o : Options) (path : String) (file : Except IoError (List UInt8)) :
    Classifies o.outline file (script o path file).exit ∧
      ((script o path file).exit = 65 → (script o path file).streams.stdout = "") := by
  rcases script_cases o path file with ⟨noText, exit, stdout⟩ | ⟨source, rfl, ran⟩
  · rw [exit]
    exact ⟨⟨by simp [noText], by simp [noText], by simp [noText], fun other => absurd rfl other⟩,
      fun _ => stdout⟩
  · rw [ran]
    rcases exitCode_process o source with ⟨malformed, code⟩ | ⟨faults, code⟩ | ⟨sound, none, code⟩
    · refine ⟨?_, fun _ => ?_⟩
      · simp only [code]
        exact classifies_text (by simp) (by simp [malformed]) (by simp [malformed]) (by simp)
      · simp only [process_of_malformed malformed]
        exact stdout_analyse o.verbosity source
    · simp only [code]
      exact ⟨classifies_text (by simp) (by simp [faults.1]) (by simp [faults]) (by simp),
        fun same => nomatch same⟩
    · simp only [code]
      exact ⟨classifies_text (by simp) (by simp [sound]) (by simp [sound, none]) (by simp),
        fun same => nomatch same⟩

/-- A script leaves the same exit code, standard output and reports at every verbosity. -/
theorem script_congr {o o' : Options} (same : o.outline = o'.outline) (path : String)
    (file : Except IoError (List UInt8)) :
    (script o path file).exit = (script o' path file).exit ∧
      (script o path file).streams.stdout = (script o' path file).streams.stdout ∧
      scriptReports o file = scriptReports o' file := by
  rw [script, script, scriptReports, scriptReports]
  cases fileText file with
  | ok source =>
    dsimp only
    rw [process_congr same]
    -- The verbosities still differ, but the standard output does not read them.
    exact ⟨rfl, rfl, rfl⟩
  | error error => exact ⟨rfl, rfl, rfl⟩

/-- The exit code of a script **classifies every file** in both modes, whatever the verbosity: 74 if
its bytes are no text, 65 if the text is malformed, 70 if it is not, is run and meets a fault, and 0
otherwise. A malformed text leaves the standard output empty. The error stream is a list of entries,
and the verbosity decides only which lines of the log are among them: exit code, standard output and
the other entries are the same at any other. -/
theorem invoke_script (path : String) (outlined : Bool)
    (read : String → Except IoError (List UInt8)) (stdin : List UInt8) :
    (∀ (arguments : List String) (verbosity : Nat),
      request arguments = .start ⟨some path, outlined, verbosity⟩ →
      let outcome := invoke arguments read stdin
      let made := scriptEntries ⟨some path, outlined, verbosity⟩ path (read path)
      Classifies outlined (read path) outcome.exit ∧
      (outcome.exit = 65 → outcome.streams.stdout = "") ∧
      outcome.streams.stderr = String.join (made.map Entry.text)) ∧
    ∀ (arguments arguments' : List String) (verbosity verbosity' : Nat),
      request arguments = .start ⟨some path, outlined, verbosity⟩ →
      request arguments' = .start ⟨some path, outlined, verbosity'⟩ →
      let outcome := invoke arguments read stdin
      let outcome' := invoke arguments' read stdin
      let made := scriptEntries ⟨some path, outlined, verbosity⟩ path (read path)
      let made' := scriptEntries ⟨some path, outlined, verbosity'⟩ path (read path)
      outcome.exit = outcome'.exit ∧ outcome.streams.stdout = outcome'.streams.stdout ∧
      made.filter Entry.isPlain = made'.filter Entry.isPlain := by
  have begins {arguments : List String} {o : Options} (starts : request arguments = .start o)
      (named : o.script = some path) :
      invoke arguments read stdin = script o path (read path) := by
    simp only [invoke, answer, starts, named]
  constructor
  · intro arguments verbosity starts outcome made
    have same : outcome = _ := begins starts rfl
    let o : Options := ⟨some path, outlined, verbosity⟩
    obtain ⟨classifies, silent⟩ := script_classifies o path (read path)
    rw [same]
    exact ⟨classifies, silent, stderr_script o path (read path)⟩
  · intro arguments arguments' verbosity verbosity' starts starts' outcome outcome' made made'
    have same : outcome = _ := begins starts rfl
    have same' : outcome' = _ := begins starts' rfl
    let o : Options := ⟨some path, outlined, verbosity⟩
    let o' : Options := ⟨some path, outlined, verbosity'⟩
    have modes : o.outline = o'.outline := rfl
    obtain ⟨exit, stdout, told⟩ := script_congr modes path (read path)
    rw [same, same']
    refine ⟨exit, stdout, ?_⟩
    rw [plain_scriptEntries, plain_scriptEntries, told]

/-- The second statement of a script meets a fault, and a log in full does not change what the first
one has printed. -/
theorem invoke_script_fault :
    let read : String → Except IoError (List UInt8) := fun _ => .ok (utf8 "print true; print a;")
    let outcome := invoke ["s.lox"] read []
    let traced := invoke ["-vv", "s.lox"] read []
    (∃ source, read "s.lox" = .ok (utf8 source) ∧ Faults source) ∧ outcome.exit = 70 ∧
      traced.exit = 70 ∧ traced.streams.stdout = "true\n" ∧
      (scriptEntries ⟨some "s.lox", false, 2⟩ "s.lox" (read "s.lox")).length = 4 := by
  intro read outcome traced
  have starts : request ["s.lox"] = .start ⟨some "s.lox", false, 0⟩ := by decide +kernel
  have traces : request ["-vv", "s.lox"] = .start ⟨some "s.lox", false, 2⟩ := by decide +kernel
  obtain ⟨classified, alike⟩ := invoke_script "s.lox" false read []
  have fails : outcome.exit = 70 := by decide +kernel
  have prints : outcome.streams.stdout = "true\n" := by decide +kernel
  obtain ⟨source, text, -, -, faults⟩ := (classified _ _ starts).1.fails.mp fails
  obtain ⟨exit, stdout, -⟩ := alike _ _ _ _ starts traces
  exact ⟨⟨source, text, faults⟩, fails, exit.symm.trans fails, stdout.symm.trans prints,
    by decide +kernel⟩

end Command

end LoxLang
