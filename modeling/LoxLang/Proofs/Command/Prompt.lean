import LoxLang.Proofs.Command.Streams
import LoxLang.Proofs.Command.Text
import LoxLang.Proofs.Session.Limits
import LoxLang.Proofs.Session.Outlines

/-!
# The prompt is a session

The prompt runs line by line in one session without limits: it shows a prompt in front of what each
run writes, and the next line finds the bindings that the last one left, however that ended
(`prompt_lines`). So what the prompt does of a text can be read off the steps of that session, and a
line that is no text stops it behind those of the lines in front of it (`invoke_prompt`).

A prompt that is stopped so says why on the error stream, in a line of its own.
-/

namespace LoxLang.Command

/-! ## Outcomes -/

/-- What an outcome gives: an exit code, and bytes on either stream. -/
structure Gives (outcome : Outcome) (exit : Nat) (stdout stderr : List UInt8) : Prop where
  exit : outcome.exit = exit
  stdout : utf8 outcome.streams.stdout = stdout
  stderr : utf8 outcome.streams.stderr = stderr

/-- What the prompt shows for steps of a session: a prompt in front of what each has written. -/
def transcript {ω : Type} (steps : List (Step ω)) : List UInt8 :=
  steps.flatMap fun step => utf8 promptText ++ step.output

/-! ## One line and many -/

/-- A line is one step of the session, and the prompt goes on under the bindings that it leaves. -/
theorem prompt_line (b : Bindings) (line : String) (rest : List (List UInt8)) :
    let ran := (Session.unlimited b).call (.run line)
    let later := prompt .default ran.2.bindings rest
    ran.2 = Session.unlimited ran.2.bindings ∧
      Gives (prompt .default b (utf8 line :: rest)) later.exit
        (utf8 promptText ++ ran.1.output ++ utf8 later.streams.stdout)
        (ran.1.diagnostics ++ utf8 later.streams.stderr) := by
  intro ran later
  have stepped : ran = _ := Session.step_unlimited b (run b line)
  have text : fileText (.ok (utf8 line)) = .ok line := fileText_eq_ok_iff.mpr rfl
  have processed : process .default b line = run b line := rfl
  -- A run outlines nothing, and without verbosity it logs nothing.
  have visible : (streams 0 (run b line).events).stdout = shown .output (run b line).events :=
    stdout_eq_shown 0 (shown_outline_run b line)
  have reported : (streams 0 (run b line).events).stderr = shown .diagnostics (run b line).events :=
    stderr_zero (run b line).events
  have bindings : ran.2.bindings = b.afterAll (run b line).events := by rw [stepped]; rfl
  have shows : prompt .default b (utf8 line :: rest) = ⟨later.exit,
      promptText ++ shown .output (run b line).events ++ later.streams.stdout,
      shown .diagnostics (run b line).events ++ later.streams.stderr⟩ := by
    rw [prompt, text]
    simp only [processed]
    rw [← visible, ← reported, ← bindings]
    rfl
  refine ⟨by rw [stepped]; rfl, ?_⟩
  rw [shows]
  refine ⟨rfl, ?_, ?_⟩
  · rw [utf8_append, utf8_append, stepped]
  · rw [utf8_append, stepped]

/-- Lines are the steps of a session, and the prompt goes on under the bindings that they leave. -/
theorem prompt_lines (b : Bindings) (ls : List String) (rest : List (List UInt8)) :
    let ran := (Session.unlimited b).calls (ls.map .run)
    let later := prompt .default ran.2.bindings rest
    Gives (prompt .default b (ls.map utf8 ++ rest)) later.exit
      (transcript ran.1 ++ utf8 later.streams.stdout)
      (ran.1.flatMap Step.diagnostics ++ utf8 later.streams.stderr) := by
  induction ls generalizing b with
  | nil => exact ⟨rfl, rfl, rfl⟩
  | cons line ls ih =>
    intro ran later
    -- The session that the line leaves has no limits either: bindings are all that it carries on.
    obtain ⟨same, now⟩ := prompt_line b line (ls.map utf8 ++ rest)
    have behind := ih ((Session.unlimited b).call (.run line)).2.bindings
    rw [← same] at behind
    have ranIs : ran = _ := Session.calls_cons (Session.unlimited b) (.run line) (ls.map .run)
    have laterIs : later = prompt .default
        ((((Session.unlimited b).call (.run line)).2.calls (ls.map .run)).2.bindings) rest := by
      simp only [later, ranIs]
    rw [laterIs, ranIs]
    refine ⟨now.exit.trans behind.exit, now.stdout.trans ?_, now.stderr.trans ?_⟩
    · rw [behind.stdout, transcript, transcript, List.flatMap_cons]
      simp only [List.append_assoc]
    · rw [behind.stderr, List.flatMap_cons, List.append_assoc]

/-- Each run among calls ends with a status. -/
theorem exists_status_of_mem_calls {b : Bindings} {ls : List String}
    {step : Step (Except BrokenTree Status)}
    (mem : step ∈ ((Session.unlimited b).calls (ls.map .run)).1) :
    ∃ status, step.result = .ok (.ok status) := by
  induction ls generalizing b with
  | nil => cases mem
  | cons line ls ih =>
    rw [List.map_cons, Session.calls_cons] at mem
    rcases List.mem_cons.mp mem with rfl | later
    · exact Session.exists_status b line
    · rw [(prompt_line b line []).1] at later
      exact ih later

/-! ## The prompt -/

/-- The prompt is **a session of runs**, one for each line, and no error ends it. Every text is cut
into lines in just one way. On a text the prompt ends well; the standard output is what the steps of
one session on these lines have written, each behind a prompt, and a last prompt, and the error
stream is what they have reported. Every other input has a first line that is no text. There the
prompt fails, with what it gives of the lines in front of it, and a last line on the error stream
that says why. -/
theorem invoke_prompt {arguments : List String} (starts : request arguments = .start .default)
    (read : String → Except IoError (List UInt8)) :
    (∀ text : String,
      ∃! ls : List String, AreLines '\n' (ls.map String.toList) ∧ String.join ls = text) ∧
    (∀ ls : List String, AreLines '\n' (ls.map String.toList) →
      let steps := ((Session.start none none).calls (ls.map .run)).1
      (∀ step ∈ steps, ∃ status, step.result = .ok (.ok status)) ∧
      Gives (invoke arguments read (utf8 (String.join ls))) 0
        (transcript steps ++ utf8 promptText) (steps.flatMap Step.diagnostics)) ∧
    (∀ stdin : List UInt8, (∀ text, stdin ≠ utf8 text) →
      ∃ (ls : List String) (bad : List UInt8) (behind : List (List UInt8)),
        (ls.map utf8 ++ bad :: behind).flatten = stdin ∧
        AreLines 10 (ls.map utf8 ++ bad :: behind) ∧ ∀ text, bad ≠ utf8 text) ∧
    ∀ (ls : List String) (bad : List UInt8) (behind : List (List UInt8)),
      AreLines 10 (ls.map utf8 ++ bad :: behind) → (∀ text, bad ≠ utf8 text) →
      let steps := ((Session.start none none).calls (ls.map .run)).1
      Gives (invoke arguments read (ls.map utf8 ++ bad :: behind).flatten) 1
        (transcript steps ++ utf8 promptText)
        (steps.flatMap Step.diagnostics ++ utf8 (promptFailure .notText)) := by
  have begins (stdin : List UInt8) :
      invoke arguments read stdin = prompt .default .empty (lines stdin) :=
    congrArg (answer · read stdin) starts
  refine ⟨existsUnique_lines, fun ls areLines => ⟨fun step => exists_status_of_mem_calls, ?_⟩,
    fun stdin noText => ?_, fun ls bad behind areLines noText => ?_⟩
  · have shows := prompt_lines .empty ls []
    rw [begins, lines_utf8 areLines]
    rw [List.append_nil] at shows
    refine ⟨shows.exit, shows.stdout, shows.stderr.trans ?_⟩
    exact List.append_nil _
  · obtain ⟨ls, bad, behind, cut, noText'⟩ := exists_line_not_text noText
    obtain ⟨areLines, whole⟩ := lines_eq_iff.mp cut
    exact ⟨ls, bad, behind, whole, areLines, noText'⟩
  · have shows := prompt_lines .empty ls (bad :: behind)
    rw [begins, areLines.lines]
    have stopped (b : Bindings) : prompt .default b (bad :: behind) =
        ⟨1, ⟨promptText, promptFailure .notText⟩⟩ := by
      rw [prompt, fileText_eq_notText_iff.mpr noText]
    simp only [stopped] at shows
    exact shows

/-- A variable outlives a runtime error and a static error. A line that is no text stops the prompt
behind the report of the line in front of it, and the last line on the error stream says so. -/
theorem invoke_prompt_outlives :
    let read : String → Except IoError (List UInt8) := fun _ => .error .missingFile
    let ls := ["var a = true;\n", "print b;\n", "@\n", "print a;"]
    let told := "[line 1] Error at 'b': Undefined variable 'b'.\n" ++
      "[line 1] Error: Unexpected character '@'.\n"
    let told' := "[line 1] Error at 'b': Undefined variable 'b'.\n" ++
      "Error: Error \x7b kind: InvalidData, " ++
      "message: \"stream did not contain valid UTF-8\" \x7d\n"
    Gives (invoke [] read (utf8 (String.join ls))) 0 (utf8 "> > > > true\n> ") (utf8 told) ∧
      Gives (invoke [] read (utf8 "print b;\n" ++ [255, 10])) 1 (utf8 "> > ") (utf8 told') := by
  intro read ls told told'
  have starts : request [] = .start .default := rfl
  obtain ⟨-, whole, -, stopped⟩ := invoke_prompt starts read
  have areLines : AreLines '\n' (ls.map String.toList) := by
    have cut : ls.map String.toList = ["var a = true;".toList ++ ['\n'],
        "print b;".toList ++ ['\n'], "@".toList ++ ['\n'], "print a;".toList] := by decide +kernel
    rw [cut]
    refine .cons ?_ (.cons ?_ (.cons ?_ (.last ?_ ?_))) <;> decide +kernel
  have noText : ∀ text, [255, 10] ≠ utf8 text := fileText_eq_notText_iff.mp (by decide +kernel)
  have shows := (whole ls areLines).2
  have cut : lines (utf8 "print b;\n" ++ [255, 10]) = ["print b;\n"].map utf8 ++ [[255, 10]] := by
    decide +kernel
  have stops := stopped ["print b;\n"] [255, 10] [] (lines_eq_iff.mp cut).1 noText
  refine ⟨⟨shows.exit, shows.stdout.trans ?_, shows.stderr.trans ?_⟩,
    ⟨stops.exit, stops.stdout.trans ?_, stops.stderr.trans ?_⟩⟩
  all_goals decide +kernel

/-- A prompt whose first line is no text has run nothing, and still it writes to the error
stream. -/
theorem not_invoke_prompt_silent :
    let outcome := invoke [] (fun _ => .error .missingFile) [255]
    let ls : List String := []
    let steps := ((Session.start none none).calls (ls.map .run)).1
    AreLines 10 (ls.map utf8 ++ [[255]]) ∧ (∀ text, [255] ≠ utf8 text) ∧
      outcome.exit = 1 ∧ outcome.streams.stdout = "> " ∧
      ¬ Gives outcome 1 (transcript steps ++ utf8 promptText) (steps.flatMap Step.diagnostics) := by
  intro outcome ls steps
  have cut : lines [255] = ls.map utf8 ++ [[255]] := by decide +kernel
  refine ⟨(lines_eq_iff.mp cut).1, fileText_eq_notText_iff.mp (by decide +kernel),
    by decide +kernel, by decide +kernel, fun gives => ?_⟩
  have loud : utf8 outcome.streams.stderr ≠ steps.flatMap Step.diagnostics := by decide +kernel
  exact loud gives.stderr

end LoxLang.Command
