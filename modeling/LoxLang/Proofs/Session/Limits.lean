import LoxLang.Proofs.Execution.Course
import LoxLang.Proofs.Session.Safety

/-!
# Sessions whose sinks fill up

A sink with room for so many bytes keeps the first of what is written to it, however that is split
into writes (`Sink.write_append`). So the events of a run that only report write as one text
(`Desk.performAll_notices`), and those that execute do the same up to the line that does not fit,
with which the declarations end too (`Desk.performAll_effects`).

A run reports its errors, or executes its statements and reports how that ended. Both sinks of a
limited session thus hold the beginning of what the same run writes where nothing is refused, the
step fails exactly if one of them was too small, and the bindings are those at the point of failure
(`Session.run_limited`).
-/

namespace LoxLang

/-! ## Writing in parts -/

namespace Sink

theorem write_empty (s : Sink) : s.write (utf8 "") = (s, true) := by
  obtain ⟨room, kept⟩ := s
  cases room <;> simp [write, utf8]

/-- A text is written part by part, up to the first part that does not fit. -/
theorem write_append (s : Sink) (first second : List UInt8) :
    s.write (first ++ second) =
      if (s.write first).2 then (s.write first).1.write second else s.write first := by
  obtain ⟨room, kept⟩ := s
  cases room with
  | none => simp [write]
  | some n =>
    by_cases fits : first.length ≤ n
    · have behind : n - (first.length + second.length) = n - first.length - second.length := by
        omega
      have whole : first.length + second.length ≤ n ↔ second.length ≤ n - first.length := by omega
      simp [write, fits, List.take_append, List.take_of_length_le fits, behind, whole]
    · have exceeds : ¬ first.length + second.length ≤ n := by omega
      have none : n - (first.length + second.length) = n - first.length := by omega
      have cut : n - first.length = 0 := by omega
      simp [write, fits, List.take_append, exceeds, none, cut]

/-- What does not fit is not mended by writing more. -/
theorem write_append_of_false {s : Sink} {first : List UInt8} (full : (s.write first).2 = false)
    (second : List UInt8) : s.write (first ++ second) = s.write first := by
  rw [write_append, full]
  rfl

theorem write_append_of_true {s : Sink} {first : List UInt8} (fits : (s.write first).2 = true)
    (second : List UInt8) : s.write (first ++ second) = (s.write first).1.write second := by
  rw [write_append, fits]
  rfl

/-- A sink that has kept nothing keeps the beginning that there is room for. -/
theorem write_limited (room : Nat) (bytes : List UInt8) :
    (empty (some room)).write bytes =
      (⟨some (room - bytes.length), bytes.take room⟩, decide (bytes.length ≤ room)) := rfl

end Sink

/-! ## Performing in parts -/

namespace Desk

theorem performAll_cons (d : Desk) (event : Event) (rest : List Event) :
    d.performAll (event :: rest) =
      if (d.perform event).2 then (d.perform event).1.performAll rest else d.perform event := by
  rw [performAll]
  obtain ⟨d', fits⟩ := d.perform event
  cases fits <;> rfl

theorem performAll_append (d : Desk) (events events' : List Event) :
    d.performAll (events ++ events') =
      if (d.performAll events).2 then (d.performAll events).1.performAll events'
      else d.performAll events := by
  induction events generalizing d with
  | nil => rfl
  | cons event rest ih =>
    rw [List.cons_append, performAll_cons, performAll_cons]
    cases fits : (d.perform event).2 with
    | true => exact ih _
    | false => simp [fits]

variable (b : Bindings) (output diagnostics outline : Sink)

theorem perform_notice {event : Event} (notice : event.isNotice = true) :
    perform ⟨b, output, diagnostics, outline⟩ event =
      (⟨b, output, (diagnostics.write (utf8 (event.on .diagnostics))).1, outline⟩,
        (diagnostics.write (utf8 (event.on .diagnostics))).2) := by
  cases event with
  | reported d => rfl
  | defined | printed | outlined => cases notice
  | _ =>
    rw [show Event.on .diagnostics _ = "" from rfl, Sink.write_empty]
    rfl

/-- Events that only report write their diagnostics as one text. -/
theorem performAll_notices {events : List Event}
    (notices : ∀ event ∈ events, event.isNotice = true) :
    performAll ⟨b, output, diagnostics, outline⟩ events =
      (⟨b, output, (diagnostics.write (utf8 (shown .diagnostics events))).1, outline⟩,
        (diagnostics.write (utf8 (shown .diagnostics events))).2) := by
  induction events generalizing diagnostics with
  | nil =>
    rw [show shown .diagnostics [] = "" from rfl, Sink.write_empty]
    rfl
  | cons event rest ih =>
    obtain ⟨now, later⟩ := List.forall_mem_cons.mp notices
    rw [performAll_cons, perform_notice b output diagnostics outline now, shown_cons, utf8_append]
    cases fits : (diagnostics.write (utf8 (event.on .diagnostics))).2 with
    | true =>
      rw [Sink.write_append_of_true fits]
      exact ih _ later
    | false =>
      rw [Sink.write_append_of_false fits, fits]
      rfl

end Desk

/-! ## The line that does not fit -/

/-- Events in front of the first print whose line does not fit into a sink. -/
def CutAt (output : Sink) (events before : List Event) : Prop :=
  ∃ v rest, events = before ++ .printed v :: rest ∧
    (output.write (utf8 (shown .output before))).2 = true ∧
    (output.write (utf8 (shown .output before ++ (v.text ++ "\n")))).2 = false

section

variable {output : Sink} {events before : List Event}

theorem CutAt.defined (cut : CutAt output events before) (name : String) (value : Value) :
    CutAt output (.defined name value :: events) (.defined name value :: before) := by
  obtain ⟨v, rest, rfl, fits, exceeds⟩ := cut
  exact ⟨v, rest, rfl, by rwa [shown_cons, Event.on], by rwa [shown_cons, Event.on]⟩

theorem shown_output_printed (value : Value) (rest : List Event) :
    shown .output (.printed value :: rest) = value.text ++ "\n" ++ shown .output rest :=
  shown_cons ..

/-- A line that fits takes its room from the lines behind it. -/
theorem CutAt.printed {value : Value} (now : (output.write (utf8 (value.text ++ "\n"))).2 = true)
    (cut : CutAt (output.write (utf8 (value.text ++ "\n"))).1 events before) :
    CutAt output (.printed value :: events) (.printed value :: before) := by
  obtain ⟨v, rest, rfl, fits, exceeds⟩ := cut
  refine ⟨v, rest, rfl, ?_, ?_⟩
  · rwa [shown_output_printed, utf8_append, Sink.write_append_of_true now]
  · rwa [shown_output_printed, String.append_assoc, utf8_append, Sink.write_append_of_true now]

theorem CutAt.head {value : Value} (full : (output.write (utf8 (value.text ++ "\n"))).2 = false)
    (rest : List Event) : CutAt output (.printed value :: rest) [] := by
  have nothing : shown .output [] = "" := rfl
  refine ⟨value, rest, rfl, ?_, ?_⟩
  · rw [nothing, Sink.write_empty]
  · rwa [nothing, String.empty_append]

end

/-- Events of execution write their output as one text. If it does not fit, then they end with the
print statement whose line did not, and only what was declared before it is. -/
theorem Desk.performAll_effects (b : Bindings) (output diagnostics outline : Sink)
    {events : List Event} (effects : ∀ event ∈ events, event.isEffect = true) :
    ∃ before, performAll ⟨b, output, diagnostics, outline⟩ events =
        (⟨b.afterAll before, (output.write (utf8 (shown .output events))).1, diagnostics, outline⟩,
          (output.write (utf8 (shown .output events))).2) ∧
      ((output.write (utf8 (shown .output events))).2 = true → before = events) ∧
      ((output.write (utf8 (shown .output events))).2 = false → CutAt output events before) := by
  induction events generalizing b output with
  | nil =>
    have written : output.write (utf8 (shown .output [])) = (output, true) := output.write_empty
    rw [written]
    exact ⟨[], rfl, fun _ => rfl, fun full => nomatch full⟩
  | cons event rest ih =>
    obtain ⟨now, later⟩ := List.forall_mem_cons.mp effects
    rw [performAll_cons]
    cases event with
    | defined name value =>
      obtain ⟨before, performed, whole, cut⟩ := ih (b.define name value) output later
      have silent : shown .output (.defined name value :: rest) = shown .output rest :=
        (shown_cons ..).trans String.empty_append
      rw [silent]
      refine ⟨.defined name value :: before, performed, ?_, fun full => (cut full).defined ..⟩
      intro fits
      rw [whole fits]
    | printed value =>
      rw [shown_output_printed, utf8_append]
      cases fits : (output.write (utf8 (value.text ++ "\n"))).2 with
      | true =>
        obtain ⟨before, performed, whole, cut⟩ :=
          ih b (output.write (utf8 (value.text ++ "\n"))).1 later
        rw [Sink.write_append_of_true fits]
        refine ⟨.printed value :: before, (if_pos fits).trans performed, ?_,
          fun full => (cut full).printed fits⟩
        intro fits'
        rw [whole fits']
      | false =>
        rw [Sink.write_append_of_false fits]
        refine ⟨[], if_neg (Bool.eq_false_iff.mp fits), ?_, fun _ => .head fits rest⟩
        intro fits'
        cases fits.symm.trans fits'
    | _ => cases now

/-! ## Where the output is cut -/

/-- A value printed comes from a print statement, and what happened before it from the statements in
front of that one. -/
theorem exists_print_of_execute {b : Bindings} {ss : List Stmt} {before rest : List Event}
    {v : Value} (split : (execute b ss).events = before ++ .printed v :: rest) :
    ∃ front e behind done, ss = front ++ .print e :: behind ∧ Completes b front done ∧
      done.flatMap Completed.events = before ∧ e.evaluate (b.afterCompleted done) = .ok v := by
  induction ss generalizing b before with
  | nil => cases before <;> cases split
  | cons s ss ih =>
    cases computes : s.value b with
    | error failure =>
      rw [execute_cons_of_error computes] at split
      cases before <;> cases split
    | ok w =>
      rw [execute_cons_of_ok computes] at split
      -- Either the value is that of the first statement, or it is printed by a later one.
      have later {before' : List Event}
          (split' : (execute (b.afterStmt s w) ss).events = before' ++ .printed v :: rest) :
          ∃ front e behind done, s :: ss = front ++ .print e :: behind ∧ Completes b front done ∧
            done.flatMap Completed.events = (s.event? w).toList ++ before' ∧
            e.evaluate (b.afterCompleted done) = .ok v := by
        obtain ⟨front, e, behind, done, rfl, completes, happened, shows⟩ := ih split'
        refine ⟨s :: front, e, behind, ⟨s, w⟩ :: done, rfl, .cons computes completes, ?_, ?_⟩
        · rw [List.flatMap_cons, happened]
          rfl
        · rwa [Bindings.afterCompleted_cons]
      cases s with
      | expression e => exact later split
      | declare name initial =>
        cases before with
        | nil => cases split
        | cons event before' =>
          obtain ⟨rfl, split'⟩ := List.cons.inj split
          exact later split'
      | print e =>
        cases before with
        | nil =>
          obtain ⟨same, -⟩ := List.cons.inj split
          cases same
          exact ⟨[], e, ss, [], rfl, .nil, rfl, computes⟩
        | cons event before' =>
          obtain ⟨rfl, split'⟩ := List.cons.inj split
          exact later split'

/-- A run on a desk: what it prints is one text, and if that fits then what it reports is another.
If it does not, then the run ends with the print statement whose line did not fit. -/
theorem Desk.performAll_run (b : Bindings) (output diagnostics outline : Sink) (source : String) :
    let events := (run b source).events
    let written := output.write (utf8 (shown .output events))
    let told := diagnostics.write (utf8 (shown .diagnostics events))
    (written.2 = true → performAll ⟨b, output, diagnostics, outline⟩ events =
      (⟨b.afterAll events, written.1, told.1, outline⟩, told.2)) ∧
    (written.2 = false → ∃ before, CutAt output (execute b (statementsOf source)).events before ∧
      performAll ⟨b, output, diagnostics, outline⟩ events =
        (⟨b.afterAll before, written.1, diagnostics, outline⟩, false)) := by
  intro events written told
  obtain ⟨first, did, last, parts, first_notices, did_effects, last_notices, cases⟩ :=
    run_parts b source
  have parts : events = first ++ did ++ last := parts
  have printed : shown .output events = shown .output did := by
    rw [parts, shown_append, shown_append, shown_of_notices first_notices .output (by decide),
      shown_of_notices last_notices .output (by decide), String.empty_append, String.append_empty]
  have declared : b.afterAll events = b.afterAll did := by
    rw [parts, afterAll_append, afterAll_append, afterAll_of_notices first_notices,
      afterAll_of_notices last_notices]
  rcases cases with rfl | ⟨executed, silent⟩
  · -- Nothing is executed, and all is one report.
    have notices : ∀ event ∈ events, event.isNotice = true := by
      intro event mem
      rw [parts, List.append_nil] at mem
      rcases List.mem_append.mp mem with now | later
      · exact first_notices event now
      · exact last_notices event later
    have nothing : written = (output, true) := by
      show output.write (utf8 (shown .output events)) = _
      rw [printed]
      exact output.write_empty
    rw [nothing, declared, performAll_notices b output diagnostics outline notices]
    exact ⟨fun _ => rfl, fun full => nomatch full⟩
  · have reported : shown .diagnostics events = shown .diagnostics last := by
      rw [parts, shown_append, shown_append, silent,
        shown_of_effects did_effects .diagnostics (by decide), String.empty_append,
        String.empty_append]
    obtain ⟨before, performed, whole, cut⟩ :=
      performAll_effects b output diagnostics outline did_effects
    have begun : performAll ⟨b, output, diagnostics, outline⟩ events =
        performAll ⟨b, output, diagnostics, outline⟩ (did ++ last) := by
      rw [parts, List.append_assoc, performAll_append, performAll_notices _ _ _ _ first_notices,
        silent, Sink.write_empty]
      rfl
    rw [begun, performAll_append, performed]
    simp only [written, told, printed, declared, reported]
    constructor
    · intro fits
      rw [if_pos fits, performAll_notices _ _ _ _ last_notices, whole fits]
    · intro full
      refine ⟨before, executed ▸ cut full, ?_⟩
      rw [if_neg (Bool.eq_false_iff.mp full), full]

/-! ## Runs with limits -/

/-- A session whose sinks have room for so many bytes. -/
def Session.limited (b : Bindings) (outputRoom diagnosticsRoom : Nat) : Session :=
  ⟨b, some outputRoom, some diagnosticsRoom⟩

/-- A step, by how its events are performed. -/
theorem Session.step_of_performAll {ω : Type} {s : Session} {room : Option Nat} {r : Run ω}
    {after : Desk} {complete : Bool}
    (performed : Desk.performAll
      ⟨s.bindings, .empty s.outputRoom, .empty s.diagnosticsRoom, .empty room⟩ r.events =
        (after, complete)) :
    s.step room r =
      (⟨if complete then .ok r.ending else .error .sinkFull, after.output.kept,
        after.diagnostics.kept, after.outline.kept⟩,
        ⟨after.bindings, after.output.room, after.diagnostics.room⟩) := by
  rw [Session.step, performed]

section

variable (b : Bindings) (source : String) (outputRoom diagnosticsRoom : Nat)

/-- A run whose output fits shows all of it, and reports as much as there is room for. -/
theorem Session.run_limited_of_le :
    let whole := (Session.unlimited b).run source
    let cut := (Session.limited b outputRoom diagnosticsRoom).run source
    whole.1.output.length ≤ outputRoom →
      cut.1.result = (if whole.1.diagnostics.length ≤ diagnosticsRoom then whole.1.result
        else .error .sinkFull) ∧
      cut.1.output = whole.1.output ∧
      cut.1.diagnostics = whole.1.diagnostics.take diagnosticsRoom ∧
      cut.2.bindings = whole.2.bindings := by
  intro whole cut fits
  have wholeIs : whole = _ := Session.step_unlimited b (LoxLang.run b source)
  have performed := (Desk.performAll_run b (.empty (some outputRoom))
    (.empty (some diagnosticsRoom)) (.empty none) source).1
  rw [wholeIs] at fits
  simp only [Sink.write_limited, decide_eq_true_eq, List.take_of_length_le fits] at performed
  have cutIs : cut = _ := Session.step_of_performAll (performed fits)
  refine ⟨?_, ?_, ?_, ?_⟩
  · rw [cutIs, wholeIs]
    simp only [decide_eq_true_eq]
    rfl
  · rw [cutIs, wholeIs]
  · rw [cutIs, wholeIs]
  · rw [cutIs, wholeIs]
    rfl

/-- A run whose output does not fit fails in front of the report, at a print statement. -/
theorem Session.run_limited_of_lt :
    let whole := (Session.unlimited b).run source
    let cut := (Session.limited b outputRoom diagnosticsRoom).run source
    outputRoom < whole.1.output.length →
      (cut.1.result = .error .sinkFull ∧ cut.1.output = whole.1.output.take outputRoom ∧
        cut.1.diagnostics = []) ∧
      ∃ front e behind done v, statementsOf source = front ++ .print e :: behind ∧
        Completes b front done ∧ e.evaluate (b.afterCompleted done) = .ok v ∧
        (utf8 (printed done)).length ≤ outputRoom ∧
        outputRoom < (utf8 (printed done ++ (v.text ++ "\n"))).length ∧
        cut.2.bindings = b.afterCompleted done := by
  intro whole cut exceeds
  have wholeIs : whole = _ := Session.step_unlimited b (LoxLang.run b source)
  have performed := (Desk.performAll_run b (.empty (some outputRoom))
    (.empty (some diagnosticsRoom)) (.empty none) source).2
  rw [wholeIs] at exceeds
  simp only [CutAt, Sink.write_limited, decide_eq_true_eq, decide_eq_false_iff_not, Nat.not_le]
    at performed
  obtain ⟨before, ⟨v, rest, split, fits, tooLong⟩, performed⟩ := performed exceeds
  obtain ⟨front, e, behind, done, statements, completes, rfl, shows⟩ :=
    exists_print_of_execute split
  rw [shown_output_events] at fits tooLong
  have cutIs : cut = _ := Session.step_of_performAll performed
  rw [wholeIs, cutIs]
  exact ⟨⟨rfl, rfl, rfl⟩, front, e, behind, done, v, statements, completes, shows, fits, tooLong,
    rfl⟩

end

/-- Without limits a run ends with a status. -/
theorem Session.exists_status (b : Bindings) (source : String) :
    ∃ status, ((Session.unlimited b).run source).1.result = .ok (.ok status) := by
  rw [Session.run_unlimited]
  match ended : (LoxLang.run b source).ending with
  | .ok status => exact ⟨status, rfl⟩
  | .error tree => exact absurd ended (run_ending_ne_error b source tree)

/-- Sinks that fill up **cut a run at the exact byte**, and no refused write is passed over. A run
fails exactly if its output or its diagnostics have more bytes than there is room for, and otherwise
ends as it does without limits. The output is the beginning of the whole output that there is room
for. If that is all of it, then so are the diagnostics of theirs, and the bindings are the same. If
not, then nothing is reported, and the run has ended with the print statement whose line did not
fit: the bindings are those that the statements in front of it leave. -/
theorem Session.run_limited (b : Bindings) (source : String) (outputRoom diagnosticsRoom : Nat) :
    let whole := (Session.unlimited b).run source
    let cut := (Session.limited b outputRoom diagnosticsRoom).run source
    (cut.1.result = .error .sinkFull ↔
      outputRoom < whole.1.output.length ∨ diagnosticsRoom < whole.1.diagnostics.length) ∧
    (cut.1.result ≠ .error .sinkFull →
      ∃ status, cut.1.result = .ok (.ok status) ∧ whole.1.result = .ok (.ok status)) ∧
    cut.1.output = whole.1.output.take outputRoom ∧
    (whole.1.output.length ≤ outputRoom →
      cut.1.diagnostics = whole.1.diagnostics.take diagnosticsRoom ∧
      cut.2.bindings = whole.2.bindings) ∧
    (outputRoom < whole.1.output.length →
      cut.1.diagnostics = [] ∧
      ∃ front e behind done v, statementsOf source = front ++ .print e :: behind ∧
        Completes b front done ∧ e.evaluate (b.afterCompleted done) = .ok v ∧
        (utf8 (printed done)).length ≤ outputRoom ∧
        outputRoom < (utf8 (printed done ++ (v.text ++ "\n"))).length ∧
        cut.2.bindings = b.afterCompleted done) := by
  intro whole cut
  obtain ⟨status, ended⟩ : ∃ status, whole.1.result = .ok (.ok status) :=
    Session.exists_status b source
  rcases Nat.lt_or_ge outputRoom whole.1.output.length with exceeds | fits
  · obtain ⟨⟨fails, output, silent⟩, stopped⟩ :=
      Session.run_limited_of_lt b source outputRoom diagnosticsRoom exceeds
    exact ⟨⟨fun _ => .inl exceeds, fun _ => fails⟩, fun other => absurd fails other, output,
      fun fits => absurd exceeds (Nat.not_lt.mpr fits), fun _ => ⟨silent, stopped⟩⟩
  · obtain ⟨result, output, told, bindings⟩ :=
      Session.run_limited_of_le b source outputRoom diagnosticsRoom fits
    have result : cut.1.result = if whole.1.diagnostics.length ≤ diagnosticsRoom
        then whole.1.result else .error .sinkFull := result
    rw [ended] at result
    refine ⟨?_, ?_, output.trans (List.take_of_length_le fits).symm, fun _ => ⟨told, bindings⟩,
      fun exceeds => absurd exceeds (Nat.not_lt.mpr fits)⟩
    · rw [result]
      split
      · rename_i room
        simp [Nat.not_lt.mpr fits, Nat.not_lt.mpr room]
      · rename_i room
        simp [Nat.not_le.mp room]
    · intro other
      by_cases room : whole.1.diagnostics.length ≤ diagnosticsRoom
      · rw [if_pos room] at result
        exact ⟨status, result, ended⟩
      · rw [if_neg room] at result
        exact absurd result other

/-- Room for seven bytes cuts the second line, which spells nil, and the declaration behind it is
not made. -/
theorem Session.run_limited_second_line :
    let source := "var a = true; print a; print nil; var b = a;"
    let whole := (Session.unlimited .empty).run source
    let cut := (Session.limited .empty 7 0).run source
    7 < whole.1.output.length ∧ cut.1.result = .error .sinkFull ∧
      cut.1.output = utf8 "true\nni" ∧ cut.1.diagnostics = [] ∧
      cut.2.bindings.get? "a" = some (.bool true) ∧ cut.2.bindings.get? "b" = none := by
  intro source whole cut
  have exceeds : 7 < whole.1.output.length := by decide +kernel
  obtain ⟨fails, -, output, -, stopped⟩ := Session.run_limited .empty source 7 0
  refine ⟨exceeds, fails.mpr (.inl exceeds), ?_, (stopped exceeds).1, ?_, ?_⟩
  · rw [output]
    decide +kernel
  · decide +kernel
  · decide +kernel

end LoxLang
