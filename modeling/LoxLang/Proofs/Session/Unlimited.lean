import LoxLang.Session
import LoxLang.Proofs.Execution.Trace

/-!
# Sessions without limits

A sink without a limit refuses nothing. A session whose sinks have none performs every event of a
run, so a step writes exactly what the events show and leaves the bindings that they declare
(`Session.step_unlimited`). What a session does is then a matter of events alone.
-/

namespace LoxLang

theorem utf8_append (text text' : String) : utf8 (text ++ text') = utf8 text ++ utf8 text' := by
  simp only [utf8, String.toList_append, List.flatMap_append]

/-- A desk whose sinks have no limit, with what they have kept so far. -/
def Desk.unlimited (b : Bindings) (output diagnostics outline : List UInt8) : Desk :=
  ⟨b, ⟨none, output⟩, ⟨none, diagnostics⟩, ⟨none, outline⟩⟩

/-- One event on a desk without limits. -/
theorem Desk.perform_unlimited (b : Bindings) (output diagnostics outline : List UInt8)
    (event : Event) :
    (Desk.unlimited b output diagnostics outline).perform event =
      (Desk.unlimited (b.after event) (output ++ utf8 (event.on .output))
        (diagnostics ++ utf8 (event.on .diagnostics)) (outline ++ utf8 (event.on .outline)),
        true) := by
  cases event <;>
    simp [Desk.unlimited, Desk.perform, Event.line?, Desk.write, Sink.write, Event.on, utf8,
      Bindings.after]

/-- All events on a desk without limits. -/
theorem Desk.performAll_unlimited (b : Bindings) (output diagnostics outline : List UInt8)
    (events : List Event) :
    (Desk.unlimited b output diagnostics outline).performAll events =
      (Desk.unlimited (b.afterAll events) (output ++ utf8 (shown .output events))
        (diagnostics ++ utf8 (shown .diagnostics events))
        (outline ++ utf8 (shown .outline events)), true) := by
  induction events generalizing b output diagnostics outline with
  | nil => simp [Desk.performAll, Bindings.afterAll, shown, utf8]
  | cons event rest ih =>
    rw [Desk.performAll, Desk.perform_unlimited]
    simp only [ih, shown_cons, utf8_append, List.append_assoc]
    rfl

/-- A session whose sinks have no limit. -/
def Session.unlimited (b : Bindings) : Session := ⟨b, none, none⟩

/-- A step of a session without limits performs all that happens. -/
theorem Session.step_unlimited {ω : Type} (b : Bindings) (r : Run ω) :
    (Session.unlimited b).step none r =
      (⟨.ok r.ending, utf8 (shown .output r.events), utf8 (shown .diagnostics r.events),
        utf8 (shown .outline r.events)⟩, Session.unlimited (b.afterAll r.events)) := by
  have all := Desk.performAll_unlimited b [] [] [] r.events
  simp only [Desk.unlimited, List.nil_append] at all
  simp only [Session.step, Session.unlimited, Sink.empty, all]
  rfl

/-- The bytes of diagnostics, a line each. -/
def rendered (diagnostics : List Diagnostic) : List UInt8 :=
  utf8 (String.join (diagnostics.map fun d => d.text ++ "\n"))

/-- A run in a session without limits, by what it executes and what it reports. -/
theorem Session.run_unlimited (b : Bindings) (source : String) :
    (Session.unlimited b).run source =
      (⟨.ok (LoxLang.run b source).ending,
        utf8 (shown .output (effects (LoxLang.run b source).events)),
        rendered (reports (LoxLang.run b source).events),
        utf8 (shown .outline (LoxLang.run b source).events)⟩,
        Session.unlimited (b.afterAll (effects (LoxLang.run b source).events))) := by
  rw [Session.run, shown_output_effects, afterAll_effects, rendered, ← shown_diagnostics]
  exact Session.step_unlimited b (LoxLang.run b source)

end LoxLang
