import LoxLang.Execution
import LoxLang.Sink

/-!
# Sessions

A **session** runs one source after another on the same bindings and writes to
two sinks, for output and for diagnostics. The events of a run are performed in
order; the first write that a sink refuses ends the step with an error, and what
was declared before it stays declared.
-/

namespace LoxLang

/-! ## Performing events -/

/-- What events act on: the bindings, and a sink for each channel. -/
structure Desk where
  bindings : Bindings
  output : Sink
  diagnostics : Sink
  outline : Sink

namespace Desk

/-- Writes to the sink of a channel, and says whether there was room. -/
def write (d : Desk) (bytes : List UInt8) : Channel → Desk × Bool
  | .output =>
    let (sink, fits) := d.output.write bytes
    (⟨d.bindings, sink, d.diagnostics, d.outline⟩, fits)
  | .diagnostics =>
    let (sink, fits) := d.diagnostics.write bytes
    (⟨d.bindings, d.output, sink, d.outline⟩, fits)
  | .outline =>
    let (sink, fits) := d.outline.write bytes
    (⟨d.bindings, d.output, d.diagnostics, sink⟩, fits)

/-- Performs an event, and says whether there was room for what it shows. -/
def perform (d : Desk) (event : Event) : Desk × Bool :=
  match event.line? with
  | some (channel, text) => d.write (utf8 text) channel
  | none => (⟨d.bindings.after event, d.output, d.diagnostics, d.outline⟩, true)

/-- Performs events in order, up to the first for which there is no room, and says
whether there was room for all. -/
def performAll (d : Desk) : List Event → Desk × Bool
  | [] => (d, true)
  | event :: rest =>
    match d.perform event with
    | (d', true) => d'.performAll rest
    | (d', false) => (d', false)

end Desk

/-! ## Sessions -/

/-- The bindings of a session, and the room left in its two sinks. -/
structure Session where
  bindings : Bindings
  outputRoom : Option Nat
  diagnosticsRoom : Option Nat

/-- The outcome of a step: how it ended, and what it wrote to each sink. -/
structure Step (ω : Type) where
  result : Except IoError ω
  output : List UInt8
  diagnostics : List UInt8
  outline : List UInt8

namespace Session

/-- A session with no variables. -/
def start (outputRoom diagnosticsRoom : Option Nat) : Session :=
  ⟨.empty, outputRoom, diagnosticsRoom⟩

/-- Performs a run as one step of a session, with room of its own for an
outline. -/
def step {ω : Type} (s : Session) (outlineRoom : Option Nat) (r : Run ω) : Step ω × Session :=
  let desk : Desk :=
    ⟨s.bindings, .empty s.outputRoom, .empty s.diagnosticsRoom, .empty outlineRoom⟩
  let (after, complete) := desk.performAll r.events
  ({ result := if complete then .ok r.ending else .error .sinkFull
     output := after.output.kept
     diagnostics := after.diagnostics.kept
     outline := after.outline.kept },
    ⟨after.bindings, after.output.room, after.diagnostics.room⟩)

/-- Executes statements. -/
def execute (s : Session) (statements : List Stmt) : Step (Except Failure Unit) × Session :=
  s.step none (LoxLang.execute s.bindings statements)

/-- Runs a source. -/
def run (s : Session) (source : String) : Step (Except BrokenTree Status) × Session :=
  s.step none (LoxLang.run s.bindings source)

/-- Outlines a source. -/
def outline (s : Session) (outlineRoom : Option Nat) (source : String) : Step Status × Session :=
  s.step outlineRoom (LoxLang.outline source)

end Session

/-! ## Files -/

/-- The text of a file, when it could be read and its bytes are text. -/
def fileText : Except IoError (List UInt8) → Except IoError String
  | .error error => .error error
  | .ok bytes =>
    match String.fromUTF8? bytes.toByteArray with
    | some text => .ok text
    | none => .error .notText

/-- Runs a file. One that cannot be read as text does nothing. -/
def Session.runFile (s : Session) (file : Except IoError (List UInt8)) :
    Step (Except BrokenTree Status) × Session :=
  match fileText file with
  | .ok source => s.run source
  | .error error => (⟨.error error, [], [], []⟩, s)

end LoxLang
