import LoxLang.Bindings
import LoxLang.Diagnostic
import LoxLang.Grammar.Outline

/-!
# Events

What happens while a source is processed, in order, as data. An **event** may
show on one of three channels (the program's output, its diagnostics, its
outline), may be worth a line in the log, and may declare a variable; these are
three readings of one list. Nothing is written here.
-/

namespace LoxLang

/-! ## The log -/

/-- How much attention a log entry asks for. -/
inductive LogLevel where
  | error
  | debug
  | trace
deriving DecidableEq, Repr

namespace LogLevel

/-- The word for a level. -/
def word : LogLevel → String
  | .error => "ERROR"
  | .debug => "DEBUG"
  | .trace => "TRACE"

/-- Whether entries of a level are shown at a verbosity. -/
def isShown (verbosity : Nat) : LogLevel → Bool
  | .error => true
  | .debug => 1 ≤ verbosity
  | .trace => 2 ≤ verbosity

end LogLevel

/-- A line of the log: a message and named details. -/
structure LogEntry where
  level : LogLevel
  message : String
  details : List (String × String)

/-- The text of a log entry. The time that a log puts in front of it is left out, and so are
colours. -/
def LogEntry.text (entry : LogEntry) : String :=
  entry.level.word ++ " " ++ entry.message ++
    String.join (entry.details.map fun (name, value) => " " ++ name ++ "=" ++ value)

/-! ## Events -/

/-- Something that happens while a source is processed. -/
inductive Event where
  /-- A source was scanned into a number of items on a number of lines. -/
  | scanned (items lines : Nat)
  /-- A diagnostic was reported. -/
  | reported (diagnostic : Diagnostic)
  /-- A token was skipped on the way to the next statement. -/
  | discarded (token : Token)
  /-- A source was parsed into a number of statements, with or without errors. -/
  | parsed (statements : Nat) (hadError : Bool)
  /-- The execution of a number of statements began. -/
  | started (statements : Nat)
  /-- A variable was declared. -/
  | defined (name : String) (value : Value)
  /-- A value was printed. -/
  | printed (value : Value)
  /-- A statement was outlined. -/
  | outlined (statement : Stmt)

/-- Where an event shows. -/
inductive Channel where
  | output
  | diagnostics
  | outline
deriving DecidableEq, Repr

namespace Event

/-- The line that an event shows, and where. -/
def line? : Event → Option (Channel × String)
  | .printed value => some (.output, value.text ++ "\n")
  | .reported diagnostic => some (.diagnostics, diagnostic.text ++ "\n")
  | .outlined statement => some (.outline, statement.outline ++ "\n")
  | _ => none

/-- The log entry of an event. -/
def entry? : Event → Option LogEntry
  | .scanned items lines =>
    some ⟨.trace, "scanned source", [("count", items.repr), ("lines", lines.repr)]⟩
  | .discarded token =>
    some ⟨.trace, "discarding token", [("lexeme", token.lexeme), ("line", token.line.repr)]⟩
  | .parsed statements hadError =>
    some ⟨.debug, "parsed source",
      [("statements", statements.repr), ("had_error", if hadError then "true" else "false")]⟩
  | .started statements =>
    some ⟨.debug, "interpreting statements", [("count", statements.repr)]⟩
  | .defined name value =>
    some ⟨.debug, "defining variable", [("name", name), ("value", value.text)]⟩
  | _ => none

end Event

/-- The bindings after an event. -/
def Bindings.after (b : Bindings) : Event → Bindings
  | .defined name value => b.define name value
  | _ => b

/-- The bindings after events in order. -/
def Bindings.afterAll (b : Bindings) (events : List Event) : Bindings :=
  events.foldl Bindings.after b

/-- All that events show on a channel. -/
def shown (channel : Channel) (events : List Event) : String :=
  String.join <| events.filterMap fun event =>
    match event.line? with
    | some (c, text) => if c = channel then some text else none
    | none => none

end LoxLang
