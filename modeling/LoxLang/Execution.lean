import LoxLang.Evaluation
import LoxLang.Event
import LoxLang.Grammar.Program
import LoxLang.Source.Scan

/-!
# Execution

What statements and whole sources do under given bindings, told as the events
that happen and how it ends. A source with an error in its text is reported in
full and nothing of it is executed; otherwise its statements are executed in
order up to the first that fails.

Events are only listed here. That a sink may refuse what is written to it is a
matter of the session that performs them.
-/

namespace LoxLang

/-- What happens, and how it ends. -/
structure Run (ω : Type) where
  events : List Event
  ending : ω

/-! ## Statements -/

/-- What a statement does: a print statement shows a value, a declaration without
an initial value starts out with nil, and an expression alone does nothing. -/
def Stmt.execute (b : Bindings) : Stmt → Except Failure (Option Event)
  | .expression e => (e.evaluate b).map fun _ => none
  | .print e => (e.evaluate b).map fun value => some (.printed value)
  | .declare name (some e) => (e.evaluate b).map fun value => some (.defined name.lexeme value)
  | .declare name none => .ok (some (.defined name.lexeme .nil))

/-- Executes statements in order, up to the first that fails. -/
def execute (b : Bindings) : List Stmt → Run (Except Failure Unit)
  | [] => ⟨[], .ok ()⟩
  | s :: rest =>
    match s.execute b with
    | .error failure => ⟨[], .error failure⟩
    | .ok none => execute b rest
    | .ok (some event) =>
      let later := execute (b.after event) rest
      ⟨event :: later.events, later.ending⟩

/-! ## Sources -/

/-- How the processing of a source ended. -/
inductive Status where
  | ok
  /-- The text has errors, and nothing was executed. -/
  | staticError
  /-- Execution stopped at a fault. -/
  | runtimeError
deriving DecidableEq, Repr

/-- The statements among attempts. -/
def Grammar.statements (attempts : List Grammar.Attempt) : List Stmt :=
  attempts.filterMap fun a => a.result.toOption

/-- The diagnostics among attempts. -/
def Grammar.errors (attempts : List Grammar.Attempt) : List Diagnostic :=
  attempts.filterMap fun a =>
    match a.result with
    | .ok _ => none
    | .error diagnostic => some diagnostic

/-- Scans and parses a source: the errors are reported, the lexical ones first,
and the statements are given if there are none. -/
def analyse (source : String) : Run (Option (List Stmt)) :=
  let items := Source.scan source
  let lexical := Source.errors items
  let attempts := Grammar.attempts (Source.tokens items)
  let syntactic := Grammar.errors attempts
  let statements := Grammar.statements attempts
  let hadError := !(lexical.isEmpty && syntactic.isEmpty)
  { events :=
      [.scanned items.length (Source.lineCount source)] ++
      lexical.map .reported ++
      (attempts.flatMap Grammar.Attempt.skipped).map .discarded ++
      syntactic.map .reported ++
      [.parsed statements.length hadError]
    ending := if hadError then none else some statements }

/-- The events at the end of an execution, and the status of its source. A fault
is reported. -/
def conclude : Except Failure Unit → Run (Except BrokenTree Status)
  | .ok () => ⟨[], .ok .ok⟩
  | .error (.fault site cause) => ⟨[.reported (.runtime site cause.message)], .ok .runtimeError⟩
  | .error (.broken tree) => ⟨[], .error tree⟩

/-- Runs a source. -/
def run (b : Bindings) (source : String) : Run (Except BrokenTree Status) :=
  let analysis := analyse source
  match analysis.ending with
  | none => ⟨analysis.events, .ok .staticError⟩
  | some statements =>
    let execution := execute b statements
    let conclusion := conclude execution.ending
    ⟨analysis.events ++ [.started statements.length] ++ execution.events ++ conclusion.events,
      conclusion.ending⟩

/-- Outlines a source instead of running it. -/
def outline (source : String) : Run Status :=
  let analysis := analyse source
  match analysis.ending with
  | none => ⟨analysis.events, .staticError⟩
  | some statements => ⟨analysis.events ++ statements.map .outlined, .ok⟩

end LoxLang
