import LoxLang.Command.Arguments
import LoxLang.Session

/-!
# The command

The program behind the command line as a function: from the arguments, the files
and the standard input to the exit code and the two standard streams. A script
is one run; the prompt is one run for each line of input, on bindings that stay.

Log entries share the error stream with the diagnostics and come in the order of
the events. What the program does depends on its arguments only through what
they ask for (`answer`).
-/

namespace LoxLang.Command

/-! ## Texts -/

/-- The answer to a request for the version. -/
def versionText : String := "lox-walk 0.1.0\n"

/-- The answer to a request for help, laid out for a stream that is no terminal:
colours are left out. -/
def helpText : String :=
  "A tree-walking interpreter for Lox\n\n" ++
  "Usage: main [OPTIONS] [SCRIPT]\n\n" ++
  "Arguments:\n" ++
  "  [SCRIPT]  Script to run. Starts an interactive prompt when omitted\n\n" ++
  "Options:\n" ++
  "      --print-ast   Print each parsed statement instead of executing it\n" ++
  "  -v, --verbose...  Log more (-v for debug, -vv for trace)\n" ++
  "  -h, --help        Print help\n" ++
  "  -V, --version     Print version\n"

/-- The answer to arguments that cannot be accepted. What is wrong with them is left
out. -/
def usageText : String :=
  "error: invalid arguments\n\nUsage: main [OPTIONS] [SCRIPT]\n\n" ++
  "For more information, try '--help'.\n"

/-- What stands in front of each line of the prompt. -/
def promptText : String := "> "

/-- The last words of a prompt whose input is no text. -/
def promptFailure (error : IoError) : String :=
  "Error: Error \x7b kind: " ++ error.kind.name ++ ", message: \"" ++ error.text ++ "\" \x7d\n"

/-! ## Streams -/

/-- What was written to the two standard streams. -/
structure Streams where
  stdout : String
  stderr : String
deriving DecidableEq, Repr

/-- What an event puts on the error stream: a diagnostic, or a log entry that the
verbosity shows. -/
def errorLine (verbosity : Nat) (event : Event) : String :=
  match event.line?, event.entry? with
  | some (.diagnostics, text), _ => text
  | _, some entry => if entry.level.isShown verbosity then entry.text ++ "\n" else ""
  | _, none => ""

/-- What events put on the two streams. Output and outlines share one. -/
def streams (verbosity : Nat) (events : List Event) : Streams where
  stdout := String.join <| events.filterMap fun event =>
    match event.line? with
    | some (.output, text) | some (.outline, text) => some text
    | _ => none
  stderr := String.join (events.map (errorLine verbosity))

/-! ## Outcomes -/

/-- How the program ended. -/
structure Outcome where
  exit : Nat
  streams : Streams
deriving DecidableEq, Repr

/-- The exit code of a run that ended with a status. -/
def exitCode : Status → Nat
  | .ok => 0
  | .staticError => 65
  | .runtimeError => 70

/-- The exit code of a run. No source gives a broken tree. -/
def runExitCode : Except BrokenTree Status → Nat
  | .ok status => exitCode status
  | .error _ => 101

/-- The run of a source as the options ask for it. -/
def process (o : Options) (b : Bindings) (source : String) : Run (Except BrokenTree Status) :=
  if o.outline then
    let r := outline source
    ⟨r.events, .ok r.ending⟩
  else run b source

/-! ## Scripts -/

/-- The log entry about a script that cannot be read. -/
def unreadable (path : String) : LogEntry :=
  ⟨.error, "could not run script", [("path", path)]⟩

/-- Runs a script. -/
def script (o : Options) (path : String) (file : Except IoError (List UInt8)) : Outcome :=
  match fileText file with
  | .ok source =>
    let r := process o .empty source
    ⟨runExitCode r.ending, streams o.verbosity r.events⟩
  | .error error =>
    ⟨74, ⟨"", (unreadable path).text ++ "\n" ++ (Diagnostic.io error).text ++ "\n"⟩⟩

/-! ## The prompt -/

/-- The lines of an input, each with its line break; the last may lack one. -/
def lines : List UInt8 → List (List UInt8)
  | [] => []
  | byte :: rest =>
    if byte = 10 then [byte] :: lines rest
    else match lines rest with
      | [] => [[byte]]
      | line :: others => (byte :: line) :: others

/-- The prompt from given bindings on: one run for each line. A line that is no
text ends it. -/
def prompt (o : Options) (b : Bindings) : List (List UInt8) → Outcome
  | [] => ⟨0, ⟨promptText, ""⟩⟩
  | line :: rest =>
    match fileText (.ok line) with
    | .ok source =>
      let events := (process o b source).events
      let now := streams o.verbosity events
      let later := prompt o (b.afterAll events) rest
      ⟨later.exit,
        ⟨promptText ++ now.stdout ++ later.streams.stdout, now.stderr ++ later.streams.stderr⟩⟩
    | .error error => ⟨1, ⟨promptText, promptFailure error⟩⟩

/-! ## The program -/

/-- What is done at a request, with a way to read files and the standard input. -/
def answer (asked : Request) (read : String → Except IoError (List UInt8))
    (stdin : List UInt8) : Outcome :=
  match asked with
  | .help => ⟨0, ⟨helpText, ""⟩⟩
  | .version => ⟨0, ⟨versionText, ""⟩⟩
  | .refused => ⟨2, ⟨"", usageText⟩⟩
  | .start o =>
    match o.script with
    | some path => script o path (read path)
    | none => prompt o .empty (lines stdin)

/-- The program: arguments, a way to read files, and the standard input. -/
def invoke (arguments : List String) (read : String → Except IoError (List UInt8))
    (stdin : List UInt8) : Outcome :=
  answer (request arguments) read stdin

end LoxLang.Command
