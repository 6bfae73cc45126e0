/-!
# Command-line arguments

Arguments are read from left to right, and the first that settles the matter
does so: a request for help or the version, or something that cannot be
accepted. Flags may be clustered behind one dash, may follow the script, and end
at `--`. These are conventions of command lines in general; what is particular to
this one are the names of its flags.
-/

namespace LoxLang.Command

/-- What a command line asks to run, and how. -/
structure Options where
  /-- The script to run; without one there is a prompt. -/
  script : Option String
  /-- Whether statements are outlined instead of executed. -/
  outline : Bool
  verbosity : Nat
deriving DecidableEq, Repr

/-- The options before any argument. -/
def Options.default : Options := ⟨none, false, 0⟩

/-- What a command line asks for. -/
inductive Request where
  | help
  | version
  | start (options : Options)
  | refused
deriving DecidableEq, Repr

/-- An argument taken in: the options so far, or a settled request. -/
abbrev Taken := Except Request Options

namespace Options

/-- Takes a script. There is at most one, and its name is not empty. -/
def takeScript (o : Options) (path : String) : Taken :=
  if path = "" || o.script.isSome then .error .refused
  else .ok { o with script := some path }

/-- Takes one flag of a cluster. -/
def takeShort (o : Options) : Char → Taken
  | 'v' => .ok { o with verbosity := o.verbosity + 1 }
  | 'h' => .error .help
  | 'V' => .error .version
  | _ => .error .refused

/-- Takes the flags of a cluster in order. -/
def takeCluster (o : Options) : List Char → Taken
  | [] => .ok o
  | c :: rest =>
    match o.takeShort c with
    | .ok o' => o'.takeCluster rest
    | .error request => .error request

/-- Takes a flag by its long name. The outline flag may be given once, and no flag
has a value. -/
def takeLong (o : Options) : String → Taken
  | "print-ast" => if o.outline then .error .refused else .ok { o with outline := true }
  | "verbose" => .ok { o with verbosity := o.verbosity + 1 }
  | "help" => .error .help
  | "version" => .error .version
  | _ => .error .refused

/-- Takes an argument where flags are allowed. A dash alone is no flag. -/
def take (o : Options) (argument : String) : Taken :=
  match argument.toList with
  | '-' :: '-' :: name => o.takeLong (String.ofList name)
  | '-' :: c :: rest => o.takeCluster (c :: rest)
  | _ => o.takeScript argument

/-- Takes arguments where no flags are allowed. -/
def takeScripts (o : Options) : List String → Request
  | [] => .start o
  | argument :: rest =>
    match o.takeScript argument with
    | .ok o' => o'.takeScripts rest
    | .error request => request

/-- Takes arguments in order. -/
def takeAll (o : Options) : List String → Request
  | [] => .start o
  | "--" :: rest => o.takeScripts rest
  | argument :: rest =>
    match o.take argument with
    | .ok o' => o'.takeAll rest
    | .error request => request

end Options

/-- What a command line asks for. -/
def request (arguments : List String) : Request :=
  Options.default.takeAll arguments

end LoxLang.Command
