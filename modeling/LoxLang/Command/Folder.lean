import LoxLang.Diagnostic

/-!
# A folder with one file

How paths lead from a folder that holds at most one file. A path is followed
name by name, and the first name that leads nowhere decides.
-/

namespace LoxLang.Command

/-- A folder that holds at most one file. -/
structure Folder where
  name : String
  content : Option (List UInt8)

namespace Folder

/-- A place that a path leads to. -/
inductive Place where
  /-- The folder itself. -/
  | here
  /-- A directory around it, of which nothing else is known. -/
  | outside
  | file (content : List UInt8)

/-- Follows one name of a path. An empty name and a dot stay in a directory. -/
def follow (f : Folder) (place : Place) (name : String) : Except IoError Place :=
  match place with
  | .file _ => .error .notDirectory
  | .outside => if name = "" || name = "." || name = ".." then .ok .outside else .error .missingFile
  | .here =>
    if name = "" || name = "." then .ok .here
    else if name = ".." then .ok .outside
    else match f.content with
      | some content => if name = f.name then .ok (.file content) else .error .missingFile
      | none => .error .missingFile

/-- Follows names in order. -/
def followAll (f : Folder) (place : Place) : List String → Except IoError Place
  | [] => .ok place
  | name :: rest =>
    match f.follow place name with
    | .ok next => f.followAll next rest
    | .error error => .error error

/-- The content of the file that a path leads to. A path that begins with a slash
does not begin in the folder. -/
def read (f : Folder) (path : String) : Except IoError (List UInt8) :=
  let names := path.splitOn "/"
  let start := match names with
    | "" :: _ :: _ => Place.outside
    | _ => Place.here
  match f.followAll start names with
  | .ok (.file content) => .ok content
  | .ok _ => .error .isDirectory
  | .error error => .error error

end Folder

end LoxLang.Command
