import CommandShell.Path

/-! # Finding a program

A command name that is a single path component is looked up in the directories of a search list. Any
other name is a path of its own.
-/

namespace CommandShell

/-- What is denied is there, and no executable file. -/
inductive Access where
  | executable
  | denied
  | missing
deriving DecidableEq, Repr

inductive Resolution where
  | found (path : String)
  | notExecutable (path : String)
  | notFound
deriving DecidableEq, Repr

namespace PathSearch

def check (access : String → Access) (path : String) : Resolution :=
  match access path with
  | .executable => .found path
  | .denied => .notExecutable path
  | .missing => .notFound

/-- The first executable path of a list, else the first that is there at all. -/
def first (access : String → Access) : List String → Resolution
  | [] => .notFound
  | path :: paths =>
    match access path with
    | .executable => .found path
    | .missing => first access paths
    | .denied =>
      match first access paths with
      | .found path => .found path
      | .notExecutable _ | .notFound => .notExecutable path

/-- The paths a name may stand for. An empty directory leaves the bare name. -/
def candidates (search name : String) : List String :=
  (Path.cut ':' search).map fun directory => Path.join directory name

def standard : String := "/bin:/usr/bin"

/-- The program a command name stands for. -/
def resolve (access : String → Access) (search name : String) : Resolution :=
  if Path.isAbsolute name then check access name
  else if Path.components name = [] then .notFound
  else match Path.singleName? name with
    | some single => first access (candidates search single)
    | none => check access name

end PathSearch

end CommandShell
