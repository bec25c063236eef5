import CommandShell.Path
import CommandShell.System

/-! # File systems in memory

A file system maps absolute positions to nodes. A position is the list of names from the root. Links
are followed wherever a path leads through them, up to a fixed number of times.
-/

namespace CommandShell

inductive FileError where
  | noEntry
  | notDirectory
  | isDirectory
  | tooManyLinks
  | denied
  | badFormat
  | nulByte
deriving DecidableEq, Repr

def FileError.reason : FileError → String
  | .noEntry => "No such file or directory"
  | .badFormat => "Exec format error"
  | .denied => "Permission denied"
  | .notDirectory => "Not a directory"
  | .isDirectory => "Is a directory"
  | .tooManyLinks => "Too many levels of symbolic links"
  | .nulByte => "nul byte found in provided data"

def FileError.number? : FileError → Option Nat
  | .noEntry => some 2
  | .badFormat => some 8
  | .denied => some 13
  | .notDirectory => some 20
  | .isDirectory => some 21
  | .tooManyLinks => some 40
  | .nulByte => none

def FileError.message (e : FileError) : String :=
  match e.number? with
  | some n => e.reason ++ " (os error " ++ toString n ++ ")"
  | none => e.reason

def FileError.toSystem : FileError → SystemError
  | .denied => .permissionDenied
  | e => .other e.message

inductive Tool where
  | sh
  | echo
  | cat
  | status (code : Nat)
deriving DecidableEq, Repr

inductive Node where
  | file (bytes : List UInt8) (mode : Nat)
  | directory
  | link (target : String)
  | tool (tool : Tool)
  | null
deriving DecidableEq, Repr

/-- The names from the root. -/
abbrev Position := List String

structure FileSystem where
  nodes : List (Position × Node) := []

namespace FileSystem

def pathOf (p : Position) : String := "/" ++ "/".intercalate p

def linkLimit : Nat := 40

def node? (fs : FileSystem) (p : Position) : Option Node :=
  if p = [] then some .directory else (fs.nodes.find? (·.1 == p)).map (·.2)

def put (fs : FileSystem) (p : Position) (n : Node) : FileSystem :=
  if (fs.node? p).isSome then
    { nodes := fs.nodes.map fun e => if e.1 == p then (p, n) else e }
  else { nodes := fs.nodes ++ [(p, n)] }

/-- Follows names from a position. The empty name and `.` stay where they are, which only a
directory allows. -/
def walk (fs : FileSystem) (links : Nat) (position : Position) (names : List String) :
    Except FileError Position :=
  match names with
  | [] => .ok position
  | name :: names =>
    match fs.node? position with
    | none => .error .noEntry
    | some .directory =>
      if name = "" || name = "." then fs.walk links position names
      else if name = ".." then fs.walk links position.dropLast names
      else match fs.node? (position ++ [name]) with
        | none => .error .noEntry
        | some (.link target) =>
          match links with
          | 0 => .error .tooManyLinks
          | links + 1 =>
            fs.walk links (if Path.isAbsolute target then [] else position)
              (Path.names target ++ names)
        | some _ => fs.walk links (position ++ [name]) names
    | some _ => .error .notDirectory
termination_by (links, names.length)

def positionOf (path : String) : Position := (Path.names path).filter (· != "")

/-- The position that a path leads to from a directory. -/
def resolve (fs : FileSystem) (directory path : String) : Except FileError Position :=
  if path.isEmpty then .error .noEntry
  else if path.toList.contains '\x00' then .error .nulByte
  else fs.walk linkLimit (if Path.isAbsolute path then [] else positionOf directory)
    (Path.names path)

def lookup (fs : FileSystem) (directory path : String) : Except FileError (Position × Node) :=
  match fs.resolve directory path with
  | .ok p => match fs.node? p with
    | some n => .ok (p, n)
    | none => .error .noEntry
  | .error e => .error e

/-- Whether the mode lets anybody run the file. -/
def isExecutableMode (mode : Nat) : Bool := mode &&& 0o111 != 0

def access (fs : FileSystem) (directory path : String) : Access :=
  match fs.lookup directory path with
  | .ok (_, .file _ mode) => if isExecutableMode mode then .executable else .denied
  | .ok (_, .tool _) => .executable
  | .ok _ => .denied
  | .error _ => .missing

def canonical? (fs : FileSystem) (directory path : String) : Option String :=
  match fs.lookup directory path with
  | .ok (p, _) => some (pathOf p)
  | .error _ => none

def isDirectory (fs : FileSystem) (directory path : String) : Bool :=
  match fs.lookup directory path with
  | .ok (_, .directory) => true
  | _ => false

/-- A directory can be opened, but reading it fails. -/
def contents? (fs : FileSystem) (directory path : String) : Option Contents :=
  match fs.lookup directory path with
  | .ok (_, .file bytes _) => some { bytes }
  | .ok (_, .directory) => some { bytes := [], failure := some FileError.isDirectory.message }
  | .ok _ => some { bytes := [] }
  | .error _ => none

/-- Makes a directory and those above it. -/
def makeDirectories (fs : FileSystem) (p : Position) : FileSystem :=
  (List.range p.length).foldl
    (fun fs i =>
      let above := p.take (i + 1)
      if (fs.node? above).isSome then fs else fs.put above .directory) fs

/-- Puts a node at a position and makes the directories above it. -/
def place (fs : FileSystem) (p : Position) (n : Node) : FileSystem :=
  (fs.makeDirectories p.dropLast).put p n

/-- The position where a file would be made: its directory is there, and it is not. -/
def newPosition (fs : FileSystem) (directory path : String) : Except FileError Position :=
  match (Path.names path).reverse with
  | [] => .error .noEntry
  | name :: above =>
    if name = "" || name = "." || name = ".." then .error .isDirectory
    else
      let parent := "/".intercalate above.reverse
      let parent := if Path.isAbsolute path then "/" ++ parent else "./" ++ parent
      match fs.lookup directory parent with
      | .ok (p, .directory) => .ok (p ++ [name])
      | .ok _ => .error .notDirectory
      | .error e => .error e

/-- Adds bytes to the end of a file, or replaces its contents. A missing file is made. -/
def write (fs : FileSystem) (directory path : String) (append : Bool) (bytes : List UInt8) :
    Except FileError FileSystem :=
  match fs.lookup directory path with
  | .ok (p, .file old mode) => .ok (fs.put p (.file (if append then old ++ bytes else bytes) mode))
  | .ok (_, .directory) => .error .isDirectory
  | .ok (_, .null) => .ok fs
  | .ok _ => .error .denied
  | .error .noEntry =>
    match fs.newPosition directory path with
    | .ok p => if (fs.node? p).isSome then .error .noEntry else .ok (fs.put p (.file bytes 0o644))
    | .error e => .error e
  | .error e => .error e

end FileSystem

end CommandShell
