import CommandShell.Machine.Script.Run
import CommandShell.Machine.Tool
import CommandShell.Terminal

/-! # Machines

A machine is a system in memory: files, and the programs that can be run from them. A program is a
tool of the machine, or a script whose first line names its interpreter.
-/

namespace CommandShell

structure Machine where
  files : FileSystem := {}
  input : List UInt8 := []
  terminal : Bool := false

namespace Machine

def interpreterPath : String := "/bin/sh"

def standardDirectories : List Position :=
  [["dev"], ["etc"], ["home"], ["opt"], ["proc"], ["root"], ["sys"], ["tmp"], ["usr"],
   ["usr", "bin"], ["usr", "lib"], ["usr", "local"], ["usr", "sbin"], ["var"]]

def baseFiles : FileSystem where
  nodes := standardDirectories.map (·, .directory) ++
    [(["bin"], .link "usr/bin"), (["lib"], .link "usr/lib"), (["sbin"], .link "usr/sbin"),
     (["dev", "null"], .null), (["usr", "bin", "cat"], .tool .cat),
     (["usr", "bin", "echo"], .tool .echo), (["usr", "bin", "false"], .tool (.status 1)),
     (["usr", "bin", "sh"], .tool .sh), (["usr", "bin", "true"], .tool (.status 0))]

def interpreterLimit : Nat := 5

def lineSpace (b : UInt8) : Bool := b == 0x20 || b == 0x09

/-- The interpreter that the first line of a script names, and the one argument it may give. -/
def interpreterLine? (bytes : List UInt8) : Option (String × Option String) :=
  match bytes with
  | 0x23 :: 0x21 :: bytes =>
    let line := (bytes.takeWhile (· != 0x0A)).dropWhile lineSpace
    let path := line.takeWhile fun b => !lineSpace b
    let rest := (line.dropWhile fun b => !lineSpace b).dropWhile lineSpace
    let rest := (rest.reverse.dropWhile lineSpace).reverse
    if path.isEmpty then none
    else some (Utf8.decode path, if rest.isEmpty then none else some (Utf8.decode rest))
  | _ => none

/-- The tool that running a file comes down to, and the arguments that it gets. -/
def findTool (files : FileSystem) (directory : String) :
    Nat → String → List String → Except FileError (Tool × List String)
  | 0, _, _ => .error .tooManyLinks
  | fuel + 1, path, arguments =>
    match files.lookup directory path with
    | .error e => .error e
    | .ok (_, .tool tool) => .ok (tool, arguments)
    | .ok (_, .file bytes mode) =>
      if !FileSystem.isExecutableMode mode then .error .denied
      else match interpreterLine? bytes with
        | none => .error .badFormat
        | some (interpreter, argument) =>
          findTool files directory fuel interpreter
            (interpreter :: argument.toList ++ path :: arguments.tail)
    | .ok _ => .error .denied

/-- Like `findTool`, for a name that is looked up in the search list of the child process. A file
without an interpreter line is run as a script. -/
def searchTool (files : FileSystem) (directory : String) (arguments : List String)
    (denied : Bool) : List String → Except FileError (Tool × List String)
  | [] => .error (if denied then .denied else .noEntry)
  | path :: paths =>
    match findTool files directory interpreterLimit path arguments with
    | .ok found => .ok found
    | .error .badFormat =>
      findTool files directory interpreterLimit interpreterPath
        (interpreterPath :: path :: arguments.tail)
    | .error .denied => searchTool files directory arguments true paths
    | .error .noEntry | .error .notDirectory =>
      searchTool files directory arguments denied paths
    | .error e => .error e

def toolOf (files : FileSystem) (launch : Launch) : Except FileError (Tool × List String) :=
  if launch.program.toList.contains '/' then
    findTool files launch.directory interpreterLimit launch.program launch.arguments
  else
    let search := (launch.environment.get? "PATH").getD PathSearch.standard
    searchTool files launch.directory launch.arguments false
      (PathSearch.candidates search launch.program)

def hasNul (s : String) : Bool := s.toList.contains '\x00'

def scriptOf (files : FileSystem) (directory : String) (input : List UInt8) :
    List String → Except String (String × String × List String)
  | _ :: "-c" :: text :: name :: arguments => .ok (text, name, arguments)
  | [own, "-c", text] => .ok (text, own, [])
  | own :: path :: arguments =>
    match files.contents? directory path with
    | some contents => .ok (Utf8.decode contents.bytes, path, arguments)
    | none => .error (own ++ ": 0: cannot open " ++ path ++ ": No such file\n")
  | own => .ok (Utf8.decode input, own.headD "", [])

def runInterpreter (m : Machine) (launch : Launch) (arguments : List String) :
    Finished × Machine :=
  match scriptOf m.files launch.directory m.input arguments with
  | .error text => ({ ending := .exited 2, written := [(.diagnostics, Utf8.encode text)] }, m)
  | .ok (text, name, arguments) =>
    match Script.parse? text with
    | none =>
      ({ ending := .exited 2
         written := [(.diagnostics, Utf8.encode (name ++ ": 1: Syntax error\n"))] }, m)
    | some script =>
      let p := script.run
        { files := m.files
          directory := launch.directory
          input := m.input
          name
          arguments
          vars := launch.environment.insert "PWD" launch.directory }
      ({ ending := p.ending.getD (.exited (p.lastStatus % 256)), written := p.written.reverse },
        { m with files := p.files, input := p.input })

def spawn (m : Machine) (launch : Launch) : Except SystemError Finished × Machine :=
  if launch.arguments.any hasNul
      || launch.environment.toList.any (fun e => hasNul e.1 || hasNul e.2) then
    (.error FileError.nulByte.toSystem, m)
  else match toolOf m.files launch with
    | .error e => (.error e.toSystem, m)
    | .ok (.sh, arguments) =>
      let (finished, m) := m.runInterpreter launch arguments
      (.ok finished, m)
    | .ok (tool, arguments) =>
      let effect := tool.run m.files launch.directory m.input arguments
      (.ok { ending := .exited effect.code, written := effect.written },
        { m with input := effect.input })

def takeInput (m : Machine) : Source × Machine :=
  (if m.terminal then Terminal.source m.input else .ofBytes m.input, { m with input := [] })

/-- What a shell asks of a machine. The names in it are texts, so no other path leads anywhere. -/
def system : System Machine where
  access m directory path := m.files.access directory path
  canonical? m directory path :=
    path.text?.bind fun path => (m.files.canonical? directory path).map .ofText
  isDirectory m directory path := path.text?.any (m.files.isDirectory directory)
  canEnter m path := path.text?.any (m.files.isDirectory "/")
  contents? m directory path := m.files.contents? directory path
  spawn := spawn
  input := takeInput

end Machine

end CommandShell
