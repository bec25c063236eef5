import CommandShell.Shell.Run

/-! # The command line of the shell

The shell is called with an optional size of its history and with operands: the first names a script
and the others are its arguments. Without operands the commands come from the standard input.
-/

namespace CommandShell.CommandLine

open Arguments

structure Call (σ : Type) where
  name : String
  arguments : List String
  environment : List (String × String)
  directory : RawPath
  processId : Nat
  world : σ
  out : Stream
  err : Stream

/-- The last name of a path; the whole path if it has none. -/
def commandName (path : String) : String :=
  match (Path.components path).getLast? with
  | none | some "." | some ".." => path
  | some name => name

def historySizeOption : String := "--history-size"

def form (path : String) : Form where
  command := commandName path
  summary := "Homemade shell: runs commands from a script file, or from standard input "
    ++ "when no script is given."
  numbers := [{
    long := historySizeOption
    placeholder := "history-size"
    description := "number of command lines kept in the session history." }]
  operands := .any "operands"

def refusalText (path : String) (refusal : Refusal) : String :=
  refusal.message ++ "\nRun " ++ commandName path ++ " " ++ helpOption
    ++ " for more information.\n"

def failureCode : Nat := 1

/-- The exit code of a call that cannot say what it has to say. -/
def abortCode : Nat := 101

/-- Only the low eight bits of a status can be told to the caller. -/
def exitCode (status : Status) : Nat := (status % 256).toNat

structure Ended (σ : Type) where
  code : Nat
  out : Stream
  err : Stream
  world : σ

def conclude (stream : Stream) (texts : List String) (code : Nat) : Nat × Stream :=
  match stream.writeAll texts with
  | (.ok (), stream) => (code, stream)
  | (.error _, stream) => (abortCode, stream)

variable {σ : Type}

/-- The session at the start: every variable of the environment is exported. -/
def startSession (call : Call σ) (historySize : Nat) (positional : List String) : Session where
  vars := call.environment.foldl (fun vs (name, value) => vs.setExported name value) .empty
  history := { capacity := historySize }
  directory := call.directory
  name := call.name
  positional
  processId := call.processId

def startShell (call : Call σ) (historySize : Nat) (positional : List String) : Shell σ where
  session := startSession call historySize positional
  processDirectory := call.directory
  world := call.world
  out := call.out
  err := call.err

def runInput (sys : System σ) (sh : Shell σ) : Except ReadError Status × Shell σ :=
  let (source, world) := sys.input sh.world
  let r := Shell.runSource sys { source } { sh with world }
  (r.result, r.shell)

/-- Runs the script that the operands name, or the standard input. -/
def runOperands (sys : System σ) (call : Call σ) (historySize : Nat) :
    List String → Except ReadError Status × Shell σ
  | [] => runInput sys (startShell call historySize [])
  | script :: positional => Shell.runScript sys script (startShell call historySize positional)

def run (sys : System σ) (call : Call σ) : Ended σ :=
  let form := form call.name
  match parse form call.arguments with
  | .help =>
    let (code, out) := conclude call.out [form.usage, "\n"] 0
    { code, out, err := call.err, world := call.world }
  | .refused refusal =>
    let (code, err) := conclude call.err [refusalText call.name refusal] failureCode
    { code, out := call.out, err, world := call.world }
  | .accepted given =>
    let historySize := (given.number? historySizeOption).getD Session.defaultHistorySize
    match runOperands sys call historySize given.operands with
    | (.ok status, sh) =>
      { code := exitCode status, out := sh.out, err := sh.err, world := sh.world }
    | (.error error, sh) =>
      let (code, err) := conclude sh.err [sh.session.name, ": ", error.message, "\n"] failureCode
      { code, out := sh.out, err, world := sh.world }

end CommandShell.CommandLine
