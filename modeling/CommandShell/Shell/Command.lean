import CommandShell.Builtin.Run
import CommandShell.Lexer.Basic

/-! # Running commands

A command is a built-in command or a program. Its status is recorded in the session, whatever it is.
-/

namespace CommandShell

inductive SpawnError where
  | permissionDenied
  | failed (reason : String)
deriving DecidableEq, Repr

namespace SpawnError

def ofSystem : SystemError → SpawnError
  | .permissionDenied => .permissionDenied
  | e => .failed e.message

def message : SpawnError → String
  | .permissionDenied => "Permission denied"
  | .failed reason => "cannot execute: " ++ reason

end SpawnError

def notFoundStatus : Status := 127

def notExecutableStatus : Status := 126

/-- A killed process has the status 128 and the number of the signal. -/
def Ending.status : Ending → Status
  | .exited code => code
  | .killed signal => 128 + signal

namespace Shell

variable {σ : Type}

/-- What a child process wrote goes to the devices of the streams that it shares. -/
def receive (sh : Shell σ) (written : List (Channel × List UInt8)) : Shell σ :=
  written.foldl (fun sh (channel, bytes) =>
    match channel with
    | .output => { sh with out := sh.out.receive bytes }
    | .diagnostics => { sh with err := sh.err.receive bytes }) sh

/-- The variables of a child process: the exported ones, and over them the assignments. -/
def childEnvironment (s : Session) (assignments : List (String × String)) : Table String :=
  (s.vars.exportedList ++ assignments).foldl (fun t (name, value) => t.insert name value)
    .empty

def runBuiltin (sys : System σ) (b : Builtin) (name : String) (arguments : List String)
    (sh : Shell σ) : Status × Shell σ :=
  let (r, sh) := (b.request arguments).execute sys sh
  let sh := sh.flush
  match r with
  | .ok status => (status, sh)
  | .error e => (misuseStatus, sh.report [name, ": ", e.message])

def runProgram (sys : System σ) (program name : String) (arguments : List String)
    (assignments : List (String × String)) (sh : Shell σ) : Status × Shell σ :=
  let (r, world) := sys.spawn sh.world
    { program
      arguments := name :: arguments
      environment := childEnvironment sh.session assignments
      directory := sh.session.directory }
  let sh := { sh with world }
  match r with
  | .ok finished => (finished.ending.status, (sh.receive finished.written).flush)
  | .error e =>
    (notExecutableStatus, sh.flush.report [name, ": ", (SpawnError.ofSystem e).message])

def searchList (s : Session) : String := (s.parameter? "PATH").getD ""

/-- Runs what a name stands for. Assignments before a built-in command have no effect. -/
def dispatch (sys : System σ) (name : String) (arguments : List String)
    (assignments : List (String × String)) (sh : Shell σ) : Status × Shell σ :=
  match Builtin.ofName? name with
  | some b => runBuiltin sys b name arguments sh
  | none =>
    match PathSearch.resolve (sys.access sh.world sh.processDirectory) (searchList sh.session) name
    with
    | .found program => runProgram sys program name arguments assignments sh
    | .notExecutable _ => (notExecutableStatus, sh.report [name, ": Permission denied"])
    | .notFound => (notFoundStatus, sh.report [name, ": not found"])

def record (r : Status × Shell σ) : Status × Shell σ :=
  (r.1, r.2.update (·.recordStatus r.1))

def run (sys : System σ) (name : String) (arguments : List String) (sh : Shell σ) :
    Status × Shell σ :=
  record (dispatch sys name arguments [] sh)

def assign (assignments : List (String × String)) (s : Session) : Session :=
  assignments.foldl (fun s (name, value) => s.setVariable name value) s

theorem assign_eq (assignments : List (String × String)) (s : Session) :
    assign assignments s = { s with vars := (assign assignments s).vars } := by
  induction assignments generalizing s with
  | nil => rfl
  | cons a assignments ih => exact ih (s.setVariable a.1 a.2)

/-- Runs the words of one line. A line of assignments alone sets variables; a line without words
leaves the status as it is. -/
def execute (sys : System σ) (words : List Word) (sh : Shell σ) : Status × Shell σ :=
  if words.isEmpty then (sh.session.lastStatus, sh)
  else
    let e := Expansion.expand {} sh.session words
    match e.arguments with
    | [] => record (0, sh.update (assign e.assignments))
    | name :: arguments => record (dispatch sys name arguments e.assignments sh)

def malformedLine (error : LexError) : String := "Syntax error: " ++ error.message

def reject (error : LexError) (sh : Shell σ) : Status × Shell σ :=
  record (misuseStatus, sh.report [malformedLine error])

def runLine (sys : System σ) (line : String) (sh : Shell σ) : Status × Shell σ :=
  match ({} : Lexer).split line with
  | .ok words => execute sys words sh
  | .error error => reject error sh

end Shell

end CommandShell
