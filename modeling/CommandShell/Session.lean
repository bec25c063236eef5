import CommandShell.Variables
import CommandShell.History
import CommandShell.RawPath
import CommandShell.Text.Decimal

/-! # Sessions

What a session remembers from one command to the next, and the values of its parameters.
-/

namespace CommandShell

/-- Zero stands for success. -/
abbrev Status := Int

structure Session where
  vars : Variables := .empty
  aliases : Aliases := .empty
  history : History
  directory : RawPath
  name : String
  positional : List String := []
  processId : Nat
  lastStatus : Status := 0
  lineNumber : Nat := 0
  exitRequest : Option Status := none

namespace Session

def defaultHistorySize : Nat := 4096

/-- The value of a parameter. Digits name an argument, counted from one; all but the special names
are variables. -/
def parameter? (s : Session) (name : String) : Option String :=
  if name = "?" then some (toString s.lastStatus)
  else if name = "$" then some (toString s.processId)
  else if name = "#" then some (toString s.positional.length)
  else if name = "0" then some s.name
  else match Decimal.digits? Decimal.wordBound name with
    | some 0 => none
    | some (i + 1) => s.positional[i]?
    | none => s.vars.value? name

def setVariable (s : Session) (name value : String) : Session :=
  { s with vars := s.vars.set name value }

def recordStatus (s : Session) (status : Status) : Session := { s with lastStatus := status }

end Session

end CommandShell
