import CommandShell.Session
import CommandShell.System
import CommandShell.Output.Stream

/-! # The state of a shell

A shell is a session together with the process that runs it: its directory, its two output streams
and the system around it.
-/

namespace CommandShell

structure Shell (σ : Type) where
  session : Session
  processDirectory : RawPath
  world : σ
  out : Stream := {}
  err : Stream := {}

/-- A diagnostic: the name of the shell, the line number, and what there is to say. -/
def Session.diagnostic (s : Session) (fragments : List String) : List String :=
  [s.name, ": ", toString s.lineNumber, ": "] ++ fragments ++ ["\n"]

namespace Shell

variable {σ : Type}

def print (sh : Shell σ) (pieces : List String) : Except WriteFault Unit × Shell σ :=
  let (r, out) := sh.out.writeAll pieces
  (r, { sh with out })

/-- Writes a diagnostic to the standard error. That it cannot be written has no effect. -/
def report (sh : Shell σ) (fragments : List String) : Shell σ :=
  { sh with err := (sh.err.writeAndFlush (sh.session.diagnostic fragments)).2 }

/-- Hands everything that is kept to the devices, as far as they take it. -/
def flush (sh : Shell σ) : Shell σ :=
  { sh with out := sh.out.flush.2, err := sh.err.flush.2 }

def update (sh : Shell σ) (f : Session → Session) : Shell σ := { sh with session := f sh.session }

end Shell

end CommandShell
