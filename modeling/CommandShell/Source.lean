import CommandShell.Text.Lines
import CommandShell.Text.Utf8

/-! # Sources of lines

A source is what happens when lines are asked for, in order: a line, an end of the input, or a
failure. After the last event every request finds the end of the input.
-/

namespace CommandShell

inductive ReadError where
  | interrupted
  | failed (reason : String)
  | editor (reason : String)
deriving DecidableEq, Repr

def ReadError.message : ReadError → String
  | .interrupted => "interrupted"
  | .failed reason => "read error: " ++ reason
  | .editor reason => "line editor error: " ++ reason

inductive Event where
  | line (text : String)
  | endOfInput
  | failure (error : ReadError)
deriving DecidableEq, Repr

/-- A person types the input of an interactive source and is shown prompts, on the standard output
if that is where they are displayed. -/
structure Source where
  events : List Event
  interactive : Bool := false
  display : Bool := false
deriving DecidableEq, Repr

namespace Source

def lineFeed : UInt8 := 0x0A
def carriageReturn : UInt8 := 0x0D

/-- The lines of a byte sequence. When reading fails at its end, an unfinished last line is lost. -/
def ofBytes (bytes : List UInt8) (failure : Option String := none) : Source :=
  match failure with
  | none =>
    { events := (Lines.all lineFeed carriageReturn bytes).map fun l => .line (Utf8.decode l) }
  | some reason =>
    let lines := (Lines.completed lineFeed carriageReturn bytes).1
    { events := lines.map (fun l => .line (Utf8.decode l)) ++ [.failure (.failed reason)] }

def ofText (text : String) : Source := ofBytes (Utf8.encode text)

end Source

end CommandShell
