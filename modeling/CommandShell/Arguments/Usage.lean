import CommandShell.Arguments.Form

/-! # Usage texts

The usage text that the argument parser is assumed to print for a form: a line with the shape of the
command, the summary, and one entry for each described operand and option. Descriptions start at a
fixed column and are wrapped between words.
-/

namespace CommandShell.Arguments

def descriptionColumn : Nat := 20

def lineWidth : Nat := 80

def padTo (n : Nat) (s : String) : String := s ++ "".pushn ' ' (n - s.length)

/-- Puts words after each other, on a new line where the next one does not fit. -/
def wrap (line : String) : List String → String
  | [] => line ++ "\n"
  | word :: words =>
    if lineWidth < line.length + 1 + word.length then
      line ++ "\n" ++ wrap (padTo descriptionColumn "" ++ word) words
    else wrap (line ++ " " ++ word) words

def descriptionWords (s : String) : List String := s.splitOn " "

/-- One entry: a name and its description. A name that reaches the column has a line of its own. -/
def entry (name description : String) : String :=
  let label := "  " ++ name
  let start :=
    if label.length < descriptionColumn then padTo descriptionColumn label
    else label ++ "\n" ++ padTo descriptionColumn ""
  match descriptionWords description with
  | [] => start ++ "\n"
  | word :: words => wrap (start ++ word) words

def Operand.shape (o : Operand) : String :=
  if o.required then " <" ++ o.name ++ ">" else " [<" ++ o.name ++ ">]"

def Operands.shape : Operands → String
  | .fixed [] => ""
  | .fixed operands => " [" ++ endMark ++ "]" ++ String.join (operands.map Operand.shape)
  | .any name => " [" ++ name ++ "...]"

def Operands.entries : Operands → String
  | .fixed [] | .any _ => ""
  | .fixed operands =>
    "Positional Arguments:\n" ++ String.join (operands.map fun o => entry o.name o.description)
      ++ "\n"

def Form.usage (form : Form) : String :=
  "Usage: " ++ form.command
    ++ String.join (form.flags.map fun f => " [" ++ f.short ++ "]")
    ++ String.join (form.numbers.map fun o => " [" ++ o.long ++ " <" ++ o.placeholder ++ ">]")
    ++ form.operands.shape
    ++ "\n\n" ++ form.summary ++ "\n\n"
    ++ form.operands.entries
    ++ "Options:\n"
    ++ String.join (form.flags.map fun f => entry (f.short ++ ", " ++ f.long) f.description)
    ++ String.join (form.numbers.map fun o => entry o.long o.description)
    ++ entry (helpOption ++ ", " ++ helpWord) "display usage information"

end CommandShell.Arguments
