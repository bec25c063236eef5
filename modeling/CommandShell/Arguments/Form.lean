import CommandShell.Text.Decimal

/-! # Command forms

A form says what arguments a command takes: flags, options with a number, and operands. Commands
hand their forms to a parser of arguments, `argh`, which is no part of the shell. What is assumed of
it is written out here (its refusals), in `Arguments.Parse` (which arguments it takes) and in
`Arguments.Usage` (the usage texts that it prints).
-/

namespace CommandShell.Arguments

structure Flag where
  long : String
  short : String
  description : String

structure NumberOption where
  long : String
  placeholder : String
  description : String

structure Operand where
  name : String
  required : Bool
  description : String

/-- Of a fixed number of operands the required ones come first. -/
inductive Operands where
  | fixed (operands : List Operand)
  | any (name : String)

structure Form where
  command : String
  summary : String
  flags : List Flag := []
  numbers : List NumberOption := []
  operands : Operands := .fixed []

/-- The most operands a form takes; nothing if there is no limit. -/
def Operands.limit : Operands → Option Nat
  | .fixed operands => some operands.length
  | .any _ => none

def Operands.hasRoom (count : Nat) (o : Operands) : Bool := o.limit.all (count < ·)

/-- The required operands that are missing when `count` are given. -/
def Operands.missing (count : Nat) : Operands → List String
  | .fixed operands => ((operands.drop count).filter (·.required)).map (·.name)
  | .any _ => []

/-- The word that asks for the usage text, and its spelling as an option. -/
def helpWord : String := "help"
def helpOption : String := "--help"

def endMark : String := "--"

inductive ValueFault where
  | repeated
  | malformed (fault : Decimal.Fault)
deriving DecidableEq, Repr

/-- Why arguments do not fit a form. -/
inductive Refusal where
  | afterHelp
  | unrecognized (argument : String)
  | valueMissing (option : String)
  | badValue (option value : String) (fault : ValueFault)
  | operandsMissing (names : List String)
deriving DecidableEq, Repr

def ValueFault.message : ValueFault → String
  | .repeated => "duplicate values provided"
  | .malformed fault => fault.message

def Refusal.message : Refusal → String
  | .afterHelp => "Trailing arguments are not allowed after `help`."
  | .unrecognized argument => "Unrecognized argument: " ++ argument ++ "\n"
  | .valueMissing option => "No value provided for option '" ++ option ++ "'.\n"
  | .badValue option value fault =>
    "Error parsing option '" ++ option ++ "' with value '" ++ value ++ "': "
      ++ fault.message ++ "\n"
  | .operandsMissing names =>
    "Required positional arguments not provided:\n"
      ++ String.join (names.map fun name => "    " ++ name ++ "\n")

end CommandShell.Arguments
