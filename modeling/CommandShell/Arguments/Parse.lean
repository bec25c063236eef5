import CommandShell.Arguments.Form

/-! # Parsing of arguments

What the argument parser is assumed to do with a form:

- Arguments are read from left to right, and the first that does not fit is refused.
- Options end at the first end mark, or at the first operand of a form that takes any number of
  them. From there on every argument is an operand.
- The help word asks for help wherever it comes before the end of the options, and so does its
  option. Help is given once all arguments have been read; no option may follow.
- Operands that are required and missing are named together at the end.

`parseOperands` is the shell's own: it ends the options before the first argument.
-/

namespace CommandShell.Arguments

structure Given where
  flags : List String := []
  numbers : List (String × Nat) := []
  operands : List String := []
deriving DecidableEq, Repr

namespace Given

def hasFlag (g : Given) (long : String) : Bool := g.flags.contains long

def number? (g : Given) (long : String) : Option Nat :=
  (g.numbers.find? (·.1 == long)).map (·.2)

end Given

inductive Answer where
  | accepted (given : Given)
  | help
  | refused (refusal : Refusal)
deriving DecidableEq, Repr

/-- What the parser knows between two arguments. -/
structure Progress where
  given : Given := {}
  optionsEnded : Bool := false
  helpAsked : Bool := false

def readNumber (g : Given) (option : NumberOption) (argument value : String) :
    Except Refusal Given :=
  if (g.number? option.long).isSome then .error (.badValue argument value .repeated)
  else match Decimal.parse Decimal.wordBound value.toList with
    | .ok n => .ok { g with numbers := g.numbers ++ [(option.long, n)] }
    | .error fault => .error (.badValue argument value (.malformed fault))

def readOperand (form : Form) (p : Progress) (argument : String) : Except Refusal Progress :=
  if form.operands.hasRoom p.given.operands.length then
    .ok { p with
      given := { p.given with operands := p.given.operands ++ [argument] }
      optionsEnded := p.optionsEnded || form.operands.limit.isNone }
  else .error (.unrecognized argument)

def Progress.close (form : Form) (p : Progress) : Answer :=
  if p.helpAsked then .help
  else match form.operands.missing p.given.operands.length with
    | [] => .accepted p.given
    | names => .refused (.operandsMissing names)

def continueParse (form : Form) (p : Progress) : List String → Answer
  | [] => p.close form
  | a :: as =>
    if p.optionsEnded || !(a.toList.head? == some '-' || a = helpWord) then
      match readOperand form p a with
      | .ok p => continueParse form p as
      | .error refusal => .refused refusal
    else if a = endMark then continueParse form { p with optionsEnded := true } as
    else if a = helpWord || a = helpOption then continueParse form { p with helpAsked := true } as
    else if p.helpAsked then .refused .afterHelp
    else match form.flags.find? fun f => a == f.long || a == f.short with
      | some f =>
        continueParse form
          { p with given := { p.given with flags := p.given.flags ++ [f.long] } } as
      | none =>
        match form.numbers.find? fun o => a == o.long, as with
        | some _, [] => .refused (.valueMissing a)
        | some o, value :: as =>
          match readNumber p.given o a value with
          | .ok given => continueParse form { p with given } as
          | .error refusal => .refused refusal
        | none, _ => .refused (.unrecognized a)

def parse (form : Form) (arguments : List String) : Answer := continueParse form {} arguments

/-- Parses with every argument as an operand, so that an operand may start with a hyphen. Only a
lone request for help is taken as such. -/
def parseOperands (form : Form) (arguments : List String) : Answer :=
  if arguments = [helpOption] then .help else parse form (endMark :: arguments)

end CommandShell.Arguments
