/-! # Decimal numbers

Reading of unsigned decimal numerals that have to stay below a bound.
-/

namespace CommandShell.Decimal

/-- The first number that 64 bits cannot hold. -/
def wordBound : Nat := 0x10000000000000000

inductive Fault where
  | empty
  | badDigit
  | tooLarge
deriving DecidableEq, Repr

def Fault.message : Fault → String
  | .empty => "cannot parse integer from empty string"
  | .badDigit => "invalid digit found in string"
  | .tooLarge => "number too large to fit in target type"

def digit (c : Char) : Nat := c.toNat - '0'.toNat

/-- Reads digits from left to right after those that gave `value`. The first character that is no
digit or takes the value to the bound decides the fault. -/
def continueFrom (bound value : Nat) : List Char → Except Fault Nat
  | [] => .ok value
  | c :: cs =>
    if !c.isDigit then .error .badDigit
    else if bound ≤ value * 10 + digit c then .error .tooLarge
    else continueFrom bound (value * 10 + digit c) cs

/-- A numeral with an optional plus sign. -/
def parse (bound : Nat) : List Char → Except Fault Nat
  | [] => .error .empty
  | ['+'] => .error .badDigit
  | '+' :: cs => continueFrom bound 0 cs
  | cs => continueFrom bound 0 cs

def digits? (bound : Nat) (s : String) : Option Nat :=
  if s.isEmpty then none else (continueFrom bound 0 s.toList).toOption

end CommandShell.Decimal
