import CommandShell.Lexer.Basic

/-! # Open constructs

The scanner follows the quoting of a text that grows piece by piece, without building words. It says
which construct the text leaves open.
-/

namespace CommandShell

/-- The construct a scanner stands in. The flag says whether it is inside double quotes. -/
inductive Scanner.Place where
  | start
  | word
  | single
  | double
  | dollar (inQuotes : Bool)
  | brace (inQuotes : Bool)
  | comment
deriving DecidableEq, Repr

/-- `escaped` is set after a backslash that may quote the next character. -/
structure Scanner where
  place : Scanner.Place := .start
  escaped : Bool := false
deriving DecidableEq, Repr

namespace Scanner

def Place.outside (inQuotes : Bool) : Place := if inQuotes then .double else .word

/-- One character at a place that is not right after a dollar sign. -/
def stepAt (lexer : Lexer) (place : Place) (c : Char) : Scanner :=
  let inWord : Scanner :=
    if lexer.isDelimiter c then { place := .start }
    else if c = '\'' then { place := .single }
    else if c = '"' then { place := .double }
    else if c = '\\' && lexer.escapes then { place := .word, escaped := true }
    else if c = '$' then { place := .dollar false }
    else { place := .word }
  match place with
  | .start =>
    if lexer.isDelimiter c then { place }
    else if c = '#' then { place := .comment }
    else inWord
  | .word => inWord
  | .single => { place := if c = '\'' then .word else .single }
  | .double =>
    if c = '"' then { place := .word }
    else if c = '\\' && lexer.escapes then { place, escaped := true }
    else if c = '$' then { place := .dollar true }
    else { place }
  | .brace inQuotes => { place := if c = '}' then .outside inQuotes else place }
  | .dollar _ | .comment => { place }

def takesEscape (place : Place) (c : Char) : Bool :=
  place != .double || Lexer.isEscapable c || c == '\n'

def step (lexer : Lexer) (s : Scanner) (c : Char) : Scanner :=
  if s.escaped && takesEscape s.place c then { s with escaped := false }
  else match s.place with
    | .dollar inQuotes =>
      if c = '{' then { place := .brace inQuotes }
      else if isSpecialParameter c || c.isDigit then { place := .outside inQuotes }
      else stepAt lexer (.outside inQuotes) c
    | place => stepAt lexer place c

def feed (lexer : Lexer) (s : Scanner) (piece : String) : Scanner :=
  piece.toList.foldl (step lexer) s

theorem feed_append (lexer : Lexer) (s : Scanner) (a b : String) :
    s.feed lexer (a ++ b) = (s.feed lexer a).feed lexer b := by
  simp [feed]

/-- The construct that the text so far leaves open. -/
def pending (s : Scanner) : Option LexError :=
  match s.place with
  | .single | .double | .dollar true => some .unfinishedQuote
  | .brace _ => some .badSubstitution
  | .start | .word | .dollar false | .comment => if s.escaped then some .trailingEscape else none

end Scanner

end CommandShell
