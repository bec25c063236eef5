import CommandShell.Variables

/-! # Words

A line of commands is a list of words. A word is put together from unquoted text, quoted text and
parameters whose values are filled in later.
-/

namespace CommandShell

inductive WordPart where
  | literal (text : String)
  | quoted (text : String)
  | parameter (name : String)
deriving DecidableEq, Repr

/-- A word with quotes stays a word even when its text is empty. -/
structure Word where
  parts : List WordPart := []
  quoted : Bool := false
deriving DecidableEq, Repr, Inhabited

namespace Word

def plain? (w : Word) : Option String :=
  match w.parts with
  | [.literal text] => some text
  | _ => none

/-- Whether anything was written for the word. -/
def isPresent (w : Word) : Bool := !w.parts.isEmpty || w.quoted

end Word

/-- Parameters with a name of one character that is no letter. -/
def isSpecialParameter (c : Char) : Bool := c == '?' || c == '$' || c == '#'

/-- Whether the text names a parameter: a special character, a position or a variable. -/
def isParameterName (s : String) : Bool :=
  match s.toList with
  | [] => false
  | c :: cs =>
    (isSpecialParameter c && cs.isEmpty) || (c :: cs).all Char.isDigit || Variables.isName s

end CommandShell
