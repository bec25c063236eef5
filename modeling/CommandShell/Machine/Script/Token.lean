import CommandShell.Variables

/-! # Tokens of scripts

Scripts are what the interpreter of a machine runs. Their text is read character by character into
words and operators.
-/

namespace CommandShell.Script

/-- A piece of a word. The flag says whether it is in quotes. -/
inductive Fragment where
  | text (quoted : Bool) (text : String)
  | parameter (quoted : Bool) (expression : String)
deriving DecidableEq, Repr

abbrev ScriptWord := List Fragment

inductive RedirectionKind where
  | overwrite
  | append
  | copy
  | input
deriving DecidableEq, Repr

inductive Token where
  | word (w : ScriptWord)
  | newline
  | semicolon
  | and
  | or
  | redirect (channel : Nat) (kind : RedirectionKind)
deriving DecidableEq, Repr

inductive Mode where
  | plain
  | comment
  | single
  | double
  | ampersand
  | bar
  | escape (inQuotes : Bool)
  | dollar (inQuotes : Bool)
  | name (inQuotes : Bool) (text : String)
  | brace (inQuotes : Bool) (text : String)
  | greater (channel : Nat)
deriving DecidableEq, Repr

/-- What the reader knows between two characters. The last tokens and fragments come first. -/
structure Reading where
  mode : Mode := .plain
  tokens : List Token := []
  word : Option ScriptWord := none
  failed : Bool := false

namespace Reading

def addText (quoted : Bool) (c : Char) (r : Reading) : Reading :=
  { r with
    word := match r.word.getD [] with
      | .text q text :: w => if q = quoted then some (.text q (text.push c) :: w)
        else some (.text quoted (String.singleton c) :: .text q text :: w)
      | w => some (.text quoted (String.singleton c) :: w) }

/-- Starts quoted text, which makes a word even if it stays empty. -/
def openQuotes (mode : Mode) (r : Reading) : Reading :=
  { r with mode, word := some (.text true "" :: r.word.getD []) }

def addParameter (inQuotes : Bool) (expression : String) (r : Reading) : Reading :=
  { r with
    mode := if inQuotes then .double else .plain
    word := some (.parameter inQuotes expression :: r.word.getD []) }

def enter (mode : Mode) (r : Reading) : Reading := { r with mode }

def fail (r : Reading) : Reading := { r with failed := true }

def endWord (r : Reading) : Reading :=
  match r.word with
  | some w => { r with mode := .plain, tokens := .word w.reverse :: r.tokens, word := none }
  | none => { r with mode := .plain }

def addToken (t : Token) (r : Reading) : Reading :=
  let r := r.endWord
  { r with tokens := t :: r.tokens }

/-- Starts a redirection. A digit right before it is the channel. -/
def startRedirection (standard : Nat) (r : Reading) : Nat × Reading :=
  match r.word with
  | some [.text false "1"] => (1, { r with word := none })
  | some [.text false "2"] => (2, { r with word := none })
  | some [.text false "0"] => (0, { r with word := none })
  | _ => (standard, r.endWord)

def stepPlain (r : Reading) (c : Char) : Reading :=
  match c with
  | ' ' | '\t' => r.endWord
  | '\n' => r.addToken .newline
  | ';' => r.addToken .semicolon
  | '&' => r.endWord.enter .ampersand
  | '|' => r.endWord.enter .bar
  | '>' => let (channel, r) := r.startRedirection 1; r.enter (.greater channel)
  | '<' => let (channel, r) := r.startRedirection 0; r.addToken (.redirect channel .input)
  | '(' | ')' => r.fail
  | '\'' => r.openQuotes .single
  | '"' => r.openQuotes .double
  | '\\' => r.enter (.escape false)
  | '$' => r.enter (.dollar false)
  | '#' => if r.word.isNone then r.enter .comment else (r.addText false c).enter .plain
  | c => (r.addText false c).enter .plain

def stepDouble (r : Reading) (c : Char) : Reading :=
  match c with
  | '"' => r.enter .plain
  | '\\' => r.enter (.escape true)
  | '$' => r.enter (.dollar true)
  | c => (r.addText true c).enter .double

def stepAfter (inQuotes : Bool) (r : Reading) (c : Char) : Reading :=
  if inQuotes then r.stepDouble c else r.stepPlain c

def isSpecial (c : Char) : Bool := "?$#@*!-".toList.contains c || c.isDigit

def step (r : Reading) (c : Char) : Reading :=
  match r.mode with
  | .plain => r.stepPlain c
  | .comment => if c = '\n' then r.addToken .newline else r
  | .single => if c = '\'' then r.enter .plain else r.addText true c
  | .double => r.stepDouble c
  | .escape false =>
    if c = '\n' then r.enter .plain else (r.addText true c).enter .plain
  | .escape true =>
    if c = '\n' then r.enter .double
    else if "$`\"\\".toList.contains c then (r.addText true c).enter .double
    else (r.addText true '\\').stepDouble c
  | .dollar inQuotes =>
    if c = '{' then r.enter (.brace inQuotes "")
    else if c = '(' then r.fail
    else if isSpecial c then r.addParameter inQuotes (String.singleton c)
    else if c.isAlpha || c = '_' then r.enter (.name inQuotes (String.singleton c))
    else (r.addText inQuotes '$').stepAfter inQuotes c
  | .name inQuotes text =>
    if Variables.isNameChar c then r.enter (.name inQuotes (text.push c))
    else (r.addParameter inQuotes text).stepAfter inQuotes c
  | .brace inQuotes text =>
    if c = '}' then r.addParameter inQuotes text else r.enter (.brace inQuotes (text.push c))
  | .ampersand => if c = '&' then r.addToken .and else r.fail
  | .bar => if c = '|' then r.addToken .or else r.fail
  | .greater channel =>
    if c = '>' then r.addToken (.redirect channel .append)
    else if c = '&' then r.addToken (.redirect channel .copy)
    else (r.addToken (.redirect channel .overwrite)).stepPlain c

/-- The tokens of a whole text; nothing if a construct is unknown or left open. -/
def finish (r : Reading) : Option (List Token) :=
  if r.failed then none
  else match r.mode with
    | .plain | .comment => some r.endWord.tokens.reverse
    | .dollar false => some (r.addText false '$').endWord.tokens.reverse
    | .name false text => some (r.addParameter false text).endWord.tokens.reverse
    | .escape false => some (r.addText true '\\').endWord.tokens.reverse
    | _ => none

end Reading

def tokens (text : String) : Option (List Token) := (text.toList.foldl Reading.step {}).finish

end CommandShell.Script
