import CommandShell.Word

/-! # Splitting a line into words

The lexer reads a line one character at a time. `Lexer.State` is what it knows between two
characters: the finished words, the word being read and the construct it stands in. `Lexer.split`
runs a whole line and either ends in a list of words or names the construct that is not closed.
-/

namespace CommandShell

/-- Characters that separate words unless quoted, and whether a backslash quotes the next one. -/
structure Lexer where
  delimiters : List Char := [' ', '\t', '\n']
  escapes : Bool := true
deriving DecidableEq, Repr

inductive LexError where
  | unfinishedQuote
  | trailingEscape
  | badSubstitution
deriving DecidableEq, Repr

def LexError.message : LexError → String
  | .unfinishedQuote => "unterminated quoted string"
  | .trailingEscape => "unexpected end of input after escape"
  | .badSubstitution => "bad substitution"

/-- Whether more text can still make the line valid. -/
def LexError.needsMore : LexError → Bool
  | .unfinishedQuote | .trailingEscape => true
  | .badSubstitution => false

namespace Lexer

def isDelimiter (lexer : Lexer) (c : Char) : Bool := lexer.delimiters.contains c

/-- Characters that a backslash quotes inside double quotes; the line end is dropped. -/
def isEscapable (c : Char) : Bool := c == '$' || c == '`' || c == '"' || c == '\\'

def isNameStart (c : Char) : Bool := c.isAlpha || c == '_'

/-- The construct that the next character belongs to. Nothing leads out of a rejected parameter. The
flag of the last four says whether the construct is inside double quotes. -/
inductive Mode where
  | start
  | word
  | single
  | double
  | comment
  | rejected
  | escape (inQuotes : Bool)
  | dollar (inQuotes : Bool)
  | name (inQuotes : Bool) (text : String)
  | brace (inQuotes : Bool) (text : String)
deriving DecidableEq, Repr

/-- Finished words, and the parts of the word being read, come last first. -/
structure State where
  mode : Mode := .start
  done : List Word := []
  parts : List WordPart := []
  quoted : Bool := false
deriving DecidableEq, Repr

def addLiteral (c : Char) : List WordPart → List WordPart
  | .literal text :: parts => .literal (text.push c) :: parts
  | parts => .literal (String.singleton c) :: parts

def addQuoted (c : Char) : List WordPart → List WordPart
  | .quoted text :: parts => .quoted (text.push c) :: parts
  | parts => .quoted (String.singleton c) :: parts

namespace State

def enter (s : State) (mode : Mode) : State := { s with mode }

/-- Where reading goes on after a construct. -/
def leave (s : State) (inQuotes : Bool) : State := s.enter (if inQuotes then .double else .word)

def literal (s : State) (c : Char) : State := { s with parts := addLiteral c s.parts }

def quote (s : State) (c : Char) : State := { s with parts := addQuoted c s.parts }

def parameter (s : State) (name : String) : State := { s with parts := .parameter name :: s.parts }

/-- A dollar sign that names no parameter stands for itself. -/
def plainDollar (s : State) (inQuotes : Bool) : State :=
  if inQuotes then s.quote '$' else s.literal '$'

def current (s : State) : Word := { parts := s.parts.reverse, quoted := s.quoted }

def endWord (s : State) : State :=
  { done := if s.current.isPresent then s.current :: s.done else s.done }

@[simp] theorem mode_enter (s : State) (mode : Mode) : (s.enter mode).mode = mode := rfl

@[simp] theorem mode_leave (s : State) (inQuotes : Bool) :
    (s.leave inQuotes).mode = if inQuotes then .double else .word := rfl

@[simp] theorem mode_literal (s : State) (c : Char) : (s.literal c).mode = s.mode := rfl

@[simp] theorem mode_quote (s : State) (c : Char) : (s.quote c).mode = s.mode := rfl

@[simp] theorem mode_parameter (s : State) (name : String) :
    (s.parameter name).mode = s.mode := rfl

@[simp] theorem mode_plainDollar (s : State) (inQuotes : Bool) :
    (s.plainDollar inQuotes).mode = s.mode := by
  cases inQuotes <;> rfl

@[simp] theorem mode_endWord (s : State) : s.endWord.mode = .start := rfl

def stepWord (lexer : Lexer) (s : State) (c : Char) : State :=
  if lexer.isDelimiter c then s.endWord
  else if c = '\'' then { s with mode := .single, quoted := true }
  else if c = '"' then { s with mode := .double, quoted := true }
  else if c = '\\' && lexer.escapes then s.enter (.escape false)
  else if c = '$' then s.enter (.dollar false)
  else (s.literal c).enter .word

def stepDouble (lexer : Lexer) (s : State) (c : Char) : State :=
  if c = '"' then s.enter .word
  else if c = '\\' && lexer.escapes then s.enter (.escape true)
  else if c = '$' then s.enter (.dollar true)
  else (s.quote c).enter .double

/-- One character after a construct that it does not belong to. -/
def stepAfter (lexer : Lexer) (inQuotes : Bool) (s : State) (c : Char) : State :=
  if inQuotes then s.stepDouble lexer c else s.stepWord lexer c

def step (lexer : Lexer) (s : State) (c : Char) : State :=
  match s.mode with
  | .start =>
    if lexer.isDelimiter c then s
    else if c = '#' then s.enter .comment
    else s.stepWord lexer c
  | .word => s.stepWord lexer c
  | .single => if c = '\'' then s.enter .word else s.quote c
  | .double => s.stepDouble lexer c
  | .comment => s
  | .rejected => s
  | .escape false => if c = '\n' then s.enter .word else (s.quote c).enter .word
  | .escape true =>
    if c = '\n' then s.enter .double
    else if isEscapable c then (s.quote c).enter .double
    else (s.quote '\\').stepDouble lexer c
  | .dollar inQuotes =>
    if c = '{' then s.enter (.brace inQuotes "")
    else if isSpecialParameter c || c.isDigit then
      (s.parameter (String.singleton c)).leave inQuotes
    else if isNameStart c then s.enter (.name inQuotes (String.singleton c))
    else (s.plainDollar inQuotes).stepAfter lexer inQuotes c
  | .name inQuotes text =>
    if Variables.isNameChar c then s.enter (.name inQuotes (text.push c))
    else (s.parameter text).stepAfter lexer inQuotes c
  | .brace inQuotes text =>
    if c = '}' then
      if isParameterName text then (s.parameter text).leave inQuotes else s.enter .rejected
    else s.enter (.brace inQuotes (text.push c))

/-- The words read, once the line has ended. -/
def finish (s : State) : Except LexError (List Word) :=
  match s.mode with
  | .start | .comment => .ok s.done.reverse
  | .word => .ok s.endWord.done.reverse
  | .dollar false => .ok (s.plainDollar false).endWord.done.reverse
  | .name false text => .ok (s.parameter text).endWord.done.reverse
  | .single | .double | .escape true | .dollar true | .name true _ => .error .unfinishedQuote
  | .escape false => .error .trailingEscape
  | .brace _ _ | .rejected => .error .badSubstitution

end State

def run (lexer : Lexer) (s : State) (cs : List Char) : State := cs.foldl (State.step lexer) s

def split (lexer : Lexer) (line : String) : Except LexError (List Word) :=
  (lexer.run {} line.toList).finish

@[simp] theorem run_nil (lexer : Lexer) (s : State) : lexer.run s [] = s := rfl

@[simp] theorem run_cons (lexer : Lexer) (s : State) (c : Char) (cs : List Char) :
    lexer.run s (c :: cs) = lexer.run (s.step lexer c) cs := rfl

theorem run_append (lexer : Lexer) (s : State) (as bs : List Char) :
    lexer.run s (as ++ bs) = lexer.run (lexer.run s as) bs :=
  List.foldl_append

/-- What each step on a text keeps is kept by the whole text. -/
theorem run_invariant {lexer : Lexer} {P : State → Prop} {cs : List Char}
    (hstep : ∀ s, P s → ∀ c ∈ cs, P (s.step lexer c)) {s : State} (hs : P s) :
    P (lexer.run s cs) := by
  induction cs generalizing s with
  | nil => exact hs
  | cons c cs ih =>
    have hrest : ∀ t, P t → ∀ d ∈ cs, P (t.step lexer d) := fun t ht d hd =>
      hstep t ht d (List.mem_cons_of_mem c hd)
    exact ih hrest (hstep s hs c List.mem_cons_self)

theorem run_eq_self {lexer : Lexer} {s : State} (h : ∀ c, s.step lexer c = s) (cs : List Char) :
    lexer.run s cs = s :=
  run_invariant (P := (· = s)) (fun _ ht c _ => ht ▸ h c) rfl

theorem split_append (lexer : Lexer) (a b : String) :
    lexer.split (a ++ b) = (lexer.run (lexer.run {} a.toList) b.toList).finish := by
  rw [split, String.toList_append, run_append]

end Lexer

end CommandShell
