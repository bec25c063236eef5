import CommandShell.Lexer.Basic
import CommandShell.Session

/-! # Expansion

The words of a line become assignments and arguments. An alias replaces the first word once; leading
words of the form `name=value` are assignments; parameters are replaced by their values, which are
never read again.
-/

namespace CommandShell

structure Expansion where
  assignments : List (String × String) := []
  arguments : List String := []
deriving DecidableEq, Repr

namespace Expansion

/-- A parameter without a value stands for nothing. -/
def partText (s : Session) : WordPart → String
  | .literal text | .quoted text => text
  | .parameter name => (s.parameter? name).getD ""

def partsText (s : Session) (parts : List WordPart) : String :=
  String.join (parts.map (partText s))

/-- The argument a word stands for. A word without quotes and without text stands for none. -/
def argument? (s : Session) (w : Word) : Option String :=
  let text := partsText s w.parts
  if text.isEmpty && !w.quoted then none else some text

def cutAtEquals? (s : String) : Option (String × String) :=
  match s.toList.span (· != '=') with
  | (_, []) => none
  | (name, _ :: value) => some (String.ofList name, String.ofList value)

/-- The assignment a word stands for, if it starts with an unquoted variable name and an equals
sign. -/
def assignment? (s : Session) (w : Word) : Option (String × String) :=
  match w.parts with
  | .literal first :: parts =>
    match cutAtEquals? first with
    | some (name, value) =>
      if Variables.isName name then some (name, value ++ partsText s parts) else none
    | none => none
  | _ => none

/-- Replaces a first word that is an alias by the words of its text. A text that is no list of words
leaves the line as it is. -/
def substituteAlias (lexer : Lexer) (aliases : Aliases) : List Word → List Word
  | [] => []
  | w :: ws =>
    match w.plain?.bind aliases.get? with
    | none => w :: ws
    | some text =>
      match lexer.split text with
      | .ok replacement => replacement ++ ws
      | .error _ => w :: ws

/-- Reads assignments until the first word that is none; the rest are arguments. -/
def ofWords (s : Session) : List Word → Expansion
  | [] => {}
  | w :: ws =>
    match assignment? s w with
    | some a => let e := ofWords s ws; { e with assignments := a :: e.assignments }
    | none => { arguments := (w :: ws).filterMap (argument? s) }

def expand (lexer : Lexer) (s : Session) (ws : List Word) : Expansion :=
  ofWords s (substituteAlias lexer s.aliases ws)

end Expansion

end CommandShell
