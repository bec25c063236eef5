import CommandShell.Machine.Script.Token

/-! # The structure of scripts

A script is made of simple commands, which are put together by sequence, by the two conditional
operators, by branches and by loops over a list of words.
-/

namespace CommandShell

structure Redirection where
  channel : Nat
  kind : Script.RedirectionKind
  target : Script.ScriptWord
deriving DecidableEq, Repr

inductive Script where
  | nothing
  | command (assignments : List (String × Script.ScriptWord)) (words : List Script.ScriptWord)
      (redirections : List Redirection)
  | sequence (first second : Script)
  | and (first second : Script)
  | or (first second : Script)
  | branch (condition yes no : Script)
  | loop (name : String) (words : List Script.ScriptWord) (body : Script)
deriving Repr

namespace Script

def plain? : ScriptWord → Option String
  | [.text false text] => some text
  | _ => none

def keyword? : List Token → Option String
  | .word w :: _ => plain? w
  | _ => none

def skipLineEnds (ts : List Token) : List Token :=
  ts.dropWhile fun t => t == .newline || t == .semicolon

def skipNewlines (ts : List Token) : List Token := ts.dropWhile (· == .newline)

def expect (keyword : String) (ts : List Token) : Option (List Token) :=
  if keyword? ts = some keyword then some ts.tail else none

def assignment? : ScriptWord → Option (String × ScriptWord)
  | .text false text :: w =>
    let name := text.toList.takeWhile (· != '=')
    match text.toList.dropWhile (· != '=') with
    | [] => none
    | _ :: value =>
      if Variables.isName (String.ofList name) then
        some (String.ofList name,
          if value.isEmpty then w else .text false (String.ofList value) :: w)
      else none
  | _ => none

def takeWords : List Token → List ScriptWord × List Token
  | .word w :: ts => let (ws, ts) := takeWords ts; (w :: ws, ts)
  | ts => ([], ts)

def takeSimple : List Token → Option (List ScriptWord × List Redirection × List Token)
  | .word w :: ts => (takeSimple ts).map fun (ws, rs, ts) => (w :: ws, rs, ts)
  | .redirect channel kind :: .word target :: ts =>
    (takeSimple ts).map fun (ws, rs, ts) => (ws, ⟨channel, kind, target⟩ :: rs, ts)
  | .redirect _ _ :: _ => none
  | ts => some ([], [], ts)

def takeAssignments : List ScriptWord → List (String × ScriptWord) × List ScriptWord
  | [] => ([], [])
  | w :: ws =>
    match assignment? w with
    | some a => let (as, ws) := takeAssignments ws; (a :: as, ws)
    | none => ([], w :: ws)

/-- Words that end a list of commands where a command could begin. -/
def isClosing (word : String) : Bool := ["do", "done", "then", "else", "elif", "fi"].contains word

mutual

def parseList : Nat → List Token → Option (Script × List Token)
  | 0, _ => none
  | fuel + 1, ts =>
    let ts := skipLineEnds ts
    if ts.isEmpty || (keyword? ts).any isClosing then some (.nothing, ts)
    else do
      let (first, ts) ← parseAndOr fuel ts
      match ts with
      | [] => some (first, [])
      | .newline :: ts | .semicolon :: ts =>
        let (second, ts) ← parseList fuel ts
        some (.sequence first second, ts)
      | _ => none

/-- Commands joined by conditional operators, which group from the left. -/
def parseAndOr : Nat → List Token → Option (Script × List Token)
  | 0, _ => none
  | fuel + 1, ts => do
    let (first, ts) ← parseCommand fuel ts
    parseOperators fuel first ts

def parseOperators : Nat → Script → List Token → Option (Script × List Token)
  | 0, _, _ => none
  | fuel + 1, first, .and :: ts => do
    let (second, ts) ← parseCommand fuel (skipNewlines ts)
    parseOperators fuel (.and first second) ts
  | fuel + 1, first, .or :: ts => do
    let (second, ts) ← parseCommand fuel (skipNewlines ts)
    parseOperators fuel (.or first second) ts
  | _ + 1, first, ts => some (first, ts)

def parseCommand : Nat → List Token → Option (Script × List Token)
  | 0, _ => none
  | fuel + 1, ts =>
    match keyword? ts with
    | some "for" =>
      match ts.tail with
      | .word w :: ts => do
        let name ← plain? w
        let (words, ts) ←
          if keyword? (skipNewlines ts) = some "in" then
            some (takeWords (skipNewlines ts).tail)
          else some ([[.parameter true "@"]], ts)
        let ts ← expect "do" (skipLineEnds ts)
        let (body, ts) ← parseList fuel ts
        let ts ← expect "done" ts
        some (.loop name words body, ts)
      | _ => none
    | some "if" => do
      let (condition, ts) ← parseList fuel ts.tail
      let ts ← expect "then" ts
      let (yes, ts) ← parseList fuel ts
      if keyword? ts = some "else" then
        let (no, ts) ← parseList fuel ts.tail
        let ts ← expect "fi" ts
        some (.branch condition yes no, ts)
      else
        let ts ← expect "fi" ts
        some (.branch condition yes (.command [] [] []), ts)
    | _ => do
      let (words, redirections, ts) ← takeSimple ts
      if words.isEmpty && redirections.isEmpty then none
      else
        let (assignments, words) := takeAssignments words
        some (.command assignments words redirections, ts)

end

/-- The script that a text is, if it is one. Every step of the parser that does not consume a token
is followed by one that does, so four steps for each token are enough. -/
def parse? (text : String) : Option Script := do
  let ts ← tokens text
  let (script, rest) ← parseList (4 * ts.length + 4) ts
  if rest.isEmpty then some script else none

end Script

end CommandShell
