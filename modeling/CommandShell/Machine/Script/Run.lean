import CommandShell.Machine.FileSystem
import CommandShell.Machine.Script.Echo
import CommandShell.Machine.Script.Parse
import CommandShell.Machine.Tool
import CommandShell.Text.Decimal
import CommandShell.Text.Utf8

/-! # Running scripts

A script runs in a process: it has variables, arguments, a directory, a standard input and two
output channels, and it changes files through redirections.
-/

namespace CommandShell.Script

/-- A running script. The last of what it wrote comes first. -/
structure Process where
  files : FileSystem
  directory : String
  input : List UInt8 := []
  name : String
  arguments : List String := []
  vars : Table String := .empty
  lastStatus : Nat := 0
  written : List (Channel × List UInt8) := []
  ending : Option Ending := none

def isFieldSeparator (c : Char) : Bool := c == ' ' || c == '\t' || c == '\n'

def ownProcess : String := "2"

namespace Process

def parameter? (p : Process) (name : String) : Option String :=
  if name = "?" then some (toString p.lastStatus)
  else if name = "$" then some ownProcess
  else if name = "#" then some (toString p.arguments.length)
  else if name = "0" then some p.name
  else if name = "*" || name = "@" then some (" ".intercalate p.arguments)
  else match Decimal.digits? Decimal.wordBound name with
    | some 0 => none
    | some (i + 1) => p.arguments[i]?
    | none => p.vars.get? name

/-- The text of a parameter expression: a name, or a name and what replaces a missing value. After a
colon an empty value counts as missing. -/
def expressionText (p : Process) (expression : String) : String :=
  let cs := expression.toList
  let name := match cs with
    | c :: _ => if Reading.isSpecial c && c != '-' then [c] else cs.takeWhile Variables.isNameChar
    | [] => []
  let value := p.parameter? (String.ofList name)
  match cs.drop name.length with
  | ':' :: '-' :: replacement =>
    match value with
    | some text => if text.isEmpty then String.ofList replacement else text
    | none => String.ofList replacement
  | '-' :: replacement => value.getD (String.ofList replacement)
  | ':' :: '+' :: replacement =>
    if value.any (!·.isEmpty) then String.ofList replacement else ""
  | '+' :: replacement => if value.isSome then String.ofList replacement else ""
  | _ => value.getD ""

/-- Fields of a word: the finished ones, the last one first, and the one being filled. -/
structure Fields where
  done : List String := []
  current : Option String := none

namespace Fields

def add (f : Fields) (text : String) : Fields :=
  { f with current := some (f.current.getD "" ++ text) }

def close (f : Fields) : Fields :=
  match f.current with
  | some text => { done := text :: f.done }
  | none => f

/-- Adds a value that field separators split. -/
def addSplit (f : Fields) (text : String) : Fields :=
  text.toList.foldl (fun f c => if isFieldSeparator c then f.close else f.add (String.singleton c))
    f

/-- Adds texts that become a field each, the first and the last joined to what is around them. -/
def addEach (f : Fields) : List String → Fields
  | [] => f
  | [text] => f.add text
  | text :: texts => (f.add text).close.addEach texts

end Fields

def addFragment (p : Process) (f : Fields) : Fragment → Fields
  | .text _ text => f.add text
  | .parameter true "@" => f.addEach p.arguments
  | .parameter true expression => f.add (p.expressionText expression)
  | .parameter false "@" | .parameter false "*" =>
    p.arguments.foldl (fun f text => (f.addSplit text).close) f
  | .parameter false expression => f.addSplit (p.expressionText expression)

/-- The fields a word stands for. Quotes around all arguments make no field when there are none. -/
def fields (p : Process) (w : ScriptWord) : List String :=
  match (w.foldl p.addFragment {}).close.done.reverse with
  | [""] => if p.arguments.isEmpty && w.contains (.parameter true "@") then [] else [""]
  | fields => fields

/-- The text a word stands for where it is not split. -/
def wordText (p : Process) (w : ScriptWord) : String :=
  String.join (w.map fun
    | .text _ text => text
    | .parameter _ expression => p.expressionText expression)

def setVariable (p : Process) (name value : String) : Process :=
  { p with vars := p.vars.insert name value }

def setStatus (p : Process) (status : Nat) : Process := { p with lastStatus := status }

inductive Target where
  | channel (c : Channel)
  | file (path : String)

def send (p : Process) (target : Target) (bytes : List UInt8) : Process :=
  if bytes.isEmpty then p
  else match target with
    | .channel c => { p with written := (c, bytes) :: p.written }
    | .file path =>
      match p.files.write p.directory path true bytes with
      | .ok files => { p with files }
      | .error _ => p

/-- Says what went wrong. -/
def complain (p : Process) (text : String) : Process :=
  p.send (.channel .diagnostics) (Utf8.encode (p.name ++ ": 1: " ++ text ++ "\n"))

def finish (p : Process) (status : Nat) : Process :=
  { p with lastStatus := status, ending := some (.exited (status % 256)) }

def signalNames : List (String × Nat) :=
  [("HUP", 1), ("INT", 2), ("QUIT", 3), ("KILL", 9), ("USR1", 10), ("USR2", 12), ("PIPE", 13),
   ("ALRM", 14), ("TERM", 15), ("CHLD", 17), ("CONT", 18)]

def isIgnoredSignal (signal : Nat) : Bool := [0, 17, 18, 23, 28].contains signal

def signal? (text : String) : Option Nat :=
  match Decimal.digits? 65 text with
  | some n => some n
  | none => (signalNames.find? (·.1 == text)).map (·.2)

/-- Reads one line of the input into variables. The last one takes the rest of the line. -/
def readLine (p : Process) (names : List String) : Process :=
  let line := p.input.takeWhile (· != 0x0A)
  let rest := p.input.dropWhile (· != 0x0A)
  let p := { p with input := rest.tail }
  let trimmed (cs : List Char) := cs.dropWhile isFieldSeparator
  let rec assign (p : Process) (cs : List Char) : List String → Process
    | [] => p
    | [name] =>
      p.setVariable name (String.ofList ((trimmed (trimmed cs).reverse).reverse.filter (· != '\\')))
    | name :: names =>
      let cs := trimmed cs
      assign (p.setVariable name (String.ofList (cs.takeWhile fun c => !isFieldSeparator c)))
        (cs.dropWhile fun c => !isFieldSeparator c) names
  (assign p (Utf8.decodeChars line) names).setStatus (if rest.isEmpty then 1 else 0)

def echoBytes : List String → List UInt8
  | "-n" :: words => (Echo.written (Utf8.encode (" ".intercalate words))).1
  | words =>
    match Echo.written (Utf8.encode (" ".intercalate words)) with
    | (bytes, true) => bytes
    | (bytes, false) => bytes ++ [0x0A]

/-- The tool that a name stands for. Scripts do not run other scripts. -/
def tool? (p : Process) (name : String) : Option Tool :=
  let paths :=
    if name.toList.contains '/' then [name]
    else PathSearch.candidates ((p.parameter? "PATH").getD PathSearch.standard) name
  paths.findSome? fun path =>
    match p.files.lookup p.directory path with
    | .ok (_, .tool .sh) => none
    | .ok (_, .tool tool) => some tool
    | _ => none

/-- Runs a tool. Only its output can be redirected. -/
def callTool (p : Process) (out : Target) (tool : Tool) (name : String)
    (arguments : List String) : Process :=
  let effect := tool.run p.files p.directory p.input (name :: arguments)
  let p := effect.written.foldl (fun p (channel, bytes) =>
      p.send (if channel = .output then out else .channel channel) bytes)
    { p with input := effect.input }
  p.setStatus effect.code

def exitBound : Nat := 0x80000000

def call (p : Process) (out : Target) (name : String) (arguments : List String) : Process :=
  match name, arguments with
  | ":", _ | "true", _ => p.setStatus 0
  | "false", _ => p.setStatus 1
  | "exit", [] => p.finish p.lastStatus
  | "exit", text :: _ =>
    match Decimal.digits? exitBound text with
    | some n => p.finish n
    | none => (p.complain ("exit: Illegal number: " ++ text)).finish 2
  | "echo", words => (p.send out (echoBytes words)).setStatus 0
  | "pwd", _ => (p.send out (Utf8.encode (p.directory ++ "\n"))).setStatus 0
  | "read", names => p.readLine names
  | "kill", [option, process] =>
    match option.toList with
    | '-' :: name =>
      match signal? (String.ofList name) with
      | some signal =>
        if process != ownProcess then p.setStatus 1
        else if isIgnoredSignal signal then p.setStatus 0
        else { p with ending := some (.killed signal) }
      | none => p.setStatus 2
    | _ => p.setStatus 2
  | name, _ =>
    match p.tool? name with
    | some tool => p.callTool out tool name arguments
    | none => (p.complain (name ++ ": not found")).setStatus 127

/-- The targets of the output channels after redirections, which are opened in order. -/
def redirect (p : Process) (out err : Target) :
    List Redirection → Except Process (Process × Target × Target)
  | [] => .ok (p, out, err)
  | r :: rs =>
    let path := p.wordText r.target
    match r.kind with
    | .input => p.redirect out err rs
    | .copy =>
      let target := if path = "1" then out else err
      if r.channel = 1 then p.redirect target err rs else p.redirect out target rs
    | kind =>
      match p.files.write p.directory path (kind == .append) [] with
      | .ok files =>
        let p := { p with files }
        if r.channel = 1 then p.redirect (.file path) err rs else p.redirect out (.file path) rs
      | .error _ =>
        .error ((p.complain ("cannot create " ++ path ++ ": Directory nonexistent")).setStatus 2)

def command (p : Process) (assignments : List (String × ScriptWord)) (words : List ScriptWord)
    (redirections : List Redirection) : Process :=
  let arguments := words.flatMap p.fields
  match p.redirect (.channel .output) (.channel .diagnostics) redirections with
  | .error p => p
  | .ok (p, out, _) =>
    match arguments with
    | [] =>
      (assignments.foldl (fun p (name, w) => p.setVariable name (p.wordText w)) p).setStatus 0
    | name :: arguments => p.call out name arguments

end Process

def run (script : Script) (p : Process) : Process :=
  match script with
  | .nothing => p
  | .command assignments words redirections =>
    if p.ending.isSome then p else p.command assignments words redirections
  | .sequence first second => second.run (first.run p)
  | .and first second =>
    let p := first.run p
    if p.lastStatus = 0 then second.run p else p
  | .or first second =>
    let p := first.run p
    if p.lastStatus = 0 then p else second.run p
  | .branch condition yes no =>
    let p := condition.run p
    if p.lastStatus = 0 then yes.run p else no.run p
  | .loop name words body =>
    if p.ending.isSome then p
    else
      (words.flatMap p.fields).foldl
        (fun p field => if p.ending.isSome then p else body.run (p.setVariable name field))
        (p.setStatus 0)

end CommandShell.Script
