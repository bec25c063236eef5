import CommandShell.Machine.FileSystem
import CommandShell.Machine.Script.Echo
import CommandShell.Text.Utf8

/-! # Tools

What the simple tools of a machine do. They read files and the standard input and change neither the
files nor the session that runs them.
-/

namespace CommandShell.Tool

structure Effect where
  code : Nat := 0
  written : List (Channel × List UInt8) := []
  input : List UInt8

def isEchoOption (argument : String) : Bool :=
  match argument.toList with
  | '-' :: c :: cs => (c :: cs).all fun c => c == 'n' || c == 'e' || c == 'E'
  | _ => false

/-- The text of the arguments. The last of the letters `e` and `E` says whether it has escapes. -/
def echoBytes (arguments : List String) : List UInt8 :=
  let letters := (arguments.takeWhile isEchoOption).flatMap String.toList
  let text := Utf8.encode (" ".intercalate (arguments.dropWhile isEchoOption))
  let (bytes, ended) :=
    if (letters.filter fun c => c == 'e' || c == 'E').getLast? = some 'e' then
      Script.Echo.written text
    else (text, false)
  if ended || letters.contains 'n' then bytes else bytes ++ [0x0A]

def catFile (files : FileSystem) (directory name : String) (e : Effect) (path : String) : Effect :=
  if path = "-" then { e with written := e.written ++ [(.output, e.input)], input := [] }
  else match files.contents? directory path with
    | some { bytes, failure := none } => { e with written := e.written ++ [(.output, bytes)] }
    | some { failure := some _, .. } => complain e FileError.isDirectory
    | none =>
      match files.lookup directory path with
      | .error error => complain e error
      | .ok _ => e
where
  complain (e : Effect) (error : FileError) : Effect :=
    { e with
      code := 1
      written := e.written ++
        [(.diagnostics, Utf8.encode (name ++ ": " ++ path ++ ": " ++ error.reason ++ "\n"))] }

/-- Runs a tool with the name it is called by and its arguments. The interpreter of scripts is no
simple tool and does nothing here. -/
def run (tool : Tool) (files : FileSystem) (directory : String) (input : List UInt8)
    (arguments : List String) : Effect :=
  match tool, arguments with
  | .status code, _ => { code, input }
  | .echo, arguments => { written := [(.output, echoBytes arguments.tail)], input }
  | .cat, [] | .cat, [_] => catFile files directory "cat" { input } "-"
  | .cat, name :: paths => paths.foldl (catFile files directory name) { input }
  | .sh, _ => { input }

end CommandShell.Tool
