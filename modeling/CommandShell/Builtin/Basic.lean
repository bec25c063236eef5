import CommandShell.Arguments.Parse
import CommandShell.Arguments.Usage

/-! # Built-in commands

The commands that the shell runs itself, their forms, and the requests that their arguments amount
to.
-/

namespace CommandShell

inductive Builtin where
  | alias
  | cd
  | echo
  | env
  | exit
  | exportNames
  | help
  | history
  | pwd
  | setenv
  | unalias
  | unset
  | unsetenv
deriving DecidableEq, Repr

namespace Builtin

open Arguments

def all : List Builtin :=
  [.alias, .cd, .echo, .env, .exit, .exportNames, .help, .history, .pwd, .setenv, .unalias, .unset,
   .unsetenv]

def form : Builtin → Form
  | .alias =>
    { command := "alias"
      summary := "Define or display aliases. Without arguments every alias is printed as name='value'."
      operands := .any "definitions" }
  | .cd =>
    { command := "cd"
      summary := "Change the current working directory. If no target is provided, changes to the "
        ++ "directory specified by the HOME variable; `-` changes to OLDPWD and prints it."
      operands := .fixed [{
        name := "target"
        required := false
        description := "directory to switch to; absolute or relative to the current directory. "
          ++ "Defaults to $HOME when omitted." }] }
  | .echo =>
    { command := "echo"
      summary := "write the arguments to standard output, separated by spaces. "
        ++ "by default, a trailing newline is printed."
      flags := [{
        long := "--no-newline"
        short := "-n"
        description := "do not output the trailing newline." }]
      operands := .any "args" }
  | .env =>
    { command := "env"
      summary := "Print the exported variables, one NAME=value per line." }
  | .exit =>
    { command := "exit"
      summary := "Exit the shell with the given status (default: status of the last command)."
      operands := .fixed [{
        name := "status"
        required := false
        description := "exit status; only the low 8 bits are used." }] }
  | .exportNames =>
    { command := "export"
      summary := "Mark variables for export to child processes, or list exported variables."
      operands := .any "names" }
  | .help =>
    { command := "help"
      summary := "Show the list of built-ins, or the usage of the named ones."
      operands := .any "names" }
  | .history =>
    { command := "history"
      summary := "Display the command history of this session."
      flags := [{
        long := "--clear"
        short := "-c"
        description := "clear the history instead of printing it." }] }
  | .pwd =>
    { command := "pwd"
      summary := "Print the current working directory to standard output." }
  | .setenv =>
    { command := "setenv"
      summary := "Set a variable and export it to child processes."
      operands := .fixed [
        { name := "name", required := true, description := "variable name." },
        { name := "value", required := false, description := "new value; empty when omitted." }] }
  | .unalias =>
    { command := "unalias"
      summary := "Remove aliases."
      flags := [{ long := "--all", short := "-a", description := "remove every alias." }]
      operands := .any "names" }
  | .unset =>
    { command := "unset"
      summary := "Remove shell variables."
      operands := .any "names" }
  | .unsetenv =>
    { command := "unsetenv"
      summary := "Remove variables from the environment."
      operands := .any "names" }

def name (b : Builtin) : String := b.form.command

def usage (b : Builtin) : String := b.form.usage

def ofName? (s : String) : Option Builtin := all.find? fun b => b.name == s

end Builtin

/-- What a built-in command is asked to do. -/
inductive Request where
  | alias (definitions : List String)
  | cd (target : Option String)
  | echo (newline : Bool) (words : List String)
  | env
  | exit (status : Option String)
  | exportNames (operands : List String)
  | help (topics : List String)
  | history (clear : Bool)
  | pwd
  | setenv (name : String) (value : Option String)
  | unalias (all : Bool) (names : List String)
  | unset (names : List String)
  | usage (text : String)
  | refused (refusal : Arguments.Refusal)
deriving DecidableEq, Repr

namespace Request

open Arguments

def ofAnswer (b : Builtin) (accept : Given → Request) : Answer → Request
  | .accepted given => accept given
  | .help => .usage b.usage
  | .refused refusal => .refused refusal

/-- Arguments of a command whose operands may start with a hyphen. -/
def ofOperands (b : Builtin) (arguments : List String) (accept : List String → Request) : Request :=
  ofAnswer b (fun given => accept given.operands) (parseOperands b.form arguments)

/-- Arguments of a command that reads its options. -/
def ofOptions (b : Builtin) (arguments : List String) (accept : Given → Request) : Request :=
  ofAnswer b accept (parse b.form arguments)

/-- Only leading `-n` words are options of `echo`; all others are printed. -/
def ofEcho (arguments : List String) : Request :=
  if arguments = [helpOption] then .usage Builtin.echo.usage
  else
    let words := arguments.dropWhile (· == "-n")
    .echo (words.length == arguments.length) words

end Request

def Builtin.request (b : Builtin) (arguments : List String) : Request :=
  match b with
  | .alias => .ofOperands b arguments .alias
  | .cd => .ofOperands b arguments fun operands => .cd operands.head?
  | .echo => .ofEcho arguments
  | .env => .ofOptions b arguments fun _ => .env
  | .exit => .ofOperands b arguments fun operands => .exit operands.head?
  | .exportNames => .ofOperands b arguments .exportNames
  | .help => .ofOperands b arguments .help
  | .history => .ofOptions b arguments fun given => .history (given.hasFlag "--clear")
  | .pwd => .ofOptions b arguments fun _ => .pwd
  | .setenv =>
    .ofOperands b arguments fun
      | [] => .refused (.operandsMissing ["name"])
      | name :: values => .setenv name values.head?
  | .unalias =>
    .ofOptions b arguments fun given => .unalias (given.hasFlag "--all") given.operands
  | .unset | .unsetenv => .ofOperands b arguments .unset

end CommandShell
