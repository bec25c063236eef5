import CommandShell.Builtin.Basic
import CommandShell.Shell.Basic
import CommandShell.Expansion
import CommandShell.Quoting
import CommandShell.Text.Blank

/-! # Running built-in commands

Each request changes only its own part of the session. Its failures are reported as diagnostics; a
diagnostic that cannot be written changes nothing.
-/

namespace CommandShell

inductive CommandError where
  | oldDirectoryUnset
  | homeUnset
  | cannotEnter (target : String)
  | illegalNumber (text : String)
  | badVariableName (name : String)
  | write (fault : WriteFault)
deriving DecidableEq, Repr

def CommandError.message : CommandError → String
  | .oldDirectoryUnset => "cd: OLDPWD not set"
  | .homeUnset => "cd: no target and HOME not set"
  | .cannotEnter target => "cd: can't cd to " ++ target
  | .illegalNumber text => "exit: Illegal number: " ++ text
  | .badVariableName name => "setenv: bad variable name: " ++ name
  | .write fault => fault.reason

/-- The status of a built-in command that fails, and of a line that is no list of words. -/
def misuseStatus : Status := 2

/-- The status of a built-in command that finds nothing under a name. -/
def missingStatus : Status := 1

/-- A status or a failure, and the shell afterwards. -/
abbrev Outcome (σ : Type) := Except CommandError Status × Shell σ

namespace Outcome

variable {σ : Type}

def ofPrint (r : Except WriteFault Unit × Shell σ) : Outcome σ :=
  match r with
  | (.ok (), sh) => (.ok 0, sh)
  | (.error fault, sh) => (.error (.write fault), sh)

/-- Runs a command on operands in order. A failure ends the run; the last status other than zero
stays. -/
def forEach (f : String → Shell σ → Outcome σ) : List String → Status → Shell σ → Outcome σ
  | [], status, sh => (.ok status, sh)
  | x :: xs, status, sh =>
    match f x sh with
    | (.ok s, sh) => forEach f xs (if s = 0 then status else s) sh
    | (.error e, sh) => (.error e, sh)

/-- What holds before and after each operand holds at the end, unless a failure ends the run. -/
theorem forEach_induction {f : String → Shell σ → Outcome σ} {xs : List String}
    {P : Status → Shell σ → Prop} {Q : Outcome σ → Prop}
    (hstep : ∀ x ∈ xs, ∀ status sh, P status sh →
      match f x sh with
      | (.ok s, sh) => P (if s = 0 then status else s) sh
      | ended => Q ended)
    (hend : ∀ status sh, P status sh → Q (.ok status, sh)) {status : Status} {sh : Shell σ}
    (h : P status sh) : Q (forEach f xs status sh) := by
  induction xs generalizing status sh with
  | nil => exact hend status sh h
  | cons x xs ih =>
    obtain ⟨hx, hxs⟩ := List.forall_mem_cons.mp hstep
    have hfirst := hx status sh h
    rw [forEach]
    generalize f x sh = ended at hfirst ⊢
    obtain ⟨made, after⟩ := ended
    cases made with
    | ok s => exact ih hxs hfirst
    | error e => exact hfirst

end Outcome

namespace Request

variable {σ : Type}

/-- The directory to change to, and whether to announce it. -/
def directoryTarget (s : Session) : Option String → Except CommandError (String × Bool)
  | some "-" =>
    match s.parameter? "OLDPWD" with
    | some old => .ok (old, true)
    | none => .error .oldDirectoryUnset
  | target =>
    match target.filter (!·.isEmpty) with
    | some target => .ok (target, false)
    | none =>
      match s.parameter? "HOME" with
      | some home => .ok (home, false)
      | none => .error .homeUnset

def moveTo (s : Session) (directory : RawPath) : Session :=
  { s with
    directory
    vars := (s.vars.setExported "OLDPWD" s.directory.text).setExported "PWD" directory.text }

/-- The directory that a target leads to, if the process may make it its own. -/
def enterable? (sys : System σ) (sh : Shell σ) (target : String) : Option RawPath :=
  match sys.canonical? sh.world sh.processDirectory (sh.session.directory.join target) with
  | some directory =>
    if sys.isDirectory sh.world sh.processDirectory directory && sys.canEnter sh.world directory
    then some directory else none
  | none => none

def runCd (sys : System σ) (target : Option String) (sh : Shell σ) : Outcome σ :=
  match directoryTarget sh.session target with
  | .error e => (.error e, sh)
  | .ok (target, announce) =>
    match enterable? sys sh target with
    | none => (.error (.cannotEnter target), sh)
    | some directory =>
      let sh := { sh.update (moveTo · directory) with processDirectory := directory }
      if announce then .ofPrint (sh.print [directory.text, "\n"]) else (.ok 0, sh)

def requestExit (status : Status) (sh : Shell σ) : Outcome σ :=
  (.ok status, sh.update fun s => { s with exitRequest := some status })

def runExit (status : Option String) (sh : Shell σ) : Outcome σ :=
  match status with
  | none => requestExit sh.session.lastStatus sh
  | some text =>
    match Decimal.digits? Decimal.wordBound text with
    | some n => requestExit (n % 256 : Nat) sh
    | none => (.error (.illegalNumber text), sh)

def runSetenv (name : String) (value : Option String) (sh : Shell σ) : Outcome σ :=
  if Variables.isName name then
    (.ok 0, sh.update fun s =>
      { s with vars := s.vars.setExported name (value.getD "") })
  else (.error (.badVariableName name), sh)

/-- Exports one name, or assigns and exports one `name=value`. -/
def exportOperand (operand : String) (sh : Shell σ) : Outcome σ :=
  let (name, value) := match Expansion.cutAtEquals? operand with
    | some (name, value) => (name, some value)
    | none => (operand, none)
  if Variables.isName name then
    (.ok 0, sh.update fun s =>
      { s with
        vars := match value with
          | some value => s.vars.setExported name value
          | none => s.vars.exportName name })
  else (.ok misuseStatus, sh.report ["export: bad variable name: ", name])

def aliasOperand (definition : String) (sh : Shell σ) : Outcome σ :=
  match (Expansion.cutAtEquals? definition).filter (!·.1.isEmpty) with
  | some (name, text) =>
    (.ok 0, sh.update fun s => { s with aliases := s.aliases.insert name text })
  | none =>
    match sh.session.aliases.get? definition with
    | some text => .ofPrint (sh.print [definition, "=", Quoting.single text, "\n"])
    | none => (.ok missingStatus, sh.report ["alias: ", definition, " not found"])

def unaliasOperand (name : String) (sh : Shell σ) : Outcome σ :=
  if sh.session.aliases.contains name then
    (.ok 0, sh.update fun s => { s with aliases := s.aliases.erase name })
  else (.ok missingStatus, sh.report ["unalias: ", name, " not found"])

def helpTopic (topic : String) (sh : Shell σ) : Outcome σ :=
  match Builtin.ofName? topic with
  | some b => .ofPrint (sh.print [b.usage])
  | none => (.ok missingStatus, sh.report ["help: no help topics match ", topic])

def unsetAll (vars : Variables) (names : List String) : Variables :=
  names.foldl Table.erase vars

def historyNumber (n : Nat) : String :=
  let digits := toString n
  "".pushn ' ' (5 - digits.length) ++ digits

def historyLines (lines : List String) : List String :=
  lines.zipIdx.flatMap fun (line, i) => [historyNumber (i + 1), "  ", line, "\n"]

/-- Lines of the form `name=value`, where the name may follow a word and the value may be quoted. -/
def bindingLines (before : List String) (format : String → String)
    (bindings : List (String × String)) : List String :=
  bindings.flatMap fun (name, value) => before ++ [name, "=", format value, "\n"]

def helpLines : List String :=
  "Built-in commands (help NAME for details):\n"
    :: Builtin.all.flatMap fun b => ["  ", b.name, "\n"]

def run (sys : System σ) (request : Request) (sh : Shell σ) : Outcome σ :=
  match request with
  | .pwd => .ofPrint (sh.print [sh.session.directory.text, "\n"])
  | .cd target => runCd sys target sh
  | .exit status => runExit status sh
  | .echo newline words =>
    let text := " ".intercalate words
    .ofPrint (sh.print (if newline then [text, "\n"] else [text]))
  | .env => .ofPrint (sh.print (bindingLines [] id sh.session.vars.exportedList))
  | .setenv name value => runSetenv name value sh
  | .exportNames [] =>
    .ofPrint (sh.print
      (bindingLines ["export "] Quoting.single sh.session.vars.exportedList))
  | .exportNames operands => .forEach exportOperand operands 0 sh
  | .unset names =>
    (.ok 0, sh.update fun s => { s with vars := unsetAll s.vars names })
  | .alias [] => .ofPrint (sh.print (bindingLines [] Quoting.single sh.session.aliases.toList))
  | .alias definitions => .forEach aliasOperand definitions 0 sh
  | .unalias true _ => (.ok 0, sh.update fun s => { s with aliases := .empty })
  | .unalias false names => .forEach unaliasOperand names 0 sh
  | .history true => (.ok 0, sh.update fun s => { s with history := s.history.clear })
  | .history false => .ofPrint (sh.print (historyLines sh.session.history.lines))
  | .help [] => .ofPrint (sh.print helpLines)
  | .help topics => .forEach helpTopic topics 0 sh
  | .usage text => .ofPrint (sh.print [text])
  | .refused refusal => (.ok misuseStatus, sh.report [Blank.trimEnd refusal.message])

/-- Whether a failure is left to the caller. The others are reported here. -/
def leavesFailure : Request → Bool
  | .help _ | .usage _ => true
  | _ => false

/-- Runs a request and reports its failure. -/
def execute (sys : System σ) (request : Request) (sh : Shell σ) : Outcome σ :=
  match request.run sys sh with
  | (.error e, sh) =>
    if request.leavesFailure then (.error e, sh) else (.ok misuseStatus, sh.report [e.message])
  | ended => ended

end Request

end CommandShell
