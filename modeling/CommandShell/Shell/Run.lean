import CommandShell.Shell.Command
import CommandShell.LogicalLine

/-! # Running a source of lines

Logical lines are read and run one after the other, until the input ends, a command asks for the
end, or reading fails. A line that is no list of words ends a source that nobody types.
-/

namespace CommandShell

def commandPrompt : String := "Homemade shell$ "

def interruptedStatus : Status := 130

namespace Shell

variable {σ : Type}

structure SourceRun (σ : Type) where
  result : Except ReadError Status
  shell : Shell σ
  reader : LineReader
  prompts : List String := []
  remembered : List String := []

def showPrompts (sh : Shell σ) : List String → Except WriteFault Unit × Shell σ
  | [] => (.ok (), sh)
  | prompt :: prompts =>
    match sh.out.writeAndFlush [prompt] with
    | (.error fault, out) => (.error fault, { sh with out })
    | (.ok (), out) => showPrompts { sh with out } prompts

/-- Makes a line that was read the current one and adds it to the history. -/
def startLine (sh : Shell σ) (number : Nat) (line : LogicalLine) : Shell σ :=
  sh.update fun s =>
    let s := { s with lineNumber := number }
    match line.remembered? with
    | some text => { s with history := s.history.append text }
    | none => s

/-- What one logical line leads to: the next one, or the end of the source. -/
inductive Step (σ : Type) where
  | next (shell : Shell σ)
  | done (result : Except ReadError Status) (shell : Shell σ)

/-- Ends the source if a command asked for it. -/
def Step.after (sh : Shell σ) : Step σ :=
  match sh.session.exitRequest with
  | some status => .done (.ok status) sh
  | none => .next sh

def take (sys : System σ) (interactive : Bool) (number : Nat) (line : LogicalLine) (sh : Shell σ) :
    Step σ :=
  match line with
  | .endOfInput => .done (.ok (if interactive then 0 else sh.session.lastStatus)) sh
  | .failure .interrupted => .next (sh.update (·.recordStatus interruptedStatus))
  | .failure error => .done (.error error) sh
  | .line _ words => .after (execute sys words (sh.startLine number line)).2
  | .invalid _ error =>
    let (status, sh) := reject error (sh.startLine number line)
    if interactive then .after sh else .done (.ok status) sh

theorem ne_endOfInput_of_take {sys : System σ} {interactive : Bool} {number : Nat}
    {line : LogicalLine} {sh sh' : Shell σ} (h : take sys interactive number line sh = .next sh') :
    line ≠ .endOfInput := by
  rintro rfl
  simp [take] at h

/-- Shows the prompts of an answer and hands its line over. No line is read if a prompt cannot be
shown. -/
def prompted (display : Bool) (answer : LineReader.Answer) (sh : Shell σ) :
    LogicalLine × Shell σ :=
  match (if display then sh.showPrompts answer.prompts else (.ok (), sh)) with
  | (.error fault, sh) => (.failure (.failed fault.reason), sh)
  | (.ok (), sh) => (answer.result, sh)

@[simp] theorem prompted_false (answer : LineReader.Answer) (sh : Shell σ) :
    sh.prompted false answer = (answer.result, sh) := rfl

def advance (sys : System σ) (display interactive : Bool) (answer : LineReader.Answer)
    (sh : Shell σ) : Step σ :=
  let (line, sh) := sh.prompted display answer
  take sys interactive answer.reader.startLine line sh

theorem ne_endOfInput_of_advance {sys : System σ} {display interactive : Bool}
    {answer : LineReader.Answer} {sh sh' : Shell σ}
    (h : advance sys display interactive answer sh = .next sh') : answer.result ≠ .endOfInput := by
  simp only [advance, prompted] at h
  split at h
  · cases h
  · exact ne_endOfInput_of_take h

def promptOf (source : Source) : String := if source.interactive then commandPrompt else ""

/-- Runs the lines of a source. -/
def runSource (sys : System σ) (reader : LineReader) (sh : Shell σ) : SourceRun σ :=
  let answer := reader.next (promptOf reader.source)
  let remembered := (sh.prompted reader.source.display answer).1.remembered?.toList
  match _h : advance sys reader.source.display reader.source.interactive answer sh with
  | .done result shell =>
    { result, shell, reader := answer.reader, prompts := answer.prompts, remembered }
  | .next shell =>
    let r := runSource sys answer.reader shell
    { r with prompts := answer.prompts ++ r.prompts, remembered := remembered ++ r.remembered }
termination_by reader.source.events.length
decreasing_by exact LineReader.next_decreases _ _ (ne_endOfInput_of_advance _h)

def runScript (sys : System σ) (path : String) (sh : Shell σ) :
    Except ReadError Status × Shell σ :=
  match sys.contents? sh.world sh.processDirectory path with
  | none =>
    (.ok notFoundStatus,
      (sh.update fun s => { s with lineNumber := 0 }).report ["Can't open ", path])
  | some contents =>
    let r := runSource sys { source := .ofBytes contents.bytes contents.failure } sh
    (r.result, r.shell)

end Shell

end CommandShell
