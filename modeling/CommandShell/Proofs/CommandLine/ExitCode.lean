import CommandShell.CommandLine
import CommandShell.Proofs.Shell.ExitStatus

/-! # The exit code of a call

A call that runs a source tells its caller the low eight bits of the status that the run ended with.
A call whose source cannot be read to its end says so and fails; it is aborted if it cannot even say
so.
-/

namespace CommandShell

/-- Whether all pieces of a text can be written. -/
def Stream.accepts (stream : Stream) (texts : List String) : Bool :=
  (stream.writeAll texts).1.isOk

namespace CommandLine

open Arguments Shell

variable {σ : Type} {sys : System σ} {call : Call σ} {r : SourceRun σ}

def historySize (given : Given) : Nat :=
  (given.number? historySizeOption).getD Session.defaultHistorySize

/-- The run of the source that a call comes to: a script that can be opened, or what the standard
input holds. -/
inductive Runs (sys : System σ) (call : Call σ) : SourceRun σ → Prop where
  | script {given : Given} {path : String} {positional : List String} {contents : Contents} :
      parse (form call.name) call.arguments = .accepted given →
      given.operands = path :: positional →
      sys.contents? call.world call.directory path = some contents →
      Runs sys call
        (runSource sys { source := .ofBytes contents.bytes contents.failure }
          (startShell call (historySize given) positional))
  | input {given : Given} {source : Source} {world : σ} :
      parse (form call.name) call.arguments = .accepted given →
      given.operands = [] →
      sys.input call.world = (source, world) →
      Runs sys call
        (runSource sys { source } { startShell call (historySize given) [] with world })

theorem Runs.exists_runOperands_eq (h : Runs sys call r) :
    ∃ given, parse (form call.name) call.arguments = .accepted given ∧
      runOperands sys call (historySize given) given.operands = (r.result, r.shell) := by
  cases h with
  | @script given path positional contents hparse hoperands hcontents =>
    refine ⟨given, hparse, ?_⟩
    have hopened : sys.contents? (startShell call (historySize given) positional).world
        (startShell call (historySize given) positional).processDirectory path = some contents :=
      hcontents
    rw [hoperands, runOperands, runScript, hopened]
  | @input given source world hparse hoperands hinput =>
    refine ⟨given, hparse, ?_⟩
    have htaken : sys.input (startShell call (historySize given) []).world = (source, world) :=
      hinput
    rw [hoperands, runOperands, runInput, htaken]

theorem code_of_ok (h : Runs sys call r) {s : Status} (hs : r.result = .ok s) :
    (run sys call).code = exitCode s := by
  obtain ⟨given, hparse, hrun⟩ := h.exists_runOperands_eq
  rw [historySize] at hrun
  simp only [run, hparse, hrun, hs]

theorem conclude_fst (stream : Stream) (texts : List String) (code : Nat) :
    (conclude stream texts code).1 = if stream.accepts texts then code else abortCode := by
  unfold conclude Stream.accepts
  generalize stream.writeAll texts = written
  obtain ⟨_ | _, _⟩ := written <;> rfl

def lament (sh : Shell σ) (error : ReadError) : List String :=
  [sh.session.name, ": ", error.message, "\n"]

theorem code_of_error (h : Runs sys call r) {error : ReadError} (he : r.result = .error error) :
    (run sys call).code =
      if r.shell.err.accepts (lament r.shell error) then failureCode else abortCode := by
  obtain ⟨given, hparse, hrun⟩ := h.exists_runOperands_eq
  rw [historySize] at hrun
  rw [← conclude_fst]
  simp only [run, hparse, hrun, he]
  rfl

/-- The status that a run ends with is the recorded one, unless a person leaves it at the end of the
input. Its caller is told the low eight bits, and after a failure of reading that the call failed,
if the standard error takes the words that say so. -/
theorem status_recorded_and_told (sys : System σ) :
    (∀ (reader : LineReader) (sh : Shell σ) (s : Status), sh.session.exitRequest = none →
      (runSource sys reader sh).result = .ok s →
      let ended := (runSource sys reader sh).shell.session
      (reader.source.interactive = false →
        s = ended.lastStatus ∧ (ended.exitRequest = none ∨ ended.exitRequest = some s)) ∧
      (reader.source.interactive = true →
        ended.exitRequest = some s ∧ ended.lastStatus = s ∨
          ended.exitRequest = none ∧
            (answers sys reader sh).getLast?.map (·.result) = some .endOfInput ∧ s = 0)) ∧
    ∀ (call : Call σ) (r : SourceRun σ), Runs sys call r →
      (∀ s, r.result = .ok s → ((run sys call).code : Int) = s % 256) ∧
      ∀ error, r.result = .error error →
        (run sys call).code = if r.shell.err.accepts (lament r.shell error) then 1 else 101 := by
  constructor
  · intro reader sh s hn hs
    obtain ⟨last, hlast, hc⟩ := concludes_runSource reader hn hs
    constructor
    · intro hi
      rw [hi] at hc
      exact hc.of_quiet
    · intro hi
      rw [hi] at hc
      rw [answers, List.getLast?_map, hlast]
      rcases hc.of_interactive with hexit | ⟨hnone, hend, hzero⟩
      · exact .inl hexit
      · exact .inr ⟨hnone, congrArg some hend, hzero⟩
  · intro call r h
    constructor
    · intro s hs
      rw [code_of_ok h hs]
      exact Int.toNat_of_nonneg (Int.emod_nonneg s (by decide))
    · intro error he
      exact code_of_error h he

/-- A script that asks for the end, and a person who leaves after a command that failed. -/
theorem status_recorded_and_told_exit :
    let bytes := Utf8.encode "x=1\nexit 300\nexit 2\n"
    let sys : System Unit := { System.bare with contents? := fun _ _ _ => some { bytes } }
    let call : Call Unit :=
      { name := "hsh", arguments := ["script"], environment := [], directory := "/", processId := 1
        world := (), out := .byLine {}, err := .direct {} }
    let typed : LineReader :=
      { source := { events := [.line "none", .endOfInput], interactive := true } }
    let left := runSource sys typed (startShell call 10 [])
    (run sys call).code = 44 ∧
      left.result = .ok 0 ∧ left.shell.session.lastStatus = 127 ∧
        left.shell.session.exitRequest = none := by
  intro bytes sys call typed left
  obtain ⟨hrecorded, htold⟩ := status_recorded_and_told sys
  have hparse : parse (form call.name) call.arguments = .accepted { operands := ["script"] } := by
    decide +kernel
  have hruns := @Runs.script Unit sys call { operands := ["script"] } "script" [] { bytes }
    hparse rfl rfl
  have hcode : ((run sys call).code : Int) = 44 := (htold call _ hruns).1 44 (by decide +kernel)
  have hleft : left.result = .ok 0 := by decide +kernel
  have hlast : left.shell.session.lastStatus = 127 := by decide +kernel
  refine ⟨Int.ofNat.inj hcode, hleft, hlast, ?_⟩
  rcases (hrecorded typed _ 0 rfl hleft).2 rfl with ⟨-, hzero⟩ | ⟨hnone, -⟩
  · exact absurd (hlast.symm.trans hzero) (by decide)
  · exact hnone

/-- A directory in place of a script, while the standard error takes nothing: the call fails with
another code than 1. -/
theorem code_ne_failureCode :
    let directory : Contents := { bytes := [], failure := some "Is a directory (os error 21)" }
    let sys : System Unit := { System.bare with contents? := fun _ _ _ => some directory }
    let call : Call Unit :=
      { name := "hsh", arguments := ["d"], environment := [], directory := "/", processId := 1
        world := (), out := .byLine {}
        err := .direct (.limited (some 0) "No space left on device (os error 28)") }
    ∃ r error, Runs sys call r ∧ r.result = .error error ∧ (run sys call).code ≠ 1 := by
  intro directory sys call
  have hparse : parse (form call.name) call.arguments = .accepted { operands := ["d"] } := by
    decide +kernel
  have hruns := @Runs.script Unit sys call { operands := ["d"] } "d" [] _ hparse rfl rfl
  exact ⟨_, .failed "Is a directory (os error 21)", hruns, by decide +kernel, by decide +kernel⟩

end CommandLine

end CommandShell
