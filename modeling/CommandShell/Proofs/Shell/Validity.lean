import CommandShell.Proofs.Builtin.Validity
import CommandShell.Proofs.Shell.Turns

/-! # Validity over whole runs

Whatever is run, a valid shell stays valid: single commands and lines, sources with any events, and
scripts, one after the other in any order. Child processes are assumed to end as processes do.
-/

namespace CommandShell

def Ending.IsOrdinary : Ending → Prop
  | .exited code => code ≤ 255
  | .killed signal => 1 ≤ signal ∧ signal ≤ 127

def System.EndsOrdinarily {σ : Type} (sys : System σ) : Prop :=
  ∀ world launch finished, (sys.spawn world launch).1 = .ok finished → finished.ending.IsOrdinary

theorem Ending.IsOrdinary.isExitCode {e : Ending} (h : e.IsOrdinary) : IsExitCode e.status := by
  cases e with
  | exited code =>
    exact ⟨Int.natCast_nonneg _, Int.ofNat_le.mpr h⟩
  | killed signal =>
    have hs : signal ≤ 127 := h.2
    change (0 : Int) ≤ 128 + signal ∧ 128 + (signal : Int) ≤ 255
    omega

namespace Shell

variable {σ : Type} {sys : System σ} {sh : Shell σ}

theorem isExitCode_dispatch (hsys : sys.EndsOrdinarily) (h : sh.Valid) (name : String)
    (arguments : List String) (assignments : List (String × String)) :
    IsExitCode (dispatch sys name arguments assignments sh).1 := by
  unfold dispatch
  split
  · next b _ =>
    have hcode := Request.isCode_execute sys (b.request arguments) h.session.lastStatus_code
    unfold runBuiltin
    generalize (b.request arguments).execute sys sh = ended at hcode ⊢
    obtain ⟨r, ended⟩ := ended
    cases r with
    | ok status => exact hcode status rfl
    | error e => exact Request.isExitCode_misuse
  · split
    · unfold runProgram
      simp only
      split
      · next hspawn => exact (hsys _ _ _ hspawn).isExitCode
      · simp [IsExitCode, notExecutableStatus]
    · simp [IsExitCode, notExecutableStatus]
    · simp [IsExitCode, notFoundStatus]

theorem Valid.dispatch (h : sh.Valid) (sys : System σ) (name : String) (arguments : List String)
    (assignments : List (String × String)) :
    (dispatch sys name arguments assignments sh).2.Valid := by
  unfold Shell.dispatch
  split
  · exact (effects_runBuiltin sys _ name arguments sh).valid h
  · split
    · next program _ =>
      obtain ⟨world, hw⟩ := writes_runProgram sys program name arguments assignments sh
      exact h.of_session hw.session_eq hw.processDirectory_eq
    · exact h.writes (writes_report _ _)
    · exact h.writes (writes_report _ _)

theorem Valid.record {r : Status × Shell σ} (h : r.2.Valid) (hs : IsExitCode r.1) :
    (record r).2.Valid :=
  h.update (f := (·.recordStatus r.1)) (h.session.recordStatus hs) rfl

theorem valid_run (hsys : sys.EndsOrdinarily) (h : sh.Valid) (name : String)
    (arguments : List String) : (run sys name arguments sh).2.Valid :=
  (h.dispatch sys name arguments []).record (isExitCode_dispatch hsys h name arguments [])

theorem Valid.assign (h : sh.Valid) {assignments : List (String × String)}
    (ha : ∀ a ∈ assignments, Variables.isName a.1) : (sh.update (assign assignments)).Valid := by
  induction assignments generalizing sh with
  | nil => exact h
  | cons a assignments ih =>
    obtain ⟨hn, ha⟩ := List.forall_mem_cons.mp ha
    have hfirst : (sh.update (·.setVariable a.1 a.2)).Valid :=
      h.update (h.session.withVars (h.session.forall_mem_insert hn _)) rfl
    exact ih hfirst ha

theorem valid_execute (hsys : sys.EndsOrdinarily) (h : sh.Valid) (words : List Word) :
    (execute sys words sh).2.Valid := by
  unfold execute
  split
  · exact h
  · have hnames := Expansion.isName_of_mem_expand (s := sh.session) {} words
    simp only
    split
    · exact (h.assign hnames).record isExitCode_zero
    · exact (h.dispatch sys _ _ _).record (isExitCode_dispatch hsys h _ _ _)

theorem Valid.reject (h : sh.Valid) (error : LexError) : (reject error sh).2.Valid :=
  (h.writes (writes_report _ _)).record Request.isExitCode_misuse

theorem valid_runLine (hsys : sys.EndsOrdinarily) (h : sh.Valid) (line : String) :
    (runLine sys line sh).2.Valid := by
  unfold runLine
  split
  · exact valid_execute hsys h _
  · exact h.reject _

/-! ## Sources -/

theorem Valid.startLine (h : sh.Valid) (number : Nat) (line : LogicalLine) :
    (sh.startLine number line).Valid := by
  have hn : { sh.session with lineNumber := number }.Valid := { h.session with }
  unfold Shell.startLine
  cases hr : line.remembered? with
  | none => exact h.update hn rfl
  | some text =>
    obtain ⟨-, ht⟩ := Option.filter_eq_some_iff.mp hr
    exact h.update (hn.remember (by simpa using ht)) rfl

theorem valid_take (hsys : sys.EndsOrdinarily) (h : sh.Valid) (interactive : Bool) (number : Nat)
    (line : LogicalLine) : (take sys interactive number line sh).shell.Valid := by
  have hstart := h.startLine number line
  match line with
  | .endOfInput => exact h
  | .failure .interrupted =>
    exact h.update (f := (·.recordStatus interruptedStatus))
      (h.session.recordStatus (by simp [IsExitCode, interruptedStatus])) rfl
  | .failure (.failed _) => exact h
  | .failure (.editor _) => exact h
  | .line text words =>
    rw [take, Step.shell_after]
    exact valid_execute hsys hstart words
  | .invalid text error =>
    have hreject := hstart.reject error
    cases interactive with
    | false => exact hreject
    | true =>
      simp only [take, if_true, Step.shell_after]
      exact hreject

theorem valid_advance (hsys : sys.EndsOrdinarily) (h : sh.Valid) (display interactive : Bool)
    (answer : LineReader.Answer) :
    (advance sys display interactive answer sh).shell.Valid := by
  obtain ⟨shown, hw, hstep | ⟨error, hstep⟩⟩ :=
    exists_writes_advance sys display interactive answer sh
  · rw [hstep]
    exact valid_take hsys (h.writes hw) _ _ _
  · rw [hstep]
    exact h.writes hw

theorem valid_runSource (hsys : sys.EndsOrdinarily) (reader : LineReader) (h : sh.Valid) :
    (runSource sys reader sh).shell.Valid := by
  fun_induction runSource sys reader sh with
  | case1 reader sh answer remembered result shell ha =>
    have hv := valid_advance hsys h reader.source.display reader.source.interactive answer
    rwa [ha] at hv
  | case2 reader sh answer remembered shell ha r ih =>
    have hv := valid_advance hsys h reader.source.display reader.source.interactive answer
    rw [ha] at hv
    exact ih hv

theorem valid_runScript (hsys : sys.EndsOrdinarily) (h : sh.Valid) (path : String) :
    (runScript sys path sh).2.Valid := by
  unfold runScript
  split
  · exact (h.update (f := fun s => { s with lineNumber := 0 }) { h.session with } rfl).writes
      (writes_report _ _)
  · exact valid_runSource hsys _ h

/-! ## Sequences of calls -/

/-- One use of a shell. -/
inductive Action where
  | run (name : String) (arguments : List String)
  | runLine (line : String)
  | runSource (reader : LineReader)
  | runScript (path : String)

def perform (sys : System σ) (sh : Shell σ) : Action → Shell σ
  | .run name arguments => (run sys name arguments sh).2
  | .runLine line => (runLine sys line sh).2
  | .runSource reader => (runSource sys reader sh).shell
  | .runScript path => (runScript sys path sh).2

theorem valid_perform (hsys : sys.EndsOrdinarily) (h : sh.Valid) (action : Action) :
    (perform sys sh action).Valid := by
  cases action with
  | run name arguments => exact valid_run hsys h name arguments
  | runLine line => exact valid_runLine hsys h line
  | runSource reader => exact valid_runSource hsys reader h
  | runScript path => exact valid_runScript hsys h path

/-- Every state that a valid shell can be brought to is valid. -/
theorem valid_foldl_perform (hsys : sys.EndsOrdinarily) (h : sh.Valid) (actions : List Action) :
    (actions.foldl (perform sys) sh).Valid := by
  induction actions generalizing sh with
  | nil => exact h
  | cons action actions ih => exact ih (valid_perform hsys h action)

/-- A child that the last signal ends, lines that are given up or malformed, and an `exit` that
takes the status over. -/
theorem valid_foldl_perform_killed :
    let sys : System Unit :=
      { access := fun _ _ path => if path = "/bin/sh" then .executable else .missing
        canonical? := fun _ _ path => if path = "/tmp" then some path else none
        isDirectory := fun _ _ path => path = "/tmp"
        canEnter := fun _ path => path = "/tmp"
        contents? := fun _ _ _ => none
        spawn := fun _ _ => (.ok { ending := .killed 127 }, ())
        input := fun _ => ({ events := [] }, ()) }
    let sh : Shell Unit :=
      { session :=
          { vars := Variables.setExported .empty "HOME" "/tmp"
            history := { capacity := 2 }, directory := "/", name := "hsh", processId := 1 }
        processDirectory := "/"
        world := () }
    let actions : List Action :=
      [.runLine "alias k=/bin/sh =x a=",
        .runSource
          { source :=
              { events :=
                  [.line "x='a", .failure .interrupted, .line " ", .line "cd", .line "$\x7b"]
                interactive := true } },
        .run "setenv" ["1x", "y"],
        .runLine "k -c 'kill -127 $$'",
        .runScript "/missing",
        .runLine "exit"]
    sys.EndsOrdinarily ∧ sh.Valid ∧ (actions.foldl (perform sys) sh).Valid ∧
      (actions.foldl (perform sys) sh).session.exitRequest = some 255 ∧
      (actions.foldl (perform sys) sh).session.directory = "/tmp" := by
  intro sys sh actions
  have hsys : sys.EndsOrdinarily := by
    rintro world launch finished hspawn
    cases hspawn
    exact ⟨by decide, by decide⟩
  have hsh : sh.Valid := by
    refine ⟨⟨by decide, by decide, by decide, by decide, isExitCode_zero, ?_⟩, rfl⟩
    rintro status ⟨⟩
  exact ⟨hsys, hsh, valid_foldl_perform hsys hsh actions, by decide +kernel, by decide +kernel⟩

end Shell

end CommandShell
