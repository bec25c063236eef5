import CommandShell.Proofs.Builtin.Effects
import CommandShell.Proofs.Shell.Turns

/-! # The status that a run ends with

A command can ask for the end only with its own status, which is then recorded. So a run ends with
the status that was recorded last, unless a person leaves it at the end of the input.
-/

namespace CommandShell

open Relation Shell

instance decidableEqResult {ε α : Type} [DecidableEq ε] [DecidableEq α] :
    DecidableEq (Except ε α)
  | .ok a, .ok b => decidable_of_iff (a = b) ⟨congrArg _, Except.ok.inj⟩
  | .error a, .error b => decidable_of_iff (a = b) ⟨congrArg _, Except.error.inj⟩
  | .ok _, .error _ => isFalse (by simp)
  | .error _, .ok _ => isFalse (by simp)

/-- A system without files, programs and input. -/
def System.bare : System Unit where
  access _ _ _ := .missing
  canonical? _ _ _ := none
  isDirectory _ _ _ := false
  canEnter _ _ := false
  contents? _ _ _ := none
  spawn _ _ := (.error .notFound, ())
  input _ := ({ events := [] }, ())

/-- A new shell on it. -/
def Shell.bare : Shell Unit where
  session := { history := { capacity := 10 }, directory := "/", name := "hsh", processId := 1 }
  processDirectory := "/"
  world := ()

variable {σ : Type}

namespace Request

variable {request : Request} {sh sh₁ : Shell σ}

theorem Effect.exitRequest_eq (he : Effect request sh sh₁)
    (hne : ∀ status, request ≠ .exit status) :
    sh₁.session.exitRequest = sh.session.exitRequest := by
  cases he with
  | write hw => rw [hw.session_eq]
  | exitLast => exact absurd rfl (hne _)
  | exitWith => exact absurd rfl (hne _)
  | _ => rfl

theorem Effects.exitRequest_eq (he : Effects request sh sh₁)
    (hne : ∀ status, request ≠ .exit status) :
    sh₁.session.exitRequest = sh.session.exitRequest := by
  induction he with
  | refl => rfl
  | tail _ he ih => exact (he.exitRequest_eq hne).trans ih

theorem execute_exit (sys : System σ) (hn : sh.session.exitRequest = none)
    (status : Option String) {s : Status}
    (hs : ((Request.exit status).execute sys sh).2.session.exitRequest = some s) :
    ((Request.exit status).execute sys sh).1 = .ok s := by
  simp only [execute, run, runExit] at hs ⊢
  cases status with
  | none =>
    simp only [requestExit] at hs ⊢
    exact congrArg Except.ok (Option.some.inj hs)
  | some text =>
    cases hd : Decimal.digits? Decimal.wordBound text with
    | some n =>
      simp only [hd, requestExit] at hs ⊢
      exact congrArg Except.ok (Option.some.inj hs)
    | none =>
      simp only [hd] at hs
      change sh.session.exitRequest = some s at hs
      rw [hn] at hs
      cases hs

/-- A request that asks for the end succeeds, with the status to end with. -/
theorem execute_of_exitRequest (sys : System σ) (request : Request)
    (hn : sh.session.exitRequest = none) {s : Status}
    (hs : (request.execute sys sh).2.session.exitRequest = some s) :
    (request.execute sys sh).1 = .ok s := by
  by_cases he : ∃ status, request = .exit status
  · obtain ⟨status, rfl⟩ := he
    exact execute_exit sys hn status hs
  · have hne : ∀ status, request ≠ .exit status := fun status h => he ⟨status, h⟩
    rw [(effects_execute sys request sh).exitRequest_eq hne, hn] at hs
    cases hs

end Request

namespace Shell

variable {sys : System σ} {sh : Shell σ}

theorem dispatch_of_exitRequest (hn : sh.session.exitRequest = none) {name : String}
    {arguments : List String} {assignments : List (String × String)} {s : Status}
    (hs : (dispatch sys name arguments assignments sh).2.session.exitRequest = some s) :
    (dispatch sys name arguments assignments sh).1 = s := by
  have hwrites : ∀ {sh₁ : Shell σ}, sh₁.session = sh.session →
      sh₁.session.exitRequest ≠ some s := by
    intro sh₁ hsession
    rw [hsession, hn]
    exact (Option.some_ne_none s).symm
  unfold dispatch at hs ⊢
  split at hs
  · next b _ =>
    have hrequest := Request.execute_of_exitRequest sys (b.request arguments) hn (s := s)
    unfold runBuiltin at hs ⊢
    generalize (b.request arguments).execute sys sh = ended at hrequest hs ⊢
    obtain ⟨r, ended⟩ := ended
    cases r with
    | ok status => exact Except.ok.inj (hrequest hs)
    | error e => cases hrequest hs
  · split at hs
    · next program _ =>
      obtain ⟨world, hw⟩ := writes_runProgram sys program name arguments assignments sh
      exact absurd hs (hwrites hw.session_eq)
    · exact absurd hs (hwrites rfl)
    · exact absurd hs (hwrites rfl)

theorem exitRequest_assign (assignments : List (String × String)) (s : Session) :
    (assign assignments s).exitRequest = s.exitRequest := by
  rw [assign_eq]

theorem execute_of_exitRequest (hn : sh.session.exitRequest = none) {words : List Word} {s : Status}
    (hs : (execute sys words sh).2.session.exitRequest = some s) :
    (execute sys words sh).2.session.lastStatus = s := by
  unfold execute at hs ⊢
  split at hs
  · rw [hn] at hs
    cases hs
  · next hw =>
    rw [if_neg hw]
    simp only at hs ⊢
    split at hs
    · have hassign :=
        exitRequest_assign (Expansion.expand {} sh.session words).assignments sh.session
      exact absurd (hs.symm.trans (hassign.trans hn)) (Option.some_ne_none s)
    · exact dispatch_of_exitRequest hn hs

/-! ## Runs -/

/-- How a run ends with a status: the input ends, a command asked for it, or a line that nobody
typed is rejected. -/
inductive Concludes (interactive : Bool) : LogicalLine → Shell σ → Status → Prop where
  | inputEnd {sh : Shell σ} : sh.session.exitRequest = none →
      Concludes interactive .endOfInput sh (if interactive then 0 else sh.session.lastStatus)
  | exit {line : LogicalLine} {sh : Shell σ} {s : Status} :
      sh.session.exitRequest = some s → sh.session.lastStatus = s →
      Concludes interactive line sh s
  | rejection {line : LogicalLine} {sh : Shell σ} : interactive = false →
      sh.session.exitRequest = none → Concludes interactive line sh sh.session.lastStatus

theorem Concludes.of_quiet {line : LogicalLine} {s : Status} (h : Concludes false line sh s) :
    s = sh.session.lastStatus ∧
      (sh.session.exitRequest = none ∨ sh.session.exitRequest = some s) := by
  cases h with
  | inputEnd hn => exact ⟨rfl, .inl hn⟩
  | exit he hl => exact ⟨hl.symm, .inr he⟩
  | rejection _ hn => exact ⟨rfl, .inl hn⟩

theorem Concludes.of_interactive {line : LogicalLine} {s : Status} (h : Concludes true line sh s) :
    sh.session.exitRequest = some s ∧ sh.session.lastStatus = s ∨
      sh.session.exitRequest = none ∧ line = .endOfInput ∧ s = 0 := by
  cases h with
  | inputEnd hn => exact .inr ⟨hn, rfl, rfl⟩
  | exit he hl => exact .inl ⟨he, hl⟩
  | rejection hi _ => cases hi

/-- What a step does to a shell that nobody asked to end. -/
inductive Progresses (interactive : Bool) (line : LogicalLine) : Step σ → Prop where
  | next {sh : Shell σ} : sh.session.exitRequest = none → Progresses interactive line (.next sh)
  | concluded {sh : Shell σ} {s : Status} : Concludes interactive line sh s →
      Progresses interactive line (.done (.ok s) sh)
  | failed {error : ReadError} {sh : Shell σ} :
      Progresses interactive line (.done (.error error) sh)

theorem progresses_after {interactive : Bool} {line : LogicalLine}
    (h : ∀ s, sh.session.exitRequest = some s → sh.session.lastStatus = s) :
    Progresses interactive line (.after sh) := by
  unfold Step.after
  cases hs : sh.session.exitRequest with
  | none => exact .next hs
  | some s => exact .concluded (.exit hs (h s hs))

theorem exitRequest_startLine (sh : Shell σ) (number : Nat) (line : LogicalLine) :
    (sh.startLine number line).session.exitRequest = sh.session.exitRequest := by
  unfold startLine
  cases line.remembered? <;> rfl

theorem progresses_take (hn : sh.session.exitRequest = none) (interactive : Bool) (number : Nat)
    (line : LogicalLine) : Progresses interactive line (take sys interactive number line sh) := by
  have hstart := (exitRequest_startLine sh number line).trans hn
  match line with
  | .endOfInput => exact .concluded (.inputEnd hn)
  | .failure .interrupted => exact .next hn
  | .failure (.failed _) => exact .failed
  | .failure (.editor _) => exact .failed
  | .line text words => exact progresses_after fun s hs => execute_of_exitRequest hstart hs
  | .invalid text error =>
    cases interactive with
    | true =>
      apply progresses_after
      intro s hs
      exact absurd (hs.symm.trans hstart) (Option.some_ne_none s)
    | false => exact .concluded (.rejection rfl hstart)

theorem progresses_advance (sys : System σ) (hn : sh.session.exitRequest = none)
    (display interactive : Bool) (answer : LineReader.Answer) :
    Progresses interactive answer.result (advance sys display interactive answer sh) := by
  obtain ⟨shown, hw, hstep | ⟨error, hstep⟩⟩ :=
    exists_writes_advance sys display interactive answer sh
  · rw [hstep]
    exact progresses_take ((congrArg Session.exitRequest hw.session_eq).trans hn) _ _ _
  · rw [hstep]
    exact .failed

/-- A run that ends with a status concludes with the line of its last turn. -/
theorem concludes_runSource (reader : LineReader) (hn : sh.session.exitRequest = none) {s : Status}
    (hs : (runSource sys reader sh).result = .ok s) :
    ∃ last, (turns sys reader sh).getLast? = some last ∧
      Concludes reader.source.interactive last.answer.result (runSource sys reader sh).shell s := by
  fun_induction turns sys reader sh with
  | case1 reader sh result shell hstep =>
    have hp : Progresses _ _ (firstStep sys reader sh) := progresses_advance sys hn _ _ _
    rw [runSource_eq_of_done sys hstep] at hs ⊢
    rw [hstep] at hp
    obtain rfl : result = .ok s := hs
    cases hp with
    | concluded hc => exact ⟨_, rfl, hc⟩
  | case2 reader sh shell hstep ih =>
    have hp : Progresses _ _ (firstStep sys reader sh) := progresses_advance sys hn _ _ _
    rw [runSource_eq_of_next sys hstep] at hs ⊢
    rw [hstep] at hp
    cases hp with
    | next hnext =>
      obtain ⟨last, hlast, hc⟩ := ih hnext hs
      refine ⟨last, ?_, hc⟩
      rw [List.getLast?_cons, hlast]
      rfl

end Shell

end CommandShell
