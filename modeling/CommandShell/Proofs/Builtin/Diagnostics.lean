import CommandShell.Builtin.Run
import CommandShell.Proofs.Output.Limits

/-! # What the standard error has no part in

A built-in command only writes to the standard error. Which diagnostics it writes does not depend on
what becomes of them, and neither does anything else that it does.
-/

namespace CommandShell

variable {σ : Type}

namespace Outcome

/-- With any standard error the outcome is the same, but for the diagnostics written to it. -/
def Reports (run : Shell σ → Outcome σ) (sh : Shell σ) (diagnostics : List (List String)) : Prop :=
  ∀ err, run { sh with err } =
    ((run sh).1, { (run sh).2 with err := err.reportAll diagnostics })

theorem exists_reports_report (status : Status) (fragments : List String) (sh : Shell σ) :
    ∃ diagnostics, Reports (fun sh => (.ok status, sh.report fragments)) sh diagnostics :=
  ⟨[sh.session.diagnostic fragments], fun _ => rfl⟩

theorem ofPrint_withErr (sh : Shell σ) (err : Stream) (pieces : List String) :
    ofPrint (({ sh with err } : Shell σ).print pieces) =
      ((ofPrint (sh.print pieces)).1, { (ofPrint (sh.print pieces)).2 with err }) := by
  unfold Shell.print
  simp only
  generalize sh.out.writeAll pieces = printed
  obtain ⟨made, out⟩ := printed
  cases made <;> rfl

theorem exists_reports_forEach {f : String → Shell σ → Outcome σ}
    (h : ∀ x sh, ∃ diagnostics, Reports (f x) sh diagnostics) (xs : List String)
    (status : Status) (sh : Shell σ) :
    ∃ diagnostics, Reports (forEach f xs status) sh diagnostics := by
  induction xs generalizing status sh with
  | nil => exact ⟨[], fun _ => rfl⟩
  | cons x xs ih =>
    obtain ⟨first, hfirst⟩ := h x sh
    unfold Reports at hfirst ⊢
    simp only [forEach]
    generalize f x sh = r at hfirst
    obtain ⟨made, sh₁⟩ := r
    cases made with
    | error e => exact ⟨first, fun err => by rw [hfirst]⟩
    | ok s =>
      obtain ⟨others, hothers⟩ := ih (if s = 0 then status else s) sh₁
      refine ⟨first ++ others, fun err => ?_⟩
      rw [hfirst]
      simp only [Stream.reportAll, List.foldl_append]
      exact hothers _

end Outcome

namespace Request

open Outcome

theorem reports_cd (sys : System σ) (target : Option String) (sh : Shell σ) :
    Reports (runCd sys target) sh [] := by
  intro err
  have henterable : enterable? sys { sh with err } = enterable? sys sh := rfl
  unfold runCd
  rw [henterable]
  simp only
  cases directoryTarget sh.session target with
  | error e => rfl
  | ok found =>
    obtain ⟨target, announce⟩ := found
    simp only
    cases enterable? sys sh target with
    | none => rfl
    | some directory =>
      cases announce with
      | false => rfl
      | true =>
        exact ofPrint_withErr
          { sh.update (moveTo · directory) with processDirectory := directory } err
          [directory.text, "\n"]

theorem reports_exit (status : Option String) (sh : Shell σ) :
    Reports (runExit status) sh [] := by
  intro err
  cases status with
  | none => rfl
  | some text =>
    simp only [runExit]
    split <;> rfl

theorem reports_setenv (name : String) (value : Option String) (sh : Shell σ) :
    Reports (runSetenv name value) sh [] := by
  intro err
  unfold runSetenv
  split <;> rfl

theorem exists_reports_exportOperand (operand : String) (sh : Shell σ) :
    ∃ diagnostics, Reports (exportOperand operand) sh diagnostics := by
  unfold Reports exportOperand
  cases Expansion.cutAtEquals? operand <;>
  · simp only
    split
    · exact ⟨[], fun _ => rfl⟩
    · exact exists_reports_report _ _ sh

theorem exists_reports_aliasOperand (definition : String) (sh : Shell σ) :
    ∃ diagnostics, Reports (aliasOperand definition) sh diagnostics := by
  unfold Reports aliasOperand
  split
  · exact ⟨[], fun _ => rfl⟩
  · simp only
    split
    · exact ⟨[], fun err => ofPrint_withErr sh err _⟩
    · exact exists_reports_report _ _ sh

theorem exists_reports_unaliasOperand (name : String) (sh : Shell σ) :
    ∃ diagnostics, Reports (unaliasOperand name) sh diagnostics := by
  unfold Reports unaliasOperand
  by_cases hdefined : sh.session.aliases.contains name
  · simp only [if_pos hdefined]
    exact ⟨[], fun _ => rfl⟩
  · simp only [if_neg hdefined]
    exact exists_reports_report _ _ sh

theorem exists_reports_helpTopic (topic : String) (sh : Shell σ) :
    ∃ diagnostics, Reports (helpTopic topic) sh diagnostics := by
  unfold Reports helpTopic
  split
  · exact ⟨[], fun err => ofPrint_withErr sh err _⟩
  · exact exists_reports_report _ _ sh

theorem exists_reports_run (sys : System σ) (request : Request) (sh : Shell σ) :
    ∃ diagnostics, Reports (request.run sys) sh diagnostics := by
  match request with
  | .alias (_ :: _) => exact exists_reports_forEach exists_reports_aliasOperand _ _ _
  | .exportNames (_ :: _) => exact exists_reports_forEach exists_reports_exportOperand _ _ _
  | .help (_ :: _) => exact exists_reports_forEach exists_reports_helpTopic _ _ _
  | .unalias false _ => exact exists_reports_forEach exists_reports_unaliasOperand _ _ _
  | .cd target => exact ⟨[], reports_cd sys target sh⟩
  | .exit status => exact ⟨[], reports_exit status sh⟩
  | .setenv name value => exact ⟨[], reports_setenv name value sh⟩
  | .history true | .unalias true _ | .unset _ => exact ⟨[], fun _ => rfl⟩
  | .alias [] | .echo _ _ | .env | .exportNames [] | .help [] | .history false | .pwd | .usage _ =>
    exact ⟨[], fun err => ofPrint_withErr sh err _⟩
  | .refused refusal => exact exists_reports_report _ _ sh

theorem exists_reports_execute (sys : System σ) (request : Request) (sh : Shell σ) :
    ∃ diagnostics, Reports (request.execute sys) sh diagnostics := by
  obtain ⟨diagnostics, hrun⟩ := exists_reports_run sys request sh
  unfold Reports at hrun ⊢
  simp only [execute]
  generalize request.run sys sh = r at hrun
  obtain ⟨made, ended⟩ := r
  cases made with
  | ok status => exact ⟨diagnostics, fun err => by rw [hrun]⟩
  | error e =>
    by_cases hleaves : request.leavesFailure
    · exact ⟨diagnostics, fun err => by simp only [hrun, if_pos hleaves]⟩
    · refine ⟨diagnostics ++ [ended.session.diagnostic [e.message]], fun err => ?_⟩
      simp only [hrun, if_neg hleaves, Stream.reportAll, List.foldl_append]
      rfl

/-- How much the standard error takes makes no difference to a built-in command, and what it takes
is the beginning of what the command has to say. -/
theorem execute_limited (sys : System σ) (b : Builtin) (arguments : List String) (sh : Shell σ)
    (n₁ n₂ : Nat) (refusal₁ refusal₂ : String) :
    let ended (limit : Option Nat) (refusal : String) :=
      (b.request arguments).execute sys { sh with err := .direct (.limited limit refusal) }
    let first := ended n₁ refusal₁
    let second := ended n₂ refusal₂
    let unlimited := (ended none "").2.err.device.stored.toList
    first.1 = second.1 ∧
      first.2.out = second.2.out ∧
      first.2.session = second.2.session ∧
      first.2.processDirectory = second.2.processDirectory ∧
      first.2.world = second.2.world ∧
      first.2.err.device.stored.toList = unlimited.take n₁ ∧
      second.2.err.device.stored.toList = unlimited.take n₂ := by
  intro ended first second unlimited
  obtain ⟨diagnostics, hreports⟩ := exists_reports_execute sys (b.request arguments) sh
  have hended : ∀ limit refusal, (ended limit refusal).2.err =
      .direct ((Device.limited limit refusal).accept
        (diagnostics.flatten.flatMap Utf8.encode)).2 := by
    intro limit refusal
    simp only [ended]
    rw [hreports, Stream.reportAll_direct]
  have hunlimited : unlimited = diagnostics.flatten.flatMap Utf8.encode := by
    simp only [unlimited, hended]
    exact Device.stored_unlimited "" _
  have hlimited : ∀ n refusal, (ended (some n) refusal).2.err.device.stored.toList =
      unlimited.take n := by
    intro n refusal
    rw [hended, hunlimited]
    exact Device.stored_limited n refusal _
  have hfirst : first = _ := hreports (.direct (.limited n₁ refusal₁))
  have hsecond : second = _ := hreports (.direct (.limited n₂ refusal₂))
  refine ⟨?_, ?_, ?_, ?_, ?_, hlimited n₁ refusal₁, hlimited n₂ refusal₂⟩ <;> rw [hfirst, hsecond]

end Request

end CommandShell
