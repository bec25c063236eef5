import CommandShell.Proofs.Builtin.Effects
import CommandShell.Proofs.History
import CommandShell.Proofs.Shell.Dispatch
import CommandShell.Proofs.Shell.Turns
import Mathlib.Data.List.Basic

/-! # What a run remembers

Every line that is not blank is remembered twice, by its source and in the history of the session,
before it is run. Only a request to clear the history makes the two differ.
-/

namespace CommandShell

variable {σ : Type}

namespace Request

def clearsHistory : Request → Bool
  | .history clear => clear
  | _ => false

variable {request : Request} {sh sh₁ : Shell σ}

theorem Effect.history_eq (he : Effect request sh sh₁) (hc : request.clearsHistory = false) :
    sh₁.session.history = sh.session.history := by
  cases he with
  | write hw => rw [hw.session_eq]
  | clearHistory => cases hc
  | _ => rfl

theorem Effects.history_eq (he : Effects request sh sh₁) (hc : request.clearsHistory = false) :
    sh₁.session.history = sh.session.history := by
  induction he with
  | refl => rfl
  | tail _ he ih => exact (he.history_eq hc).trans ih

end Request

namespace Shell

variable (sys : System σ)

theorem history_runBuiltin (b : Builtin) (name : String) (arguments : List String) (sh : Shell σ) :
    (runBuiltin sys b name arguments sh).2.session.history =
      if (b.request arguments).clearsHistory then sh.session.history.clear
      else sh.session.history := by
  split
  · next hc =>
    have hrequest : b.request arguments = .history true := by
      cases hr : b.request arguments <;> simp_all [Request.clearsHistory]
    rw [runBuiltin, hrequest]
    rfl
  · next hc =>
    exact (effects_runBuiltin sys b name arguments sh).history_eq (Bool.eq_false_iff.mpr hc)

def clearsHistory (s : Session) (words : List Word) : Bool :=
  match (Expansion.expand {} s words).arguments with
  | [] => false
  | name :: arguments =>
    (Builtin.ofName? name).any fun b => (b.request arguments).clearsHistory

theorem history_execute (words : List Word) (sh : Shell σ) :
    (execute sys words sh).2.session.history =
      if clearsHistory sh.session words then sh.session.history.clear
      else sh.session.history := by
  cases h : (Expansion.expand {} sh.session words).arguments with
  | nil =>
    have hc : clearsHistory sh.session words = false := by rw [clearsHistory, h]
    rw [hc]
    by_cases hne : words = []
    · rw [hne]
      rfl
    · rw [execute_of_assignments sys hne h]
      change (assign _ sh.session).history = sh.session.history
      rw [assign_eq]
  | cons name arguments =>
    have hc : clearsHistory sh.session words =
        (Builtin.ofName? name).any fun b => (b.request arguments).clearsHistory := by
      rw [clearsHistory, h]
    rw [hc, execute_of_arguments sys h]
    cases hb : Builtin.ofName? name with
    | none =>
      obtain ⟨hw, -⟩ := dispatch_program sys hb arguments
        (Expansion.expand {} sh.session words).assignments sh
      change (dispatch sys name arguments _ sh).2.session.history = sh.session.history
      rw [hw.session_eq]
    | some b =>
      simp only [dispatch, hb]
      exact history_runBuiltin sys b name arguments sh

namespace Turn

/-- Whether the line is a command to clear the history. -/
def clears (t : Turn σ) : Bool :=
  match t.line with
  | .line _ words => clearsHistory t.started.session words
  | _ => false

/-- What a turn does to the history: the line is added, and then it may clear all. -/
def changes (t : Turn σ) : List History.Change :=
  (t.line.remembered?.map .append).toList ++ if t.clears then [.clear] else []

theorem filterMap_changes (t : Turn σ) :
    t.changes.filterMap History.Change.text? = t.line.remembered?.toList := by
  unfold changes
  cases t.line.remembered? <;> cases t.clears <;> rfl

theorem history_started (t : Turn σ) :
    t.started.session.history =
      (t.line.remembered?.map .append).toList.foldl History.apply t.shell.session.history := by
  rw [← t.writes_shown.session_eq, started, startLine]
  cases t.line.remembered? <;> rfl

/-- After a turn, the history is that from before the line was run, unless the line clears it. -/
theorem history_step_eq (t : Turn σ) :
    (t.step sys).shell.session.history =
      if t.clears then t.started.session.history.clear else t.started.session.history := by
  have hnone : t.line.text? = none → t.started.session.history = t.shown.session.history := by
    intro h
    simp [started, startLine, LogicalLine.remembered?, h, update]
  cases hline : t.line with
  | line text words =>
    rw [step_of_line sys hline, Step.shell_after, history_execute, clears, hline]
  | invalid text error =>
    have hstep : (t.step sys).shell = (reject error t.started).2 := by
      rw [step_eq_take, started, hline]
      cases hi : t.reader.source.interactive with
      | true => exact Step.shell_after _
      | false => rfl
    rw [hstep, clears, hline]
    rfl
  | endOfInput =>
    rw [hnone (by rw [hline]; rfl), step_eq_take, clears, hline]
    rfl
  | failure error =>
    rw [hnone (by rw [hline]; rfl), step_eq_take, clears, hline]
    cases error <;> rfl

theorem history_step (t : Turn σ) :
    (t.step sys).shell.session.history =
      t.changes.foldl History.apply t.shell.session.history := by
  rw [history_step_eq, changes, List.foldl_append, ← t.history_started]
  split <;> rfl

end Turn

theorem history_before (sys : System σ) {reader : LineReader} {sh : Shell σ}
    {before after : List (Turn σ)} {t : Turn σ} (h : turns sys reader sh = before ++ t :: after) :
    t.shell.session.history =
      (before.flatMap Turn.changes).foldl History.apply sh.session.history := by
  apply turns_induction sys (P := fun before t => t.shell.session.history =
    (before.flatMap Turn.changes).foldl History.apply sh.session.history) rfl ?_ h
  intro before t u ht hstep _
  have hhistory := t.history_step sys
  rw [hstep, ht] at hhistory
  rw [List.flatMap_append, List.foldl_append, List.flatMap_singleton, ← hhistory]
  rfl

theorem history_runSource (reader : LineReader) (sh : Shell σ) :
    (runSource sys reader sh).shell.session.history =
      ((turns sys reader sh).flatMap Turn.changes).foldl History.apply sh.session.history := by
  obtain ⟨before, t, h⟩ := List.eq_nil_or_concat (turns sys reader sh) |>.resolve_left
    (turns_ne_nil sys reader sh)
  rw [List.concat_eq_append] at h
  have hlast := Turn.history_step sys t
  rw [step_of_last sys h, history_before sys h] at hlast
  rw [h, List.flatMap_append, List.foldl_append, List.flatMap_singleton, ← hlast]
  rfl

/-- A source is asked to remember the lines that are added to the history: those that are not blank,
each before it is run. In the end the history has the last of the lines that it had or that were
added, unless one of them cleared it. -/
theorem memory_runSource (reader : LineReader) (sh : Shell σ)
    (hs : sh.session.history.size ≤ sh.session.history.capacity) :
    let run := runSource sys reader sh
    let all := turns sys reader sh
    let changes := all.flatMap Turn.changes
    run.remembered = changes.filterMap History.Change.text? ∧
      run.remembered =
        (all.filterMap fun t => t.line.text?).filter (fun text => !Blank.isBlankText text) ∧
      run.shell.session.history =
        { sh.session.history with
          lines := History.lastN sh.session.history.capacity
            (changes.foldl History.Change.follow sh.session.history.lines) } ∧
      ∀ before t after, all = before ++ t :: after →
        t.shell.session.history =
            (before.flatMap Turn.changes).foldl History.apply sh.session.history ∧
          (∀ text, t.line.remembered? = some text →
            t.started.session.history = t.shell.session.history.append text) ∧
          ∀ text words, t.line = .line text words →
            t.step sys = .after (execute sys words t.started).2 := by
  intro run all changes
  have hremembered : run.remembered = all.filterMap fun t => t.line.remembered? :=
    remembered_runSource sys reader sh
  refine ⟨?_, ?_, ?_, ?_⟩
  · rw [hremembered, List.filterMap_flatMap, List.filterMap_eq_flatMap_toList]
    simp only [Turn.filterMap_changes]
  · rw [hremembered, List.filter_filterMap]
    rfl
  · rw [← History.foldl_apply hs]
    exact history_runSource sys reader sh
  · intro before t after h
    refine ⟨history_before sys h, ?_, fun text words => Turn.step_of_line sys⟩
    intro text htext
    rw [t.history_started, htext]
    rfl

/-- A history that is full at the start, a line that is given up, and one that clears the history
before a malformed line and an open quote at the end. -/
theorem memory_runSource_clear :
    let sh : Shell Unit :=
      Shell.bare.update fun s => { s with history := { capacity := 2, lines := ["a", "b"] } }
    let reader : LineReader :=
      { source :=
          { events :=
              [.line "exit x", .line " ", .line "'", .failure .interrupted, .line "history -c",
                .line "$\x7b", .line "x='", .line "y'", .line "'z", .endOfInput]
            interactive := true } }
    let run := runSource .bare reader sh
    sh.session.history.size ≤ sh.session.history.capacity ∧
      run.remembered = ["exit x", "history -c", "$\x7b", "x='\ny'", "'z"] ∧
      run.shell.session.history = { capacity := 2, lines := ["x='\ny'", "'z"] } := by
  intro sh reader run
  have hs : sh.session.history.size ≤ sh.session.history.capacity := by decide
  have hchanges : (turns .bare reader sh).flatMap Turn.changes =
      [.append "exit x", .append "history -c", .clear, .append "$\x7b", .append "x='\ny'",
        .append "'z"] := by decide +kernel
  obtain ⟨hremembered, -, hhistory, -⟩ := memory_runSource .bare reader sh hs
  rw [hchanges] at hremembered hhistory
  exact ⟨hs, hremembered, hhistory⟩

end Shell

end CommandShell
