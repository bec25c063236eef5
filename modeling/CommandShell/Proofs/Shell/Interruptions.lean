import CommandShell.Proofs.Shell.Calls
import CommandShell.Proofs.Shell.ExitStatus
import CommandShell.Proofs.Shell.Turns
import Mathlib.Data.List.Basic

/-! # Lines that are given up

In an interactive run, an interrupt or a failure cuts the logical line that is being typed. Its
physical lines count, and that is all that is left of them: the next command prompt starts from the
shell as it was, or the run ends with it.
-/

namespace CommandShell.Shell

open LogicalLine

variable {σ : Type}

namespace Turn

def calls (t : Turn σ) : List Call := readCalls t.reader.lexer t.reader.source.events

theorem accounts_calls (t : Turn σ) :
    Accounts t.reader.lexer t.reader.source.events t.calls
      (LogicalLine.read t.reader.lexer t.reader.source.events) :=
  accounts_read _ _

theorem prompts_answer {t : Turn σ} (hi : t.reader.source.interactive = true) :
    t.answer.prompts = t.calls.map Call.prompt := by
  rw [calls, map_prompt_readCalls]
  simp [answer, firstAnswer, LineReader.next, promptOf, hi]

theorem events_answer (t : Turn σ) :
    t.answer.reader.source.events = t.reader.source.events.drop t.calls.length :=
  t.accounts_calls.rest_eq

theorem linesRead_answer (t : Turn σ) :
    t.answer.reader.linesRead = t.reader.linesRead + t.calls.countP Call.isLine :=
  congrArg (t.reader.linesRead + ·) t.accounts_calls.count_eq

theorem line_eq (t : Turn σ) :
    t.line = t.answer.result ∨
      t.reader.source.display = true ∧ ∃ reason, t.line = .failure (.failed reason) :=
  prompted_line _ _ _

theorem number_of_text? {t : Turn σ} (h : t.line.text?.isSome) :
    t.number = t.reader.linesRead + 1 := by
  have hresult : t.answer.result.text?.isSome := by
    rcases t.line_eq with hline | ⟨-, reason, hline⟩
    · rwa [← hline]
    · rw [hline] at h
      cases h
  exact if_neg (Nat.ne_of_gt (count_pos_of_text? hresult))

theorem lineNumber_started (t : Turn σ) : t.started.session.lineNumber = t.number := by
  rw [started, startLine]
  cases t.line.remembered? <;> rfl

theorem shown_of_display {t : Turn σ} (hd : t.reader.source.display = false) :
    t.shown = t.shell := by
  rw [shown, hd, prompted_false]

end Turn

section Run

variable (sys : System σ) {r : LineReader} {sh : Shell σ}

/-- The reader of a turn, after the turns before it. -/
structure Turn.Comes (r : LineReader) (before : List (Turn σ)) (t : Turn σ) : Prop where
  lexer_eq : t.reader.lexer = r.lexer
  interactive_eq : t.reader.source.interactive = r.source.interactive
  display_eq : t.reader.source.display = r.source.display
  events_eq : t.reader.source.events = r.source.events.drop (before.flatMap Turn.calls).length
  linesRead_eq : t.reader.linesRead =
    r.linesRead + (before.flatMap Turn.calls).countP Call.isLine

theorem comes_of_turns {before after : List (Turn σ)} {t : Turn σ}
    (h : turns sys r sh = before ++ t :: after) : t.Comes r before := by
  apply turns_induction sys (P := fun before t => t.Comes r before) ⟨rfl, rfl, rfl, rfl, rfl⟩ ?_ h
  intro before t u ht _ hreader
  constructor
  · rw [hreader]
    exact ht.lexer_eq
  · rw [hreader]
    exact ht.interactive_eq
  · rw [hreader]
    exact ht.display_eq
  · rw [hreader, t.events_answer, ht.events_eq, List.drop_drop, List.flatMap_append,
      List.flatMap_singleton, List.length_append]
  · rw [hreader, t.linesRead_answer, ht.linesRead_eq, List.flatMap_append, List.flatMap_singleton,
      List.countP_append, Nat.add_assoc]

theorem prompted_turns {lines : List String} (hlines : ¬ r.lexer.IsOpen (joinLines lines)) :
    Prompted r.lexer lines ((turns sys r sh).flatMap Turn.calls) := by
  fun_induction turns sys r sh generalizing lines with
  | case1 r sh result shell hstep =>
    rw [List.flatMap_singleton]
    exact (Turn.accounts_calls ⟨r, sh⟩).prompted lines hlines
  | case2 r sh shell hstep ih =>
    have hfirst := Turn.accounts_calls ⟨r, sh⟩
    rw [List.flatMap_cons, prompted_append]
    exact ⟨hfirst.prompted lines hlines, ih (hfirst.closed lines)⟩

theorem map_prompt_turns (hi : r.source.interactive = true) (sh : Shell σ) :
    (runSource sys r sh).prompts = ((turns sys r sh).flatMap Turn.calls).map Call.prompt := by
  rw [prompts_runSource, List.map_flatMap]
  apply List.flatMap_congr
  intro t ht
  obtain ⟨before, after, h⟩ := List.append_of_mem ht
  exact Turn.prompts_answer ((comes_of_turns sys h).interactive_eq.trans hi)

theorem map_event_turns (r : LineReader) (sh : Shell σ) :
    let calls := (turns sys r sh).flatMap Turn.calls
    calls.map Call.event = foundEvents r.source.events calls.length := by
  fun_induction turns sys r sh with
  | case1 r sh result shell hstep =>
    rw [List.flatMap_singleton]
    exact map_event_readCalls _ _
  | case2 r sh shell hstep ih =>
    have hevents := Turn.events_answer ⟨r, sh⟩
    simp only [List.flatMap_cons, List.map_append, List.length_append, foundEvents_add] at ih ⊢
    rw [ih, ← hevents]
    exact congrArg (· ++ _) (map_event_readCalls _ _)

/-- What is left of the logical line of a turn, at its place in a run: `starts` says where the turn
before left it, `counts` how its command is numbered, `cuts` when its line is cut off, `takes` what is
taken for the line, and the rest what an interrupt and another failure leave. -/
structure Turn.Leaves (r : LineReader) (sh : Shell σ) (before : List (Turn σ)) (t : Turn σ)
    (after : List (Turn σ)) : Prop where
  starts : (∀ previous ∈ before.getLast?, previous.step sys = .next t.shell) ∧
    (before = [] → t.shell = sh) ∧
    t.reader.source.events = r.source.events.drop (before.flatMap Turn.calls).length
  counts : t.line.text?.isSome →
    t.number = r.linesRead + (before.flatMap Turn.calls).countP Call.isLine + 1 ∧
      t.started.session.lineNumber = t.number
  cuts : ∀ error, t.answer.result = .failure error ↔
    ∃ cut : List String, t.calls.map Call.event = cut.map .line ++ [.failure error]
  takes : t.line = t.answer.result ∨
    r.source.display = true ∧ ∃ reason, t.line = .failure (.failed reason)
  interrupted : t.line = .failure .interrupted →
    t.line.remembered? = none ∧
      ∃ shown, Writes t.shell shown ∧ (r.source.display = false → shown = t.shell) ∧
        t.step sys = .next (shown.update fun s => { s with lastStatus := 130 })
  failed : ∀ error, error ≠ .interrupted → t.line = .failure error →
    t.line.remembered? = none ∧ after = [] ∧
      (runSource sys r sh).result = .error error ∧ Writes t.shell (runSource sys r sh).shell ∧
        (r.source.display = false → (runSource sys r sh).shell = t.shell)

theorem Turn.step_of_failed {t : Turn σ} {error : ReadError} (hne : error ≠ .interrupted)
    (h : t.line = .failure error) : t.step sys = .done (.error error) t.shown := by
  rw [Turn.step_eq_take, h]
  cases error with
  | interrupted => exact absurd rfl hne
  | failed reason => rfl
  | editor reason => rfl

theorem leaves_of_turns {before after : List (Turn σ)} {t : Turn σ}
    (h : turns sys r sh = before ++ t :: after) : t.Leaves sys r sh before after := by
  have hcomes := comes_of_turns sys h
  have hshown : r.source.display = false → t.shown = t.shell := fun hd =>
    Turn.shown_of_display (hcomes.display_eq.trans hd)
  refine ⟨⟨?_, ?_, hcomes.events_eq⟩, ?_, t.accounts_calls.failure_iff, ?_, ?_, ?_⟩
  · intro previous hprevious
    obtain ⟨first, rfl⟩ := List.getLast?_eq_some_iff.mp hprevious
    rw [List.append_assoc] at h
    exact (step_of_turns sys h).1
  · rintro rfl
    obtain ⟨rfl, -⟩ := turns_eq_cons sys h
    rfl
  · intro htext
    have hnumber := Turn.number_of_text? htext
    rw [hcomes.linesRead_eq] at hnumber
    exact ⟨hnumber, t.lineNumber_started⟩
  · rw [← hcomes.display_eq]
    exact t.line_eq
  · intro hline
    refine ⟨by rw [hline]; rfl, t.shown, t.writes_shown, hshown, ?_⟩
    rw [Turn.step_eq_take, hline]
    rfl
  · intro error hne hline
    have hstep := Turn.step_of_failed sys hne hline
    have hafter : after = [] := by
      cases after with
      | nil => rfl
      | cons u after =>
        rw [(step_of_turns sys h).1] at hstep
        cases hstep
    subst hafter
    rw [step_of_last sys h] at hstep
    obtain ⟨hresult, hshell⟩ := Step.done.inj hstep
    rw [hresult, hshell]
    exact ⟨by rw [hline]; rfl, rfl, rfl, t.writes_shown, hshown⟩

/-- The requests of an interactive run, and what is left of each of its lines. -/
theorem interruptions_runSource (hi : r.source.interactive = true) (sh : Shell σ) :
    let run := runSource sys r sh
    let all := turns sys r sh
    let calls := all.flatMap Turn.calls
    run.prompts = calls.map Call.prompt ∧
      calls.map Call.event = foundEvents r.source.events calls.length ∧
      (∀ k (hk : k < calls.length),
        calls[k].prompt =
          if r.lexer.IsOpen (joinLines ((calls.take k).foldl Call.gather [])) then
            continuationPrompt
          else commandPrompt) ∧
      run.remembered = (all.filterMap fun t => t.line.remembered?) ∧
      ∀ before t after, all = before ++ t :: after → t.Leaves sys r sh before after := by
  intro run all calls
  refine ⟨map_prompt_turns sys hi sh, map_event_turns sys r sh, ?_,
    remembered_runSource sys r sh, fun before t after h => leaves_of_turns sys h⟩
  intro k hk
  exact (prompted_turns sys (not_isOpen_joinLines_nil r.lexer)).getElem hk

theorem interruptions_runSource_quotes :
    let r : LineReader :=
      { source :=
          { events :=
              [.line "exit 'a", .line "b", .failure .interrupted, .line "x='c",
                .failure .interrupted, .line "y=1", .failure (.failed "closed"), .line "exit"]
            interactive := true } }
    let run := runSource .bare r .bare
    r.source.interactive = true ∧
      run.prompts =
        [commandPrompt, continuationPrompt, continuationPrompt, commandPrompt, continuationPrompt,
          commandPrompt, commandPrompt] ∧
      run.remembered = ["y=1"] ∧ run.shell.session.lineNumber = 4 ∧
      run.result = .error (.failed "closed") := by
  intro r run
  have hcalls : ((turns .bare r .bare).flatMap Turn.calls).map Call.prompt =
      [commandPrompt, continuationPrompt, continuationPrompt, commandPrompt, continuationPrompt,
        commandPrompt, commandPrompt] := by decide +kernel
  obtain ⟨hprompts, -, -, hremembered, -⟩ := interruptions_runSource .bare (r := r) rfl .bare
  refine ⟨rfl, hprompts.trans hcalls, hremembered.trans ?_, ?_, ?_⟩ <;> decide +kernel

end Run

end CommandShell.Shell
