import CommandShell.Proofs.Shell.LineByLine
import CommandShell.Proofs.Shell.Writing
import Mathlib.Data.List.Induction

/-! # The turns of a run

A run asks for one logical line after the other. What it does with one of them is a turn, and the
shell that a turn leaves is the one that the next turn starts from.
-/

namespace CommandShell.Shell

variable {σ : Type}

def Step.shell : Step σ → Shell σ
  | .next sh => sh
  | .done _ sh => sh

theorem Step.shell_after (sh : Shell σ) : (Step.after sh).shell = sh := by
  unfold Step.after
  split <;> rfl

/-- A reader that is asked for a logical line, and the shell that asks. -/
structure Turn (σ : Type) where
  reader : LineReader
  shell : Shell σ

namespace Turn

def answer (t : Turn σ) : LineReader.Answer := firstAnswer t.reader

def line (t : Turn σ) : LogicalLine := firstLine t.reader t.shell

def number (t : Turn σ) : Nat := t.answer.reader.startLine

/-- The shell that has shown the prompts. -/
def shown (t : Turn σ) : Shell σ := (t.shell.prompted t.reader.source.display t.answer).2

/-- The shell that has the line as its current one and has not run it yet. -/
def started (t : Turn σ) : Shell σ := t.shown.startLine t.number t.line

def step (sys : System σ) (t : Turn σ) : Step σ := firstStep sys t.reader t.shell

theorem step_eq_take (sys : System σ) (t : Turn σ) :
    t.step sys = take sys t.reader.source.interactive t.number t.line t.shown := rfl

theorem writes_shown (t : Turn σ) : Writes t.shell t.shown := writes_prompted _ _ _

theorem step_of_line (sys : System σ) {t : Turn σ} {text : String} {words : List Word}
    (h : t.line = .line text words) : t.step sys = .after (execute sys words t.started).2 := by
  rw [step_eq_take, started, h]
  rfl

end Turn

variable (sys : System σ) {reader : LineReader} {sh : Shell σ}

/-- The turns of a run, in order. -/
def turns (reader : LineReader) (sh : Shell σ) : List (Turn σ) :=
  match _h : firstStep sys reader sh with
  | .done _ _ => [⟨reader, sh⟩]
  | .next shell => ⟨reader, sh⟩ :: turns (firstAnswer reader).reader shell
termination_by reader.source.events.length
decreasing_by exact LineReader.next_decreases _ _ (ne_endOfInput_of_advance _h)

theorem turns_of_done {result : Except ReadError Status} {sh' : Shell σ}
    (h : firstStep sys reader sh = .done result sh') : turns sys reader sh = [⟨reader, sh⟩] := by
  rw [turns]
  split
  · rfl
  · next ha => rw [h] at ha; cases ha

theorem turns_of_next {sh' : Shell σ} (h : firstStep sys reader sh = .next sh') :
    turns sys reader sh = ⟨reader, sh⟩ :: turns sys (firstAnswer reader).reader sh' := by
  rw [turns]
  split
  · next ha => rw [h] at ha; cases ha
  · next ha => rw [h] at ha; cases ha; rfl

def answers (reader : LineReader) (sh : Shell σ) : List LineReader.Answer :=
  (turns sys reader sh).map Turn.answer

theorem prompts_runSource (reader : LineReader) (sh : Shell σ) :
    (runSource sys reader sh).prompts =
      (turns sys reader sh).flatMap fun t => t.answer.prompts := by
  fun_induction turns sys reader sh with
  | case1 reader sh result shell hstep =>
    rw [runSource_eq_of_done sys hstep]
    simp [Turn.answer]
  | case2 reader sh shell hstep ih =>
    rw [runSource_eq_of_next sys hstep, List.flatMap_cons, ← ih]
    rfl

theorem remembered_runSource (reader : LineReader) (sh : Shell σ) :
    (runSource sys reader sh).remembered =
      (turns sys reader sh).filterMap fun t => t.line.remembered? := by
  fun_induction turns sys reader sh with
  | case1 reader sh result shell hstep =>
    rw [runSource_eq_of_done sys hstep]
    cases hr : (firstLine reader sh).remembered? <;> simp [Turn.line, hr]
  | case2 reader sh shell hstep ih =>
    rw [runSource_eq_of_next sys hstep]
    cases hr : (firstLine reader sh).remembered? <;> simp [Turn.line, hr, ih]

section Suffix

variable {before after : List (Turn σ)} {t u : Turn σ}

theorem turns_eq_cons (h : turns sys reader sh = t :: after) :
    ⟨reader, sh⟩ = t ∧
      match t.step sys with
      | .done _ _ => after = []
      | .next sh' => turns sys t.answer.reader sh' = after := by
  cases hstep : firstStep sys reader sh with
  | done result sh' =>
    rw [turns_of_done sys hstep] at h
    obtain ⟨rfl, rfl⟩ := List.cons.inj h
    simp [Turn.step, hstep]
  | next sh' =>
    rw [turns_of_next sys hstep] at h
    obtain ⟨rfl, rfl⟩ := List.cons.inj h
    simp [Turn.step, Turn.answer, hstep]

theorem turns_ne_nil (reader : LineReader) (sh : Shell σ) : turns sys reader sh ≠ [] := by
  cases hstep : firstStep sys reader sh with
  | done result sh' => simp [turns_of_done sys hstep]
  | next sh' => simp [turns_of_next sys hstep]

/-- The turns from one on are those of the run that starts there, and it ends as the whole run. -/
theorem turns_suffix (h : turns sys reader sh = before ++ t :: after) :
    turns sys t.reader t.shell = t :: after ∧
      (runSource sys t.reader t.shell).result = (runSource sys reader sh).result ∧
      (runSource sys t.reader t.shell).shell = (runSource sys reader sh).shell := by
  induction before generalizing reader sh with
  | nil =>
    obtain ⟨rfl, -⟩ := turns_eq_cons sys h
    exact ⟨h, rfl, rfl⟩
  | cons first before ih =>
    cases hstep : firstStep sys reader sh with
    | done result sh' =>
      rw [turns_of_done sys hstep] at h
      simp at h
    | next sh' =>
      rw [turns_of_next sys hstep] at h
      rw [runSource_eq_of_next sys hstep]
      exact ih (List.cons.inj h).2

theorem step_of_turns (h : turns sys reader sh = before ++ t :: u :: after) :
    t.step sys = .next u.shell ∧ u.reader = t.answer.reader := by
  have ht := (turns_eq_cons sys (turns_suffix sys h).1).2
  split at ht
  · cases ht
  · next sh' hstep =>
    obtain ⟨rfl, -⟩ := turns_eq_cons sys ht
    exact ⟨hstep, rfl⟩

/-- What holds of the first turn, and of the next one whenever it holds of one, holds of every turn
with the turns before it. -/
theorem turns_induction {P : List (Turn σ) → Turn σ → Prop} (hfirst : P [] ⟨reader, sh⟩)
    (hnext : ∀ before t u, P before t → t.step sys = .next u.shell →
      u.reader = t.answer.reader → P (before ++ [t]) u)
    (h : turns sys reader sh = before ++ t :: after) : P before t := by
  induction before using List.reverseRecOn generalizing t after with
  | nil =>
    obtain ⟨rfl, -⟩ := turns_eq_cons sys h
    exact hfirst
  | append_singleton before previous ih =>
    rw [List.append_assoc] at h
    obtain ⟨hstep, hreader⟩ := step_of_turns sys h
    exact hnext before previous t (ih h) hstep hreader

theorem step_of_last (h : turns sys reader sh = before ++ [t]) :
    t.step sys = .done (runSource sys reader sh).result (runSource sys reader sh).shell := by
  obtain ⟨hturns, hresult, hshell⟩ := turns_suffix sys h
  have ht := (turns_eq_cons sys hturns).2
  split at ht
  · next result sh' hstep =>
    rw [← hresult, ← hshell, runSource_eq_of_done sys hstep]
    exact hstep
  · next sh' hstep => exact absurd ht (turns_ne_nil sys _ _)

end Suffix

end CommandShell.Shell
