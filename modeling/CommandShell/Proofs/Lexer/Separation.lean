import CommandShell.Proofs.Lexer.LineJoins
import CommandShell.Proofs.Lexer.Mending

/-! # Texts with a delimiter between them

What is read before a delimiter reaches over it only inside quotes, braces and comments. So a text
that leaves nothing of that kind open gives its words, and what comes after the delimiter is read as
if it stood alone.
-/

namespace CommandShell.Lexer

variable {lexer : Lexer} {s : State}

namespace State

/-- The same state after words that were finished before. -/
def behind (words : List Word) (s : State) : State := { s with done := s.done ++ words.reverse }

section Behind

variable (words : List Word)

@[simp] theorem mode_behind (s : State) : (s.behind words).mode = s.mode := rfl

@[simp] theorem enter_behind (s : State) (mode : Mode) :
    (s.behind words).enter mode = (s.enter mode).behind words := rfl

@[simp] theorem leave_behind (s : State) (inQuotes : Bool) :
    (s.behind words).leave inQuotes = (s.leave inQuotes).behind words := rfl

@[simp] theorem literal_behind (s : State) (c : Char) :
    (s.behind words).literal c = (s.literal c).behind words := rfl

@[simp] theorem quote_behind (s : State) (c : Char) :
    (s.behind words).quote c = (s.quote c).behind words := rfl

@[simp] theorem parameter_behind (s : State) (name : String) :
    (s.behind words).parameter name = (s.parameter name).behind words := rfl

@[simp] theorem plainDollar_behind (s : State) (inQuotes : Bool) :
    (s.behind words).plainDollar inQuotes = (s.plainDollar inQuotes).behind words := by
  cases inQuotes <;> rfl

@[simp] theorem endWord_behind (s : State) :
    (s.behind words).endWord = s.endWord.behind words := by
  have hc : (s.behind words).current = s.current := rfl
  simp only [endWord, hc]
  split <;> rfl

@[simp] theorem stepWord_behind (s : State) (c : Char) :
    (s.behind words).stepWord lexer c = (s.stepWord lexer c).behind words := by
  simp only [stepWord, endWord_behind]
  split_ifs <;> rfl

@[simp] theorem stepDouble_behind (s : State) (c : Char) :
    (s.behind words).stepDouble lexer c = (s.stepDouble lexer c).behind words := by
  simp only [stepDouble]
  split_ifs <;> rfl

@[simp] theorem stepAfter_behind (s : State) (inQuotes : Bool) (c : Char) :
    (s.behind words).stepAfter lexer inQuotes c = (s.stepAfter lexer inQuotes c).behind words := by
  cases inQuotes with
  | false => exact stepWord_behind words s c
  | true => exact stepDouble_behind words s c

theorem step_behind (s : State) (c : Char) :
    (s.behind words).step lexer c = (s.step lexer c).behind words := by
  have hm : (s.behind words).mode = s.mode := rfl
  unfold State.step
  rw [hm]
  split <;>
    simp only [enter_behind, leave_behind, quote_behind, parameter_behind, plainDollar_behind,
      stepWord_behind, stepDouble_behind, stepAfter_behind] <;>
    split_ifs <;> rfl

theorem run_behind (s : State) (cs : List Char) :
    lexer.run (s.behind words) cs = (lexer.run s cs).behind words := by
  induction cs generalizing s with
  | nil => rfl
  | cons c cs ih => rw [run_cons, run_cons, step_behind, ih]

theorem finish_behind (s : State) :
    (s.behind words).finish = s.finish.map (words ++ ·) := by
  have hdone : ∀ t : State, (t.behind words).done.reverse = words ++ t.done.reverse := by
    intro t
    simp [behind]
  unfold finish
  rw [mode_behind]
  split <;> simp [Except.map, hdone]

end Behind

end State

/-- A delimiter that goes on with nothing that is being read. -/
structure Separates (lexer : Lexer) (d : Char) : Prop where
  isDelimiter : lexer.isDelimiter d
  not_goesOn : ∀ mode : Mode, ¬ mode.GoesOn d

theorem separates_of_mem (escapes : Bool) {d : Char} (hd : d ∈ [' ', '\t', '\n']) :
    ({ escapes } : Lexer).Separates d where
  isDelimiter := by simpa [isDelimiter] using hd
  not_goesOn := by
    have hblank : d = ' ' ∨ d = '\t' ∨ d = '\n' := by simpa using hd
    intro mode
    rcases hblank with rfl | rfl | rfl <;> cases mode <;> simp only [Mode.GoesOn] <;> decide

variable {d : Char} {words : List Word}

namespace State

theorem unquoted_of_finish (h : s.finish = .ok words) (hc : s.mode ≠ .comment) :
    s.mode.Unquoted ∧ s.settle.mode = .word := by
  obtain ⟨mode, done, parts, quoted⟩ := s
  cases mode with
  | start => exact ⟨.start, rfl⟩
  | word => exact ⟨.word, rfl⟩
  | comment => exact absurd rfl hc
  | dollar inQuotes =>
    cases inQuotes with
    | false => exact ⟨.dollar, rfl⟩
    | true => cases h
  | name inQuotes text =>
    cases inQuotes with
    | false => exact ⟨.name text, rfl⟩
    | true => cases h
  | escape inQuotes => cases inQuotes <;> cases h
  | single | double | rejected | brace => cases h

theorem step_separator (hd : lexer.Separates d) (hf : s.IsFresh) (h : s.finish = .ok words)
    (hc : s.mode ≠ .comment) : s.step lexer d = State.behind words {} := by
  obtain ⟨hu, hm⟩ := unquoted_of_finish h hc
  have hwords : s.settle.endWord.done.reverse = words := by
    have hfinish := finish_settle hf hu
    rw [h, finish_word hm] at hfinish
    exact Except.ok.inj hfinish
  rw [← step_settle hf hu (hd.not_goesOn _), State.step, hm]
  simp only [stepWord, if_pos hd.isDelimiter, ← hwords]
  simp [behind, endWord]

theorem run_comment (h : s.mode = .comment) (cs : List Char) : lexer.run s cs = s :=
  run_eq_self (fun c => by rw [State.step, h]) cs

end State

theorem split_append_of_comment {a : String} (h : lexer.EndsInComment a) (b : String) :
    lexer.split (a ++ b) = lexer.split a := by
  rw [split_append, State.run_comment h, split]

/-- A delimiter keeps the words on its two sides apart. -/
theorem split_append_separator (hd : lexer.Separates d) {a : String}
    (h : lexer.split a = .ok words) (hc : ¬ lexer.EndsInComment a) (b : String) :
    lexer.split (a ++ String.singleton d ++ b) = (lexer.split b).map (words ++ ·) := by
  have hf : (lexer.run {} a.toList).IsFresh := State.isFresh_initial.run a.toList
  have hd : lexer.run {} (a ++ String.singleton d).toList = State.behind words {} := by
    rw [String.toList_append, run_append, String.toList_singleton]
    exact State.step_separator hd hf h hc
  rw [split_append, hd, State.run_behind, State.finish_behind, split]

/-- A text ends in a comment if and only if no more text changes its words. -/
theorem endsInComment_iff (escapes : Bool) {a : String}
    (h : ({ escapes } : Lexer).split a = .ok words) :
    ({ escapes } : Lexer).EndsInComment a ↔
      ∀ b, ({ escapes } : Lexer).split (a ++ b) = .ok words := by
  constructor
  · intro hc b
    rw [split_append_of_comment hc, h]
  · intro hall
    by_cases hc : ({ escapes } : Lexer).EndsInComment a
    · exact hc
    · -- Outside a comment, a blank and two quotes add a word.
      have hquotes : ({ escapes } : Lexer).split "''" = .ok [{ quoted := true }] := by
        cases escapes <;> rfl
      have hd := separates_of_mem escapes (d := ' ') (by simp)
      have hmore := hall (String.singleton ' ' ++ "''")
      rw [← String.append_assoc, split_append_separator hd h hc, hquotes] at hmore
      simp [Except.map] at hmore

/-- Splitting distributes over blanks, unless a comment has begun before them. -/
theorem split_separated (escapes : Bool) {a : String}
    (h : ({ escapes } : Lexer).split a = .ok words) (hd : d ∈ [' ', '\t', '\n']) (b : String) :
    let lexer : Lexer := { escapes }
    let text := a ++ String.singleton d ++ b
    (¬ lexer.EndsInComment a → lexer.split text = (lexer.split b).map (words ++ ·)) ∧
      (lexer.EndsInComment a → lexer.split text = .ok words) := by
  intro lexer text
  constructor
  · intro hc
    exact split_append_separator (separates_of_mem escapes hd) h hc b
  · intro hc
    have htext : text = a ++ (String.singleton d ++ b) := String.append_assoc ..
    rw [htext, split_append_of_comment hc]
    exact h

/-- A dollar sign and a brace that a tab keeps apart, an open quote behind a backslash that quotes
nothing, and a comment that takes a quote with it. -/
theorem split_separated_tab :
    let lexer : Lexer := { escapes := false }
    let word (text : String) : Word := { parts := [.literal text] }
    lexer.split "a$" = .ok [word "a$"] ∧ ¬ lexer.EndsInComment "a$" ∧
      lexer.split ("a$" ++ String.singleton '\t' ++ "\x7bb\x7d") =
        .ok [word "a$", word "\x7bb\x7d"] ∧
      lexer.split ("a$" ++ String.singleton '\n' ++ "\\'") = .error .unfinishedQuote ∧
      lexer.split "a #" = .ok [word "a"] ∧ lexer.EndsInComment "a #" ∧
      lexer.split ("a #" ++ String.singleton '\n' ++ "'") = .ok [word "a"] := by
  intro lexer word
  have ha : lexer.split "a$" = .ok [word "a$"] := by rfl
  have hc : ¬ lexer.EndsInComment "a$" := by decide +kernel
  have ha' : lexer.split "a #" = .ok [word "a"] := by rfl
  have hc' : lexer.EndsInComment "a #" := by decide +kernel
  have hbrace : lexer.split "\x7bb\x7d" = .ok [word "\x7bb\x7d"] := by rfl
  have hquote : lexer.split "\\'" = .error .unfinishedQuote := by rfl
  refine ⟨ha, hc, ?_, ?_, ha', hc', (split_separated false ha' (by decide) "'").2 hc'⟩
  · rw [(split_separated false ha (by decide) "\x7bb\x7d").1 hc, hbrace]
    rfl
  · rw [(split_separated false ha (by decide) "\\'").1 hc, hquote]
    rfl

end CommandShell.Lexer
