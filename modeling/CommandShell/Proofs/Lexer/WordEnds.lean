import CommandShell.Lexer.Basic
import Mathlib.Tactic.SplitIfs

/-! # Where words end

Reading goes on inside a word until a delimiter ends it, and between words nothing of a word is
kept. So a text without delimiters ends in a comment only if it is one.
-/

namespace CommandShell.Lexer

variable {lexer : Lexer} {s : State} {c : Char}

def Mode.InWord (mode : Mode) : Prop := mode ≠ .start ∧ mode ≠ .comment

namespace State

/-- Between words nothing of a word has been read. -/
def IsFresh (s : State) : Prop := s.mode = .start → s.parts = [] ∧ s.quoted = false

/-- How a step comes to stand outside words. -/
inductive Leaves (lexer : Lexer) (s : State) (c : Char) : State → Prop where
  | stays : ¬ s.mode.InWord → Leaves lexer s c s
  | comment : s.mode = .start → Leaves lexer s c (s.enter .comment)
  | ended (t : State) : lexer.isDelimiter c → Leaves lexer s c t.endWord

theorem inWord_leave (s : State) (inQuotes : Bool) : (s.leave inQuotes).mode.InWord := by
  cases inQuotes <;> constructor <;> simp

theorem inWord_stepWord (s : State) (hc : lexer.isDelimiter c = false) :
    (s.stepWord lexer c).mode.InWord := by
  unfold stepWord
  rw [hc]
  split_ifs <;> constructor <;> simp_all

theorem inWord_or_leaves_stepWord (s t : State) (c : Char) :
    (t.stepWord lexer c).mode.InWord ∨ Leaves lexer s c (t.stepWord lexer c) := by
  cases hc : lexer.isDelimiter c with
  | false => exact .inl (inWord_stepWord t hc)
  | true =>
    rw [stepWord, if_pos hc]
    exact .inr (.ended t hc)

theorem inWord_stepDouble (s : State) (c : Char) : (s.stepDouble lexer c).mode.InWord := by
  unfold stepDouble
  split_ifs <;> constructor <;> simp

theorem inWord_or_leaves_stepAfter (inQuotes : Bool) (s t : State) (c : Char) :
    (t.stepAfter lexer inQuotes c).mode.InWord ∨
      Leaves lexer s c (t.stepAfter lexer inQuotes c) := by
  cases inQuotes with
  | false => exact inWord_or_leaves_stepWord s t c
  | true => exact .inl (inWord_stepDouble t c)

/-- A step ends in a word, or it is one of the few that do not. -/
theorem inWord_or_leaves_step (s : State) (c : Char) :
    (s.step lexer c).mode.InWord ∨ Leaves lexer s c (s.step lexer c) := by
  obtain ⟨mode, done, parts, quoted⟩ := s
  cases mode with
  | start =>
    simp only [State.step]
    split_ifs
    · exact .inr (.stays fun h => h.1 rfl)
    · exact .inr (.comment rfl)
    · exact inWord_or_leaves_stepWord _ _ c
  | word => exact inWord_or_leaves_stepWord _ _ c
  | single =>
    simp only [State.step]
    split_ifs <;> exact .inl (by simp [Mode.InWord])
  | double => exact .inl (inWord_stepDouble _ c)
  | comment => exact .inr (.stays fun h => h.2 rfl)
  | rejected => exact .inl (by simp [Mode.InWord, State.step])
  | escape inQuotes =>
    cases inQuotes with
    | false =>
      simp only [State.step]
      split_ifs <;> exact .inl (by simp [Mode.InWord])
    | true =>
      simp only [State.step]
      split_ifs
      · exact .inl (by simp [Mode.InWord])
      · exact .inl (by simp [Mode.InWord])
      · exact .inl (inWord_stepDouble _ c)
  | dollar inQuotes =>
    simp only [State.step]
    split_ifs
    · exact .inl (by simp [Mode.InWord])
    · exact .inl (inWord_leave _ inQuotes)
    · exact .inl (by simp [Mode.InWord])
    · exact inWord_or_leaves_stepAfter inQuotes _ _ c
  | name inQuotes text =>
    simp only [State.step]
    split_ifs
    · exact .inl (by simp [Mode.InWord])
    · exact inWord_or_leaves_stepAfter inQuotes _ _ c
  | brace inQuotes text =>
    simp only [State.step]
    split_ifs
    · exact .inl (inWord_leave _ inQuotes)
    all_goals exact .inl (by simp [Mode.InWord])

theorem isFresh_initial : ({} : State).IsFresh := fun _ => ⟨rfl, rfl⟩

theorem IsFresh.step (h : s.IsFresh) (c : Char) : (s.step lexer c).IsFresh := by
  intro hm
  rcases inWord_or_leaves_step s c with hw | hl
  · exact absurd hm hw.1
  · generalize s.step lexer c = s' at hl hm
    cases hl with
    | stays => exact h hm
    | comment => cases hm
    | ended t => exact ⟨rfl, rfl⟩

theorem IsFresh.run (h : s.IsFresh) (cs : List Char) : (lexer.run s cs).IsFresh :=
  run_invariant (fun _ ht c _ => ht.step c) h

theorem IsFresh.endWord_eq (h : s.IsFresh) (hm : s.mode = .start) : s.endWord = s := by
  obtain ⟨mode, done, parts, quoted⟩ := s
  obtain ⟨rfl, rfl⟩ := h hm
  cases hm
  rfl

end State

theorem Mode.InWord.step (h : s.mode.InWord) (hc : lexer.isDelimiter c = false) :
    (s.step lexer c).mode.InWord := by
  rcases State.inWord_or_leaves_step s c with hw | hl
  · exact hw
  · generalize s.step lexer c = s' at hl
    cases hl with
    | stays hn => exact absurd h hn
    | comment hm => exact absurd hm h.1
    | ended t hd => simp [hc] at hd

theorem Mode.InWord.run (h : s.mode.InWord) {cs : List Char}
    (hcs : ∀ c ∈ cs, lexer.isDelimiter c = false) : (lexer.run s cs).mode.InWord :=
  run_invariant (P := (·.mode.InWord)) (fun _ ht c hc => ht.step (hcs c hc)) h

/-- The rest of the text is ignored, because a comment has begun. -/
def EndsInComment (lexer : Lexer) (text : String) : Prop :=
  (lexer.run {} text.toList).mode = .comment

instance (lexer : Lexer) (text : String) : Decidable (lexer.EndsInComment text) :=
  inferInstanceAs (Decidable (_ = _))

theorem not_endsInComment_of_forall {text : String} (hh : text.toList.head? ≠ some '#')
    (hd : ∀ c ∈ text.toList, lexer.isDelimiter c = false) : ¬ lexer.EndsInComment text := by
  unfold EndsInComment
  cases ht : text.toList with
  | nil => simp
  | cons c cs =>
    rw [ht] at hh hd
    obtain ⟨hc, hcs⟩ := List.forall_mem_cons.mp hd
    have hhash : c ≠ '#' := fun h => hh (h ▸ rfl)
    have hfirst : (({} : State).step lexer c).mode.InWord := by
      simpa [State.step, hc, hhash] using State.inWord_stepWord {} hc
    rw [run_cons]
    exact (hfirst.run hcs).2

end CommandShell.Lexer
