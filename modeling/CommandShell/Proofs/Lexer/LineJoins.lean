import CommandShell.Proofs.Lexer.WordEnds

/-! # Joined lines

An unquoted backslash before a line end removes both, but it also ends what is being read: a
parameter that has no braces around it, and the place where a comment can start. Only if the next
character would have gone on with one of these, it makes a difference that they were there.
-/

namespace CommandShell.Lexer

variable {lexer : Lexer} {s : State}

/-- Outside quotes, braces and comments, and not after a backslash. -/
inductive Mode.Unquoted : Mode → Prop where
  | start : Unquoted .start
  | word : Unquoted .word
  | rejected : Unquoted .rejected
  | dollar : Unquoted (.dollar false)
  | name (text : String) : Unquoted (.name false text)

/-- Whether a character goes on with a parameter, or starts a comment. -/
def Mode.GoesOn (c : Char) : Mode → Prop
  | .start => c = '#'
  | .dollar _ => c = '{' ∨ isSpecialParameter c ∨ c.isDigit ∨ isNameStart c
  | .name _ _ => Variables.isNameChar c
  | _ => False

namespace State

/-- The word that is being read, with the open parameter closed. -/
def settle (s : State) : State :=
  match s.mode with
  | .dollar inQuotes => (s.plainDollar inQuotes).leave inQuotes
  | .name inQuotes text => (s.parameter text).leave inQuotes
  | .rejected => s
  | _ => s.enter .word

theorem stepWord_enter (s : State) (mode : Mode) (c : Char) :
    (s.enter mode).stepWord lexer c = s.stepWord lexer c := rfl

theorem endWord_enter (s : State) (mode : Mode) : (s.enter mode).endWord = s.endWord := rfl

/-- A backslash and a line end close the open parameter, and reading goes on inside the word. -/
theorem run_lineJoin (h : s.mode.Unquoted) : ({} : Lexer).run s ['\\', '\n'] = s.settle := by
  obtain ⟨mode, done, parts, quoted⟩ := s
  cases h <;> rfl

/-- A character that does not go on with what is being read is read as if that had been closed. -/
theorem step_settle (hf : s.IsFresh) (h : s.mode.Unquoted) {c : Char} (hc : ¬ s.mode.GoesOn c) :
    s.settle.step lexer c = s.step lexer c := by
  obtain ⟨mode, done, parts, quoted⟩ := s
  cases h with
  | start =>
    have hhash : c ≠ '#' := hc
    have hfresh := hf.endWord_eq rfl
    simp only [settle, State.step, mode_enter, stepWord_enter, hhash, if_false]
    split_ifs with hd
    · rw [stepWord, if_pos hd, hfresh]
    · rfl
  | word => rfl
  | rejected => rfl
  | dollar =>
    obtain ⟨hb, hs, hd, hn⟩ := by simpa [Mode.GoesOn, not_or] using hc
    simp [settle, State.step, hb, hs, hd, hn, stepAfter, leave, stepWord_enter]
  | name text =>
    have hn : ¬ Variables.isNameChar c := hc
    simp [settle, State.step, hn, stepAfter, leave, stepWord_enter]

theorem finish_settle (hf : s.IsFresh) (h : s.mode.Unquoted) : s.settle.finish = s.finish := by
  obtain ⟨mode, done, parts, quoted⟩ := s
  cases h with
  | start =>
    have hfresh := hf.endWord_eq rfl
    simp only [settle, finish, mode_enter, endWord_enter, hfresh]
  | word | rejected | dollar | name text => rfl

end State

/-- An unquoted backslash and line end are removed. What is being read is closed there, which makes
no difference unless the next character would go on with it. -/
theorem split_lineJoin {a : String} (b : String)
    (h : (({} : Lexer).run {} a.toList).mode.Unquoted) :
    let s := ({} : Lexer).run {} a.toList
    ({} : Lexer).split (a ++ "\\\n" ++ b) = (({} : Lexer).run s.settle b.toList).finish ∧
      ((∀ c ∈ b.toList.head?, ¬ s.mode.GoesOn c) →
        ({} : Lexer).split (a ++ "\\\n" ++ b) = ({} : Lexer).split (a ++ b)) := by
  intro s
  have hf : s.IsFresh := State.isFresh_initial.run a.toList
  have hjoin : ({} : Lexer).split (a ++ "\\\n" ++ b) =
      (({} : Lexer).run s.settle b.toList).finish := by
    rw [split_append, String.toList_append, run_append]
    exact congrArg (fun t => (({} : Lexer).run t b.toList).finish) (State.run_lineJoin h)
  refine ⟨hjoin, fun hc => ?_⟩
  rw [hjoin, split_append]
  cases hb : b.toList with
  | nil => exact State.finish_settle hf h
  | cons c cs =>
    rw [hb] at hc
    rw [run_cons, run_cons, State.step_settle hf h (hc c rfl)]

theorem split_lineJoin_minus :
    let a := "x$y"
    (({} : Lexer).run {} a.toList).mode.Unquoted ∧
      (∀ c ∈ "-z".toList.head?, ¬ (({} : Lexer).run {} a.toList).mode.GoesOn c) ∧
      ({} : Lexer).split (a ++ "\\\n" ++ "-z") = ({} : Lexer).split (a ++ "-z") := by
  intro a
  have hm : (({} : Lexer).run {} a.toList).mode = .name false "y" := by decide +kernel
  have hu : (({} : Lexer).run {} a.toList).mode.Unquoted := hm ▸ .name "y"
  have hc : ∀ c ∈ "-z".toList.head?, ¬ (({} : Lexer).run {} a.toList).mode.GoesOn c := by
    intro c hc
    obtain rfl : '-' = c := by simpa using hc
    rw [hm, Mode.GoesOn]
    decide
  exact ⟨hu, hc, (split_lineJoin "-z" hu).2 hc⟩

/-- Where the next character would go on, joined lines are not what they are in one: behind a dollar
sign, in a name, and before a comment. -/
theorem split_lineJoin_ne :
    (({} : Lexer).run {} "$".toList).mode.Unquoted ∧
      ({} : Lexer).split ("$" ++ "\\\n" ++ "x") ≠ ({} : Lexer).split ("$" ++ "x") ∧
      (({} : Lexer).run {} "$HO".toList).mode.Unquoted ∧
      ({} : Lexer).split ("$HO" ++ "\\\n" ++ "ME") ≠ ({} : Lexer).split ("$HO" ++ "ME") ∧
      (({} : Lexer).run {} "echo a ".toList).mode.Unquoted ∧
      ({} : Lexer).split ("echo a " ++ "\\\n" ++ "# b") ≠
        ({} : Lexer).split ("echo a " ++ "# b") := by
  refine ⟨.dollar, fun h => ?_, .name "HO", fun h => ?_, .start, fun h => ?_⟩
  · exact absurd (congrArg Except.toOption h) (by decide +kernel)
  · exact absurd (congrArg Except.toOption h) (by decide +kernel)
  · exact absurd (congrArg Except.toOption h) (by decide +kernel)

end CommandShell.Lexer
