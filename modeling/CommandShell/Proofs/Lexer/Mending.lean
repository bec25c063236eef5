import CommandShell.Proofs.Lexer.Names

/-! # Mending a line

An open quote or a backslash at the end of a line can always be mended by more lines. A malformed
parameter never can: the line end itself becomes part of an open name in braces, and no name
contains one.
-/

namespace CommandShell

namespace Lexer

/-- A mode that no text leads out of. -/
inductive Mode.Lost : Mode → Prop where
  | rejected : Lost .rejected
  | brace {inQuotes : Bool} {text : String} : '\n' ∈ text.toList → Lost (.brace inQuotes text)

theorem not_isParameterName_of_newline {text : String} (h : '\n' ∈ text.toList) :
    isParameterName text = false := by
  refine Bool.eq_false_iff.mpr fun hp => ?_
  rcases isSpecialParameter_or_isNameChar hp h with hc | hc <;>
    simp [isSpecialParameter, Variables.isNameChar] at hc

variable {lexer : Lexer}

theorem Mode.Lost.step {s : State} (h : s.mode.Lost) (c : Char) : (s.step lexer c).mode.Lost := by
  obtain ⟨mode, done, parts, quoted⟩ := s
  cases h with
  | rejected => exact .rejected
  | brace ht =>
    simp only [State.step, not_isParameterName_of_newline ht, Bool.false_eq_true, if_false]
    split
    · exact .rejected
    · exact .brace (by simp [ht])

theorem Mode.Lost.run {s : State} (h : s.mode.Lost) (cs : List Char) :
    (lexer.run s cs).mode.Lost :=
  run_invariant (P := (·.mode.Lost)) (fun _ ht c _ => ht.step c) h

theorem Mode.Lost.finish {s : State} (h : s.mode.Lost) : s.finish = .error .badSubstitution := by
  obtain ⟨mode, done, parts, quoted⟩ := s
  cases h <;> rfl

/-- What mends an open construct once the line has ended. -/
def closing : Mode → List Char
  | .single => ['\'']
  | .escape false => []
  | _ => ['"']

theorem mode_stepDouble_newline (lexer : Lexer) (s : State) :
    (s.stepDouble lexer '\n').mode = .double := by
  simp [State.stepDouble]

theorem mode_step_quote (lexer : Lexer) {s : State} (h : s.mode = .double) :
    (s.step lexer '"').mode = .word := by
  simp [State.step, h, State.stepDouble]

theorem mode_run_closing {s : State} {error : LexError} (h : s.finish = .error error)
    (hm : error.needsMore) :
    (lexer.run (s.step lexer '\n') (closing s.mode)).mode = .word := by
  obtain ⟨mode, done, parts, quoted⟩ := s
  cases mode with
  | single => rfl
  | double => exact mode_step_quote lexer (mode_stepDouble_newline lexer _)
  | escape inQuotes => cases inQuotes <;> rfl
  | dollar inQuotes =>
    cases inQuotes with
    | false => cases h
    | true => exact mode_step_quote lexer (mode_stepDouble_newline lexer _)
  | name inQuotes text =>
    cases inQuotes with
    | false => cases h
    | true => exact mode_step_quote lexer (mode_stepDouble_newline lexer _)
  | brace inQuotes text => cases h; cases hm
  | rejected => cases h; cases hm
  | _ => cases h

theorem finish_word {s : State} (h : s.mode = .word) : s.finish = .ok s.endWord.done.reverse := by
  simp only [State.finish, h]

theorem split_newline_append (a b : String) :
    lexer.split (a ++ "\n" ++ b) =
      (lexer.run ((lexer.run {} a.toList).step lexer '\n') b.toList).finish := by
  rw [split_append, String.toList_append, run_append]
  rfl

theorem exists_split_ok {text : String} {error : LexError} (h : lexer.split text = .error error)
    (hm : error.needsMore) :
    ∃ more words, lexer.split (text ++ "\n" ++ more) = .ok words := by
  refine ⟨String.ofList (closing (lexer.run {} text.toList).mode), ?_⟩
  rw [split_newline_append, String.toList_ofList]
  exact ⟨_, finish_word (mode_run_closing h hm)⟩

/-- A malformed parameter swallows the line end or has been rejected before it. -/
theorem lost_step_newline {s : State} (h : s.finish = .error .badSubstitution) :
    (s.step lexer '\n').mode.Lost := by
  obtain ⟨mode, done, parts, quoted⟩ := s
  cases mode with
  | brace inQuotes text => exact .brace (by simp)
  | rejected => exact .rejected
  | escape inQuotes => cases inQuotes <;> cases h
  | dollar inQuotes => cases inQuotes <;> cases h
  | name inQuotes text => cases inQuotes <;> cases h
  | _ => cases h

theorem split_of_badSubstitution {text : String}
    (h : lexer.split text = .error .badSubstitution) (more : String) :
    lexer.split (text ++ "\n" ++ more) = .error .badSubstitution := by
  rw [split_newline_append]
  exact ((lost_step_newline h).run more.toList).finish

/-- More lines mend exactly the errors that ask for more. -/
theorem needsMore_iff_exists_split_ok {text : String} {error : LexError}
    (h : lexer.split text = .error error) :
    (error.needsMore ↔ ∃ more words, lexer.split (text ++ "\n" ++ more) = .ok words) ∧
      (error = .badSubstitution →
        ∀ more, lexer.split (text ++ "\n" ++ more) = .error .badSubstitution) ∧
      (error = .unfinishedQuote ∨ error = .trailingEscape →
        ∃ more words, lexer.split (text ++ "\n" ++ more) = .ok words) := by
  have hbad : error = .badSubstitution →
      ∀ more, lexer.split (text ++ "\n" ++ more) = .error .badSubstitution := by
    rintro rfl
    exact split_of_badSubstitution h
  refine ⟨⟨exists_split_ok h, ?_⟩, hbad, ?_⟩
  · rintro ⟨more, words, hw⟩
    cases error with
    | badSubstitution => rw [hbad rfl more] at hw; cases hw
    | _ => rfl
  · rintro (rfl | rfl) <;> exact exists_split_ok h rfl

theorem needsMore_iff_exists_split_ok_dollar :
    ({ delimiters := ['a'] } : Lexer).split "\"b$" = .error .unfinishedQuote ∧
      (∃ more words,
        ({ delimiters := ['a'] } : Lexer).split ("\"b$" ++ "\n" ++ more) = .ok words) ∧
      ({} : Lexer).split "b$\x7ba" = .error .badSubstitution ∧
      ∀ more, ({} : Lexer).split ("b$\x7ba" ++ "\n" ++ more) = .error .badSubstitution := by
  have hq : ({ delimiters := ['a'] } : Lexer).split "\"b$" = .error .unfinishedQuote := by rfl
  have hb : ({} : Lexer).split "b$\x7ba" = .error .badSubstitution := by rfl
  exact ⟨hq, (needsMore_iff_exists_split_ok hq).1.mp rfl, hb,
    (needsMore_iff_exists_split_ok hb).2.1 rfl⟩

end Lexer

end CommandShell
