import CommandShell.Proofs.Lexer.Scanning

/-! # Delimiters in names

A delimiter that is a character of names ends a word for the scanner and continues the name for the
lexer. From there the scanner may find a comment where the lexer reads on, so it can miss an open
construct; but what it does find open is open for the lexer too.
-/

namespace CommandShell

namespace Scanner

open Lexer

variable {lexer : Lexer}

/-- Where a scanner can stand when the lexer is in a mode, whatever the delimiters are. -/
inductive Follows : Scanner → Mode → Prop where
  | same (mode : Mode) : Follows (ofMode mode) mode
  | name {text : String} : Follows { place := .start } (.name false text)
  | comment {mode : Mode} : Follows { place := .comment } mode
  | rejected {scanner : Scanner} : Follows scanner .rejected

/-- After a delimiter in a name the scanner may begin a comment that the lexer does not. -/
theorem Follows.stepAt_start {text : String} (s : State) (hm : s.mode = .name false text)
    (c : Char) : Follows (stepAt lexer .start c) (s.step lexer c).mode := by
  rw [Scanner.stepAt_start]
  by_cases hc : Variables.isNameChar c
  · have hs : (s.step lexer c).mode = .name false (text.push c) := by simp [State.step, hm, hc]
    rw [hs]
    split_ifs with hd hh
    · exact .name
    · exact .comment
    · rcases stepAt_outside_nameChar false hc with he | ⟨hd', -⟩
      · rw [he]
        exact .same (.name false _)
      · exact absurd hd' hd
  · have hs : s.step lexer c = (s.parameter text).stepAfter lexer false c := by
      simp [State.step, hm, hc]
    rw [hs]
    split_ifs with hd hh
    · simp only [State.stepAfter, State.stepWord, hd, Bool.false_eq_true, if_true, if_false]
      exact .same .start
    · exact .comment
    · rw [stepAt_outside (s.parameter text)]
      exact .same _

theorem Follows.step {scanner : Scanner} {s : State} (h : Follows scanner s.mode) (c : Char) :
    Follows (scanner.step lexer c) (s.step lexer c).mode := by
  by_cases hr : (s.step lexer c).mode = .rejected
  · rw [hr]
    exact .rejected
  generalize hm : s.mode = mode at h
  cases h with
  | same =>
    rw [← hm]
    rcases step_ofMode_or s c hr with hs | ⟨-, hs, text, ht⟩
    · rw [hs]
      exact .same _
    · rw [hs, ht]
      exact .name
  | name => exact Follows.stepAt_start s hm c
  | comment => exact .comment
  | rejected => exact absurd (by simp [State.step, hm]) hr

theorem Follows.run {scanner : Scanner} {s : State} (h : Follows scanner s.mode) (cs : List Char) :
    Follows (cs.foldl (Scanner.step lexer) scanner) (lexer.run s cs).mode := by
  induction cs generalizing scanner s with
  | nil => exact h
  | cons c cs ih => exact ih (h.step c)

theorem Follows.finish {scanner : Scanner} {s : State} (h : Follows scanner s.mode)
    {error : LexError} (hp : scanner.pending = some error) :
    s.finish = .error error ∨ s.finish = .error .badSubstitution := by
  by_cases hr : s.mode = .rejected
  · right
    simp only [State.finish, hr]
  generalize hm : s.mode = mode at h
  cases h with
  | same =>
    left
    have hf := pending_ofMode hr
    rw [hm, hp] at hf
    split at hf
    · cases hf
    · next he => rw [he, Option.some.inj hf]
  | name => cases hp
  | comment => cases hp
  | rejected => exact absurd hm hr

end Scanner

namespace Lexer

variable {lexer : Lexer}

/-- What a scanner finds open keeps a text from being a list of words, whatever the delimiters. -/
theorem split_of_pending {text : String} {error : LexError}
    (h : (lexer.scan text).pending = some error) :
    lexer.split text = .error error ∨ lexer.split text = .error .badSubstitution :=
  Scanner.Follows.finish (.run (s := {}) (.same .start) text.toList) h

end Lexer

end CommandShell
