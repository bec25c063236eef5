import CommandShell.Proofs.Lexer.Runs
import Mathlib.Tactic.SplitIfs

/-! # Braces around parameters

A parameter is the same with braces around its name and without, in quotes and outside them, unless
the text that follows would go on with the name.
-/

namespace CommandShell.Lexer

variable {lexer : Lexer}

/-- Unquoted or inside double quotes, where a dollar sign starts a parameter. A malformed parameter
that came before settles the text, whatever starts here. -/
def Mode.StartsParameter : Mode → Prop
  | .start | .word | .double | .name _ _ | .rejected => True
  | .single | .comment | .escape _ | .dollar _ | .brace _ _ => False

instance : DecidablePred Mode.StartsParameter := fun mode => by
  cases mode <;> unfold Mode.StartsParameter <;> infer_instance

/-- Whether a text starts with a character that would go on with a name. -/
def ContinuesName (text : String) : Prop := ∃ c ∈ text.toList.head?, Variables.isNameChar c

instance (text : String) : Decidable (ContinuesName text) :=
  decidable_of_iff (text.toList.head?.any Variables.isNameChar)
    (by simp [ContinuesName, Option.any_eq_true])

/-- Whether the text behind a dollar sign is a name that ends before what follows. -/
inductive NamesBefore (name rest : String) : Prop where
  | name : Variables.isName name → ¬ ContinuesName rest → NamesBefore name rest
  | character (c : Char) : name = String.singleton c → isSpecialParameter c || c.isDigit →
      NamesBefore name rest

namespace State

variable {s : State} {inQuotes : Bool}

theorem step_dollar (hl : lexer.isDelimiter '$' = false) (h : s.mode.StartsParameter)
    (hr : s.mode ≠ .rejected) : ∃ inQuotes, (s.step lexer '$').mode = .dollar inQuotes := by
  obtain ⟨mode, done, parts, quoted⟩ := s
  cases mode with
  | start | word => exact ⟨false, by simp [State.step, stepWord, hl]⟩
  | double => exact ⟨true, by simp [State.step, stepDouble]⟩
  | name inQuotes text =>
    have hn : Variables.isNameChar '$' = false := by decide
    refine ⟨inQuotes, ?_⟩
    cases inQuotes <;> simp [State.step, hn, stepAfter, stepWord, stepDouble, hl]
  | rejected => exact absurd rfl hr
  | single | comment | escape | dollar | brace => exact h.elim

theorem step_name {text : String} (hm : s.mode = .name inQuotes text) {c : Char}
    (hc : ¬ Variables.isNameChar c) :
    s.step lexer c = ((s.parameter text).leave inQuotes).step lexer c := by
  obtain ⟨mode, done, parts, quoted⟩ := s
  cases hm
  cases inQuotes <;> simp [State.step, hc, stepAfter, leave] <;> rfl

theorem finish_name {text : String} (hm : s.mode = .name inQuotes text) :
    s.finish = ((s.parameter text).leave inQuotes).finish := by
  obtain ⟨mode, done, parts, quoted⟩ := s
  cases hm
  cases inQuotes <;> rfl

end State

/-- A name that ends is read like one in braces, up to the end of the text. -/
theorem finish_run_name {s : State} {inQuotes : Bool} {name rest : String}
    (hm : s.mode = .name inQuotes name) (hrest : ¬ ContinuesName rest) :
    (lexer.run s rest.toList).finish =
      (lexer.run ((s.parameter name).leave inQuotes) rest.toList).finish := by
  cases hr : rest.toList with
  | nil => exact State.finish_name hm
  | cons c cs =>
    have hc : ¬ Variables.isNameChar c := fun hc => hrest ⟨c, by simp [hr], hc⟩
    rw [run_cons, run_cons, State.step_name hm hc]

theorem finish_run_unbraced {s : State} {inQuotes : Bool} {name rest : String}
    (hm : s.mode = .dollar inQuotes) (h : NamesBefore name rest) :
    (lexer.run s (name.toList ++ rest.toList)).finish =
      (lexer.run ((s.parameter name).leave inQuotes) rest.toList).finish := by
  rw [run_append]
  cases h with
  | name hn hrest =>
    have hrun : lexer.run s name.toList = s.enter (.name inQuotes name) := run_dollar lexer hm hn
    rw [hrun]
    exact finish_run_name rfl hrest
  | character c hname hc =>
    have hopen : c ≠ '{' := by rintro rfl; simp [isSpecialParameter] at hc
    have hstep : s.step lexer c = (s.parameter name).leave inQuotes := by
      simp [State.step, hm, hopen, hc, hname]
    have hlist : name.toList = [c] := by simp [hname]
    rw [hlist, run_cons, hstep, run_nil]

theorem NamesBefore.isParameterName {name rest : String} (h : NamesBefore name rest) :
    isParameterName name := by
  cases h with
  | name hn _ => exact isParameterName_of_isName hn
  | character c hname hc => exact hname ▸ isParameterName_singleton hc

/-- Behind any text where a dollar sign starts a parameter, braces around its name make no
difference to the words or to the error. -/
theorem split_braces (hl : lexer.isDelimiter '$' = false) {a name b : String}
    (ha : (lexer.run {} a.toList).mode.StartsParameter) (h : NamesBefore name b) :
    lexer.split (a ++ "$" ++ name ++ b) = lexer.split (a ++ "$\x7b" ++ name ++ "\x7d" ++ b) := by
  have hplain : lexer.split (a ++ "$" ++ name ++ b) =
      (lexer.run (lexer.run {} a.toList) ('$' :: (name.toList ++ b.toList))).finish := by
    simp [split, run_append]
  have hbraces : lexer.split (a ++ "$\x7b" ++ name ++ "\x7d" ++ b) =
      (lexer.run (lexer.run {} a.toList)
        ('$' :: (('{' :: name.toList ++ ['}']) ++ b.toList))).finish := by
    simp [split, run_append]
  rw [hplain, hbraces]
  by_cases hr : (lexer.run {} a.toList).mode = .rejected
  · rw [run_rejected lexer hr, run_rejected lexer hr]
  · obtain ⟨inQuotes, hm⟩ := State.step_dollar hl ha hr
    calc (lexer.run (lexer.run {} a.toList) ('$' :: (name.toList ++ b.toList))).finish
      _ = (lexer.run ((((lexer.run {} a.toList).step lexer '$').parameter name).leave inQuotes)
            b.toList).finish := finish_run_unbraced hm h
      _ = (lexer.run (lexer.run {} a.toList)
            ('$' :: (('{' :: name.toList ++ ['}']) ++ b.toList))).finish := by
          rw [run_cons, run_append, run_inBraces lexer hm h.isParameterName]

theorem split_braces_quoted :
    (({} : Lexer).run {} "x\"$b".toList).mode.StartsParameter ∧ NamesBefore "c" "-d\" e" ∧
      ({} : Lexer).split ("x\"$b" ++ "$" ++ "c" ++ "-d\" e") =
        ({} : Lexer).split ("x\"$b" ++ "$\x7b" ++ "c" ++ "\x7d" ++ "-d\" e") :=
  have ha : (({} : Lexer).run {} "x\"$b".toList).mode.StartsParameter := by decide
  have hname : NamesBefore "c" "-d\" e" := .name (by decide) (by decide)
  ⟨ha, hname, split_braces rfl ha hname⟩

end CommandShell.Lexer
