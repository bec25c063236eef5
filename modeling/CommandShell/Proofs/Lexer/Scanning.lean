import CommandShell.Lexer.Scanner
import CommandShell.Proofs.Lexer.Runs
import Mathlib.Tactic.SplitIfs

/-! # Scanning and splitting

A scanner keeps less than the lexer, and the mode of the lexer says what it keeps. As long as no
parameter is malformed, one step of the lexer is one step of the scanner, so both name the same open
construct after any text. A malformed parameter is final for the lexer, while the scanner reads on.
-/

namespace CommandShell

namespace Lexer

/-- Why a line is no list of words, if it is none. -/
def error? (lexer : Lexer) (line : String) : Option LexError :=
  match lexer.split line with
  | .ok _ => none
  | .error error => some error

theorem error?_eq_some_iff {lexer : Lexer} {line : String} {error : LexError} :
    lexer.error? line = some error ↔ lexer.split line = .error error := by
  unfold error?
  cases lexer.split line <;> simp

def scan (lexer : Lexer) (text : String) : Scanner := ({} : Scanner).feed lexer text

end Lexer

namespace Scanner

open Lexer

/-- The scanner that has seen what the lexer has seen. -/
def ofMode : Mode → Scanner
  | .start => { place := .start }
  | .word => { place := .word }
  | .single => { place := .single }
  | .double => { place := .double }
  | .comment => { place := .comment }
  | .rejected => {}
  | .escape inQuotes => { place := .outside inQuotes, escaped := true }
  | .dollar inQuotes => { place := .dollar inQuotes }
  | .name inQuotes _ => { place := .outside inQuotes }
  | .brace inQuotes _ => { place := .brace inQuotes }

variable {lexer : Lexer}

theorem stepAt_outside (s : State) (inQuotes : Bool) (c : Char) :
    stepAt lexer (.outside inQuotes) c = ofMode (s.stepAfter lexer inQuotes c).mode := by
  cases inQuotes with
  | false =>
    simp only [Place.outside, stepAt, State.stepAfter, State.stepWord, Bool.false_eq_true,
      if_false]
    split_ifs <;> rfl
  | true =>
    simp only [Place.outside, stepAt, State.stepAfter, State.stepDouble, if_true]
    split_ifs <;> rfl

theorem stepAt_outside_nameChar (inQuotes : Bool) {c : Char} (hc : Variables.isNameChar c) :
    stepAt lexer (.outside inQuotes) c = { place := .outside inQuotes } ∨
      lexer.isDelimiter c ∧ inQuotes = false ∧
        stepAt lexer (.outside inQuotes) c = { place := .start } := by
  have hne : ∀ d, Variables.isNameChar d = false → c ≠ d := by
    rintro d hd rfl
    simp [hd] at hc
  have h₁ := hne '\'' (by decide)
  have h₂ := hne '"' (by decide)
  have h₃ := hne '\\' (by decide)
  have h₄ := hne '$' (by decide)
  by_cases hd : lexer.isDelimiter c <;> cases inQuotes <;>
    simp [Place.outside, stepAt, hd, h₁, h₂, h₃, h₄]

theorem stepAt_start (c : Char) :
    stepAt lexer .start c =
      if lexer.isDelimiter c then { place := .start }
      else if c = '#' then { place := .comment }
      else stepAt lexer (.outside false) c :=
  rfl

theorem step_unescaped {place : Place} (h : ∀ inQuotes, place ≠ .dollar inQuotes) (c : Char) :
    step lexer { place } c = stepAt lexer place c := by
  cases place with
  | dollar inQuotes => exact absurd rfl (h inQuotes)
  | _ => rfl

theorem step_outside (inQuotes : Bool) (c : Char) :
    step lexer { place := .outside inQuotes } c = stepAt lexer (.outside inQuotes) c :=
  step_unescaped (by cases inQuotes <;> simp [Place.outside]) c

theorem step_escaped_word (c : Char) :
    step lexer { place := .word, escaped := true } c = { place := .word } :=
  rfl

theorem step_escaped_double (c : Char) :
    step lexer { place := .double, escaped := true } c =
      if c = '\n' ∨ isEscapable c then { place := .double } else stepAt lexer .double c := by
  simp [step, takesEscape, or_comm]

theorem step_dollar (inQuotes : Bool) (c : Char) :
    step lexer { place := .dollar inQuotes } c =
      if c = '{' then { place := .brace inQuotes }
      else if isSpecialParameter c || c.isDigit then { place := .outside inQuotes }
      else stepAt lexer (.outside inQuotes) c :=
  rfl

/-- One step of the lexer is one step of the scanner, unless the lexer rejects a parameter or a
delimiter stands in a name. -/
theorem step_ofMode_or (s : State) (c : Char) (hr : (s.step lexer c).mode ≠ .rejected) :
    (ofMode s.mode).step lexer c = ofMode (s.step lexer c).mode ∨
      (lexer.isDelimiter c ∧ Variables.isNameChar c) ∧
        (ofMode s.mode).step lexer c = { place := .start } ∧
          ∃ text, (s.step lexer c).mode = .name false text := by
  obtain ⟨mode, done, parts, quoted⟩ := s
  cases mode with
  | start =>
    left
    rw [ofMode, step_unescaped (by simp), stepAt_start, stepAt_outside { done, parts, quoted }]
    simp only [State.step]
    split_ifs <;> rfl
  | word => exact .inl (stepAt_outside _ false c)
  | single =>
    left
    rw [ofMode, step_unescaped (by simp)]
    simp only [stepAt, State.step]
    split_ifs <;> rfl
  | double => exact .inl (stepAt_outside _ true c)
  | comment => exact .inl rfl
  | rejected => exact absurd rfl hr
  | escape inQuotes =>
    left
    cases inQuotes with
    | false =>
      change step lexer { place := .word, escaped := true } c = _
      rw [step_escaped_word]
      simp only [State.step]
      split_ifs <;> rfl
    | true =>
      change step lexer { place := .double, escaped := true } c = _
      rw [step_escaped_double]
      simp only [State.step]
      by_cases hn : c = '\n'
      · simp [hn, ofMode]
      by_cases he : isEscapable c
      · simp [hn, he, ofMode]
      · simp only [hn, he, Bool.false_eq_true, or_self, if_false]
        exact stepAt_outside _ true c
  | dollar inQuotes =>
    rw [ofMode, step_dollar]
    simp only [State.step]
    split_ifs with hb hp hs
    · exact .inl rfl
    · cases inQuotes <;> exact .inl rfl
    · have hc := isNameChar_of_isNameStart hs
      refine (stepAt_outside_nameChar inQuotes hc).imp id ?_
      rintro ⟨hd, rfl, he⟩
      exact ⟨⟨hd, hc⟩, he, _, rfl⟩
    · exact .inl (stepAt_outside _ inQuotes c)
  | name inQuotes text =>
    rw [ofMode, step_outside]
    simp only [State.step]
    split_ifs with hc
    · refine (stepAt_outside_nameChar inQuotes hc).imp id ?_
      rintro ⟨hd, rfl, he⟩
      exact ⟨⟨hd, hc⟩, he, _, rfl⟩
    · exact .inl (stepAt_outside _ inQuotes c)
  | brace inQuotes text =>
    left
    rw [ofMode, step_unescaped (by simp)]
    simp only [State.step, stepAt] at hr ⊢
    split_ifs at hr ⊢ <;> cases inQuotes <;> first | rfl | simp at hr

theorem step_ofMode (h : lexer.SeparatesNames) (s : State) (c : Char)
    (hr : (s.step lexer c).mode ≠ .rejected) :
    (ofMode s.mode).step lexer c = ofMode (s.step lexer c).mode :=
  (step_ofMode_or s c hr).resolve_right fun ⟨⟨hd, hc⟩, _⟩ => by
    simp [h.isDelimiter hc] at hd

theorem foldl_step_ofMode (h : lexer.SeparatesNames) (s : State) (cs : List Char)
    (hr : (lexer.run s cs).mode ≠ .rejected) :
    cs.foldl (step lexer) (ofMode s.mode) = ofMode (lexer.run s cs).mode := by
  induction cs generalizing s with
  | nil => rfl
  | cons c cs ih =>
    have hc : (s.step lexer c).mode ≠ .rejected := fun hm => by
      rw [run_cons, run_rejected lexer hm] at hr
      exact hr hm
    rw [List.foldl_cons, step_ofMode h s c hc]
    exact ih _ hr

theorem scan_eq_ofMode (h : lexer.SeparatesNames) {text : String}
    (hr : (lexer.run {} text.toList).mode ≠ .rejected) :
    lexer.scan text = ofMode (lexer.run {} text.toList).mode :=
  foldl_step_ofMode h {} text.toList hr

/-- The error that ends a line is the construct that the scanner finds open. -/
theorem pending_ofMode {s : State} (hr : s.mode ≠ .rejected) :
    match s.finish with
    | .ok _ => (ofMode s.mode).pending = none
    | .error error => (ofMode s.mode).pending = some error := by
  obtain ⟨mode, done, parts, quoted⟩ := s
  cases mode with
  | rejected => exact absurd rfl hr
  | escape inQuotes => cases inQuotes <;> rfl
  | dollar inQuotes => cases inQuotes <;> rfl
  | name inQuotes text => cases inQuotes <;> rfl
  | _ => rfl

/-- A scanner reports what splitting reports, unless a parameter is malformed. -/
theorem pending_scan (h : lexer.SeparatesNames) (text : String) :
    (lexer.scan text).pending = lexer.error? text ∨
      lexer.split text = .error .badSubstitution := by
  by_cases hr : (lexer.run {} text.toList).mode = .rejected
  · right
    simp only [split, State.finish, hr]
  · left
    have hp := pending_ofMode hr
    rw [scan_eq_ofMode h hr, error?, split]
    split at hp <;> exact hp

theorem foldl_feed (s : Scanner) (pieces : List String) :
    pieces.foldl (feed lexer) s = s.feed lexer (String.join pieces) := by
  induction pieces generalizing s with
  | nil => simp [feed]
  | cons piece pieces ih => rw [List.foldl_cons, ih, String.join_cons, feed_append]

/-- Scanning a text in pieces and splitting it as a whole agree on what it leaves open. -/
theorem pending_feed_pieces (h : lexer.SeparatesNames) (pieces : List String) :
    let scanner := pieces.foldl (feed lexer) {}
    let text := String.join pieces
    (lexer.split text ≠ .error .badSubstitution → scanner.pending = lexer.error? text) ∧
      (scanner.pending = some .badSubstitution →
        lexer.split text = .error .badSubstitution) := by
  intro scanner text
  have hs : scanner = lexer.scan text := foldl_feed {} pieces
  rw [hs]
  rcases pending_scan h text with hp | hb
  · exact ⟨fun _ => hp, fun hp' => error?_eq_some_iff.mp (hp.symm.trans hp')⟩
  · exact ⟨fun hn => absurd hb hn, fun _ => hb⟩

theorem pending_feed_pieces_colon :
    ({ delimiters := [':'] } : Lexer).SeparatesNames ∧
      (["a:$", "x\"b\\", "\" 'c"].foldl (feed { delimiters := [':'] }) {}).pending =
        some .unfinishedQuote ∧
      ({ delimiters := [':'] } : Lexer).split (String.join ["a$\x7b", "b'", "\""]) =
        .error .badSubstitution := by
  have h : ({ delimiters := [':'] } : Lexer).SeparatesNames := by decide
  have hs : ({ delimiters := [':'] } : Lexer).split (String.join ["a:$", "x\"b\\", "\" 'c"]) =
      .error .unfinishedQuote := by rfl
  refine ⟨h, ?_, (pending_feed_pieces h _).2 (by decide)⟩
  rw [(pending_feed_pieces h _).1 (by rw [hs]; simp)]
  exact error?_eq_some_iff.mpr hs

end Scanner

end CommandShell
