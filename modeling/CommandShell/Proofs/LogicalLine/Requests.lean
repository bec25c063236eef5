import CommandShell.Proofs.Lexer.Delimiters
import CommandShell.Proofs.LogicalLine.Gathering

/-! # Requests for physical lines

A reader asks for one more physical line exactly while the text leaves a quote or an escape open.
Splitting such a text fails: with the same error, or because a parameter before it is malformed,
which the reader finds out only when the text is complete.
-/

namespace CommandShell

namespace LogicalLine

open Lexer

variable {lexer : Lexer} {text t : String} {error : LexError}

/-- An invalid line has the error of its text, unless the input ended inside quotes after a
malformed parameter. -/
theorem Stop.split_of_invalid {es rest : List Event} {l : LogicalLine}
    (h : Stop lexer text es l rest) (hl : l = .invalid t error) :
    lexer.split t = .error error ∨
      t = text ∧ error = .unfinishedQuote ∧ lexer.IsOpen text ∧
        lexer.split t = .error .badSubstitution := by
  have hopen : ∀ {e}, lexer.openIn? text = some e → ofOpenText lexer text e = .invalid t error →
      lexer.split t = .error error ∨ t = text ∧ error = .unfinishedQuote ∧ lexer.IsOpen text ∧
        lexer.split t = .error .badSubstitution := by
    intro e ho he
    unfold ofOpenText at he
    split at he
    · exact .inl (split_of_ofText he)
    · cases he
      obtain ⟨hp, hm⟩ := openIn?_eq_some_iff.mp ho
      refine (split_of_pending hp).imp id fun hb => ⟨rfl, ?_, isOpen_of_openIn? ho, hb⟩
      cases error with
      | unfinishedQuote => rfl
      | trailingEscape => contradiction
      | badSubstitution => cases hm
  cases h with
  | complete => exact .inl (split_of_ofText hl)
  | exhausted ho => exact hopen ho hl
  | ended ho => exact hopen ho hl
  | failed => cases hl

theorem Stop.exists_append {es left : List Event} {l : LogicalLine}
    (h : Stop lexer text es l left) :
    ∃ stop, es = stop ++ left ∧ stop.length ≤ 1 ∧ ∀ line, .line line ∉ stop := by
  cases h with
  | complete | exhausted => exact ⟨[], rfl, by simp, by simp⟩
  | ended => exact ⟨[.endOfInput], rfl, by simp, by simp⟩
  | @failed _ fault => exact ⟨[.failure fault], rfl, by simp, by simp⟩

theorem read_of_head? {es : List Event} (h : ∀ text, es.head? ≠ some (.line text)) :
    (∃ stop, es = stop ++ (read lexer es).rest ∧ stop.length ≤ 1 ∧ ∀ line, .line line ∉ stop) ∧
      (read lexer es).count = 0 ∧ ∀ t error, (read lexer es).result ≠ .invalid t error := by
  match es with
  | [] => exact ⟨⟨[], rfl, by simp, by simp⟩, rfl, nofun⟩
  | .line text :: _ => exact absurd rfl (h text)
  | .endOfInput :: _ => exact ⟨⟨[.endOfInput], rfl, by simp, by simp⟩, rfl, nofun⟩
  | .failure fault :: _ => exact ⟨⟨[.failure fault], rfl, by simp, by simp⟩, rfl, nofun⟩

theorem split_of_isOpen (h : lexer.IsOpen text) :
    ∃ error, lexer.split text = .error error ∧ (error.needsMore ∨ error = .badSubstitution) := by
  rcases h with hp | hp <;> rcases split_of_pending hp with hs | hs <;>
    exact ⟨_, hs, by simp [LexError.needsMore]⟩

/-- Without delimiters in names and malformed parameters, the errors that ask for more are the open
constructs. -/
theorem isOpen_iff_needsMore (h : lexer.SeparatesNames)
    (hb : lexer.split text ≠ .error .badSubstitution) :
    lexer.IsOpen text ↔ ∃ error, lexer.split text = .error error ∧ error.needsMore := by
  constructor
  · intro ho
    obtain ⟨error, hs, hm | rfl⟩ := split_of_isOpen ho
    · exact ⟨error, hs, hm⟩
    · exact absurd hs hb
  · rintro ⟨error, hs, hm⟩
    have hp : (lexer.scan text).pending = some error :=
      ((Scanner.pending_scan h text).resolve_right hb).trans (error?_eq_some_iff.mpr hs)
    exact isOpen_of_openIn? (openIn?_eq_some_iff.mpr ⟨hp, hm⟩)

theorem Gathers.lt_requests_iff {es rest : List Event} {block : List String} {r : Reading}
    (h : Gathers lexer es block rest r) {n : Nat} (h₀ : 0 < n) (h₁ : n ≤ block.length) :
    n < r.continued + 1 ↔ lexer.IsOpen (joinLines (block.take n)) := by
  have hc := h.continued_eq
  rcases Nat.lt_or_eq_of_le h₁ with hlt | rfl
  · have ho := h.open_before n h₀ hlt
    exact iff_of_true (by omega) ho
  · rw [List.take_length]
    cases ho : lexer.openIn? (joinLines block) with
    | none =>
      rw [ho] at hc
      refine iff_of_false ?_ (openIn?_eq_none_iff.mp ho)
      simp at hc
      omega
    | some error =>
      rw [ho] at hc
      refine iff_of_true ?_ (isOpen_of_openIn? ho)
      simp at hc
      omega

end LogicalLine

namespace LineReader

open LogicalLine

/-- How an answer stands to the lines that were read for it. After `n` of them, a further line was
asked for if there are more than `n` prompts. -/
structure Answer.AsksFor (lexer : Lexer) (block : List String) (a : Answer) : Prop where
  asks_iff_isOpen : ∀ n, 0 < n → n ≤ block.length →
    (n < a.prompts.length ↔ lexer.IsOpen (joinLines (block.take n)))
  split_of_asks : ∀ n, 0 < n → n ≤ block.length → n < a.prompts.length →
    ∃ error, lexer.split (joinLines (block.take n)) = .error error ∧
      (error.needsMore ∨ error = .badSubstitution)
  asks_iff_needsMore : lexer.SeparatesNames → ∀ n, 0 < n → n ≤ block.length →
    lexer.split (joinLines (block.take n)) ≠ .error .badSubstitution →
      (n < a.prompts.length ↔
        ∃ error, lexer.split (joinLines (block.take n)) = .error error ∧ error.needsMore)
  split_of_invalid : ∀ text error, a.result = .invalid text error →
    lexer.split text = .error error ∨
      text = joinLines block ∧ error = .unfinishedQuote ∧ lexer.IsOpen text ∧
        lexer.split text = .error .badSubstitution

theorem asksFor_of_gathers {prompt : String} {r : LineReader} {block : List String}
    {rest : List Event}
    (h : Gathers r.lexer r.source.events block rest (LogicalLine.read r.lexer r.source.events)) :
    (r.next prompt).AsksFor r.lexer block := by
  have hp : (r.next prompt).prompts.length =
      (LogicalLine.read r.lexer r.source.events).continued + 1 := by
    simp [next]
  have hiff : ∀ n, 0 < n → n ≤ block.length →
      (n < (r.next prompt).prompts.length ↔ r.lexer.IsOpen (joinLines (block.take n))) := by
    intro n h₀ h₁
    rw [hp]
    exact h.lt_requests_iff h₀ h₁
  refine ⟨hiff, ?_, ?_, ?_⟩
  · intro n h₀ h₁ hlt
    exact split_of_isOpen ((hiff n h₀ h₁).mp hlt)
  · intro hs n h₀ h₁ hb
    rw [hiff n h₀ h₁]
    exact isOpen_iff_needsMore hs hb
  · intro text error hl
    refine (h.stop.split_of_invalid hl).imp id ?_
    rintro ⟨rfl, he, ho, hb⟩
    exact ⟨rfl, he, ho, hb⟩

theorem asksFor_nil {lexer : Lexer} {a : Answer}
    (h : ∀ text error, a.result ≠ .invalid text error) : a.AsksFor lexer [] where
  asks_iff_isOpen n h₀ h₁ := absurd h₁ (by simp; omega)
  split_of_asks n h₀ h₁ := absurd h₁ (by simp; omega)
  asks_iff_needsMore _ n h₀ h₁ := absurd h₁ (by simp; omega)
  split_of_invalid text error hl := absurd hl (h text error)

/-- One request reads lines from the start of the events, and at most one event behind them that is
no line. It asks for a further line exactly while their text is open. -/
theorem next_asksFor (prompt : String) (r : LineReader) :
    ∃ (block : List String) (stop : List Event),
      r.source.events = block.map .line ++ stop ++ (r.next prompt).reader.source.events ∧
      stop.length ≤ 1 ∧ (∀ text, .line text ∉ stop) ∧
      (block = [] ↔ ∀ text, r.source.events.head? ≠ some (.line text)) ∧
      (r.next prompt).reader.linesRead = r.linesRead + block.length ∧
      (r.next prompt).AsksFor r.lexer block := by
  by_cases hline : ∃ text, r.source.events.head? = some (.line text)
  · obtain ⟨text, hfirst⟩ := hline
    obtain ⟨es, hr⟩ := List.head?_eq_some_iff.mp hfirst
    obtain ⟨more, rest, hg⟩ := exists_gathers r.lexer text es
    rw [← hr] at hg
    obtain ⟨stop, hrest, hlength, hstop⟩ := hg.stop.exists_append
    refine ⟨text :: more, stop, ?_, hlength, hstop, ?_, ?_, asksFor_of_gathers hg⟩
    · rw [List.append_assoc]
      exact hrest ▸ hg.events_eq
    · exact iff_of_false (List.cons_ne_nil _ _) fun h => h text hfirst
    · exact congrArg (r.linesRead + ·) hg.count_eq
  · have hnone := not_exists.mp hline
    obtain ⟨⟨stop, hrest, hlength, hstop⟩, hcount, hresult⟩ :=
      @read_of_head? r.lexer _ hnone
    refine ⟨[], stop, hrest, hlength, hstop, iff_of_true rfl hnone, ?_, asksFor_nil hresult⟩
    exact congrArg (r.linesRead + ·) hcount

/-- A quote after a malformed parameter asks for more although splitting does not, and a quote after
a name with a delimiter in it does not ask although splitting does. -/
theorem asks_differs_from_needsMore :
    ((next { source := { events := [.line "$\x7b-\x7d'"], interactive := true } } "$ ").prompts =
        ["$ ", "> "] ∧
      (next { source := { events := [.line "$\x7b-\x7d'"], interactive := true } } "$ ").result =
        .invalid "$\x7b-\x7d'" .unfinishedQuote ∧
      ({} : Lexer).split "$\x7b-\x7d'" = .error .badSubstitution ∧
      LexError.badSubstitution.needsMore = false) ∧
    ((next { lexer := { delimiters := ['a'] }
             source := { events := [.line "$a#'"], interactive := true } } "$ ").prompts = ["$ "] ∧
      ({ delimiters := ['a'] } : Lexer).split "$a#'" = .error .unfinishedQuote ∧
      LexError.unfinishedQuote.needsMore = true) :=
  ⟨⟨by decide, by decide, rfl, rfl⟩, by decide, rfl, rfl⟩

end LineReader

end CommandShell
