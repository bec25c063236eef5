import CommandShell.Proofs.Lexer.Escapes
import CommandShell.Proofs.LogicalLine.Gathering

/-! # Blocks of physical lines

A reader of a finite input gives one logical line for each of some consecutive blocks of physical
lines, in order and without a gap. A block ends as soon as its text is not open; only at the end of
the input may it stay open, and an escape that is then left is dropped.
-/

namespace CommandShell

namespace LogicalLine

open Lexer

variable {lexer : Lexer}

@[simp] theorem text?_ofText (lexer : Lexer) (text : String) :
    (ofText lexer text).text? = some text := by
  unfold ofText
  split <;> rfl

theorem ofText_ne_endOfInput (lexer : Lexer) (text : String) : ofText lexer text ≠ .endOfInput := by
  unfold ofText
  split <;> simp

theorem ofText_eq_line_iff {text t : String} {words : List Word} :
    ofText lexer text = .line t words ↔
      (ofText lexer text).text? = some t ∧ lexer.split t = .ok words := by
  rw [text?_ofText]
  unfold ofText
  constructor
  · intro h
    split at h
    · next hs => cases h; exact ⟨rfl, hs⟩
    · cases h
  · rintro ⟨h, hs⟩
    obtain rfl := Option.some.inj h
    rw [hs]

theorem eq_badSubstitution_of_ofText (h : lexer.SeparatesNames) {text t : String}
    {error : LexError} (ho : lexer.openIn? text = none)
    (hl : ofText lexer text = .invalid t error) : error = .badSubstitution := by
  have hs := split_of_ofText hl
  obtain rfl : text = t := by
    have ht := text?_ofText lexer text
    rw [hl] at ht
    exact (Option.some.inj ht).symm
  rcases Scanner.pending_scan h text with hp | hb
  · rw [error?_eq_some_iff.mpr hs] at hp
    cases error with
    | badSubstitution => rfl
    | _ => simp [openIn?, hp, LexError.needsMore] at ho
  · rw [hb] at hs
    exact (Except.error.inj hs).symm

/-- How a logical line stands to the block of lines that it was read from and the lines after it. -/
structure IsBlock (lexer : Lexer) (block following : List String) (l : LogicalLine) : Prop where
  ne_nil : block ≠ []
  open_before : ∀ n, 0 < n → n < block.length → lexer.IsOpen (joinLines (block.take n))
  closed : following ≠ [] → ¬ lexer.IsOpen (joinLines block)
  text_eq : (lexer.scan (joinLines block)).pending ≠ some .trailingEscape →
    l.text? = some (joinLines block)
  text_dropped : (lexer.scan (joinLines block)).pending = some .trailingEscape →
    following = [] ∧ ∃ text, l.text? = some text ∧ text ++ "\\" = joinLines block
  line_iff : ∀ text words,
    l = .line text words ↔ l.text? = some text ∧ lexer.split text = .ok words
  error_eq : ∀ text error, l = .invalid text error → lexer.split text = .error error ∨
    text = joinLines block ∧ error = .unfinishedQuote ∧ following = [] ∧
      lexer.split text = .error .badSubstitution
  ne_escape : ∀ text, l ≠ .invalid text .trailingEscape
  last_of_quote : ∀ text, l = .invalid text .unfinishedQuote → following = []

theorem Stop.of_lines {text : String} {following : List String} {l : LogicalLine}
    {rest : List Event} (hs : Stop lexer text (following.map .line) l rest) :
    rest = following.map .line ∧
      (lexer.openIn? text = none ∧ l = ofText lexer text ∨
        ∃ error, lexer.openIn? text = some error ∧ following = [] ∧
          l = ofOpenText lexer text error) := by
  generalize he : following.map Event.line = es at hs
  cases hs with
  | complete ho => exact ⟨rfl, .inl ⟨ho, rfl⟩⟩
  | exhausted ho => exact ⟨rfl, .inr ⟨_, ho, List.map_eq_nil_iff.mp he, rfl⟩⟩
  | ended ho => cases following <;> simp at he
  | failed ho => cases following <;> simp at he

theorem Gathers.exists_following {lines block : List String} {rest : List Event} {r : Reading}
    (h : Gathers lexer (lines.map .line) block rest r) :
    ∃ following, lines = block ++ following ∧ r.rest = following.map .line ∧
      (lexer.openIn? (joinLines block) = none ∧ r.result = ofText lexer (joinLines block) ∨
        ∃ error, lexer.openIn? (joinLines block) = some error ∧ following = [] ∧
          r.result = ofOpenText lexer (joinLines block) error) := by
  obtain ⟨block', following, hlines, hblock, rfl⟩ := List.map_eq_append_iff.mp h.events_eq
  obtain rfl : block' = block := List.map_inj_right (fun _ _ => Event.line.inj) |>.mp hblock
  exact ⟨following, hlines, h.stop.of_lines⟩

theorem ofOpenText_escape (start : String) :
    ofOpenText lexer (start ++ "\\") .trailingEscape = ofText lexer start := by
  simp [ofOpenText]

section Cases

variable {block following : List String} (hb : block ≠ [])
  (ho : ∀ n, 0 < n → n < block.length → lexer.IsOpen (joinLines (block.take n)))

include hb ho

theorem isBlock_complete (h : lexer.SeparatesNames)
    (hn : lexer.openIn? (joinLines block) = none) :
    IsBlock lexer block following (ofText lexer (joinLines block)) where
  ne_nil := hb
  open_before := ho
  closed _ := openIn?_eq_none_iff.mp hn
  text_eq _ := text?_ofText _ _
  text_dropped hp := absurd (.inr hp) (openIn?_eq_none_iff.mp hn)
  line_iff _ _ := ofText_eq_line_iff
  error_eq _ _ hl := .inl (split_of_ofText hl)
  ne_escape t hl := by cases eq_badSubstitution_of_ofText h hn hl
  last_of_quote t hl := by cases eq_badSubstitution_of_ofText h hn hl

/-- Without its last backslash the text needs no more lines: nothing is open before it. -/
theorem isBlock_escape (h : lexer.SeparatesNames)
    (hp : (lexer.scan (joinLines block)).pending = some .trailingEscape) :
    IsBlock lexer block [] (ofOpenText lexer (joinLines block) .trailingEscape) := by
  obtain ⟨start, ht, hstart⟩ := exists_of_pending_escape hp
  have hn : lexer.openIn? start = none := by rw [openIn?, hstart]; rfl
  rw [ht, ofOpenText_escape]
  exact {
    ne_nil := hb
    open_before := ho
    closed := fun hf => absurd rfl hf
    text_eq := fun hne => absurd hp hne
    text_dropped := fun _ => ⟨rfl, start, text?_ofText _ _, ht.symm⟩
    line_iff := fun _ _ => ofText_eq_line_iff
    error_eq := fun _ _ hl => .inl (split_of_ofText hl)
    ne_escape := fun t hl => by cases eq_badSubstitution_of_ofText h hn hl
    last_of_quote := fun _ _ => rfl }

theorem isBlock_quote (h : lexer.SeparatesNames)
    (hp : (lexer.scan (joinLines block)).pending = some .unfinishedQuote) :
    IsBlock lexer block [] (.invalid (joinLines block) .unfinishedQuote) := by
  have hs : lexer.split (joinLines block) = .error .unfinishedQuote ∨
      lexer.split (joinLines block) = .error .badSubstitution :=
    (Scanner.pending_scan h _).imp_left fun he => error?_eq_some_iff.mp (he.symm.trans hp)
  refine ⟨hb, ho, fun hf => absurd rfl hf, fun _ => rfl, ?_, ?_, ?_, ?_, fun _ _ => rfl⟩
  · intro hp'
    rw [hp] at hp'
    cases hp'
  · refine fun t words => iff_of_false nofun ?_
    rintro ⟨ht, hwords⟩
    obtain rfl := Option.some.inj ht
    rcases hs with hs | hs <;> rw [hs] at hwords <;> cases hwords
  · rintro t error ⟨⟩
    exact hs.imp_right fun hmalformed => ⟨rfl, rfl, rfl, hmalformed⟩
  · rintro t ⟨⟩

end Cases

/-- One reading of a finite input takes a block from its start. -/
theorem Gathers.isBlock (h : lexer.SeparatesNames) {lines block : List String}
    {rest : List Event} {r : Reading} (hg : Gathers lexer (lines.map .line) block rest r) :
    ∃ following, lines = block ++ following ∧ r.rest = following.map .line ∧
      IsBlock lexer block following r.result := by
  obtain ⟨following, hlines, hrest, hs⟩ := hg.exists_following
  refine ⟨following, hlines, hrest, ?_⟩
  rcases hs with ⟨hn, hl⟩ | ⟨error, he, rfl, hl⟩
  · rw [hl]
    exact isBlock_complete hg.block_ne_nil hg.open_before h hn
  · rw [hl]
    rcases openIn?_eq_some_iff.mp he with ⟨hp, hm⟩
    cases error with
    | unfinishedQuote => exact isBlock_quote hg.block_ne_nil hg.open_before h hp
    | trailingEscape => exact isBlock_escape hg.block_ne_nil hg.open_before h hp
    | badSubstitution => cases hm

theorem IsBlock.ne_endOfInput {block following : List String} {l : LogicalLine}
    (h : IsBlock lexer block following l) : l ≠ .endOfInput := by
  rintro rfl
  by_cases hp : (lexer.scan (joinLines block)).pending = some .trailingEscape
  · obtain ⟨-, text, ht, -⟩ := h.text_dropped hp
    cases ht
  · cases h.text_eq hp

end LogicalLine

namespace LineReader

open LogicalLine

theorem next_isBlock (prompt : String) (r : LineReader) (h : r.lexer.SeparatesNames)
    {line : String} {lines : List String} (hr : r.source.events = (line :: lines).map .line) :
    ∃ block following, line :: lines = block ++ following ∧
      IsBlock r.lexer block following (r.next prompt).result ∧
      (r.next prompt).reader.source.events = following.map .line ∧
      (r.next prompt).reader.linesRead = r.linesRead + block.length ∧
      (r.next prompt).reader.startLine = r.linesRead + 1 := by
  obtain ⟨more, rest, hg⟩ := exists_gathers r.lexer line (lines.map .line)
  rw [← List.map_cons, ← hr] at hg
  have hc : (LogicalLine.read r.lexer r.source.events).count = (line :: more).length :=
    hg.count_eq
  rw [hr] at hg
  obtain ⟨following, hl, hrest, hb⟩ := hg.isBlock h
  rw [← hr] at hrest hb
  refine ⟨line :: more, following, hl, hb, hrest, ?_, ?_⟩
  · exact congrArg (r.linesRead + ·) hc
  · simp [next, hc]

/-- Asks for logical lines until the input ends. Each comes with the number of its first line. -/
def readAll (prompt : String) (r : LineReader) : List (LogicalLine × Nat) :=
  let answer := r.next prompt
  if _h : answer.result = .endOfInput then []
  else (answer.result, answer.reader.startLine) :: readAll prompt answer.reader
termination_by r.source.events.length
decreasing_by exact next_decreases r prompt _h

/-- Logical lines and their numbers that stand for blocks of lines, read after some other lines. -/
inductive Grouped (lexer : Lexer) :
    Nat → List (List String) → List (LogicalLine × Nat) → Prop where
  | nil {before : Nat} : Grouped lexer before [] []
  | cons {before : Nat} {block : List String} {blocks : List (List String)} {l : LogicalLine}
      {answers : List (LogicalLine × Nat)} : IsBlock lexer block blocks.flatten l →
      Grouped lexer (before + block.length) blocks answers →
      Grouped lexer before (block :: blocks) ((l, before + 1) :: answers)

theorem exists_grouped (prompt : String) (r : LineReader) (h : r.lexer.SeparatesNames)
    (lines : List String) (hr : r.source.events = lines.map .line) :
    ∃ blocks : List (List String), blocks.flatten = lines ∧
      Grouped r.lexer r.linesRead blocks (readAll prompt r) := by
  induction r using readAll.induct prompt generalizing lines with
  | case1 r answer he =>
    cases lines with
    | nil =>
      rw [readAll, dif_pos he]
      exact ⟨[], rfl, .nil⟩
    | cons line lines =>
      obtain ⟨block, following, -, hb, -⟩ := next_isBlock prompt r h hr
      exact absurd he hb.ne_endOfInput
  | case2 r answer hne ih =>
    cases lines with
    | nil => exact absurd (by simp [answer, next, hr, LogicalLine.read]) hne
    | cons line lines =>
      obtain ⟨block, following, hl, hb, hevents, hcount, hstart⟩ := next_isBlock prompt r h hr
      obtain ⟨blocks, rfl, hg⟩ := ih h following hevents
      rw [hcount] at hg
      rw [readAll, dif_neg hne, hstart]
      exact ⟨block :: blocks, hl.symm, .cons hb hg⟩

/-- A reader divides a finite input into blocks, one for each logical line that it gives. -/
theorem readAll_blocks (prompt : String) (lines : List String) (interactive display : Bool) :
    ∃ blocks : List (List String), blocks.flatten = lines ∧
      Grouped {} 0 blocks
        (readAll prompt { source := { events := lines.map .line, interactive, display } }) :=
  exists_grouped prompt { source := { events := lines.map .line, interactive, display } }
    Lexer.separatesNames_default lines rfl

end LineReader

end CommandShell
