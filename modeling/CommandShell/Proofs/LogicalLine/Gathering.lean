import CommandShell.LogicalLine
import CommandShell.Proofs.Lexer.Scanning

/-! # Gathering a logical line

Reading a logical line takes physical lines while their text is open. What stops it is a text that
is not open, the end of the input or a failure; the events after it are left alone.
-/

namespace CommandShell

/-- The text of physical lines that are read as one. -/
def joinLines (lines : List String) : String := "\n".intercalate lines

@[simp] theorem joinLines_singleton (line : String) : joinLines [line] = line :=
  String.intercalate_singleton

theorem joinLines_cons_cons (a b : String) (lines : List String) :
    joinLines (a :: b :: lines) = joinLines ((a ++ "\n" ++ b) :: lines) := by
  simp [joinLines, String.append_assoc]

namespace Lexer

/-- The construct that makes a text open: more lines are asked for to close it. -/
def openIn? (lexer : Lexer) (text : String) : Option LexError :=
  (lexer.scan text).pending.filter LexError.needsMore

/-- A scanner of the text reports an open quote or an open escape. -/
def IsOpen (lexer : Lexer) (text : String) : Prop :=
  (lexer.scan text).pending = some .unfinishedQuote ∨
    (lexer.scan text).pending = some .trailingEscape

instance (lexer : Lexer) (text : String) : Decidable (lexer.IsOpen text) :=
  inferInstanceAs (Decidable (_ ∨ _))

variable {lexer : Lexer} {text : String}

theorem openIn?_eq_some_iff {error : LexError} :
    lexer.openIn? text = some error ↔
      (lexer.scan text).pending = some error ∧ error.needsMore := by
  simp [openIn?, Option.filter_eq_some_iff]

theorem isOpen_of_openIn? {error : LexError} (h : lexer.openIn? text = some error) :
    lexer.IsOpen text := by
  obtain ⟨hp, hm⟩ := openIn?_eq_some_iff.mp h
  cases error with
  | unfinishedQuote => exact .inl hp
  | trailingEscape => exact .inr hp
  | badSubstitution => cases hm

theorem openIn?_eq_none_iff : lexer.openIn? text = none ↔ ¬ lexer.IsOpen text := by
  constructor
  · rintro hn (hp | hp) <;> rw [openIn?, hp] at hn <;> cases hn
  · intro hn
    cases ho : lexer.openIn? text with
    | none => rfl
    | some error => exact absurd (isOpen_of_openIn? ho) hn

end Lexer

namespace LogicalLine

open Lexer

variable {lexer : Lexer}

theorem split_of_ofText {text t : String} {error : LexError}
    (h : ofText lexer text = .invalid t error) : lexer.split t = .error error := by
  unfold ofText at h
  split at h
  · cases h
  · next hs => cases h; exact hs

/-- How reading stops at a text, with the events from there on and the events that are left. -/
inductive Stop (lexer : Lexer) (text : String) :
    List Event → LogicalLine → List Event → Prop where
  | complete {es : List Event} : lexer.openIn? text = none →
      Stop lexer text es (ofText lexer text) es
  | exhausted {error : LexError} : lexer.openIn? text = some error →
      Stop lexer text [] (ofOpenText lexer text error) []
  | ended {error : LexError} {es : List Event} : lexer.openIn? text = some error →
      Stop lexer text (.endOfInput :: es) (ofOpenText lexer text error) es
  | failed {error : LexError} {fault : ReadError} {es : List Event} :
      lexer.openIn? text = some error →
      Stop lexer text (.failure fault :: es) (.failure fault) es

/-- A logical line is read from a block of physical lines whose text is open until the last one.
A continuation is asked for after each line but the last, and after the last if it is open too. -/
structure Gathers (lexer : Lexer) (es : List Event) (block : List String) (rest : List Event)
    (r : Reading) : Prop where
  events_eq : es = block.map .line ++ rest
  block_ne_nil : block ≠ []
  open_before : ∀ n, 0 < n → n < block.length → lexer.IsOpen (joinLines (block.take n))
  stop : Stop lexer (joinLines block) rest r.result r.rest
  count_eq : r.count = block.length
  continued_eq : r.continued + 1 =
    block.length + if (lexer.openIn? (joinLines block)).isSome then 1 else 0

section Reading

variable {text : String} {error : LexError} {es : List Event}

theorem read_complete (ho : lexer.openIn? text = none) :
    read lexer (.line text :: es) = ⟨ofText lexer text, es, 1, 0⟩ := by
  simp only [openIn?, scan] at ho
  cases es <;> simp [read, gather, ho]

theorem read_exhausted (ho : lexer.openIn? text = some error) :
    read lexer [.line text] = ⟨ofOpenText lexer text error, [], 1, 1⟩ := by
  simp only [openIn?, scan] at ho
  simp [read, gather, ho]

theorem read_ended (ho : lexer.openIn? text = some error) :
    read lexer (.line text :: .endOfInput :: es) = ⟨ofOpenText lexer text error, es, 1, 1⟩ := by
  simp only [openIn?, scan] at ho
  simp [read, gather, ho]

theorem read_failed (ho : lexer.openIn? text = some error) (fault : ReadError) :
    read lexer (.line text :: .failure fault :: es) = ⟨.failure fault, es, 1, 1⟩ := by
  simp only [openIn?, scan] at ho
  simp [read, gather, ho]

theorem read_continued (ho : lexer.openIn? text = some error) (next : String) :
    read lexer (.line text :: .line next :: es) =
      { read lexer (.line (text ++ "\n" ++ next) :: es) with
        count := (read lexer (.line (text ++ "\n" ++ next) :: es)).count + 1
        continued := (read lexer (.line (text ++ "\n" ++ next) :: es)).continued + 1 } := by
  simp only [openIn?, scan] at ho
  simp [read, gather, ho, Scanner.feed_append]

end Reading

theorem Gathers.single {text : String} {es : List Event} {r : Reading}
    (hs : Stop lexer text es r.result r.rest) (hc : r.count = 1)
    (hn : r.continued = if (lexer.openIn? text).isSome then 1 else 0) :
    Gathers lexer (.line text :: es) [text] es r where
  events_eq := rfl
  block_ne_nil := by simp
  open_before n h₀ h₁ := by simp at h₁; omega
  stop := by simpa using hs
  count_eq := hc
  continued_eq := by simp [hn, Nat.add_comm]

theorem Gathers.cons {text next : String} {es rest : List Event} {block : List String}
    {error : LexError} {r : Reading} (ho : lexer.openIn? text = some error)
    (h : Gathers lexer (.line (text ++ "\n" ++ next) :: es) ((text ++ "\n" ++ next) :: block)
      rest r) :
    Gathers lexer (.line text :: .line next :: es) (text :: next :: block) rest
      { r with count := r.count + 1, continued := r.continued + 1 } where
  events_eq := by simpa using h.events_eq
  block_ne_nil := by simp
  open_before n h₀ h₁ := by
    match n with
    | 0 => omega
    | 1 => simpa using isOpen_of_openIn? ho
    | n + 2 =>
      have hn := h.open_before (n + 1) (by omega) (by simpa using h₁)
      simpa [joinLines_cons_cons] using hn
  stop := by simpa only [joinLines_cons_cons] using h.stop
  count_eq := by simpa using h.count_eq
  continued_eq := by
    have hc := h.continued_eq
    rw [joinLines_cons_cons]
    simp only [List.length_cons] at hc ⊢
    omega

/-- Reading gathers a block that starts with the first line. -/
theorem exists_gathers (lexer : Lexer) (text : String) (es : List Event) :
    ∃ more rest, Gathers lexer (.line text :: es) (text :: more) rest
      (read lexer (.line text :: es)) := by
  induction es generalizing text with
  | nil =>
    refine ⟨[], [], ?_⟩
    cases ho : lexer.openIn? text with
    | none => rw [read_complete ho]; exact .single (.complete ho) rfl (by simp [ho])
    | some error => rw [read_exhausted ho]; exact .single (.exhausted ho) rfl (by simp [ho])
  | cons e es ih =>
    cases ho : lexer.openIn? text with
    | none =>
      rw [read_complete ho]
      exact ⟨[], _, .single (.complete ho) rfl (by simp [ho])⟩
    | some error =>
      cases e with
      | line next =>
        -- What is gathered so far is the first line of the reading that is left.
        obtain ⟨more, rest, h⟩ := ih (text ++ "\n" ++ next)
        rw [read_continued ho]
        exact ⟨next :: more, rest, h.cons ho⟩
      | endOfInput =>
        rw [read_ended ho]
        exact ⟨[], _, .single (.ended ho) rfl (by simp [ho])⟩
      | failure fault =>
        rw [read_failed ho]
        exact ⟨[], _, .single (.failed ho) rfl (by simp [ho])⟩

end LogicalLine

end CommandShell
