import CommandShell.Proofs.Lexer.NormalForm
import CommandShell.Proofs.Lexer.Runs

/-! # Spelling words

Every list of normal words is what the default lexer reads from some text. The text spells the words
one character at a time: a dropped line end keeps unquoted characters from being read as comments or
parameters, a backslash quotes a character, and a line end is quoted by quotes, which only words
with quotes need.
-/

namespace CommandShell

open Lexer

/-- A character of unquoted text, followed by a dropped line end. -/
def spellLiteral (c : Char) : List Char := [c, '\\', '\n']

/-- A character of quoted text. -/
def spellQuoted (c : Char) : List Char := if c = '\n' then ['\'', '\n', '\''] else ['\\', c]

def WordPart.spelling : WordPart → List Char
  | .literal text => text.toList.flatMap spellLiteral
  | .quoted text => text.toList.flatMap spellQuoted
  | .parameter name => '$' :: '{' :: (name.toList ++ ['}'])

/-- Quotes around nothing or a dropped line end begin the word. -/
def Word.spelling (w : Word) : List Char :=
  (if w.quoted then ['\'', '\''] else ['\\', '\n']) ++ w.parts.flatMap WordPart.spelling

def spellWords (words : List Word) : List Char := words.flatMap fun w => w.spelling ++ [' ']

namespace Lexer.State

variable {s : State}

theorem run_spellLiteral (hm : s.mode = .word) {c : Char} (hc : c ∉ WordPart.syntaxChars) :
    ({} : Lexer).run s (spellLiteral c) = s.literal c := by
  obtain ⟨mode, done, parts, quoted⟩ := s
  cases hm
  by_cases hd : c = '$'
  · subst hd
    rfl
  · have hstep : State.step {} { mode := .word, done, parts, quoted } c =
        State.literal { mode := .word, done, parts, quoted } c := by
      simp [WordPart.syntaxChars] at hc
      simp [State.step, State.stepWord, isDelimiter, hc, hd, State.enter, State.literal]
    rw [spellLiteral, run_cons, hstep]
    rfl

theorem run_spellQuoted (hm : s.mode = .word) {c : Char} (hc : s.quoted = false → c ≠ '\n') :
    ({} : Lexer).run s (spellQuoted c) = s.quote c := by
  obtain ⟨mode, done, parts, quoted⟩ := s
  cases hm
  unfold spellQuoted
  split
  · next h =>
    have hq : quoted = true := by simpa using fun hq => hc hq h
    subst hq
    subst h
    rfl
  · next h =>
    have hstep : State.step {} { mode := .word, done, parts, quoted } '\\' =
        { mode := .escape false, done, parts, quoted } := rfl
    rw [run_cons, hstep]
    simp [State.step, h, State.enter, State.quote]

theorem run_spelling_parameter (hm : s.mode = .word) {name : String} (hn : isParameterName name) :
    ({} : Lexer).run s (WordPart.parameter name).spelling = s.parameter name := by
  obtain ⟨mode, done, parts, quoted⟩ := s
  cases hm
  have hdollar : State.step {} { mode := .word, done, parts, quoted } '$' =
      { mode := .dollar false, done, parts, quoted } := rfl
  rw [WordPart.spelling, run_cons, hdollar, ← List.cons_append, run_inBraces _ rfl hn]
  rfl

/-- A normal part is read back where it follows no text of its kind. -/
theorem run_part_spelling (hm : s.mode = .word) {p : WordPart} (hp : p.IsNormal s.quoted)
    (hs : ∀ q ∈ s.parts.head?, p.sameText q = false) :
    ({} : Lexer).run s p.spelling = { s with parts := p :: s.parts } := by
  cases p with
  | literal text =>
    have hrun : ({} : Lexer).run s (text.toList.flatMap spellLiteral) =
        text.toList.foldl State.literal s :=
      run_flatMap _ (fun s hs c hc => ⟨run_spellLiteral hs (hp.2 c hc), hs⟩) hm
    rw [WordPart.spelling, hrun, foldl_literal, foldl_addLiteral_eq (fun t ht => ?_) hp.1]
    cases hs _ ht
  | quoted text =>
    have hrun : ({} : Lexer).run s (text.toList.flatMap spellQuoted) =
        text.toList.foldl State.quote s := by
      refine run_flatMap (P := fun t => t.mode = .word ∧ t.quoted = s.quoted) _ ?_ ⟨hm, rfl⟩
      rintro t ⟨ht, hq⟩ c hc
      refine ⟨run_spellQuoted ht fun hf hn => ?_, ht, hq⟩
      exact hp.2 (hq ▸ hf) (hn ▸ hc)
    rw [WordPart.spelling, hrun, foldl_quote, foldl_addQuoted_eq (fun t ht => ?_) hp.1]
    cases hs _ ht
  | parameter name => exact run_spelling_parameter hm (WordPart.isNormal_parameter_iff.mp hp)

theorem run_parts_spelling (hm : s.mode = .word) {ps : List WordPart}
    (hn : NormalParts s.quoted ps)
    (hs : ∀ p ∈ ps.head?, ∀ q ∈ s.parts.head?, p.sameText q = false) :
    ({} : Lexer).run s (ps.flatMap WordPart.spelling) =
      { s with parts := ps.reverse ++ s.parts } := by
  induction ps generalizing s with
  | nil => rfl
  | cons p ps ih =>
    have hnext : ∀ q ∈ ps.head?, ∀ r ∈ (p :: s.parts).head?, q.sameText r = false := by
      rintro q hq r ⟨⟩
      rw [WordPart.sameText_comm]
      exact (List.isChain_cons.mp hn.separate).1 q hq
    rw [List.flatMap_cons, run_append, run_part_spelling hm hn.head (hs p rfl)]
    simpa using ih (s := { s with parts := p :: s.parts }) hm hn.tail hnext

theorem run_word_spelling (done : List Word) {w : Word} (hw : w.IsNormal) :
    ({} : Lexer).run { done } (w.spelling ++ [' ']) = { done := w :: done } := by
  have hopen : ({} : Lexer).run { done } (if w.quoted then ['\'', '\''] else ['\\', '\n']) =
      { mode := .word, done, quoted := w.quoted } := by
    cases w.quoted <;> rfl
  have hcurrent :
      State.current { mode := .word, done, parts := w.parts.reverse, quoted := w.quoted } = w := by
    simp [State.current]
  have hpresent : w.isPresent := by simpa [Word.isPresent] using hw.present
  rw [Word.spelling, run_append, run_append, hopen, run_parts_spelling rfl hw.parts (by simp),
    List.append_nil]
  change State.endWord { mode := .word, done, parts := w.parts.reverse, quoted := w.quoted } = _
  rw [State.endWord, hcurrent, if_pos hpresent]

theorem run_spellWords (done : List Word) {words : List Word} (h : ∀ w ∈ words, w.IsNormal) :
    ({} : Lexer).run { done } (spellWords words) = { done := words.reverse ++ done } := by
  induction words generalizing done with
  | nil => rfl
  | cons w words ih =>
    rw [List.forall_mem_cons] at h
    rw [spellWords, List.flatMap_cons, run_append, run_word_spelling done h.1, ← spellWords,
      ih (w :: done) h.2]
    simp

end Lexer.State

namespace Lexer

theorem split_spellWords {words : List Word} (h : ∀ w ∈ words, w.IsNormal) :
    ({} : Lexer).split (String.ofList (spellWords words)) = .ok words := by
  rw [split, String.toList_ofList, State.run_spellWords [] h]
  simp [State.finish]

-- Neither a comment nor a parameter.
example : ({} : Lexer).split (String.ofList (spellWords [{ parts := [.literal "#$x"] }])) =
    .ok [{ parts := [.literal "#$x"] }] := by
  rfl

/-- The default lexer gives exactly the lists of normal words. -/
theorem exists_split_eq_ok_iff (words : List Word) :
    (∃ text, ({} : Lexer).split text = .ok words) ↔ ∀ w ∈ words, w.IsNormal :=
  ⟨fun ⟨_, h⟩ => isNormal_of_split h, fun h => ⟨_, split_spellWords h⟩⟩

end Lexer

end CommandShell
