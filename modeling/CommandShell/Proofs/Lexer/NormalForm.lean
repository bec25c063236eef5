import CommandShell.Proofs.Lexer.Names
import Mathlib.Data.List.Chain
import Mathlib.Tactic.SplitIfs

/-! # Normal words

The lexer joins neighbouring characters of one kind into one part and gives no empty part, so the
words of a line have a normal form. Every word that the default lexer gives is normal.
-/

namespace CommandShell

namespace WordPart

/-- Characters that are never unquoted text: they separate words, quote or escape. -/
def syntaxChars : List Char := [' ', '\t', '\n', '\'', '"', '\\']

/-- A part as it stands in a word of the lexer. In a word without quotes all quoted text comes after
backslashes, and a backslash drops the line end. -/
def IsNormal (quoted : Bool) : WordPart → Prop
  | .literal text => text ≠ "" ∧ ∀ c ∈ text.toList, c ∉ syntaxChars
  | .quoted text => text ≠ "" ∧ (quoted = false → '\n' ∉ text.toList)
  | .parameter name =>
    name ∈ ["?", "$", "#"] ∨ (name ≠ "" ∧ ∀ c ∈ name.toList, c.isDigit) ∨ Variables.isName name

instance (quoted : Bool) : DecidablePred (IsNormal quoted)
  | .literal text => inferInstanceAs (Decidable (text ≠ "" ∧ ∀ c ∈ text.toList, c ∉ syntaxChars))
  | .quoted text =>
    inferInstanceAs (Decidable (text ≠ "" ∧ (quoted = false → '\n' ∉ text.toList)))
  | .parameter name =>
    inferInstanceAs (Decidable (name ∈ ["?", "$", "#"] ∨
      (name ≠ "" ∧ ∀ c ∈ name.toList, c.isDigit) ∨ Variables.isName name))

def sameText : WordPart → WordPart → Bool
  | .literal _, .literal _ | .quoted _, .quoted _ => true
  | _, _ => false

theorem sameText_comm (p q : WordPart) : p.sameText q = q.sameText p := by
  cases p <;> cases q <;> rfl

theorem IsNormal.of_quotes {quoted : Bool} {p : WordPart} (h : p.IsNormal quoted) :
    p.IsNormal true := by
  cases p with
  | quoted text => exact ⟨h.1, fun hq => by cases hq⟩
  | _ => exact h

theorem isNormal_parameter_iff {quoted : Bool} {name : String} :
    (WordPart.parameter name).IsNormal quoted ↔ isParameterName name := by
  obtain ⟨cs, rfl⟩ : ∃ cs, name = String.ofList cs := ⟨_, String.ofList_toList.symm⟩
  have hspecial : String.ofList cs ∈ ["?", "$", "#"] ↔ cs = ['?'] ∨ cs = ['$'] ∨ cs = ['#'] := by
    simp [← String.toList_inj]
  cases cs with
  | nil => simp [IsNormal, isParameterName, Variables.isName]
  | cons c cs =>
    simp only [IsNormal, hspecial, isParameterName, String.toList_ofList, isSpecialParameter]
    cases cs <;> simp [← String.toList_inj, or_assoc]

end WordPart

/-- Parts as they stand in one word of the lexer, in either direction. -/
structure NormalParts (quoted : Bool) (ps : List WordPart) : Prop where
  each : ∀ p ∈ ps, p.IsNormal quoted
  separate : ps.IsChain fun p q => p.sameText q = false

instance (quoted : Bool) : DecidablePred (NormalParts quoted) := fun ps =>
  decidable_of_iff ((∀ p ∈ ps, p.IsNormal quoted) ∧ ps.IsChain fun p q => p.sameText q = false)
    ⟨fun h => ⟨h.1, h.2⟩, fun h => ⟨h.each, h.separate⟩⟩

structure Word.IsNormal (w : Word) : Prop where
  present : w.parts ≠ [] ∨ w.quoted = true
  parts : NormalParts w.quoted w.parts

instance : DecidablePred Word.IsNormal := fun w =>
  decidable_of_iff ((w.parts ≠ [] ∨ w.quoted = true) ∧ NormalParts w.quoted w.parts)
    ⟨fun h => ⟨h.1, h.2⟩, fun h => ⟨h.present, h.parts⟩⟩

namespace NormalParts

variable {quoted : Bool} {p : WordPart} {ps : List WordPart}

theorem nil (quoted : Bool) : NormalParts quoted [] := ⟨by simp, .nil⟩

theorem cons (h : NormalParts quoted ps) (hp : p.IsNormal quoted)
    (hs : ∀ q ∈ ps.head?, p.sameText q = false) : NormalParts quoted (p :: ps) where
  each := List.forall_mem_cons.mpr ⟨hp, h.each⟩
  separate := List.isChain_cons.mpr ⟨hs, h.separate⟩

theorem head (h : NormalParts quoted (p :: ps)) : p.IsNormal quoted :=
  h.each p List.mem_cons_self

theorem tail (h : NormalParts quoted (p :: ps)) : NormalParts quoted ps where
  each q hq := h.each q (List.mem_cons_of_mem _ hq)
  separate := h.separate.tail

theorem set_head (h : NormalParts quoted (p :: ps)) {q : WordPart} (hq : q.IsNormal quoted)
    (hs : ∀ r, q.sameText r = p.sameText r) : NormalParts quoted (q :: ps) :=
  h.tail.cons hq fun r hr => (hs r).trans ((List.isChain_cons.mp h.separate).1 r hr)

theorem reverse (h : NormalParts quoted ps) : NormalParts quoted ps.reverse where
  each p hp := h.each p (List.mem_reverse.mp hp)
  separate := by
    rw [List.isChain_reverse]
    exact h.separate.imp fun p q hpq => (WordPart.sameText_comm q p).trans hpq

theorem of_quotes (h : NormalParts quoted ps) : NormalParts true ps :=
  ⟨fun p hp => (h.each p hp).of_quotes, h.separate⟩

theorem addLiteral (h : NormalParts quoted ps) {c : Char} (hc : c ∉ WordPart.syntaxChars) :
    NormalParts quoted (Lexer.addLiteral c ps) := by
  match ps with
  | .literal text :: ps =>
    have hp := h.head
    refine h.set_head ⟨by simp, ?_⟩ fun r => by cases r <;> rfl
    simpa [or_imp, forall_and, hc] using hp.2
  | [] => exact h.cons ⟨by simp, by simpa using hc⟩ (by simp)
  | .quoted text :: ps => exact h.cons ⟨by simp, by simpa using hc⟩ (by simp [WordPart.sameText])
  | .parameter name :: ps =>
    exact h.cons ⟨by simp, by simpa using hc⟩ (by simp [WordPart.sameText])

theorem addQuoted (h : NormalParts quoted ps) {c : Char} (hc : quoted = false → c ≠ '\n') :
    NormalParts quoted (Lexer.addQuoted c ps) := by
  have hone : (WordPart.quoted (String.singleton c)).IsNormal quoted :=
    ⟨by simp, by simpa [eq_comm] using hc⟩
  match ps with
  | .quoted text :: ps =>
    have hp := h.head
    refine h.set_head ⟨by simp, fun hq => ?_⟩ fun r => by cases r <;> rfl
    simpa [eq_comm] using ⟨hp.2 hq, hc hq⟩
  | [] => exact h.cons hone (by simp)
  | .literal text :: ps => exact h.cons hone (by simp [WordPart.sameText])
  | .parameter name :: ps => exact h.cons hone (by simp [WordPart.sameText])

theorem parameter (h : NormalParts quoted ps) {name : String} (hn : isParameterName name) :
    NormalParts quoted (.parameter name :: ps) :=
  h.cons (WordPart.isNormal_parameter_iff.mpr hn) fun q _ => by cases q <;> rfl

end NormalParts

namespace Lexer

/-- What is known where the lexer stands: inside quotes the word is quoted, and a name that is being
read is a variable's. -/
def Mode.Fits (quoted : Bool) : Mode → Prop
  | .single | .double => quoted = true
  | .escape inQuotes | .dollar inQuotes | .brace inQuotes _ => inQuotes → quoted = true
  | .name inQuotes text => (inQuotes → quoted = true) ∧ Variables.isName text
  | .start | .word | .comment | .rejected => True

namespace State

/-- The words and the parts that have been read are normal. -/
structure IsNormal (s : State) : Prop where
  done : ∀ w ∈ s.done, w.IsNormal
  parts : NormalParts s.quoted s.parts
  fits : s.mode.Fits s.quoted

variable {s : State} {c : Char}

theorem IsNormal.enter (h : s.IsNormal) {mode : Mode} (hf : mode.Fits s.quoted) :
    (s.enter mode).IsNormal :=
  ⟨h.done, h.parts, hf⟩

theorem IsNormal.open (h : s.IsNormal) (mode : Mode) (hf : mode.Fits true) :
    IsNormal { s with mode, quoted := true } :=
  ⟨h.done, h.parts.of_quotes, hf⟩

theorem IsNormal.leave (h : s.IsNormal) {inQuotes : Bool} (hq : inQuotes → s.quoted = true) :
    (s.leave inQuotes).IsNormal := by
  cases inQuotes with
  | false => exact h.enter trivial
  | true => exact h.enter (hq rfl)

theorem IsNormal.literal (h : s.IsNormal) (hc : c ∉ WordPart.syntaxChars) :
    (s.literal c).IsNormal :=
  ⟨h.done, h.parts.addLiteral hc, h.fits⟩

theorem IsNormal.quote (h : s.IsNormal) (hc : s.quoted = false → c ≠ '\n') :
    (s.quote c).IsNormal :=
  ⟨h.done, h.parts.addQuoted hc, h.fits⟩

theorem IsNormal.parameter (h : s.IsNormal) {name : String} (hn : isParameterName name) :
    (s.parameter name).IsNormal :=
  ⟨h.done, h.parts.parameter hn, h.fits⟩

theorem IsNormal.plainDollar (h : s.IsNormal) (inQuotes : Bool) :
    (s.plainDollar inQuotes).IsNormal := by
  cases inQuotes with
  | false => exact h.literal (by decide)
  | true => exact h.quote fun _ => by decide

theorem IsNormal.current (h : s.IsNormal) (hp : s.current.isPresent) : s.current.IsNormal where
  present := by simpa [Word.isPresent, State.current] using hp
  parts := h.parts.reverse

theorem IsNormal.endWord (h : s.IsNormal) : s.endWord.IsNormal where
  done := by
    intro w hw
    simp only [State.endWord] at hw
    split at hw
    · next hp =>
      rcases List.mem_cons.mp hw with rfl | hw
      · exact h.current hp
      · exact h.done w hw
    · exact h.done w hw
  parts := .nil _
  fits := trivial

theorem IsNormal.stepWord (h : s.IsNormal) (c : Char) : (s.stepWord {} c).IsNormal := by
  unfold State.stepWord
  split_ifs with hd hs hq he hp
  · exact h.endWord
  · exact h.open _ rfl
  · exact h.open _ rfl
  · exact h.enter (by simp [Mode.Fits])
  · exact h.enter (by simp [Mode.Fits])
  · refine (h.literal ?_).enter trivial
    simp_all [WordPart.syntaxChars, isDelimiter]

theorem IsNormal.stepDouble (h : s.IsNormal) (hq : s.quoted = true) (c : Char) :
    (s.stepDouble {} c).IsNormal := by
  unfold State.stepDouble
  split_ifs
  · exact h.enter trivial
  · exact h.enter fun _ => hq
  · exact h.enter fun _ => hq
  · exact (h.quote (by simp [hq])).enter hq

theorem IsNormal.stepAfter (h : s.IsNormal) {inQuotes : Bool} (hq : inQuotes → s.quoted = true)
    (c : Char) : (s.stepAfter {} inQuotes c).IsNormal := by
  cases inQuotes with
  | false => exact h.stepWord c
  | true => exact h.stepDouble (hq rfl) c

theorem IsNormal.step (h : s.IsNormal) (c : Char) : (s.step {} c).IsNormal := by
  obtain ⟨mode, done, parts, quoted⟩ := s
  have hf := h.fits
  cases mode with
  | start =>
    simp only [State.step]
    split_ifs
    · exact h
    · exact h.enter trivial
    · exact h.stepWord c
  | word => exact h.stepWord c
  | single =>
    simp only [State.step]
    split_ifs
    · exact h.enter trivial
    · exact h.quote fun hq => absurd (hf.symm.trans hq) (by decide)
  | double => exact h.stepDouble hf c
  | comment => exact h
  | rejected => exact h
  | escape inQuotes =>
    cases inQuotes with
    | false =>
      simp only [State.step]
      split_ifs with hn
      · exact h.enter trivial
      · exact (h.quote fun _ => hn).enter trivial
    | true =>
      have hq : quoted = true := hf rfl
      simp only [State.step]
      split_ifs with hn
      · exact h.enter hq
      · exact (h.quote fun _ => hn).enter hq
      · exact (h.quote fun _ => by decide).stepDouble hq c
  | dollar inQuotes =>
    simp only [State.step]
    split_ifs with hb hp hs
    · exact h.enter hf
    · exact (h.parameter (isParameterName_singleton hp)).leave hf
    · exact h.enter ⟨hf, isName_singleton hs⟩
    · exact (h.plainDollar inQuotes).stepAfter (by cases inQuotes <;> exact hf) c
  | name inQuotes text =>
    simp only [State.step]
    split_ifs with hc
    · exact h.enter ⟨hf.1, isName_push hf.2 hc⟩
    · exact (h.parameter (isParameterName_of_isName hf.2)).stepAfter hf.1 c
  | brace inQuotes text =>
    simp only [State.step]
    split_ifs with hc hp
    · exact (h.parameter hp).leave hf
    · exact h.enter trivial
    · exact h.enter hf

theorem IsNormal.run (h : s.IsNormal) (cs : List Char) : (({} : Lexer).run s cs).IsNormal :=
  run_invariant (fun _ ht c _ => ht.step c) h

theorem isNormal_initial : ({} : State).IsNormal := ⟨by simp, .nil _, trivial⟩

theorem IsNormal.finish (h : s.IsNormal) {words : List Word} (hf : s.finish = .ok words) :
    ∀ w ∈ words, w.IsNormal := by
  have hend : ∀ {t : State}, t.IsNormal → ∀ w ∈ t.endWord.done.reverse, w.IsNormal :=
    fun ht w hw => ht.endWord.done w (List.mem_reverse.mp hw)
  obtain ⟨mode, done, parts, quoted⟩ := s
  have hm := h.fits
  cases mode with
  | start | comment => cases hf; exact fun w hw => h.done w (List.mem_reverse.mp hw)
  | word => cases hf; exact hend h
  | dollar inQuotes =>
    cases inQuotes with
    | false => cases hf; exact hend (h.plainDollar false)
    | true => cases hf
  | name inQuotes text =>
    cases inQuotes with
    | false => cases hf; exact hend (h.parameter (isParameterName_of_isName hm.2))
    | true => cases hf
  | escape inQuotes => cases inQuotes <;> cases hf
  | _ => cases hf

end State

/-- The default lexer gives normal words only. -/
theorem isNormal_of_split {text : String} {words : List Word}
    (h : ({} : Lexer).split text = .ok words) : ∀ w ∈ words, w.IsNormal :=
  (State.isNormal_initial.run text.toList).finish h

end Lexer

end CommandShell
