import CommandShell.Lexer.Basic

/-! # Characters of names

What a name of a variable or a parameter is made of, and the delimiters that keep out of names.
-/

namespace CommandShell

theorem isNameChar_of_isDigit {c : Char} (h : c.isDigit) : Variables.isNameChar c := by
  simp [Variables.isNameChar, Char.isAlphanum, h]

theorem isNameChar_of_isNameStart {c : Char} (h : Lexer.isNameStart c) :
    Variables.isNameChar c := by
  simp only [Lexer.isNameStart, Variables.isNameChar, Char.isAlphanum, Bool.or_eq_true] at h ⊢
  exact h.imp_left .inl

theorem isDigit_of_isNameStart {c : Char} (h : Lexer.isNameStart c) : c.isDigit = false := by
  refine Bool.eq_false_iff.mpr fun hd => ?_
  rcases Bool.or_eq_true_iff.mp h with h | h
  · delta Char.isAlpha Char.isUpper Char.isLower at h
    simp only [Char.isDigit, Bool.or_eq_true, Bool.and_eq_true, decide_eq_true_eq,
      UInt32.le_iff_toNat_le, ge_iff_le, Char.reduceVal, UInt32.reduceToNat] at h hd
    omega
  · cases beq_iff_eq.mp h
    cases hd

theorem isNameStart_of_isName {s : String} (h : Variables.isName s) {c : Char} {cs : List Char}
    (hs : s.toList = c :: cs) : Lexer.isNameStart c := by
  simp only [Variables.isName, hs, Bool.and_eq_true] at h
  exact h.1

theorem isNameChar_of_mem_isName {s : String} (h : Variables.isName s) {c : Char}
    (hc : c ∈ s.toList) : Variables.isNameChar c := by
  cases hs : s.toList with
  | nil => simp [hs] at hc
  | cons d ds =>
    simp only [Variables.isName, hs, Bool.and_eq_true, List.all_eq_true] at h
    rcases List.mem_cons.mp (hs ▸ hc) with rfl | hc
    · exact isNameChar_of_isNameStart h.1
    · exact h.2 c hc

theorem not_mem_of_isName {s : String} (h : Variables.isName s) {c : Char}
    (hc : Variables.isNameChar c = false) : c ∉ s.toList := by
  intro hm
  rw [isNameChar_of_mem_isName h hm] at hc
  cases hc

theorem isSpecialParameter_or_isNameChar {s : String} (h : isParameterName s) {c : Char}
    (hc : c ∈ s.toList) : isSpecialParameter c ∨ Variables.isNameChar c := by
  cases hs : s.toList with
  | nil => simp [hs] at hc
  | cons d ds =>
    rw [hs] at hc
    simp only [isParameterName, hs, Bool.or_eq_true, Bool.and_eq_true, List.isEmpty_iff,
      List.all_eq_true] at h
    rcases h with (⟨hd, rfl⟩ | h) | h
    · left
      rwa [List.mem_singleton.mp hc]
    · exact .inr (isNameChar_of_isDigit (h c hc))
    · exact .inr (isNameChar_of_mem_isName h (hs ▸ hc))

section Build

variable {c : Char} {name : String}

theorem isParameterName_of_isName (h : Variables.isName name) : isParameterName name := by
  cases hs : name.toList with
  | nil => simp [Variables.isName, hs] at h
  | cons c cs => simp [isParameterName, hs, h]

theorem isParameterName_singleton (h : isSpecialParameter c || c.isDigit) :
    isParameterName (String.singleton c) := by
  rcases Bool.or_eq_true_iff.mp h with h | h <;> simp [isParameterName, h]

theorem isName_singleton (h : Lexer.isNameStart c) : Variables.isName (String.singleton c) := by
  simpa [Variables.isName, Lexer.isNameStart] using h

theorem isName_push (h : Variables.isName name) (hc : Variables.isNameChar c) :
    Variables.isName (name.push c) := by
  cases hs : name.toList with
  | nil => simp [Variables.isName, hs] at h
  | cons d ds =>
    simp only [Variables.isName, hs] at h
    simpa [Variables.isName, hs, hc] using h

end Build

namespace Lexer

/-- No delimiter is a character of a name. -/
def SeparatesNames (lexer : Lexer) : Prop :=
  ∀ c ∈ lexer.delimiters, Variables.isNameChar c = false

instance (lexer : Lexer) : Decidable lexer.SeparatesNames :=
  decidable_of_iff (lexer.delimiters.all fun c => !Variables.isNameChar c)
    (by simp [SeparatesNames])

theorem separatesNames_default : ({} : Lexer).SeparatesNames := by decide

theorem SeparatesNames.isDelimiter {lexer : Lexer} (h : lexer.SeparatesNames) {c : Char}
    (hc : Variables.isNameChar c) : lexer.isDelimiter c = false := by
  refine Bool.eq_false_iff.mpr fun hd => ?_
  have hm : c ∈ lexer.delimiters := by simpa [Lexer.isDelimiter] using hd
  simp [h c hm] at hc

end Lexer

end CommandShell
