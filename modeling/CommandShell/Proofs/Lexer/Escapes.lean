import CommandShell.Proofs.Lexer.Scanning

/-! # Escapes at the end of a text

A scanner reports an open escape only right after a backslash, and only where nothing else is open
without it.
-/

namespace CommandShell

namespace Scanner

variable {lexer : Lexer}

theorem pending_stepAt_escape {place : Place} {c : Char}
    (h : (stepAt lexer place c).pending = some .trailingEscape) :
    c = '\\' ∧ (place = .start ∨ place = .word) := by
  cases place with
  | comment => simp [stepAt, pending] at h
  | dollar inQuotes => cases inQuotes <;> simp [stepAt, pending] at h
  | brace inQuotes =>
    simp only [stepAt] at h
    cases inQuotes <;> split_ifs at h <;> simp [pending, Place.outside] at h
  | _ =>
    simp only [stepAt] at h
    split_ifs at h <;> simp_all [pending]

theorem pending_ne_escape (place : Place) :
    ({ place } : Scanner).pending ≠ some .trailingEscape := by
  cases place with
  | dollar inQuotes => cases inQuotes <;> simp [pending]
  | _ => simp [pending]

theorem pending_step_ne_escape {place : Place} {c : Char} :
    (step lexer { place, escaped := true } c).pending ≠ some .trailingEscape := by
  intro h
  by_cases ht : takesEscape place c
  · simp only [step, ht, Bool.and_self, if_true] at h
    exact pending_ne_escape place h
  · -- Only inside double quotes can a backslash quote nothing; there the quotes are open.
    have hd : place = .double := by
      cases place <;> simp_all [takesEscape]
    subst hd
    simp only [step, ht, Bool.and_false, Bool.false_eq_true, if_false] at h
    rcases (pending_stepAt_escape h).2 with hp | hp <;> cases hp

theorem pending_step_escape {s : Scanner} {c : Char}
    (h : (s.step lexer c).pending = some .trailingEscape) : c = '\\' ∧ s.pending = none := by
  obtain ⟨place, _ | _⟩ := s
  · by_cases hd : ∃ inQuotes, place = .dollar inQuotes
    · obtain ⟨inQuotes, rfl⟩ := hd
      rw [step_dollar] at h
      split_ifs at h
      · exact absurd h (pending_ne_escape _)
      · exact absurd h (pending_ne_escape _)
      · obtain ⟨hc, hp⟩ := pending_stepAt_escape h
        cases inQuotes with
        | false => exact ⟨hc, rfl⟩
        | true => rcases hp with hp | hp <;> cases hp
    · rw [step_unescaped fun inQuotes hp => hd ⟨inQuotes, hp⟩] at h
      obtain ⟨hc, rfl | rfl⟩ := pending_stepAt_escape h <;> exact ⟨hc, rfl⟩
  · exact absurd h pending_step_ne_escape

end Scanner

namespace Lexer

variable {lexer : Lexer}

/-- A text that ends in an open escape is a backslash after a text that leaves nothing open. -/
theorem exists_of_pending_escape {text : String}
    (h : (lexer.scan text).pending = some .trailingEscape) :
    ∃ start, text = start ++ "\\" ∧ (lexer.scan start).pending = none := by
  rcases List.eq_nil_or_concat text.toList with ht | ⟨cs, c, ht⟩
  · simp [scan, Scanner.feed, ht, Scanner.pending] at h
  · simp only [scan, Scanner.feed, ht, List.concat_eq_append, List.foldl_append, List.foldl_cons,
      List.foldl_nil] at h
    obtain ⟨rfl, hp⟩ := Scanner.pending_step_escape h
    refine ⟨String.ofList cs, ?_, ?_⟩
    · simp [← String.toList_inj, ht]
    · simpa [scan, Scanner.feed] using hp

end Lexer

end CommandShell
