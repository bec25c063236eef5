import CommandShell.Proofs.Lexer.Scanning
import CommandShell.Proofs.LogicalLine.Gathering
import CommandShell.Proofs.Quoting

/-! # Line ends in quoted texts

Before every line end of a text in single quotes the quotes are open, so its lines are read as one
logical line. Quoting keeps the characters around a line end.
-/

namespace CommandShell.Quoting

open Lexer

section Lists

variable {α : Type} {x y : α} {as bs : List α}

theorem exists_append_of_not_mem {before after : List α} (h : x ∉ as)
    (heq : as ++ bs = before ++ x :: after) :
    ∃ rest, before = as ++ rest ∧ bs = rest ++ x :: after := by
  rcases List.append_eq_append_iff.mp heq with hrest | ⟨cs, rfl, hcs⟩
  · exact hrest
  · cases cs with
    | nil => exact ⟨[], by simp, hcs.symm⟩
    | cons c cs =>
      obtain ⟨rfl, -⟩ := List.cons.inj hcs
      exact absurd (by simp) h

theorem infix_of_not_mem (h : x ∉ as) (hi : [x, y] <:+: as ++ bs) : [x, y] <:+: bs := by
  induction as with
  | nil => exact hi
  | cons a as ih =>
    obtain ⟨ha, has⟩ : x ≠ a ∧ x ∉ as := by simpa using h
    rcases List.infix_cons_iff.mp hi with hp | hi
    · exact absurd (List.cons_prefix_cons.mp hp).1 ha
    · exact ih has hi

end Lists

theorem escapeQuotes_cons (c : Char) (cs : List Char) :
    escapeQuotes (c :: cs) = escapeQuotes [c] ++ escapeQuotes cs := by
  simp [escapeQuotes]

theorem not_mem_escapeQuotes {c d : Char} (hd : d ∉ ['\'', '\\']) (hc : c ≠ d) :
    d ∉ escapeQuotes [c] := by
  by_cases hq : c = '\'' <;> simp_all [escapeQuotes, eq_comm]

theorem isOpen_of_single {text : String} (h : (({} : Lexer).run {} text.toList).mode = .single) :
    ({} : Lexer).IsOpen text := by
  left
  rw [Scanner.scan_eq_ofMode separatesNames_default (by rw [h]; simp), h]
  rfl

/-- Before every line end of a value the quotes are open. -/
theorem mode_run_escapeQuotes {s : State} (hm : s.mode = .single) (hq : s.quoted) {cs : List Char}
    {before after : List Char} (h : escapeQuotes cs ++ ['\''] = before ++ '\n' :: after) :
    (({} : Lexer).run s before).mode = .single := by
  induction cs generalizing s before with
  | nil => cases before <;> simp [escapeQuotes] at h
  | cons c cs ih =>
    have hrun : ({} : Lexer).run s (escapeQuotes [c]) = s.quote c := run_escapeQuotes hm hq [c]
    rw [escapeQuotes_cons, List.append_assoc] at h
    have hnext : before = [] ∨ ∃ rest, before = escapeQuotes [c] ++ rest ∧
        escapeQuotes cs ++ ['\''] = rest ++ '\n' :: after := by
      by_cases hc : c = '\n'
      · subst hc
        cases before with
        | nil => exact .inl rfl
        | cons b before =>
          obtain ⟨rfl, hrest⟩ := List.cons.inj h
          exact .inr ⟨before, rfl, hrest⟩
      · exact .inr (exists_append_of_not_mem (not_mem_escapeQuotes (by decide) hc) h)
    rcases hnext with rfl | ⟨rest, rfl, hrest⟩
    · exact hm
    · rw [run_append, hrun]
      exact ih (s := s.quote c) hm hq hrest

theorem infix_of_infix_escapeQuotes {cs : List Char}
    (h : ['\r', '\n'] <:+: escapeQuotes cs ++ ['\'', '\n']) : ['\r', '\n'] <:+: cs := by
  induction cs with
  | nil => exact absurd h (by decide)
  | cons c cs ih =>
    rw [escapeQuotes_cons, List.append_assoc] at h
    by_cases hc : c = '\r'
    · subst hc
      rcases List.infix_cons_iff.mp h with hp | hi
      · have hnext : ['\n'] <+: escapeQuotes cs ++ ['\'', '\n'] :=
          (List.cons_prefix_cons.mp hp).2
        cases cs with
        | nil => exact absurd hnext (by decide)
        | cons d ds =>
          by_cases hd : d = '\''
          · simp [escapeQuotes, hd] at hnext
          · have hn : d = '\n' := by simpa [escapeQuotes, hd, eq_comm] using hnext
            subst hn
            exact ⟨[], ds, rfl⟩
      · exact (ih hi).trans (List.suffix_cons _ _).isInfix
    · have hi := infix_of_not_mem (not_mem_escapeQuotes (by decide) hc) h
      exact (ih hi).trans (List.suffix_cons _ _).isInfix

end CommandShell.Quoting
