import CommandShell.Proofs.LogicalLine.Blocks

/-! # The end of the input

What the lines of a finite input leave open when they end. Unless it is a quote, each logical line
of the input is what splitting its text gives.
-/

namespace CommandShell

namespace LogicalLine

open Lexer

/-- What the scanner of a logical line finds open when the input ends. It starts anew with the line
after a text that is complete. -/
def pendingAtEnd (lexer : Lexer) (scanner : Scanner) : List String → Option LexError
  | [] => scanner.pending
  | next :: lines =>
    if (scanner.pending.filter LexError.needsMore).isSome then
      pendingAtEnd lexer ((scanner.feed lexer "\n").feed lexer next) lines
    else pendingAtEnd lexer (({} : Scanner).feed lexer next) lines

variable {lexer : Lexer}

theorem pendingAtEnd_of_isOpen {text : String} (h : lexer.IsOpen text) (next : String)
    (lines : List String) :
    pendingAtEnd lexer (lexer.scan text) (next :: lines) =
      pendingAtEnd lexer (lexer.scan (text ++ "\n" ++ next)) lines := by
  have ho : (lexer.openIn? text).isSome := by
    rw [Option.isSome_iff_ne_none]
    exact fun hn => openIn?_eq_none_iff.mp hn h
  rw [openIn?] at ho
  rw [pendingAtEnd, if_pos ho]
  simp [scan, Scanner.feed_append]

theorem pendingAtEnd_of_not_isOpen {text : String} (h : ¬ lexer.IsOpen text) {lines : List String}
    (hl : lines ≠ []) :
    pendingAtEnd lexer (lexer.scan text) lines = pendingAtEnd lexer {} lines := by
  have ho : (lexer.scan text).pending.filter LexError.needsMore = none := openIn?_eq_none_iff.mpr h
  cases lines with
  | nil => exact absurd rfl hl
  | cons next lines =>
    rw [pendingAtEnd, pendingAtEnd, ho]
    rfl

theorem pendingAtEnd_append {text : String} {more : List String} (following : List String)
    (ho : ∀ n, n < more.length → lexer.IsOpen (joinLines (text :: more.take n))) :
    pendingAtEnd lexer (lexer.scan text) (more ++ following) =
      pendingAtEnd lexer (lexer.scan (joinLines (text :: more))) following := by
  induction more generalizing text with
  | nil => simp
  | cons next more ih =>
    have ht : lexer.IsOpen text := by simpa using ho 0 (by simp)
    rw [List.cons_append, pendingAtEnd_of_isOpen ht, joinLines_cons_cons]
    refine ih fun n hn => ?_
    simpa [joinLines_cons_cons] using ho (n + 1) (by simpa using hn)

theorem Gathers.pendingAtEnd_eq {es rest : List Event} {block following : List String} {r : Reading}
    (h : Gathers lexer es block rest r) :
    pendingAtEnd lexer {} (block ++ following) =
      pendingAtEnd lexer (lexer.scan (joinLines block)) following := by
  cases block with
  | nil => exact absurd rfl h.block_ne_nil
  | cons text more =>
    refine pendingAtEnd_append following fun n hn => ?_
    simpa using h.open_before (n + 1) (by simp) (by simpa using hn)

/-- Unless the input ends inside quotes, a logical line is what its text is. -/
theorem Gathers.exists_ofText {lines block : List String} {rest : List Event} {r : Reading}
    (h : Gathers lexer (lines.map .line) block rest r)
    (hq : pendingAtEnd lexer {} lines ≠ some .unfinishedQuote) :
    ∃ following, r.rest = following.map Event.line ∧
      pendingAtEnd lexer {} following ≠ some .unfinishedQuote ∧
      ∃ text, r.result = ofText lexer text := by
  obtain ⟨following, rfl, hrest, ⟨hn, hl⟩ | ⟨error, ho, rfl, hl⟩⟩ := h.exists_following
  all_goals rw [h.pendingAtEnd_eq] at hq
  · refine ⟨following, hrest, ?_, _, hl⟩
    by_cases hf : following = []
    · simp [hf, pendingAtEnd, Scanner.pending]
    · rwa [pendingAtEnd_of_not_isOpen (openIn?_eq_none_iff.mp hn) hf] at hq
  · refine ⟨[], hrest, by simp [pendingAtEnd, Scanner.pending], ?_⟩
    obtain ⟨hp, hm⟩ := openIn?_eq_some_iff.mp ho
    cases error with
    | unfinishedQuote => exact absurd hp hq
    | trailingEscape => exact ⟨_, hl⟩
    | badSubstitution => cases hm

end LogicalLine

namespace LineReader

open LogicalLine

theorem exists_ofText_of_mem_readAll (prompt : String) (r : LineReader) {lines : List String}
    (hr : r.source.events = lines.map .line)
    (hq : pendingAtEnd r.lexer {} lines ≠ some .unfinishedQuote) :
    ∀ a ∈ readAll prompt r, ∃ text, a.1 = ofText r.lexer text := by
  fun_induction readAll prompt r generalizing lines with
  | case1 => simp
  | case2 r answer hne =>
    rename_i ih
    cases lines with
    | nil => exact absurd (by simp [answer, next, hr, LogicalLine.read]) hne
    | cons line lines =>
      obtain ⟨more, rest, hg⟩ := exists_gathers r.lexer line (lines.map .line)
      obtain ⟨following, hrest, hf, text, hl⟩ := Gathers.exists_ofText hg hq
      rw [← List.map_cons, ← hr] at hrest hl
      rw [List.forall_mem_cons]
      exact ⟨⟨text, hl⟩, ih hrest hf⟩

end LineReader

end CommandShell
