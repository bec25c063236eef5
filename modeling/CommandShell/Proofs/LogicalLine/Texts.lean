import CommandShell.Proofs.LogicalLine.Blocks
import CommandShell.Proofs.Text.Lines

/-! # Reading texts back

A text that is open before each of its line ends, and nowhere else, is one logical line. Such texts,
each followed by a line end, are read back in order.
-/

namespace CommandShell

/-- The lines of a text are read as one logical line, and no more lines are. -/
structure Lexer.IsLogical (lexer : Lexer) (text : String) : Prop where
  open_before : ∀ before after, text = before ++ "\n" ++ after → lexer.IsOpen before
  closed : ¬ lexer.IsOpen text

/-- A line end after the text and those in it are of one character. One of two characters would lose
its first. -/
def KeepsLines (text : String) : Prop := ¬ ['\r', '\n'] <:+: text.toList ++ ['\n']

namespace Source

def lineEvents (cs : List Char) : List Event :=
  (Lines.all '\n' '\r' cs).map fun line => .line (String.ofList line)

theorem events_ofText (text : String) : (ofText text).events = lineEvents text.toList := by
  rw [ofText, events_ofBytes, physicalLines_encode]
  simp [lineEvents]

end Source

theorem joinLines_cons {lines : List String} (h : lines ≠ []) (line : String) :
    joinLines (line :: lines) = line ++ "\n" ++ joinLines lines := by
  obtain ⟨next, lines, rfl⟩ := List.exists_cons_of_ne_nil h
  simp [joinLines]

theorem toList_joinLines_ofList {lines : List (List Char)} (h : lines ≠ []) :
    (joinLines (lines.map String.ofList)).toList ++ ['\n'] = lines.flatMap (· ++ ['\n']) := by
  induction lines with
  | nil => exact absurd rfl h
  | cons line lines ih =>
    cases lines with
    | nil => simp
    | cons next lines =>
      rw [List.map_cons, joinLines_cons (by simp), String.toList_append, List.append_assoc,
        ih (by simp)]
      simp

theorem exists_lineEvents {text : String} (h : KeepsLines text) (cs : List Char) :
    ∃ block : List String, block ≠ [] ∧ joinLines block = text ∧
      Source.lineEvents (text.toList ++ ['\n'] ++ cs) =
        block.map .line ++ Source.lineEvents cs := by
  obtain ⟨lines, hne, heq, hlines⟩ := Lines.exists_flatMap_eq '\n' text.toList
  have hcr : ∀ line ∈ lines, line.getLast? ≠ some '\r' := by
    apply Lines.getLast?_ne_of_mem
    rw [heq]
    exact h
  refine ⟨lines.map String.ofList, by simpa using hne, ?_, ?_⟩
  · have hjoin := (toList_joinLines_ofList hne).trans heq
    simpa [← String.toList_inj] using hjoin
  · rw [← heq, Source.lineEvents,
      Lines.all_flatMap_append fun line hline => ⟨hlines line hline, hcr line hline⟩]
    simp [Source.lineEvents]

namespace LogicalLine

variable {lexer : Lexer} {text : String}

theorem read_of_isLogical (h : lexer.IsLogical text) {block : List String} (hne : block ≠ [])
    (hb : joinLines block = text) (es : List Event) :
    (read lexer (block.map .line ++ es)).result = ofText lexer text ∧
      (read lexer (block.map .line ++ es)).rest = es := by
  obtain ⟨line, more, rfl⟩ := List.exists_cons_of_ne_nil hne
  clear hne
  induction more generalizing line with
  | nil =>
    rw [joinLines_singleton] at hb
    subst hb
    have hn : lexer.openIn? line = none := Lexer.openIn?_eq_none_iff.mpr h.closed
    rw [List.map_singleton, List.singleton_append, read_complete hn]
    exact ⟨rfl, rfl⟩
  | cons next more ih =>
    have ho : lexer.IsOpen line :=
      h.open_before line (joinLines (next :: more)) (by rw [← hb, joinLines_cons (by simp)])
    cases hopen : lexer.openIn? line with
    | none => exact absurd ho (Lexer.openIn?_eq_none_iff.mp hopen)
    | some error =>
      rw [List.map_cons, List.map_cons, List.cons_append, List.cons_append, read_continued hopen]
      exact ih (line ++ "\n" ++ next) (by rw [← joinLines_cons_cons, hb])

end LogicalLine

namespace LineReader

open LogicalLine Source

/-- Texts that are each a logical line are read back. -/
theorem readAll_texts (prompt : String) (r : LineReader) {texts : List String}
    (h : ∀ text ∈ texts, r.lexer.IsLogical text ∧ KeepsLines text)
    (hr : r.source.events = lineEvents (texts.flatMap fun text => text.toList ++ ['\n'])) :
    (readAll prompt r).map Prod.fst = texts.map (ofText r.lexer) := by
  induction texts generalizing r with
  | nil =>
    have hend : (r.next prompt).result = .endOfInput := by
      rw [next, hr]
      rfl
    rw [readAll, dif_pos hend]
    rfl
  | cons text texts ih =>
    obtain ⟨⟨hl, hk⟩, h⟩ := List.forall_mem_cons.mp h
    obtain ⟨block, hne, hb, hevents⟩ :=
      exists_lineEvents hk (texts.flatMap fun text => text.toList ++ ['\n'])
    rw [List.flatMap_cons, hevents] at hr
    obtain ⟨hresult, hrest⟩ := read_of_isLogical hl hne hb
      (lineEvents (texts.flatMap fun text => text.toList ++ ['\n']))
    rw [← hr] at hresult hrest
    have hfirst : (r.next prompt).result = ofText r.lexer text := hresult
    have hgoes : (r.next prompt).result ≠ .endOfInput := by
      rw [hfirst]
      exact ofText_ne_endOfInput r.lexer text
    rw [readAll, dif_neg hgoes, List.map_cons, List.map_cons, hfirst]
    exact congrArg (_ :: ·) (ih (r.next prompt).reader h hrest)

end LineReader

end CommandShell
