import CommandShell.Proofs.LogicalLine.Blocks
import CommandShell.Proofs.LogicalLine.Lookahead

/-! # The last logical line

The logical lines before the last one are those of the physical lines before it. A last line that
the input ends inside quotes is invalid as a whole.
-/

namespace CommandShell

namespace LogicalLine

open Lexer

variable {lexer : Lexer}

theorem openIn?_of_ofText {text t : String} (ht : (ofText lexer text).text? = some t)
    (hn : lexer.openIn? text = none) : (lexer.scan t).pending ≠ some .unfinishedQuote := by
  rw [text?_ofText] at ht
  cases ht
  exact fun hq => openIn?_eq_none_iff.mp hn (.inl hq)

theorem invalid_of_ofOpenText {text t : String} {error : LexError}
    (ho : lexer.openIn? text = some error) (ht : (ofOpenText lexer text error).text? = some t)
    (hq : (lexer.scan t).pending = some .unfinishedQuote) :
    ofOpenText lexer text error = .invalid t .unfinishedQuote := by
  obtain ⟨hp, hm⟩ := openIn?_eq_some_iff.mp ho
  cases error with
  | unfinishedQuote =>
    cases ht
    rfl
  | trailingEscape =>
    obtain ⟨start, rfl, hstart⟩ := exists_of_pending_escape hp
    rw [ofOpenText_escape] at ht
    have hn : lexer.openIn? start = none := by rw [openIn?, hstart]; rfl
    exact absurd hq (openIn?_of_ofText ht hn)
  | badSubstitution => cases hm

theorem Stop.invalid_of_openQuote {text t : String} {es rest : List Event} {l : LogicalLine}
    (h : Stop lexer text es l rest) (ht : l.text? = some t)
    (hq : (lexer.scan t).pending = some .unfinishedQuote) : l = .invalid t .unfinishedQuote := by
  cases h with
  | complete hn => exact absurd hq (openIn?_of_ofText ht hn)
  | exhausted ho => exact invalid_of_ofOpenText ho ht hq
  | ended ho => exact invalid_of_ofOpenText ho ht hq
  | failed => cases ht

theorem read_invalid_of_openQuote {t : String} {es : List Event}
    (ht : (read lexer es).result.text? = some t)
    (hq : (lexer.scan t).pending = some .unfinishedQuote) :
    (read lexer es).result = .invalid t .unfinishedQuote := by
  match es with
  | [] => cases ht
  | .line text :: es =>
    obtain ⟨more, rest, hg⟩ := exists_gathers lexer text es
    exact hg.stop.invalid_of_openQuote ht hq
  | .endOfInput :: es => cases ht
  | .failure error :: es => cases ht

theorem Gathers.continued_of_closed {es rest : List Event} {block : List String} {r : Reading}
    (h : Gathers lexer es block rest r) (hn : lexer.openIn? (joinLines block) = none) :
    r.continued + 1 = block.length := by
  simpa [hn] using h.continued_eq

end LogicalLine

namespace LineReader

open LogicalLine

theorem invalid_of_mem_readAll (prompt : String) (r : LineReader) {a : LogicalLine × Nat}
    (h : a ∈ readAll prompt r) {t : String} (ht : a.1.text? = some t)
    (hq : (r.lexer.scan t).pending = some .unfinishedQuote) :
    a.1 = .invalid t .unfinishedQuote := by
  fun_induction readAll prompt r with
  | case1 => cases h
  | case2 r answer hne =>
    rename_i ih
    rcases List.mem_cons.mp h with rfl | h
    · exact read_invalid_of_openQuote ht hq
    · exact ih h hq

theorem readAll_nil (prompt : String) {r : LineReader} (hr : r.source.events = []) :
    readAll prompt r = [] := by
  rw [readAll, dif_pos (by simp [next, hr, LogicalLine.read])]

theorem next_of_closed (prompt : String) {r : LineReader} {block following : List String}
    (hr : r.source.events = (block ++ following).map .line)
    (hc : (LogicalLine.read r.lexer r.source.events).continued + 1 = block.length)
    (following' : List String) :
    (r.withEvents ((block ++ following').map .line)).next prompt =
      { r.next prompt with
        reader := (r.next prompt).reader.withEvents (following'.map .line) } := by
  have hself : r.withEvents (block.map .line ++ following.map .line) = r := by
    rw [← List.map_append, ← hr]
    rfl
  have hprompts : (r.next prompt).prompts.length = (block.map Event.line).length := by
    simp [next, hc]
  have hnext := next_append (by rw [hself]; exact Nat.le_of_eq hprompts) (following'.map .line)
  simp only [hself, hprompts, List.drop_length, List.nil_append] at hnext
  rw [List.map_append, hnext]

/-- The lines before the last one are read from the physical lines before it. -/
theorem exists_readAll_take (prompt : String) (r : LineReader) {lines : List String}
    (hr : r.source.events = lines.map .line) {answers : List (LogicalLine × Nat)}
    {last : LogicalLine} {start : Nat} (h : readAll prompt r = answers ++ [(last, start)]) :
    ∃ n, start = r.linesRead + n + 1 ∧
      readAll prompt (r.withEvents ((lines.take n).map .line)) = answers := by
  fun_induction readAll prompt r generalizing lines answers with
  | case1 r => simp at h
  | case2 r answer hne =>
    rename_i ih
    cases lines with
    | nil => exact absurd (by simp [answer, next, hr, LogicalLine.read]) hne
    | cons line lines =>
      obtain ⟨more, rest, hg⟩ := exists_gathers r.lexer line (lines.map .line)
      rw [← List.map_cons] at hg
      obtain ⟨following, hlines, hrest, hclosed⟩ := hg.exists_following
      have hcount := hg.count_eq
      rw [← hr] at hrest hcount
      have hstart : answer.reader.startLine = r.linesRead + 1 := by simp [answer, next, hcount]
      cases answers with
      | nil =>
        obtain ⟨hlast, -⟩ := List.cons.inj h
        exact ⟨0, (congrArg Prod.snd hlast).symm.trans hstart, readAll_nil prompt rfl⟩
      | cons a answers =>
        obtain ⟨rfl, hmore⟩ := List.cons.inj h
        obtain ⟨n, hn, htake⟩ := ih hrest hmore
        have hread : answer.reader.linesRead = r.linesRead + (line :: more).length :=
          congrArg (r.linesRead + ·) hcount
        refine ⟨(line :: more).length + n, by omega, ?_⟩
        rcases hclosed with ⟨hopen, -⟩ | ⟨error, -, rfl, -⟩
        · have hcontinued := hg.continued_of_closed hopen
          rw [← hr] at hcontinued
          have hnext := next_of_closed prompt (hlines ▸ hr) hcontinued (following.take n)
          rw [hlines, List.take_length_add_append, readAll, hnext, dif_neg hne, htake]
          rfl
        · -- Nothing is read after a line that is left open.
          rw [readAll_nil prompt hrest] at hmore
          simp at hmore

end LineReader

end CommandShell
