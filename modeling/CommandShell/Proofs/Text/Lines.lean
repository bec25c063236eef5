import CommandShell.Proofs.Text.Decoding
import CommandShell.Source

/-! # Lines of a text

The lines of a text that ends each of its lines are those lines. Bytes have the lines of the text
that they are decoded to, since neither a character nor a broken part takes up a line end or a
carriage return.
-/

namespace CommandShell

namespace Lines

variable {α : Type} [DecidableEq α] {lineEnd cr : α}

/-- Puts text in front of the first line. -/
def prepend (as : List α) : List (List α) × List α → List (List α) × List α
  | ([], rest) => ([], as ++ rest)
  | (line :: lines, rest) => ((as ++ line) :: lines, rest)

theorem cut_lineEnd (as : List α) :
    cut lineEnd (lineEnd :: as) = ([] :: (cut lineEnd as).1, (cut lineEnd as).2) := by
  simp [cut]

theorem cut_cons {a : α} (h : a ≠ lineEnd) (as : List α) :
    cut lineEnd (a :: as) = prepend [a] (cut lineEnd as) := by
  rw [cut]
  rcases cut lineEnd as with ⟨_ | ⟨line, lines⟩, rest⟩ <;> simp [h, prepend]

omit [DecidableEq α] in
theorem prepend_append (as bs : List α) (lines : List (List α) × List α) :
    prepend (as ++ bs) lines = prepend as (prepend bs lines) := by
  rcases lines with ⟨_ | ⟨line, lines⟩, rest⟩ <;> simp [prepend]

theorem cut_append {as : List α} (h : lineEnd ∉ as) (bs : List α) :
    cut lineEnd (as ++ bs) = prepend as (cut lineEnd bs) := by
  induction as with
  | nil => rcases hc : cut lineEnd bs with ⟨_ | ⟨line, lines⟩, rest⟩ <;> simp [hc, prepend]
  | cons a as ih =>
    obtain ⟨ha, has⟩ : lineEnd ≠ a ∧ lineEnd ∉ as := by simpa using h
    rw [List.cons_append, cut_cons ha.symm, ih has, ← prepend_append, List.singleton_append]

theorem all_eq (as : List α) :
    all lineEnd cr as = (cut lineEnd as).1.map (dropReturn cr) ++
      if (cut lineEnd as).2 = [] then [] else [(cut lineEnd as).2] := by
  by_cases h : (cut lineEnd as).2 = [] <;> simp [all, completed, h]

theorem all_append_lineEnd {line : List α} (h : lineEnd ∉ line) (as : List α) :
    all lineEnd cr (line ++ lineEnd :: as) = dropReturn cr line :: all lineEnd cr as := by
  have hc : cut lineEnd (line ++ lineEnd :: as) =
      (line :: (cut lineEnd as).1, (cut lineEnd as).2) := by
    rw [cut_append h, cut_lineEnd, prepend, List.append_nil]
  rw [all_eq, all_eq, hc]
  rfl

theorem all_flatMap_append {lines : List (List α)}
    (h : ∀ line ∈ lines, lineEnd ∉ line ∧ line.getLast? ≠ some cr) (as : List α) :
    all lineEnd cr (lines.flatMap (· ++ [lineEnd]) ++ as) = lines ++ all lineEnd cr as := by
  induction lines with
  | nil => rfl
  | cons line lines ih =>
    obtain ⟨⟨hl, hr⟩, h⟩ := List.forall_mem_cons.mp h
    rw [List.flatMap_cons, List.append_assoc, List.append_assoc, List.singleton_append,
      all_append_lineEnd hl, ih h, dropReturn, if_neg hr, List.cons_append]

theorem exists_flatMap_eq (lineEnd : α) (as : List α) :
    ∃ lines : List (List α), lines ≠ [] ∧ lines.flatMap (· ++ [lineEnd]) = as ++ [lineEnd] ∧
      ∀ line ∈ lines, lineEnd ∉ line := by
  induction as with
  | nil => exact ⟨[[]], by simp, by simp, by simp⟩
  | cons a as ih =>
    obtain ⟨lines, hne, heq, hl⟩ := ih
    by_cases ha : a = lineEnd
    · refine ⟨[] :: lines, by simp, ?_, List.forall_mem_cons.mpr ⟨by simp, hl⟩⟩
      rw [List.flatMap_cons, heq, ha]
      rfl
    · obtain ⟨line, lines, rfl⟩ := List.exists_cons_of_ne_nil hne
      rw [List.forall_mem_cons] at hl
      refine ⟨(a :: line) :: lines, by simp, ?_, List.forall_mem_cons.mpr ⟨?_, hl.2⟩⟩
      · rw [List.cons_append, ← heq]
        rfl
      · simp [hl.1, Ne.symm ha]

theorem cut_eq_splitOn (as : List α) :
    (cut lineEnd as).1 ++ [(cut lineEnd as).2] = as.splitOn lineEnd := by
  induction as with
  | nil => rfl
  | cons a as ih =>
    rw [List.splitOn_cons_eq_if_modifyHead, ← ih]
    by_cases h : a = lineEnd
    · subst h
      simp [cut_lineEnd]
    · rw [cut_cons h]
      rcases cut lineEnd as with ⟨_ | ⟨line, lines⟩, rest⟩ <;> simp [prepend, h]

theorem all_eq_splitOn (as : List α) :
    all lineEnd cr as = (as.splitOn lineEnd).dropLast.map (dropReturn cr) ++
      (as.splitOn lineEnd).getLast?.toList.filter (· ≠ []) := by
  rw [all_eq, ← cut_eq_splitOn, List.dropLast_concat, List.getLast?_concat]
  by_cases h : (cut lineEnd as).2 = [] <;> simp [h]

/-- The first lines, each with its line end. -/
def takeLines (lineEnd : α) : Nat → List α → List α
  | 0, _ => []
  | _ + 1, [] => []
  | n + 1, a :: as =>
    a :: if a = lineEnd then takeLines lineEnd n as else takeLines lineEnd (n + 1) as

theorem takeLines_append_lineEnd {line : List α} (h : lineEnd ∉ line) (n : Nat) (as : List α) :
    takeLines lineEnd (n + 1) (line ++ lineEnd :: as) =
      line ++ lineEnd :: takeLines lineEnd n as := by
  induction line with
  | nil => simp [takeLines]
  | cons a line ih =>
    obtain ⟨ha, hl⟩ : lineEnd ≠ a ∧ lineEnd ∉ line := by simpa using h
    rw [List.cons_append, takeLines, if_neg ha.symm, ih hl, List.cons_append]

theorem takeLines_of_notMem {as : List α} (h : lineEnd ∉ as) (n : Nat) :
    takeLines lineEnd (n + 1) as = as := by
  induction as with
  | nil => rfl
  | cons a as ih =>
    obtain ⟨ha, has⟩ : lineEnd ≠ a ∧ lineEnd ∉ as := by simpa using h
    rw [takeLines, if_neg ha.symm, ih has]

theorem all_of_notMem {as : List α} (h : lineEnd ∉ as) (cr : α) :
    all lineEnd cr as = if as = [] then [] else [as] := by
  have hc : cut lineEnd as = ([], as) := by
    rw [← List.append_nil as, cut_append h]
    rfl
  rw [all_eq, hc]
  rfl

theorem length_all_of_notMem {as : List α} (h : lineEnd ∉ as) (cr : α) :
    (all lineEnd cr as).length ≤ 1 := by
  rw [all_of_notMem h]
  split <;> simp

theorem all_takeLines (n : Nat) (as : List α) :
    all lineEnd cr (takeLines lineEnd n as) = (all lineEnd cr as).take n := by
  induction n generalizing as with
  | zero => simp [takeLines, all, completed, cut]
  | succ n ih =>
    by_cases h : lineEnd ∈ as
    · obtain ⟨line, as, rfl, hl⟩ := List.eq_append_cons_of_mem h
      rw [takeLines_append_lineEnd hl, all_append_lineEnd hl, all_append_lineEnd hl, ih,
        List.take_succ_cons]
    · have hlength := length_all_of_notMem h cr
      rw [takeLines_of_notMem h, List.take_of_length_le (by omega)]

omit [DecidableEq α] in
/-- A line of a text ends in a carriage return only where the text has both line end characters. -/
theorem getLast?_ne_of_mem {lines : List (List α)}
    (h : ¬ [cr, lineEnd] <:+: lines.flatMap (· ++ [lineEnd])) :
    ∀ line ∈ lines, line.getLast? ≠ some cr := by
  intro line hl hr
  obtain ⟨start, rfl⟩ := List.getLast?_eq_some_iff.mp hr
  obtain ⟨before, after, rfl⟩ := List.append_of_mem hl
  refine h ⟨before.flatMap (· ++ [lineEnd]) ++ start, after.flatMap (· ++ [lineEnd]), ?_⟩
  simp

end Lines

namespace Utf8

open Lines Source

theorem decodeChars_nil : decodeChars [] = [] := by
  rw [decodeChars, pieces, List.map_nil]

theorem decodeChars_ne_nil {bs : List UInt8} (h : bs ≠ []) : decodeChars bs ≠ [] := by
  obtain ⟨b, bs, rfl⟩ := List.exists_cons_of_ne_nil h
  rw [decodeChars, pieces]
  exact List.cons_ne_nil _ _

theorem decodeChars_dropReturn (line : List UInt8) :
    decodeChars (dropReturn carriageReturn line) = dropReturn '\r' (decodeChars line) := by
  have happend : ∀ as bs, decodeChars (as ++ carriageReturn :: bs) =
      decodeChars as ++ '\r' :: decodeChars bs :=
    decodeChars_append_ascii (d := '\r') (by decide)
  by_cases hlast : line.getLast? = some carriageReturn
  · obtain ⟨start, rfl⟩ := List.getLast?_eq_some_iff.mp hlast
    rw [happend, decodeChars_nil]
    simp [dropReturn]
  · have hdecoded : (decodeChars line).getLast? ≠ some '\r' := by
      intro hr
      have hmem : carriageReturn ∈ line.reverse :=
        List.mem_reverse.mpr (mem_of_mem_decodeChars (by decide) (List.mem_of_getLast? hr))
      obtain ⟨after, before, heq, hafter⟩ := List.eq_append_cons_of_mem hmem
      obtain rfl : line = before.reverse ++ carriageReturn :: after.reverse := by
        rw [← List.reverse_reverse line, heq]
        simp
      have hne : after.reverse ≠ [] := fun h => hlast (by simp [h])
      obtain ⟨c, cs, hcs⟩ := List.exists_cons_of_ne_nil (decodeChars_ne_nil hne)
      rw [happend, hcs, List.getLast?_append_cons, List.getLast?_cons_cons, ← hcs] at hr
      have hbyte := mem_of_mem_decodeChars (by decide) (List.mem_of_getLast? hr)
      exact hafter (List.mem_reverse.mp hbyte)
    rw [dropReturn, dropReturn, if_neg hlast, if_neg hdecoded]

/-- The lines of the decoded text are the decoded lines. -/
theorem all_decodeChars (bs : List UInt8) :
    Lines.all '\n' '\r' (decodeChars bs) =
      (Lines.all lineFeed carriageReturn bs).map decodeChars := by
  have hmem : ∀ {line}, lineFeed ∉ line → '\n' ∉ decodeChars line := fun hl h =>
    hl (mem_of_mem_decodeChars (by decide) h)
  by_cases h : lineFeed ∈ bs
  · obtain ⟨line, rest, rfl, hl⟩ := List.eq_append_cons_of_mem h
    have happend : decodeChars (line ++ lineFeed :: rest) =
        decodeChars line ++ '\n' :: decodeChars rest :=
      decodeChars_append_ascii (d := '\n') (by decide) line rest
    have hshorter : rest.length < (line ++ lineFeed :: rest).length := by
      rw [List.length_append, List.length_cons]
      omega
    rw [happend, all_append_lineEnd (hmem hl), all_append_lineEnd hl, List.map_cons,
      decodeChars_dropReturn, all_decodeChars rest]
  · rw [all_of_notMem h, all_of_notMem (hmem h)]
    by_cases hnil : bs = []
    · simp [hnil, decodeChars_nil]
    · simp [hnil, decodeChars_ne_nil hnil]
termination_by bs.length

end Utf8

namespace Source

def physicalLines (bytes : List UInt8) : List String :=
  (Lines.all lineFeed carriageReturn bytes).map Utf8.decode

theorem ofBytes_eq (bytes : List UInt8) :
    ofBytes bytes = { events := (physicalLines bytes).map .line } := by
  simp [ofBytes, physicalLines]

theorem events_ofBytes (bytes : List UInt8) :
    (ofBytes bytes).events = (physicalLines bytes).map .line := by
  rw [ofBytes_eq]

theorem physicalLines_takeLines (n : Nat) (bytes : List UInt8) :
    physicalLines (Lines.takeLines lineFeed n bytes) = (physicalLines bytes).take n := by
  rw [physicalLines, Lines.all_takeLines, List.map_take, physicalLines]

theorem physicalLines_eq (bytes : List UInt8) :
    physicalLines bytes =
      (Lines.all '\n' '\r' (Utf8.decodeChars bytes)).map String.ofList := by
  rw [physicalLines, Utf8.all_decodeChars, List.map_map]
  rfl

theorem physicalLines_encode (text : String) :
    physicalLines (Utf8.encode text) = (Lines.all '\n' '\r' text.toList).map String.ofList := by
  rw [physicalLines_eq, Utf8.encode, Utf8.decodeChars_encodeChars]

/-- The lines of a text: what comes before each line end, without a carriage return that may be in
front of it, and what comes after the last line end, unless that is empty. -/
def textLines (text : String) : List String :=
  let pieces := text.toList.splitOn '\n'
  (pieces.dropLast.map (Lines.dropReturn '\r') ++
    pieces.getLast?.toList.filter (· ≠ [])).map String.ofList

/-- The lines of a byte sequence are the lines of the one text that it reads as, with a replacement
for each of its broken parts. -/
theorem events_ofBytes_textLines (bytes : List UInt8) :
    (∀ cs, Utf8.Reads bytes cs ↔ cs = (Utf8.decode bytes).toList) ∧
      (ofBytes bytes).events = (textLines (Utf8.decode bytes)).map .line := by
  have hdecode : (Utf8.decode bytes).toList = Utf8.decodeChars bytes := String.toList_ofList
  refine ⟨fun cs => ?_, ?_⟩
  · rw [hdecode, Utf8.reads_iff, eq_comm]
  · rw [events_ofBytes, physicalLines_eq, Lines.all_eq_splitOn, textLines, hdecode]

end Source

end CommandShell
