import CommandShell.LogicalLine

/-! # Reading without looking ahead

What a reader gives is settled by the events that it asked for. The events behind them are left as
they are, whatever they are.
-/

namespace CommandShell

namespace LogicalLine

variable {lexer : Lexer} {asked rest : List Event}

theorem gather_append (text : String) (scanner : Scanner)
    (h : (gather lexer text scanner (asked ++ rest)).continued ≤ asked.length)
    (rest' : List Event) :
    gather lexer text scanner (asked ++ rest') =
      { gather lexer text scanner (asked ++ rest) with
        rest := asked.drop (gather lexer text scanner (asked ++ rest)).continued ++ rest' } := by
  induction asked generalizing text scanner with
  | nil =>
    cases hp : scanner.pending.filter LexError.needsMore with
    | none => cases rest <;> cases rest' <;> simp [gather, hp]
    | some error => rcases rest with _ | ⟨_ | _ | _, rest⟩ <;> simp [gather, hp] at h
  | cons e asked ih =>
    simp only [List.cons_append, gather] at h ⊢
    cases hp : scanner.pending.filter LexError.needsMore with
    | none => simp
    | some error =>
      simp only [hp] at h ⊢
      cases e with
      | line next =>
        have hnext := ih _ _ (Nat.le_of_succ_le_succ h)
        simp only at hnext ⊢
        rw [hnext]
        rfl
      | endOfInput => rfl
      | failure fault => rfl

/-- One request was for the first line, the others for its continuations. -/
theorem read_append (h : (read lexer (asked ++ rest)).continued < asked.length)
    (rest' : List Event) :
    read lexer (asked ++ rest') =
      { read lexer (asked ++ rest) with
        rest := asked.drop ((read lexer (asked ++ rest)).continued + 1) ++ rest' } := by
  cases asked with
  | nil => simp at h
  | cons e asked =>
    cases e with
    | line text =>
      simp only [List.cons_append, read]
      rw [gather_append text (({} : Scanner).feed lexer text) (Nat.le_of_lt_succ h) rest']
      rfl
    | endOfInput => rfl
    | failure error => rfl

end LogicalLine

namespace LineReader

variable {asked rest : List Event}

def withEvents (r : LineReader) (events : List Event) : LineReader :=
  { r with source := { r.source with events } }

theorem next_append {r : LineReader} {prompt : String}
    (h : ((r.withEvents (asked ++ rest)).next prompt).prompts.length ≤ asked.length)
    (rest' : List Event) :
    (r.withEvents (asked ++ rest')).next prompt =
      let answer := (r.withEvents (asked ++ rest)).next prompt
      { answer with
        reader := answer.reader.withEvents (asked.drop answer.prompts.length ++ rest') } := by
  have hlength : ((r.withEvents (asked ++ rest)).next prompt).prompts.length =
      (LogicalLine.read r.lexer (asked ++ rest)).continued + 1 := by
    simp [next, withEvents]
  rw [hlength] at h
  simp only [hlength]
  simp only [next, withEvents, LogicalLine.read_append h rest']
  rfl

end LineReader

end CommandShell
