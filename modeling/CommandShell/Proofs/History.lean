import CommandShell.History

/-! # Histories over time

A history forgets its oldest lines as it goes, one by one. In the end it holds the last lines of one
that forgets nothing.
-/

namespace CommandShell.History

variable {α : Type}

theorem lastN_of_length_le {n : Nat} {l : List α} (h : l.length ≤ n) : lastN n l = l := by
  rw [lastN, Nat.sub_eq_zero_of_le h, List.drop_zero]

theorem lastN_lastN_append (n : Nat) (l m : List α) :
    lastN n (lastN n l ++ m) = lastN n (l ++ m) := by
  rcases Nat.le_total l.length n with h | h
  · rw [lastN_of_length_le h]
  · have hlength : (lastN n l ++ m).length - n = m.length := by
      simp only [lastN, List.length_append, List.length_drop]
      omega
    have hsplit : (l ++ m).length - n = l.length - n + m.length := by
      rw [List.length_append]
      omega
    calc lastN n (lastN n l ++ m)
        = (l.drop (l.length - n) ++ m).drop m.length := by rw [lastN, hlength, lastN]
      _ = ((l ++ m).drop (l.length - n)).drop m.length := by
          rw [List.drop_append_of_le_length (Nat.sub_le _ _)]
      _ = lastN n (l ++ m) := by rw [List.drop_drop, lastN, hsplit]

inductive Change where
  | append (text : String)
  | clear
deriving DecidableEq, Repr

namespace Change

def text? : Change → Option String
  | .append text => some text
  | .clear => none

/-- What a change makes of all lines since the last clearing. -/
def follow (lines : List String) : Change → List String
  | .append text => lines ++ [text]
  | .clear => []

end Change

def apply (h : History) : Change → History
  | .append text => h.append text
  | .clear => h.clear

/-- A history holds the last lines of all that were added since it was cleared last. -/
theorem foldl_apply {h : History} (hs : h.size ≤ h.capacity) (changes : List Change) :
    changes.foldl apply h =
      { h with lines := lastN h.capacity (changes.foldl Change.follow h.lines) } := by
  -- Along the way, the lines are the last ones of those that a history without end would have.
  suffices hlast : ∀ lines, changes.foldl apply { h with lines := lastN h.capacity lines } =
      { h with lines := lastN h.capacity (changes.foldl Change.follow lines) } by
    rw [← hlast, lastN_of_length_le hs]
  intro lines
  induction changes generalizing lines with
  | nil => rfl
  | cons change changes ih =>
    cases change with
    | append text =>
      rw [List.foldl_cons, List.foldl_cons, Change.follow, ← ih, apply, append, lastN_lastN_append]
    | clear =>
      have hclear : apply { h with lines := lastN h.capacity lines } .clear =
          { h with lines := lastN h.capacity [] } := by simp [apply, clear, lastN]
      rw [List.foldl_cons, hclear, ih, List.foldl_cons, Change.follow]

end CommandShell.History
