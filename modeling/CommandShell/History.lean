/-! # History

The last lines of a session, oldest first, as many as the capacity allows.
-/

namespace CommandShell

structure History where
  capacity : Nat
  lines : List String := []
deriving DecidableEq, Repr

namespace History

def lastN {α : Type} (n : Nat) (l : List α) : List α := l.drop (l.length - n)

theorem length_lastN_le {α : Type} (n : Nat) (l : List α) : (lastN n l).length ≤ n := by
  simp only [lastN, List.length_drop]
  omega

/-- Adds a line at the end; the oldest go when there is no room. -/
def append (h : History) (line : String) : History :=
  { h with lines := lastN h.capacity (h.lines ++ [line]) }

def clear (h : History) : History := { h with lines := [] }

def size (h : History) : Nat := h.lines.length

def get? (h : History) (i : Nat) : Option String := h.lines[i]?

theorem size_append_le (h : History) (line : String) : (h.append line).size ≤ h.capacity :=
  length_lastN_le _ _

end History

end CommandShell
