/-! # White space

The characters with the Unicode property `White_Space`.
-/

namespace CommandShell.Blank

def ranges : List (Nat × Nat) :=
  [(0x0009, 0x000D), (0x0020, 0x0020), (0x0085, 0x0085), (0x00A0, 0x00A0), (0x1680, 0x1680),
   (0x2000, 0x200A), (0x2028, 0x2029), (0x202F, 0x202F), (0x205F, 0x205F), (0x3000, 0x3000)]

def isBlank (c : Char) : Bool := ranges.any fun r => decide (r.1 ≤ c.toNat ∧ c.toNat ≤ r.2)

/-- Nothing but white space. -/
def isBlankText (s : String) : Bool := s.toList.all isBlank

def trimEnd (s : String) : String := String.ofList (s.toList.reverse.dropWhile isBlank).reverse

end CommandShell.Blank
