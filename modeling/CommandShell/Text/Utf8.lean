/-! # UTF-8

Text is written as the shortest UTF-8 form of each character. Bytes are read leniently: every
maximal piece that no character starts with becomes one U+FFFD, so reading never fails and reading
what was written gives the text back.
-/

namespace CommandShell.Utf8

def encodeChar (c : Char) : List UInt8 :=
  let n := c.toNat
  if n < 0x80 then
    [n.toUInt8]
  else if n < 0x800 then
    [(0xC0 + n / 0x40).toUInt8, (0x80 + n % 0x40).toUInt8]
  else if n < 0x10000 then
    [(0xE0 + n / 0x1000).toUInt8, (0x80 + n / 0x40 % 0x40).toUInt8, (0x80 + n % 0x40).toUInt8]
  else
    [(0xF0 + n / 0x40000).toUInt8, (0x80 + n / 0x1000 % 0x40).toUInt8,
      (0x80 + n / 0x40 % 0x40).toUInt8, (0x80 + n % 0x40).toUInt8]

def encodeChars (cs : List Char) : List UInt8 := cs.flatMap encodeChar

def encode (s : String) : List UInt8 := encodeChars s.toList

/-- Stands for a piece of the input that is no character. -/
def replacement : Char := '\uFFFD'

/-- What a first byte promises: the bits it carries, how many bytes follow, and the range of the
next one. The ranges leave out overlong forms, surrogates and values above U+10FFFF. -/
structure Lead where
  bits : Nat
  more : Nat
  low : Nat := 0x80
  high : Nat := 0xBF

def lead? (b : UInt8) : Option Lead :=
  let n := b.toNat
  if n < 0x80 then some { bits := n, more := 0 }
  else if n < 0xC2 then none
  else if n < 0xE0 then some { bits := n - 0xC0, more := 1 }
  else if n = 0xE0 then some { bits := 0, more := 2, low := 0xA0 }
  else if n = 0xED then some { bits := 0xD, more := 2, high := 0x9F }
  else if n < 0xF0 then some { bits := n - 0xE0, more := 2 }
  else if n = 0xF0 then some { bits := 0, more := 3, low := 0x90 }
  else if n < 0xF4 then some { bits := n - 0xF0, more := 3 }
  else if n = 0xF4 then some { bits := 4, more := 3, high := 0x8F }
  else none

/-- Reads the `more` bytes that a first byte promised, after the bits read so far. An unexpected
byte is left in the rest. -/
def follow : (more bits low high : Nat) → List UInt8 → Option Char × List UInt8
  | 0, bits, _, _, bs => (some (Char.ofNat bits), bs)
  | _ + 1, _, _, _, [] => (none, [])
  | more + 1, bits, low, high, b :: bs =>
    if low ≤ b.toNat ∧ b.toNat ≤ high then
      follow more (bits * 0x40 + (b.toNat - 0x80)) 0x80 0xBF bs
    else (none, b :: bs)

theorem follow_length_le (more bits low high : Nat) (bs : List UInt8) :
    (follow more bits low high bs).2.length ≤ bs.length := by
  fun_induction follow more bits low high bs with
  | case1 => exact Nat.le_refl _
  | case2 => exact Nat.le_refl _
  | case3 more bits low high b bs _ ih => exact Nat.le_succ_of_le ih
  | case4 => exact Nat.le_refl _

/-- The first character of `b :: bs`, or nothing for a piece that is none, and what comes after. -/
def next (b : UInt8) (bs : List UInt8) : Option Char × List UInt8 :=
  match lead? b with
  | none => (none, bs)
  | some l => follow l.more l.bits l.low l.high bs

theorem next_length_le (b : UInt8) (bs : List UInt8) : (next b bs).2.length ≤ bs.length := by
  unfold next
  split
  · exact Nat.le_refl _
  · exact follow_length_le _ _ _ _ _

/-- The pieces of a byte sequence: characters, and nothing where a piece is no character. -/
def pieces : List UInt8 → List (Option Char)
  | [] => []
  | b :: bs => (next b bs).1 :: pieces (next b bs).2
termination_by bs => bs.length
decreasing_by exact Nat.lt_succ_of_le (next_length_le b bs)

def decodeChars (bs : List UInt8) : List Char := (pieces bs).map (·.getD replacement)

/-- Reads bytes as text, with U+FFFD for each piece that is no character. -/
def decode (bs : List UInt8) : String := String.ofList (decodeChars bs)

def decode? (bs : List UInt8) : Option String := ((pieces bs).mapM id).map String.ofList

end CommandShell.Utf8
