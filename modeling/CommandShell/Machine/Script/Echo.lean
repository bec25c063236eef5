/-! # Escapes of `echo`

Scripts may name bytes after a backslash in what they let `echo` write: by a letter, or by up to
three octal digits that may follow a zero. The letter `c` ends the text and leaves out the line end.
-/

namespace CommandShell.Script.Echo

def letter? (b : UInt8) : Option UInt8 :=
  if b == 'a'.toUInt8 then some 0x07
  else if b == 'b'.toUInt8 then some 0x08
  else if b == 'f'.toUInt8 then some 0x0C
  else if b == 'n'.toUInt8 then some 0x0A
  else if b == 'r'.toUInt8 then some 0x0D
  else if b == 't'.toUInt8 then some 0x09
  else if b == 'v'.toUInt8 then some 0x0B
  else if b == '\\'.toUInt8 then some b
  else none

def isOctal (b : UInt8) : Bool := '0'.toUInt8 ≤ b && b ≤ '7'.toUInt8

/-- The octal digits, three at most, that bytes start with. -/
def octalDigits (bs : List UInt8) : List UInt8 := (bs.take 3).takeWhile isOctal

def octalValue (digits : List UInt8) : UInt8 :=
  (digits.foldl (fun n d => n * 8 + (d.toNat - '0'.toNat)) 0).toUInt8

def named? (bs : List UInt8) : Option (UInt8 × Nat) :=
  match bs with
  | [] => none
  | b :: bs =>
    let digits := octalDigits bs
    if b == '0'.toUInt8 && !digits.isEmpty then some (octalValue digits, digits.length + 1)
    else
      let digits := octalDigits (b :: bs)
      if digits.isEmpty then (letter? b).map (·, 1) else some (octalValue digits, digits.length)

/-- The bytes written for some text, and whether the text ends the output. The number says how many
bytes of the text belong to a name that has been read. -/
def writtenFrom : Nat → List UInt8 → List UInt8 × Bool
  | _, [] => ([], false)
  | skip + 1, _ :: bs => writtenFrom skip bs
  | 0, b :: bs =>
    if b == '\\'.toUInt8 then
      if bs.head? == some 'c'.toUInt8 then ([], true)
      else match named? bs with
        | some (byte, count) => let (bytes, ended) := writtenFrom count bs; (byte :: bytes, ended)
        | none => let (bytes, ended) := writtenFrom 0 bs; (b :: bytes, ended)
    else let (bytes, ended) := writtenFrom 0 bs; (b :: bytes, ended)

def written (text : List UInt8) : List UInt8 × Bool := writtenFrom 0 text

end CommandShell.Script.Echo
