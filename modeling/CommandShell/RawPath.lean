import CommandShell.Path
import CommandShell.Text.Utf8

/-! # Paths of the system

For the system a path is a sequence of bytes. Texts name those that are UTF-8. The others have no
text, so reading one as text loses it.
-/

namespace CommandShell

/-- A path as the system has it. -/
structure RawPath where
  bytes : List UInt8
deriving DecidableEq, Repr

namespace RawPath

def ofText (s : String) : RawPath := ⟨Utf8.encode s⟩

/-- Reads a path as text, with U+FFFD for what is none. -/
def text (p : RawPath) : String := Utf8.decode p.bytes

/-- The text that names a path, if there is one. -/
def text? (p : RawPath) : Option String := Utf8.decode? p.bytes

/-- A text stands for the path that it names. -/
instance : Coe String RawPath := ⟨ofText⟩

/-- A path is shown, and kept in variables, as the text that it is read as. -/
instance : CoeOut RawPath String := ⟨text⟩

def slash : UInt8 := 0x2F

def isAbsolute (p : RawPath) : Bool := p.bytes.head? = some slash

def join (directory path : RawPath) : RawPath := ⟨Path.below slash directory.bytes path.bytes⟩

theorem join_of_isAbsolute {path : RawPath} (h : path.isAbsolute) (directory : RawPath) :
    join directory path = path := by
  have hhead : path.bytes.head? = some slash := of_decide_eq_true h
  rw [join, Path.below, if_pos hhead]

end RawPath

end CommandShell
