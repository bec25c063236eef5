import CommandShell.Text.Utf8

/-! # Devices

Where written bytes end up. A device may have room for a limited number of bytes: of each write it
takes what fits, and refuses the rest.
-/

namespace CommandShell

structure WriteFault where
  reason : String
deriving DecidableEq, Repr

/-- `room` is how many more bytes fit, if there is a limit. -/
structure Device where
  stored : Array UInt8 := #[]
  room : Option Nat := none
  refusal : String := ""
deriving DecidableEq, Repr

namespace Device

def limited (limit : Option Nat) (refusal : String) : Device := { room := limit, refusal }

/-- Takes what fits. The rest, if there is any, is handed back. -/
def accept (d : Device) (bytes : List UInt8) : List UInt8 × Device :=
  match d.room with
  | none => ([], { d with stored := d.stored ++ bytes })
  | some n =>
    (bytes.drop n, { d with stored := d.stored ++ bytes.take n, room := some (n - bytes.length) })

def write (d : Device) (bytes : List UInt8) : Except WriteFault Unit × Device :=
  match d.accept bytes with
  | ([], d) => (.ok (), d)
  | (_, d) => (.error ⟨d.refusal⟩, d)

def contents (d : Device) : String := Utf8.decode d.stored.toList

end Device

end CommandShell
