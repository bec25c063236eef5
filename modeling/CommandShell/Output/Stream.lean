import CommandShell.Output.Device

/-! # Output streams

A stream hands bytes to its device, either at once or line by line. A stream that works line by line
keeps an unfinished line, and it also keeps what the device refused.
-/

namespace CommandShell

/-- Nothing is kept by a stream without a buffer. Child processes write to the device of a shared
one, too. -/
structure Stream where
  device : Device := {}
  kept : Option (List UInt8) := none
  shared : Bool := false
deriving DecidableEq, Repr

namespace Stream

def capacity : Nat := 1024

def direct (device : Device) : Stream := { device }

def byLine (device : Device) : Stream := { device, kept := some [] }

/-- Hands the kept bytes to the device. -/
def flush (s : Stream) : Except WriteFault Unit × Stream :=
  match s.kept with
  | none => (.ok (), s)
  | some kept =>
    match s.device.accept kept with
    | ([], device) => (.ok (), { s with device, kept := some [] })
    | (rest, device) => (.error ⟨device.refusal⟩, { s with device, kept := some rest })

/-- Keeps bytes, after making room if they do not fit. Bytes that never fit go to the device. -/
def keep (s : Stream) (bytes : List UInt8) : Except WriteFault Unit × Stream :=
  let kept := s.kept.getD []
  let (made, s) := if capacity < kept.length + bytes.length then s.flush else (.ok (), s)
  match made with
  | .error e => (.error e, s)
  | .ok () =>
    if capacity ≤ bytes.length then
      let (r, device) := s.device.write bytes
      (r, { s with device })
    else (.ok (), { s with kept := some (s.kept.getD [] ++ bytes) })

/-- The bytes up to the last line end, and those after it. -/
def cutLines (bytes : List UInt8) : List UInt8 × List UInt8 :=
  let tail := (bytes.reverse.takeWhile (· != 0x0A)).reverse
  (bytes.take (bytes.length - tail.length), tail)

/-- Writes bytes line by line: finished lines go to the device, the rest is kept. -/
def writeLines (s : Stream) (kept bytes : List UInt8) : Except WriteFault Unit × Stream :=
  match cutLines bytes with
  | ([], tail) =>
    let (flushed, s) := if kept.getLast? = some 0x0A then s.flush else (.ok (), s)
    match flushed with
    | .error e => (.error e, s)
    | .ok () => s.keep tail
  | (lines, tail) =>
    let (written, s) :=
      if kept.isEmpty then
        let (r, device) := s.device.write lines
        (r, { s with device })
      else
        match s.keep lines with
        | (.error e, s) => (.error e, s)
        | (.ok (), s) => s.flush
    match written with
    | .error e => (.error e, s)
    | .ok () => s.keep tail

def write (s : Stream) (text : String) : Except WriteFault Unit × Stream :=
  let bytes := Utf8.encode text
  match s.kept with
  | none =>
    let (r, device) := s.device.write bytes
    (r, { s with device })
  | some kept => s.writeLines kept bytes

/-- Writes pieces of text in order, up to the first that is refused. -/
def writeAll (s : Stream) : List String → Except WriteFault Unit × Stream
  | [] => (.ok (), s)
  | text :: texts =>
    match s.write text with
    | (.error e, s) => (.error e, s)
    | (.ok (), s) => s.writeAll texts

def writeAndFlush (s : Stream) (texts : List String) : Except WriteFault Unit × Stream :=
  match s.writeAll texts with
  | (.error e, s) => (.error e, s)
  | (.ok (), s) => s.flush

/-- What a child process writes goes past the stream to a shared device, as far as it fits. -/
def receive (s : Stream) (bytes : List UInt8) : Stream :=
  if s.shared then { s with device := (s.device.accept bytes).2 } else s

def contents (s : Stream) : String := s.device.contents

end Stream

end CommandShell
