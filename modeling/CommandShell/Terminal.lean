import CommandShell.Source

/-! # Terminals

A terminal hands typed bytes over when a line is finished. The end-of-file key hands over what has
been typed since, and is an end of the input when that is nothing. A carriage return finishes a line
like a line feed.
-/

namespace CommandShell.Terminal

def endKey : UInt8 := 0x04

def malformedText : String := "stream did not contain valid UTF-8"

/-- A line as the reader finds it. -/
def lineEvent (bytes : List UInt8) : Event :=
  match Utf8.decode? bytes with
  | some text => .line text
  | none => .failure (.failed malformedText)

/-- The events behind typed bytes. `line` is the part of the current line that has been handed over,
`typed` the part that has not. A line ends without a line end when the end-of-file key is pressed
with nothing left to hand over. -/
def eventsFrom (line typed : List UInt8) : List UInt8 → List Event
  | [] => []
  | b :: bs =>
    if b = Source.lineFeed || b = Source.carriageReturn then
      lineEvent (line ++ typed) :: eventsFrom [] [] bs
    else if b = endKey then
      if !typed.isEmpty then eventsFrom (line ++ typed) [] bs
      else if !line.isEmpty then lineEvent line :: eventsFrom [] [] bs
      else .endOfInput :: eventsFrom [] [] bs
    else eventsFrom line (typed ++ [b]) bs

def closingKeys : Nat := 6

/-- The source that a person is who types bytes and then leaves. -/
def source (typed : List UInt8) : Source where
  events := eventsFrom [] [] (typed ++ List.replicate closingKeys endKey)
  interactive := true
  display := true

end CommandShell.Terminal
