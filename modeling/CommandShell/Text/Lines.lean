/-! # Lines

A text is cut at every line end. The cut is the same for characters and for bytes, so it takes the
line end and the carriage return as parameters.
-/

namespace CommandShell.Lines

variable {α : Type} [DecidableEq α]

/-- The completed lines, each without its line end, and what comes after the last line end. -/
def cut (lineEnd : α) : List α → List (List α) × List α
  | [] => ([], [])
  | a :: as =>
    let (lines, rest) := cut lineEnd as
    if a = lineEnd then ([] :: lines, rest)
    else match lines with
      | [] => ([], a :: rest)
      | line :: lines => ((a :: line) :: lines, rest)

def dropReturn (cr : α) (line : List α) : List α :=
  if line.getLast? = some cr then line.dropLast else line

/-- The completed lines without the carriage return that may precede a line end, and the rest. -/
def completed (lineEnd cr : α) (as : List α) : List (List α) × List α :=
  let (lines, rest) := cut lineEnd as
  (lines.map (dropReturn cr), rest)

/-- All lines. Text after the last line end is a line of its own, taken as it is. -/
def all (lineEnd cr : α) (as : List α) : List (List α) :=
  let (lines, rest) := completed lineEnd cr as
  if rest.isEmpty then lines else lines ++ [rest]

end CommandShell.Lines
