import CommandShell.Source
import CommandShell.Lexer.Scanner
import CommandShell.Text.Blank

/-! # Logical lines

A logical line is one physical line, or several joined by line ends while the text leaves a quote
open or ends in a backslash.
-/

namespace CommandShell

inductive LogicalLine where
  | line (text : String) (words : List Word)
  | invalid (text : String) (error : LexError)
  | endOfInput
  | failure (error : ReadError)
deriving DecidableEq, Repr

/-- The prompt while a logical line is still open. -/
def continuationPrompt : String := "> "

namespace LogicalLine

def text? : LogicalLine → Option String
  | .line text _ | .invalid text _ => some text
  | .endOfInput | .failure _ => none

/-- The text that a source is asked to remember: that of a line which is not blank. -/
def remembered? (l : LogicalLine) : Option String :=
  l.text?.filter fun text => !Blank.isBlankText text

def ofText (lexer : Lexer) (text : String) : LogicalLine :=
  match lexer.split text with
  | .ok words => .line text words
  | .error error => .invalid text error

/-- The line that an open text is when the input ends. A backslash at the end is dropped. -/
def ofOpenText (lexer : Lexer) (text : String) (error : LexError) : LogicalLine :=
  if error = .trailingEscape then ofText lexer (String.ofList text.toList.dropLast)
  else .invalid text error

/-- What reading one logical line gave: the events that are left, how many physical lines were read
and how many continuations asked for. -/
structure Reading where
  result : LogicalLine
  rest : List Event
  count : Nat
  continued : Nat

/-- Reads on while the text is open. The scanner has seen the whole text. -/
def gather (lexer : Lexer) (text : String) (scanner : Scanner) : List Event → Reading
  | [] =>
    match scanner.pending.filter LexError.needsMore with
    | some error => ⟨ofOpenText lexer text error, [], 0, 1⟩
    | none => ⟨ofText lexer text, [], 0, 0⟩
  | e :: es =>
    match scanner.pending.filter LexError.needsMore with
    | some error =>
      match e with
      | .line next =>
        let scanner := (scanner.feed lexer "\n").feed lexer next
        let r := gather lexer (text ++ "\n" ++ next) scanner es
        { r with count := r.count + 1, continued := r.continued + 1 }
      | .endOfInput => ⟨ofOpenText lexer text error, es, 0, 1⟩
      | .failure error => ⟨.failure error, es, 0, 1⟩
    | none => ⟨ofText lexer text, e :: es, 0, 0⟩

def read (lexer : Lexer) : List Event → Reading
  | [] => ⟨.endOfInput, [], 0, 0⟩
  | .line text :: es =>
    let r := gather lexer text (({} : Scanner).feed lexer text) es
    { r with count := r.count + 1 }
  | .endOfInput :: es => ⟨.endOfInput, es, 0, 0⟩
  | .failure error :: es => ⟨.failure error, es, 0, 0⟩

theorem length_rest_gather_le (lexer : Lexer) (text : String) (scanner : Scanner)
    (es : List Event) : (gather lexer text scanner es).rest.length ≤ es.length := by
  induction es generalizing text scanner with
  | nil => simp only [gather]; split <;> simp
  | cons e es ih =>
    simp only [gather]
    split
    · split
      · exact Nat.le_succ_of_le (ih _ _)
      · exact Nat.le_succ _
      · exact Nat.le_succ _
    · exact Nat.le_refl _

theorem length_rest_read_lt (lexer : Lexer) {es : List Event} (h : es ≠ []) :
    (read lexer es).rest.length < es.length := by
  match es with
  | [] => exact absurd rfl h
  | .line text :: es => exact Nat.lt_succ_of_le (length_rest_gather_le _ _ _ _)
  | .endOfInput :: es => exact Nat.lt_succ_self _
  | .failure _ :: es => exact Nat.lt_succ_self _

end LogicalLine

/-- `startLine` is the first physical line of the last logical one, counted from one. -/
structure LineReader where
  lexer : Lexer := {}
  source : Source
  linesRead : Nat := 0
  startLine : Nat := 0

namespace LineReader

/-- There is one prompt for each physical line that was asked for. -/
structure Answer where
  result : LogicalLine
  prompts : List String
  reader : LineReader

/-- Reads the next logical line, with `prompt` before its first physical line. -/
def next (r : LineReader) (prompt : String) : Answer :=
  let reading := LogicalLine.read r.lexer r.source.events
  let continuation := if r.source.interactive then continuationPrompt else ""
  { result := reading.result
    prompts := prompt :: List.replicate reading.continued continuation
    reader :=
      { r with
        source := { r.source with events := reading.rest }
        linesRead := r.linesRead + reading.count
        startLine := if reading.count = 0 then r.startLine else r.linesRead + 1 } }

theorem next_decreases (r : LineReader) (prompt : String)
    (h : (r.next prompt).result ≠ .endOfInput) :
    (r.next prompt).reader.source.events.length < r.source.events.length := by
  refine LogicalLine.length_rest_read_lt _ fun he => h ?_
  simp [next, he, LogicalLine.read]

end LineReader

end CommandShell
