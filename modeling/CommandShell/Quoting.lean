/-! # Quoting

A text in single quotes is read back unchanged. A quote in it is written by closing the quotes,
adding a quote after a backslash, and opening them again.
-/

namespace CommandShell.Quoting

def escapeQuotes (cs : List Char) : List Char :=
  cs.flatMap fun c => if c = '\'' then ['\'', '\\', '\'', '\''] else [c]

/-- The text as one word that the lexer reads back. -/
def single (s : String) : String := String.ofList ('\'' :: escapeQuotes s.toList ++ ['\''])

end CommandShell.Quoting
