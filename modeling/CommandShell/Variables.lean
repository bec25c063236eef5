import CommandShell.Table

/-! # Variables

A variable has a value and a flag that says whether child processes see it. Assigning keeps the
flag; it goes only with the variable.
-/

namespace CommandShell

structure Variable where
  value : String
  exported : Bool := false
deriving DecidableEq, Repr

abbrev Variables := Table Variable

namespace Variables

/-- ASCII letters, digits and the underscore. -/
def isNameChar (c : Char) : Bool := c.isAlphanum || c == '_'

/-- Whether the text names a variable: name characters, of which the first is no digit. -/
def isName (s : String) : Bool :=
  match s.toList with
  | [] => false
  | c :: cs => (c.isAlpha || c == '_') && cs.all isNameChar

def value? (vs : Variables) (name : String) : Option String :=
  (vs.get? name).map (·.value)

/-- Assigns a value. A new variable is not exported. -/
def set (vs : Variables) (name value : String) : Variables :=
  vs.insert name { value, exported := ((vs.get? name).map (·.exported)).getD false }

def exportName (vs : Variables) (name : String) : Variables :=
  match vs.get? name with
  | some v => vs.insert name { v with exported := true }
  | none => vs

def setExported (vs : Variables) (name value : String) : Variables :=
  (vs.set name value).exportName name

inductive Change where
  | set (name value : String)
  | setExported (name value : String)
  | exportName (name : String)
  | unset (name : String)
deriving DecidableEq, Repr

/-- What a change found: the value it replaced, or whether there was a variable. -/
inductive Found where
  | value (previous : Option String)
  | present (there : Bool)
deriving DecidableEq, Repr

def apply (vs : Variables) : Change → Found × Variables
  | .set name value => (.value (vs.value? name), vs.set name value)
  | .setExported name value => (.value (vs.value? name), vs.setExported name value)
  | .exportName name => (.present (vs.contains name), vs.exportName name)
  | .unset name => (.present (vs.contains name), vs.erase name)

/-- The exported variables and their values, in order of the names. -/
def exportedList (vs : Variables) : List (String × String) :=
  (vs.toList.filter (·.2.exported)).map fun e => (e.1, e.2.value)

end Variables

abbrev Aliases := Table String

end CommandShell
