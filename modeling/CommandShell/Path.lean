/-! # Paths

Paths are texts whose names are set apart by slashes.
-/

namespace CommandShell.Path

/-- Cuts a list at every separator. The result is never empty. -/
def cutAll {α : Type} [DecidableEq α] (separator : α) : List α → List (List α)
  | [] => [[]]
  | a :: as =>
    if a = separator then [] :: cutAll separator as
    else match cutAll separator as with
      | [] => [[a]]
      | l :: ls => (a :: l) :: ls

def cut (separator : Char) (s : String) : List String :=
  (cutAll separator s.toList).map String.ofList

/-- The names of a path, with an empty one for every needless slash. -/
def names (path : String) : List String := cut '/' path

def isAbsolute (path : String) : Bool := path.toList.head? = some '/'

/-- Puts a list below another one. There is one separator between them, and none before the first.
A list that starts with the separator stays as it is. -/
def below {α : Type} [DecidableEq α] (separator : α) (above as : List α) : List α :=
  if as.head? = some separator then as
  else if above.isEmpty || above.getLast? = some separator then above ++ as
  else above ++ separator :: as

/-- A path below a directory. An absolute path stays as it is. -/
def join (directory path : String) : String :=
  String.ofList (below '/' directory.toList path.toList)

/-- Components of a relative path: a leading `.` counts, every other empty or `.` name does not. -/
def components (path : String) : List String :=
  match names path with
  | [] => []
  | name :: rest =>
    let rest := rest.filter fun n => n != "" && n != "."
    if name = "" then rest else name :: rest

/-- The name that a relative path amounts to, if its one component is neither `.` nor `..`. -/
def singleName? (path : String) : Option String :=
  match components path with
  | [name] => if name = "." || name = ".." then none else some name
  | _ => none

end CommandShell.Path
