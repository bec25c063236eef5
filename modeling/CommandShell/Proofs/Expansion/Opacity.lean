import CommandShell.Proofs.Expansion.Roles

/-! # Values of parameters

A value that is put in for a parameter counts as quoted text: it is never split, never an alias or
an assignment, and its dollar signs are not parameters. All that can be seen of a value in the form
of a line is whether it is empty, because a word without quotes and without text is dropped.
-/

namespace CommandShell

def WordPart.parameter? : WordPart → Option String
  | .parameter name => some name
  | _ => none

def parametersOf (ws : List Word) : List String :=
  ws.flatMap fun w => w.parts.filterMap WordPart.parameter?

/-- A part with the value of its parameter put in as quoted text. -/
def WordPart.fillIn (s : Session) : WordPart → WordPart
  | .parameter name => .quoted ((s.parameter? name).getD "")
  | part => part

def Word.fillIn (s : Session) (w : Word) : Word :=
  { w with parts := w.parts.map (WordPart.fillIn s) }

namespace Expansion

variable {s s' : Session}

section FillIn

variable (s)

@[simp] theorem partText_fillIn (p : WordPart) : partText s (p.fillIn s) = partText s p := by
  cases p <;> rfl

@[simp] theorem partsText_fillIn (parts : List WordPart) :
    partsText s (parts.map (WordPart.fillIn s)) = partsText s parts := by
  simp [partsText, Function.comp_def]

@[simp] theorem fillIn_fillIn (w : Word) : (w.fillIn s).fillIn s = w.fillIn s := by
  have hpart : WordPart.fillIn s ∘ WordPart.fillIn s = WordPart.fillIn s := by
    funext p
    cases p <;> rfl
  simp [Word.fillIn, hpart]

@[simp] theorem plain?_fillIn (w : Word) : (w.fillIn s).plain? = w.plain? := by
  obtain ⟨parts, quoted⟩ := w
  rcases parts with _ | ⟨_ | _ | _, _ | ⟨p, parts⟩⟩ <;> rfl

@[simp] theorem assignment?_fillIn (w : Word) : assignment? s (w.fillIn s) = assignment? s w := by
  obtain ⟨parts, quoted⟩ := w
  rcases parts with _ | ⟨_ | _ | _, parts⟩ <;>
    simp [assignment?, Word.fillIn, WordPart.fillIn]

@[simp] theorem argument?_fillIn (w : Word) : argument? s (w.fillIn s) = argument? s w := by
  simp only [argument?, Word.fillIn, partsText_fillIn]

theorem ofWords_fillIn (ws : List Word) : ofWords s (ws.map (Word.fillIn s)) = ofWords s ws := by
  induction ws with
  | nil => rfl
  | cons w ws ih =>
    have hargs : argument? s ∘ Word.fillIn s = argument? s := funext (argument?_fillIn s)
    rw [List.map_cons, ofWords, ofWords, assignment?_fillIn, ih, ← List.map_cons,
      List.filterMap_map, hargs]

/-- The words of an alias have parameters of their own, so the values come after it. -/
theorem map_fillIn_substituteAlias (lexer : Lexer) (aliases : Aliases) (ws : List Word) :
    (substituteAlias lexer aliases (ws.map (Word.fillIn s))).map (Word.fillIn s) =
      (substituteAlias lexer aliases ws).map (Word.fillIn s) := by
  cases ws with
  | nil => rfl
  | cons w ws =>
    by_cases h : StartsWithAlias lexer aliases (w :: ws)
    · obtain ⟨_, ⟨⟩, name, value, words, hw, ha, hv⟩ := h
      have hw' : (w.fillIn s).plain? = some name := (plain?_fillIn s w).trans hw
      rw [List.map_cons, substituteAlias_cons hw ha hv, substituteAlias_cons hw' ha hv]
      simp
    · have h' : ¬ StartsWithAlias lexer aliases ((w :: ws).map (Word.fillIn s)) := by
        rintro ⟨_, ⟨⟩, name, value, words, hw, ha, hv⟩
        exact h ⟨w, rfl, name, value, words, (plain?_fillIn s w).symm.trans hw, ha, hv⟩
      rw [substituteAlias_eq_self h, substituteAlias_eq_self h']
      simp

theorem expand_fillIn (lexer : Lexer) (ws : List Word) :
    expand lexer s (ws.map (Word.fillIn s)) = expand lexer s ws := by
  rw [expand, ← ofWords_fillIn, map_fillIn_substituteAlias, ofWords_fillIn, expand]

end FillIn

/-- The names that are assigned to, and how many arguments there are. -/
def shape (e : Expansion) : List String × Nat := (e.assignments.map (·.1), e.arguments.length)

/-- Every parameter of the words is empty in both sessions or in none. -/
def EmptyAlike (s s' : Session) (ws : List Word) : Prop :=
  ∀ name ∈ parametersOf ws, (s.parameter? name).getD "" = "" ↔ (s'.parameter? name).getD "" = ""

instance (s s' : Session) (ws : List Word) : Decidable (EmptyAlike s s' ws) :=
  inferInstanceAs (Decidable (∀ _ ∈ _, _))

theorem partsText_eq_empty_iff {parts : List WordPart} :
    partsText s parts = "" ↔ ∀ p ∈ parts, partText s p = "" := by
  induction parts with
  | nil => simp [partsText]
  | cons p parts ih =>
    have hcons : partsText s (p :: parts) = partText s p ++ partsText s parts := String.join_cons
    rw [hcons, String.append_eq_empty_iff, ih, List.forall_mem_cons]

theorem EmptyAlike.isSome_argument? {ws : List Word} (h : EmptyAlike s s' ws) {w : Word}
    (hw : w ∈ ws) : (argument? s w).isSome = (argument? s' w).isSome := by
  have hempty : partsText s w.parts = "" ↔ partsText s' w.parts = "" := by
    rw [partsText_eq_empty_iff, partsText_eq_empty_iff]
    refine forall₂_congr fun p hp => ?_
    cases p with
    | parameter name =>
      exact h name (List.mem_flatMap.mpr ⟨w, hw, List.mem_filterMap.mpr ⟨_, hp, rfl⟩⟩)
    | literal text | quoted text => rfl
  have hisEmpty : (partsText s w.parts).isEmpty = (partsText s' w.parts).isEmpty := by
    rw [Bool.eq_iff_iff, String.isEmpty_iff, String.isEmpty_iff, hempty]
  simp only [argument?, hisEmpty]
  split <;> rfl

theorem EmptyAlike.shape_ofWords {ws : List Word} (h : EmptyAlike s s' ws) :
    (ofWords s' ws).shape = (ofWords s ws).shape := by
  have hargs : (ofWords s' ws).arguments.length = (ofWords s ws).arguments.length := by
    rw [ofWords_eq, ofWords_eq, List.length_filterMap_eq_countP, List.length_filterMap_eq_countP]
    refine List.countP_congr fun w hw => ?_
    rw [h.isSome_argument? ((List.dropWhile_sublist _).subset hw)]
  rw [shape, shape, map_fst_assignments, map_fst_assignments, hargs]

/-- Values of parameters count as quoted text, and no value changes the form of a line but by being
empty or not. -/
theorem expand_fillIn_and_shape (lexer : Lexer) (s : Session) (ws : List Word) :
    expand lexer s (ws.map (Word.fillIn s)) = expand lexer s ws ∧
      ∀ s' : Session, s'.aliases = s.aliases →
        EmptyAlike s s' (substituteAlias lexer s.aliases ws) →
          (expand lexer s' ws).shape = (expand lexer s ws).shape := by
  refine ⟨expand_fillIn s lexer ws, fun s' ha h => ?_⟩
  rw [expand, expand, ha]
  exact h.shape_ofWords

/-- A value that looks like an assignment, quotes and another alias, for a parameter that stands
alone, behind an equals sign and in the text of an alias; and one that is empty or not set. -/
theorem expand_fillIn_and_shape_quotes :
    let session (vars : Variables) : Session :=
      { vars, aliases := Table.empty.insert "a" "A=$x $x", history := { capacity := 10 }
        directory := "/", name := "hsh", processId := 1 }
    let s := session ((Variables.set .empty "x" "v").set "y" "")
    let s' := session (Variables.set .empty "x" "B=1 'a' $x")
    let word (parts : List WordPart) : Word := { parts }
    let ws := [word [.literal "a"], word [.parameter "x"], word [.literal "C=", .parameter "x"],
      word [.parameter "y"]]
    s'.aliases = s.aliases ∧ EmptyAlike s s' (substituteAlias {} s.aliases ws) ∧
      (expand {} s' ws).shape = (expand {} s ws).shape ∧
      expand {} s (ws.map (Word.fillIn s)) =
        { assignments := [("A", "v")], arguments := ["v", "v", "C=v"] } := by
  intro session s s' word ws
  have halike : EmptyAlike s s' (substituteAlias {} s.aliases ws) := by decide +kernel
  obtain ⟨hfill, hshape⟩ := expand_fillIn_and_shape {} s ws
  refine ⟨rfl, halike, hshape s' rfl halike, ?_⟩
  rw [hfill]
  decide +kernel

end Expansion

end CommandShell
