import CommandShell.Proofs.Expansion.Assignments
import Mathlib.Data.List.Forall2

/-! # What words become

The first word of a line may be the name of an alias, whose words take its place. Then the words up
to the first that can be no assignment are the assignments of the line, which their unquoted text
decides; those after them are its arguments, except for words without quotes and without text.
-/

namespace CommandShell

/-- The name that a word assigns to where it comes before the command. -/
def Word.assignedName? (w : Word) : Option String :=
  match w.parts with
  | .literal first :: _ => ((Expansion.cutAtEquals? first).map (·.1)).filter Variables.isName
  | _ => none

namespace Expansion

section Substitute

variable {lexer : Lexer} {aliases : Aliases} {w : Word} {name value : String}
variable {words ws : List Word}

/-- The first word is the name of an alias whose text is a list of words. -/
def StartsWithAlias (lexer : Lexer) (aliases : Aliases) (ws : List Word) : Prop :=
  ∃ w ∈ ws.head?, ∃ name value words, w.plain? = some name ∧ aliases.get? name = some value ∧
    lexer.split value = .ok words

theorem substituteAlias_empty (lexer : Lexer) (ws : List Word) :
    substituteAlias lexer .empty ws = ws := by
  cases ws with
  | nil => rfl
  | cons w ws => cases hw : w.plain? <;> simp [substituteAlias, hw]

theorem substituteAlias_cons (hw : w.plain? = some name) (ha : aliases.get? name = some value)
    (hv : lexer.split value = .ok words) (ws : List Word) :
    substituteAlias lexer aliases (w :: ws) = words ++ ws := by
  simp [substituteAlias, hw, ha, hv]

theorem substituteAlias_eq_self (h : ¬ StartsWithAlias lexer aliases ws) :
    substituteAlias lexer aliases ws = ws := by
  cases ws with
  | nil => rfl
  | cons w ws =>
    cases hw : w.plain? with
    | none => simp [substituteAlias, hw]
    | some name =>
      cases ha : aliases.get? name with
      | none => simp [substituteAlias, hw, ha]
      | some value =>
        cases hv : lexer.split value with
        | error error => simp [substituteAlias, hw, ha, hv]
        | ok words => exact absurd ⟨w, rfl, name, value, words, hw, ha, hv⟩ h

end Substitute

theorem map_fst_assignment? (s : Session) (w : Word) :
    (assignment? s w).map (·.1) = w.assignedName? := by
  obtain ⟨parts, quoted⟩ := w
  rcases parts with _ | ⟨_ | _ | _, parts⟩
  · rfl
  · next first =>
    simp only [assignment?, Word.assignedName?]
    cases cutAtEquals? first with
    | none => rfl
    | some cut =>
      obtain ⟨name, value⟩ := cut
      by_cases hn : Variables.isName name <;> simp [hn, Option.filter_some]
  · rfl
  · rfl

theorem isSome_assignment? (s : Session) (w : Word) :
    (assignment? s w).isSome = w.assignedName?.isSome := by
  rw [← map_fst_assignment? s w, Option.isSome_map]

/-- The words of a line are cut at the first that is no assignment. -/
theorem ofWords_eq (s : Session) (ws : List Word) :
    ofWords s ws =
      { assignments := (ws.takeWhile (·.assignedName?.isSome)).filterMap (assignment? s)
        arguments := (ws.dropWhile (·.assignedName?.isSome)).filterMap (argument? s) } := by
  induction ws with
  | nil => rfl
  | cons w ws ih =>
    have hsome := isSome_assignment? s w
    cases ha : assignment? s w with
    | none =>
      have hn : w.assignedName?.isSome = false := by rw [← hsome, ha, Option.isSome_none]
      simp [ofWords, ha, hn]
    | some a =>
      have hn : w.assignedName?.isSome = true := by rw [← hsome, ha, Option.isSome_some]
      simp [ofWords, ha, hn, ih]

theorem map_fst_assignments (s : Session) (ws : List Word) :
    (ofWords s ws).assignments.map (·.1) =
      (ws.takeWhile (·.assignedName?.isSome)).filterMap Word.assignedName? := by
  have hname : (fun w => (assignment? s w).map (·.1)) = Word.assignedName? :=
    funext (map_fst_assignment? s)
  rw [ofWords_eq, List.map_filterMap, hname]

theorem argument?_eq_none_iff {s : Session} {w : Word} :
    argument? s w = none ↔ w.quoted = false ∧ partsText s w.parts = "" := by
  simp [argument?, String.isEmpty_iff, and_comm]

theorem exists_of_arguments_eq_nil {s : Session} {ws : List Word}
    (h : (ofWords s ws).arguments = []) :
    ∃ assigning vanishing, ws = assigning ++ vanishing ∧
      List.Forall₂ (Assigns s) assigning (ofWords s ws).assignments ∧
        ∀ w ∈ vanishing, w.quoted = false ∧ partsText s w.parts = "" := by
  induction ws with
  | nil => exact ⟨[], [], rfl, .nil, by simp⟩
  | cons w ws ih =>
    cases ha : assignment? s w with
    | none =>
      simp only [ofWords, ha] at h ⊢
      refine ⟨[], w :: ws, rfl, .nil, ?_⟩
      intro v hv
      exact argument?_eq_none_iff.mp (List.filterMap_eq_nil_iff.mp h v hv)
    | some a =>
      simp only [ofWords, ha] at h ⊢
      obtain ⟨assigning, vanishing, rfl, hassigns, hvanish⟩ := ih h
      exact ⟨w :: assigning, vanishing, rfl, .cons (assigns_of_assignment? ha) hassigns, hvanish⟩

theorem ofWords_congr {s s' : Session} (h : partText s' = partText s) : ofWords s' = ofWords s := by
  have ht : partsText s' = partsText s := by
    funext parts
    rw [partsText, partsText, h]
  have ha : assignment? s' = assignment? s := by
    funext w
    rw [assignment?, assignment?, ht]
  have hr : argument? s' = argument? s := by
    funext w
    rw [argument?, argument?, ht]
  funext ws
  rw [ofWords_eq, ofWords_eq, ha, hr]

end Expansion

end CommandShell
