import CommandShell.Proofs.Text.Utf8
import CommandShell.Proofs.Variables
import Mathlib.Data.List.Induction
import Mathlib.Logic.Function.Basic

/-! # Changing variables

A table of variables stands for a finite map from names to values with flags, and every sequence of
changes finds and leaves what it does in the map. A variable is exported once a change has exported
it, until it is removed.
-/

namespace CommandShell.Variables

/-- What each name is bound to. -/
abbrev Bindings := String → Option Variable

namespace Bindings

def empty : Bindings := fun _ => none

/-- Makes a change and says what it found. -/
def apply (m : Bindings) : Change → Found × Bindings
  | .set name value =>
    (.value ((m name).map (·.value)),
      Function.update m name (some { value, exported := (m name).any (·.exported) }))
  | .setExported name value =>
    (.value ((m name).map (·.value)),
      Function.update m name (some { value, exported := true }))
  | .exportName name =>
    (.present (m name).isSome,
      Function.update m name ((m name).map fun v => { v with exported := true }))
  | .unset name => (.present (m name).isSome, Function.update m name none)

def applyAll (m : Bindings) : List Change → List Found × Bindings
  | [] => ([], m)
  | c :: cs => ((m.apply c).1 :: ((m.apply c).2.applyAll cs).1, ((m.apply c).2.applyAll cs).2)

end Bindings

def applyAll (vs : Variables) : List Change → List Found × Variables
  | [] => ([], vs)
  | c :: cs =>
    ((vs.apply c).1 :: (applyAll (vs.apply c).2 cs).1, (applyAll (vs.apply c).2 cs).2)

/-- The variables after changes that start without any. -/
def after (changes : List Change) : Variables := (applyAll .empty changes).2

def bindings (vs : Variables) : Bindings := vs.get?

section Refinement

variable (vs : Variables)

theorem bindings_insert (name : String) (v : Variable) :
    bindings (vs.insert name v) = Function.update vs.bindings name (some v) := by
  funext m
  simp only [bindings, Table.get?_insert, Function.update_apply, eq_comm]

theorem bindings_erase (name : String) :
    bindings (vs.erase name) = Function.update vs.bindings name none := by
  funext m
  simp only [bindings, Table.get?_erase, Function.update_apply, eq_comm]

theorem bindings_exportName (name : String) :
    bindings (vs.exportName name) = Function.update vs.bindings name
      ((vs.bindings name).map fun v => { v with exported := true }) := by
  cases hv : vs.get? name with
  | none =>
    have hexport : vs.exportName name = vs := by rw [exportName, hv]
    have hmap : (vs.bindings name).map (fun v => { v with exported := true }) =
        vs.bindings name := by
      rw [bindings, hv, Option.map_none]
    rw [hexport, hmap, Function.update_eq_self]
  | some v =>
    have hexport : vs.exportName name = vs.insert name { v with exported := true } := by
      rw [exportName, hv]
    rw [hexport, bindings_insert, bindings, hv, Option.map_some]

/-- A change does to a table what it does to the map that the table stands for. -/
theorem apply_bindings (c : Change) :
    vs.bindings.apply c = ((vs.apply c).1, (vs.apply c).2.bindings) := by
  cases c with
  | set name value =>
    have hflag : ((vs.get? name).map (·.exported)).getD false =
        (vs.get? name).any (·.exported) := by
      cases vs.get? name <;> rfl
    rw [apply, set, hflag, bindings_insert]
    rfl
  | setExported name value =>
    rw [apply, setExported_eq, bindings_insert]
    rfl
  | exportName name =>
    rw [apply, bindings_exportName]
    rfl
  | unset name =>
    rw [apply, bindings_erase]
    rfl

theorem applyAll_bindings (changes : List Change) :
    vs.bindings.applyAll changes = ((vs.applyAll changes).1, (vs.applyAll changes).2.bindings) := by
  induction changes generalizing vs with
  | nil => rfl
  | cons c cs ih => rw [Bindings.applyAll, applyAll, apply_bindings, ih]

end Refinement

section Flags

/-- Whether a change exports a name that the variables have. -/
def Change.Exports (vs : Variables) (name : String) : Change → Prop
  | .set _ _ | .unset _ => False
  | .setExported n _ => n = name
  | .exportName n => n = name ∧ vs.contains name

def Change.Assigns (name : String) : Change → Prop
  | .set n _ | .setExported n _ => n = name
  | .exportName _ | .unset _ => False

theorem applyAll_append (vs : Variables) (cs ds : List Change) :
    (vs.applyAll (cs ++ ds)).2 = ((vs.applyAll cs).2.applyAll ds).2 := by
  induction cs generalizing vs with
  | nil => rfl
  | cons c cs ih => exact ih (vs.apply c).2

theorem after_append (cs ds : List Change) : after (cs ++ ds) = ((after cs).applyAll ds).2 :=
  applyAll_append .empty cs ds

theorem after_concat (cs : List Change) (c : Change) : after (cs ++ [c]) = ((after cs).apply c).2 :=
  after_append cs [c]

theorem isExported_eq_true_iff {vs : Variables} {name : String} :
    vs.isExported name ↔ ∃ v, vs.bindings name = some v ∧ v.exported := by
  rw [isExported, bindings]
  cases vs.get? name <;> simp

/-- A change sets the flag of the name that it exports, and only removing a variable takes a flag
away. -/
theorem isExported_apply (vs : Variables) (c : Change) (name : String) :
    (vs.apply c).2.isExported name ↔
      c.Exports vs name ∨ vs.isExported name ∧ c ≠ .unset name := by
  cases c with
  | set n value => simp [apply, Change.Exports]
  | setExported n value =>
    by_cases h : n = name <;> simp [apply, Change.Exports, isExported, get?_setExported, h]
  | exportName n =>
    have hpresent : vs.contains name = (vs.bindings name).isSome := rfl
    simp only [isExported_eq_true_iff, apply, bindings_exportName, Function.update_apply,
      Change.Exports, hpresent]
    by_cases h : name = n
    · subst h
      cases vs.bindings name <;> simp
    · simp [h, Ne.symm h]
  | unset n =>
    by_cases h : n = name <;> simp [apply, Change.Exports, isExported, Table.get?_erase, h]

/-- A variable is exported exactly if a change has exported it and none has removed it since. -/
theorem isExported_after (changes : List Change) (name : String) :
    (after changes).isExported name ↔
      ∃ before c rest, changes = before ++ c :: rest ∧ c.Exports (after before) name ∧
        .unset name ∉ rest := by
  induction changes using List.reverseRecOn with
  | nil => simp [after, applyAll, isExported]
  | append_singleton cs c ih =>
    rw [after_concat, isExported_apply, ih]
    constructor
    · rintro (h | ⟨⟨before, d, rest, rfl, hd, hrest⟩, hc⟩)
      · exact ⟨cs, c, [], rfl, h, List.not_mem_nil⟩
      · refine ⟨before, d, rest ++ [c], by simp, hd, ?_⟩
        simp [hrest, Ne.symm hc]
    · rintro ⟨before, d, rest, heq, hd, hrest⟩
      rcases List.eq_nil_or_concat rest with rfl | ⟨rest, e, rfl⟩
      · obtain ⟨rfl, hlast⟩ := List.append_inj' heq rfl
        obtain rfl := List.singleton_inj.mp hlast
        exact .inl hd
      · rw [List.concat_eq_append] at heq hrest
        rw [← List.cons_append, ← List.append_assoc] at heq
        obtain ⟨rfl, hlast⟩ := List.append_inj' heq rfl
        obtain rfl := List.singleton_inj.mp hlast
        simp only [List.mem_append, List.mem_singleton, not_or] at hrest
        exact .inr ⟨⟨before, d, rest, rfl, hd, hrest.1⟩, Ne.symm hrest.2⟩

theorem get?_applyAll_of_not_assigns {vs : Variables} {name : String} (h : vs.get? name = none)
    {changes : List Change} (hc : ∀ c ∈ changes, ¬ c.Assigns name) :
    (vs.applyAll changes).2.get? name = none := by
  induction changes generalizing vs with
  | nil => exact h
  | cons c cs ih =>
    obtain ⟨hfirst, hrest⟩ := List.forall_mem_cons.mp hc
    refine ih ?_ hrest
    cases c with
    | set n value => exact (get?_set vs n value name).trans ((if_neg hfirst).trans h)
    | setExported n value =>
      exact (get?_setExported vs n value name).trans ((if_neg hfirst).trans h)
    | exportName n =>
      have hn := congrFun (bindings_exportName vs n) name
      by_cases heq : name = n
      · subst heq
        rw [Function.update_self, bindings, bindings, h] at hn
        exact hn
      · rw [Function.update_of_ne heq] at hn
        exact hn.trans h
    | unset n => rw [apply, Table.get?_erase, h, ite_self]

theorem get?_after_set_of_unset (before rest : List Change) {name : String}
    (h : ∀ c ∈ rest, ¬ c.Assigns name) (value : String) :
    (after (before ++ .unset name :: rest ++ [.set name value])).get? name =
      some { value, exported := false } := by
  have hnone : (after (before ++ .unset name :: rest)).get? name = none := by
    rw [List.append_cons, after_append, after_concat]
    refine get?_applyAll_of_not_assigns ?_ h
    rw [apply, Table.get?_erase, if_pos rfl]
  rw [after_concat, apply, get?_set, if_pos rfl, isExported, hnone]
  rfl

end Flags

section Listing

/-- The listings of a table show what a map binds: all bound names once and in order of their
bytes, and the exported ones among them. -/
structure Shows (vs : Variables) (m : Bindings) : Prop where
  value : ∀ name, vs.value? name = (m name).map (·.value)
  increasing : (vs.toList.map (·.1)).Pairwise fun a b => Utf8.encode a < Utf8.encode b
  bound : ∀ name v, (name, v) ∈ vs.toList ↔ m name = some v
  once : ∀ name, (vs.toList.map (·.1)).count name = if (m name).isSome then 1 else 0
  sublist : vs.exportedList.Sublist (vs.toList.map fun e => (e.1, e.2.value))
  exported : ∀ name value,
    (name, value) ∈ vs.exportedList ↔ m name = some { value, exported := true }

theorem mem_toList_iff {vs : Variables} {name : String} {v : Variable} :
    (name, v) ∈ vs.toList ↔ vs.bindings name = some v :=
  Table.mem_entries_iff

theorem mem_names_iff {vs : Variables} {name : String} :
    name ∈ vs.toList.map (·.1) ↔ (vs.bindings name).isSome := by
  rw [List.mem_map, Option.isSome_iff_exists]
  constructor
  · rintro ⟨⟨n, v⟩, he, rfl⟩
    exact ⟨v, mem_toList_iff.mp he⟩
  · rintro ⟨v, hv⟩
    exact ⟨(name, v), mem_toList_iff.mpr hv, rfl⟩

theorem pairwise_names (vs : Variables) : (vs.toList.map (·.1)).Pairwise (· < ·) := by
  rw [List.pairwise_map]
  exact vs.sorted

theorem shows_bindings (vs : Variables) : vs.Shows vs.bindings where
  value _ := rfl
  increasing := vs.pairwise_names.imp Utf8.encode_lt
  bound _ _ := mem_toList_iff
  once name := by
    have hnodup : (vs.toList.map (·.1)).Nodup :=
      vs.pairwise_names.imp fun hlt => String.ne_of_lt hlt
    rw [hnodup.count]
    simp only [mem_names_iff]
  sublist := List.Sublist.map _ List.filter_sublist
  exported name value := by
    rw [← exportedValue?_eq_some_iff, exportedValue?, bindings]
    cases vs.get? name with
    | none => simp
    | some v =>
      obtain ⟨value', exported⟩ := v
      cases exported <;> simp

end Listing

/-- Every sequence of changes finds in the table what it finds in the map from names to values and
flags, and the table shows that map at its end. A variable is exported exactly if a change exported
it and none has removed it since, and it is not when it is set again after it was removed. -/
theorem refines_applyAll (changes : List Change) :
    let m := (Bindings.empty.applyAll changes).2
    (applyAll .empty changes).1 = (Bindings.empty.applyAll changes).1 ∧ (after changes).Shows m ∧
      (∀ name, (∃ v, m name = some v ∧ v.exported) ↔
        ∃ before c rest, changes = before ++ c :: rest ∧ c.Exports (after before) name ∧
          .unset name ∉ rest) ∧
      ∀ before rest name value, changes = before ++ .unset name :: rest ++ [.set name value] →
        (∀ c ∈ rest, ¬ c.Assigns name) → m name = some { value, exported := false } := by
  have hm : Bindings.empty.applyAll changes =
      ((applyAll .empty changes).1, (after changes).bindings) :=
    applyAll_bindings .empty changes
  rw [hm]
  refine ⟨rfl, shows_bindings _, fun name => ?_, ?_⟩
  · exact isExported_eq_true_iff.symm.trans (isExported_after changes name)
  · rintro before rest name value rfl h
    exact get?_after_set_of_unset before rest h value

theorem refines_applyAll_unset :
    let before : List Change := [.setExported "A" "1", .set "A" "2"]
    let rest : List Change := [.exportName "A", .set "B" ""]
    let changes := before ++ .unset "A" :: rest ++ [.set "A" "3"]
    (∀ c ∈ rest, ¬ c.Assigns "A") ∧
      (applyAll .empty changes).1 =
        [.value none, .value (some "1"), .present true, .present false, .value none, .value none] ∧
      (Bindings.empty.applyAll changes).2 "A" = some { value := "3", exported := false } := by
  intro before rest changes
  have hrest : ∀ c ∈ rest, ¬ c.Assigns "A" := by simp [rest, Change.Assigns]
  obtain ⟨hfound, -, -, hunset⟩ := refines_applyAll changes
  exact ⟨hrest, hfound.trans (by decide +kernel), hunset before rest "A" "3" rfl hrest⟩

end CommandShell.Variables
