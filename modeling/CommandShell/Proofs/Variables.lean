import CommandShell.Variables
import Mathlib.Data.List.Sort

/-! # Tables that are built in order

Bindings are put into a table one after the other, and the last one of a name stays. A list of
exported variables, which has each name once, gives back the variables it was made from. Assigning
values in order also leaves the last one of each name, and no flag changes.
-/

namespace CommandShell

namespace Table

variable {β : Type}

theorem mem_entries_iff {t : Table β} {e : String × β} :
    e ∈ t.entries ↔ t.get? e.1 = some e.2 :=
  ⟨get?_of_mem, mem_of_get?⟩

theorem ext_get? {s t : Table β} (h : ∀ name, s.get? name = t.get? name) : s = t := by
  have hirrefl : Std.Irrefl fun d e : String × β => d.1 < e.1 :=
    ⟨fun d => String.lt_irrefl d.1⟩
  have hantisymm : Std.Antisymm fun d e : String × β => d.1 < e.1 :=
    ⟨fun d e hd he => absurd (String.lt_trans hd he) (String.lt_irrefl d.1)⟩
  apply ext_entries
  apply s.sorted.eq_of_mem_iff t.sorted
  intro e
  rw [mem_entries_iff, mem_entries_iff, h]

theorem erase_insert_of_get?_eq_none {t : Table β} {name : String} (h : t.get? name = none)
    (b : β) : (t.insert name b).erase name = t := by
  apply ext_get?
  intro m
  rw [get?_erase, get?_insert]
  split
  · next heq => rw [← heq, h]
  · rfl

theorem insert_insert (t : Table β) (name : String) (b b' : β) :
    (t.insert name b).insert name b' = t.insert name b' := by
  apply ext_get?
  intro m
  rw [get?_insert, get?_insert, get?_insert]
  split <;> rfl

theorem insertEntry_of_forall_lt {name : String} {es : List (String × β)}
    (h : ∀ e ∈ es, e.1 < name) (b : β) : insertEntry name b es = es ++ [(name, b)] := by
  induction es with
  | nil => rfl
  | cons e es ih =>
    obtain ⟨he, h⟩ := List.forall_mem_cons.mp h
    have hlt : ¬ name < e.1 := fun hlt => String.lt_irrefl _ (String.lt_trans he hlt)
    have hne : name ≠ e.1 := fun heq => String.lt_irrefl _ (heq ▸ he)
    rw [insertEntry, if_neg hlt, if_neg hne, ih h, List.cons_append]

theorem toList_foldl_insert (t : Table β) (es : List (String × β))
    (h : (t.toList ++ es).Pairwise (·.1 < ·.1)) :
    (es.foldl (fun t e => t.insert e.1 e.2) t).toList = t.toList ++ es := by
  induction es generalizing t with
  | nil => simp
  | cons e es ih =>
    have hlast : ∀ d ∈ t.toList, d.1 < e.1 := fun d hd =>
      (List.pairwise_append.mp h).2.2 d hd e List.mem_cons_self
    have ht : (t.insert e.1 e.2).toList = t.toList ++ [e] := insertEntry_of_forall_lt hlast e.2
    have hes : ((t.insert e.1 e.2).toList ++ es).Pairwise (·.1 < ·.1) := by
      rw [ht]
      simpa using h
    rw [List.foldl_cons, ih _ hes, ht, List.append_assoc, List.singleton_append]

/-- What a list of bindings binds a name to last. -/
def lastBinding? (es : List (String × β)) (name : String) : Option β :=
  (es.filter (·.1 == name)).getLast?.map (·.2)

theorem lastBinding?_append (es es' : List (String × β)) (name : String) :
    lastBinding? (es ++ es') name = (lastBinding? es' name).or (lastBinding? es name) := by
  rw [lastBinding?, List.filter_append, List.getLast?_append, Option.map_or]
  rfl

/-- Later bindings replace earlier ones, and those that the table already had. -/
theorem get?_foldl_insert (t : Table β) (es : List (String × β)) (name : String) :
    (es.foldl (fun t e => t.insert e.1 e.2) t).get? name =
      (lastBinding? es name).or (t.get? name) := by
  induction es generalizing t with
  | nil => rfl
  | cons e es ih =>
    have hfirst : (t.insert e.1 e.2).get? name = (lastBinding? [e] name).or (t.get? name) := by
      by_cases h : e.1 = name <;> simp [lastBinding?, h]
    rw [List.foldl_cons, ih, hfirst, ← Option.or_assoc, ← lastBinding?_append,
      List.singleton_append]

theorem lastBinding?_eq_some_iff {es : List (String × β)} (h : es.Pairwise (·.1 < ·.1))
    {name : String} {b : β} : lastBinding? es name = some b ↔ (name, b) ∈ es := by
  constructor
  · intro hlast
    obtain ⟨e, he, rfl⟩ := Option.map_eq_some_iff.mp hlast
    obtain ⟨he, hn⟩ := List.mem_filter.mp (List.mem_of_getLast? he)
    rwa [← eq_of_beq hn]
  · intro hb
    let t : Table β := ⟨es, h⟩
    have hmem : (name, b) ∈ es.filter (·.1 == name) := by simp [hb]
    have hne := List.ne_nil_of_mem hmem
    obtain ⟨hes, hn⟩ := List.mem_filter.mp (List.getLast_mem hne)
    have hvalue : some ((es.filter (·.1 == name)).getLast hne).2 = some b := by
      rw [← t.get?_of_mem hes, eq_of_beq hn, t.get?_of_mem hb]
    rw [lastBinding?, List.getLast?_eq_some_getLast hne, Option.map_some, hvalue]

end Table

namespace Variables

def exportEntries (bindings : List (String × String)) : List (String × Variable) :=
  bindings.map fun b => (b.1, { value := b.2, exported := true })

def exportAll (vs : Variables) (bindings : List (String × String)) : Variables :=
  bindings.foldl (fun vs b => vs.setExported b.1 b.2) vs

theorem pairwise_exportedList (vs : Variables) : vs.exportedList.Pairwise (·.1 < ·.1) := by
  rw [exportedList, List.pairwise_map]
  exact vs.sorted.filter _

/-- The value of a variable that child processes see. -/
def exportedValue? (vs : Variables) (name : String) : Option String :=
  ((vs.get? name).filter (·.exported)).map (·.value)

theorem exportedValue?_eq_some_iff {vs : Variables} {name value : String} :
    vs.exportedValue? name = some value ↔ (name, value) ∈ vs.exportedList := by
  simp only [exportedValue?, exportedList, Option.map_eq_some_iff, Option.filter_eq_some_iff,
    List.mem_map, List.mem_filter, Prod.mk.injEq]
  constructor
  · rintro ⟨v, ⟨hv, he⟩, rfl⟩
    exact ⟨(name, v), ⟨Table.mem_of_get? hv, he⟩, rfl, rfl⟩
  · rintro ⟨e, ⟨hmem, he⟩, rfl, rfl⟩
    exact ⟨e.2, ⟨Table.get?_of_mem hmem, he⟩, rfl⟩

theorem lastBinding?_exportedList (vs : Variables) (name : String) :
    Table.lastBinding? vs.exportedList name = vs.exportedValue? name := by
  ext value
  rw [Table.lastBinding?_eq_some_iff (pairwise_exportedList vs), exportedValue?_eq_some_iff]

theorem setExported_eq (vs : Variables) (name value : String) :
    vs.setExported name value = vs.insert name { value, exported := true } := by
  have hset : (vs.set name value).get? name =
      some { value, exported := ((vs.get? name).map (·.exported)).getD false } :=
    (Table.get?_insert vs name name _).trans (if_pos rfl)
  rw [setExported, exportName, hset]
  exact Table.insert_insert vs name _ _

theorem toList_exportAll (vs : Variables) :
    (exportAll .empty vs.exportedList).toList = exportEntries vs.exportedList := by
  have hs : (exportEntries vs.exportedList).Pairwise (·.1 < ·.1) := by
    rw [exportEntries, List.pairwise_map]
    exact pairwise_exportedList vs
  have hfold : exportAll .empty vs.exportedList =
      (exportEntries vs.exportedList).foldl (fun t e => t.insert e.1 e.2) .empty := by
    simp only [exportAll, setExported_eq, exportEntries, List.foldl_map]
  rw [hfold]
  exact Table.toList_foldl_insert .empty (exportEntries vs.exportedList) hs

def isExported (vs : Variables) (name : String) : Bool :=
  ((vs.get? name).map (·.exported)).getD false

def setAll (vs : Variables) (bindings : List (String × String)) : Variables :=
  bindings.foldl (fun vs b => vs.set b.1 b.2) vs

theorem get?_set (vs : Variables) (name value m : String) :
    (vs.set name value).get? m =
      if name = m then some { value, exported := vs.isExported name } else vs.get? m :=
  Table.get?_insert vs name m _

theorem get?_setExported (vs : Variables) (name value m : String) :
    (vs.setExported name value).get? m =
      if name = m then some { value, exported := true } else vs.get? m := by
  rw [setExported_eq, Table.get?_insert]

theorem get?_exportName_of_ne {vs : Variables} {name m : String} (h : name ≠ m) :
    (vs.exportName name).get? m = vs.get? m := by
  unfold exportName
  split
  · exact (Table.get?_insert vs name m _).trans (if_neg h)
  · rfl

@[simp] theorem isExported_set (vs : Variables) (name value m : String) :
    (vs.set name value).isExported m = vs.isExported m := by
  rw [isExported, get?_set]
  split
  · next h => simp [h]
  · rfl

/-- Assigning in order leaves the last value of each name, and the flag that the name had. -/
theorem get?_setAll (vs : Variables) (bindings : List (String × String)) (name : String) :
    (vs.setAll bindings).get? name =
      ((Table.lastBinding? bindings name).map fun value =>
        { value, exported := vs.isExported name }).or (vs.get? name) := by
  -- No assignment changes a flag, so that of the variables before all of them counts throughout.
  induction bindings generalizing vs with
  | nil => rfl
  | cons b bindings ih =>
    have hfirst : (vs.set b.1 b.2).get? name =
        ((Table.lastBinding? [b] name).map fun value =>
          { value, exported := vs.isExported name }).or (vs.get? name) := by
      rw [get?_set]
      by_cases h : b.1 = name <;> simp [Table.lastBinding?, h]
    have hlast : Table.lastBinding? (b :: bindings) name =
        (Table.lastBinding? bindings name).or (Table.lastBinding? [b] name) :=
      Table.lastBinding?_append [b] bindings name
    rw [setAll, List.foldl_cons, ← setAll, ih, isExported_set, hfirst, hlast, Option.map_or,
      Option.or_assoc]

end Variables

end CommandShell
