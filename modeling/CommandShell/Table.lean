/-! # Tables

Finite maps from names, kept in order of the names. The order is part of the type, so two tables
with the same bindings are the same table. Names are ordered by their characters, which is also the
order of their UTF-8 forms.
-/

namespace CommandShell

/-- Bindings in strictly increasing order of their names. -/
structure Table (β : Type) where
  entries : List (String × β) := []
  sorted : entries.Pairwise (·.1 < ·.1) := by simp

namespace Table

variable {β : Type}

def empty : Table β := {}

instance : Inhabited (Table β) := ⟨empty⟩

def toList (t : Table β) : List (String × β) := t.entries

def get? (t : Table β) (name : String) : Option β :=
  (t.entries.find? (·.1 == name)).map (·.2)

def contains (t : Table β) (name : String) : Bool := (t.get? name).isSome

/-- Entries with a binding put in its place; a binding of the same name is replaced. -/
def insertEntry (name : String) (b : β) : List (String × β) → List (String × β)
  | [] => [(name, b)]
  | e :: es =>
    if name < e.1 then (name, b) :: e :: es
    else if name = e.1 then (name, b) :: es
    else e :: insertEntry name b es

theorem mem_insertEntry {name : String} {b : β} {e : String × β} {es : List (String × β)}
    (h : e ∈ insertEntry name b es) : e = (name, b) ∨ e ∈ es := by
  induction es with
  | nil => exact .inl (by simpa [insertEntry] using h)
  | cons d es ih =>
    simp only [insertEntry] at h
    split at h
    · simpa using h
    · split at h
      · rcases List.mem_cons.mp h with h | h
        · exact .inl h
        · exact .inr (List.mem_cons_of_mem _ h)
      · rcases List.mem_cons.mp h with h | h
        · exact .inr (h ▸ List.mem_cons_self)
        · exact (ih h).imp_right (List.mem_cons_of_mem _)

theorem lt_of_not_lt_of_ne {a b : String} (h : ¬ a < b) (hne : a ≠ b) : b < a :=
  Std.lt_of_le_of_ne (String.not_lt.mp h) (Ne.symm hne)

theorem sorted_insertEntry (name : String) (b : β) {es : List (String × β)}
    (h : es.Pairwise (·.1 < ·.1)) : (insertEntry name b es).Pairwise (·.1 < ·.1) := by
  induction es with
  | nil => simp [insertEntry]
  | cons d es ih =>
    rw [List.pairwise_cons] at h
    simp only [insertEntry]
    split
    · next hlt =>
      refine List.pairwise_cons.mpr ⟨fun e he => ?_, List.pairwise_cons.mpr h⟩
      rcases List.mem_cons.mp he with rfl | he
      · exact hlt
      · exact String.lt_trans hlt (h.1 e he)
    · next hlt =>
      split
      · next heq => exact List.pairwise_cons.mpr ⟨fun e he => heq ▸ h.1 e he, h.2⟩
      · next hne =>
        refine List.pairwise_cons.mpr ⟨fun e he => ?_, ih h.2⟩
        rcases mem_insertEntry he with rfl | he
        · exact lt_of_not_lt_of_ne hlt hne
        · exact h.1 e he

def insert (t : Table β) (name : String) (b : β) : Table β :=
  ⟨insertEntry name b t.entries, sorted_insertEntry name b t.sorted⟩

def erase (t : Table β) (name : String) : Table β :=
  ⟨t.entries.filter (·.1 != name), t.sorted.filter _⟩

theorem ext_entries {s t : Table β} (h : s.entries = t.entries) : s = t := by
  cases s; cases t; cases h; rfl

theorem find?_insertEntry (name m : String) (b : β) (es : List (String × β)) :
    ((insertEntry name b es).find? (·.1 == m)).map (·.2)
      = if name = m then some b else (es.find? (·.1 == m)).map (·.2) := by
  induction es with
  | nil => by_cases h : name = m <;> simp [insertEntry, h]
  | cons d es ih =>
    simp only [insertEntry]
    split
    · by_cases h : name = m <;> simp [h]
    · split
      · next heq => by_cases h : name = m <;> simp_all
      · next hne =>
        by_cases hd : d.1 = m
        · have h : name ≠ m := fun h => hne (h.trans hd.symm)
          simp [hd, h]
        · simpa [hd] using ih

@[simp] theorem get?_insert (t : Table β) (name m : String) (b : β) :
    (t.insert name b).get? m = if name = m then some b else t.get? m :=
  find?_insertEntry name m b t.entries

@[simp] theorem get?_empty (m : String) : (empty : Table β).get? m = none := rfl

theorem find?_filter_ne (name m : String) (es : List (String × β)) :
    (((es.filter (·.1 != name)).find? (·.1 == m)).map (·.2))
      = if name = m then none else (es.find? (·.1 == m)).map (·.2) := by
  induction es with
  | nil => simp
  | cons d es ih =>
    by_cases hd : d.1 = name
    · by_cases h : name = m
      · simp_all
      · simpa [hd, h] using ih
    · by_cases hm : d.1 = m
      · have h : name ≠ m := fun h => hd (hm.trans h.symm)
        have hd : m ≠ name := Ne.symm h
        simp [hd, hm, h]
      · simpa [hd, hm] using ih

@[simp] theorem get?_erase (t : Table β) (name m : String) :
    (t.erase name).get? m = if name = m then none else t.get? m :=
  find?_filter_ne name m t.entries

theorem mem_insert {t : Table β} {name : String} {b : β} {e : String × β}
    (h : e ∈ (t.insert name b).toList) : e = (name, b) ∨ e ∈ t.toList :=
  mem_insertEntry h

theorem mem_erase {t : Table β} {name : String} {e : String × β}
    (h : e ∈ (t.erase name).toList) : e ∈ t.toList :=
  (List.mem_filter.mp h).1

theorem mem_of_get? {t : Table β} {name : String} {b : β} (h : t.get? name = some b) :
    (name, b) ∈ t.entries := by
  obtain ⟨e, he, rfl⟩ := Option.map_eq_some_iff.mp h
  have hn : e.1 = name := by simpa using List.find?_some he
  exact hn ▸ List.mem_of_find?_eq_some he

theorem get?_of_mem {t : Table β} {e : String × β} (h : e ∈ t.entries) :
    t.get? e.1 = some e.2 := by
  obtain ⟨es, hs⟩ := t
  simp only [get?] at h ⊢
  induction es with
  | nil => cases h
  | cons d es ih =>
    rw [List.pairwise_cons] at hs
    rcases List.mem_cons.mp h with rfl | h
    · simp
    · have : d.1 ≠ e.1 := fun heq => String.lt_irrefl _ (heq ▸ hs.1 e h)
      simpa [this] using ih hs.2 h

end Table

end CommandShell
