import CommandShell.Path
import Mathlib.Tactic.MkIffOfInductiveProp

/-! # Cutting and joining paths

Cutting a text at a separator is undone by joining the pieces. A path that is not absolute amounts
to one component if nothing follows that component but slashes and names that stay where they are.
-/

namespace CommandShell.Path

theorem cutAll_eq_splitOn {α : Type} [DecidableEq α] (separator : α) (as : List α) :
    cutAll separator as = as.splitOn separator := by
  induction as with
  | nil => rw [cutAll, List.splitOn_nil]
  | cons a as ih =>
    obtain ⟨l, ls, hcut⟩ := List.exists_cons_of_ne_nil (List.splitOn_ne_nil separator as)
    rw [cutAll, ih, List.splitOn_cons_eq_if_modifyHead, hcut]
    simp only [beq_iff_eq, List.modifyHead_cons]

theorem not_mem_of_mem_cutAll {α : Type} [DecidableEq α] {separator : α} {as l : List α}
    (h : l ∈ cutAll separator as) : separator ∉ l := by
  induction as generalizing l with
  | nil => simp_all [cutAll]
  | cons a as ih =>
    rw [cutAll] at h
    split at h
    · rcases List.mem_cons.mp h with rfl | h
      · exact List.not_mem_nil
      · exact ih h
    · next ha =>
      split at h
      · simp_all [Ne.symm ha]
      · next m ms hcut =>
        rw [hcut] at ih
        rcases List.mem_cons.mp h with rfl | h
        · exact List.not_mem_cons_of_ne_of_not_mem (Ne.symm ha) (ih List.mem_cons_self)
        · exact ih (List.mem_cons_of_mem m h)

section Cut

variable {separator : Char} {mark : String}

theorem cut_eq_splitOn (separator : Char) (s : String) :
    cut separator s = (s.toList.splitOn separator).map String.ofList := by
  rw [cut, cutAll_eq_splitOn]

theorem cut_ne_nil (separator : Char) (s : String) : cut separator s ≠ [] := by
  simp [cut_eq_splitOn, List.splitOn_ne_nil]

theorem not_mem_of_mem_cut {s piece : String} (h : piece ∈ cut separator s) :
    separator ∉ piece.toList := by
  obtain ⟨l, hl, rfl⟩ := List.mem_map.mp h
  rw [String.toList_ofList]
  exact not_mem_of_mem_cutAll hl

theorem cut_intercalate (hmark : mark.toList = [separator]) {pieces : List String}
    (hne : pieces ≠ []) (h : ∀ piece ∈ pieces, separator ∉ piece.toList) :
    cut separator (mark.intercalate pieces) = pieces := by
  have hpieces : ∀ l ∈ pieces.map String.toList, separator ∉ l := by
    simpa using h
  have hlists : pieces.map String.toList ≠ [] := by
    simpa using hne
  rw [cut_eq_splitOn, String.toList_intercalate, hmark,
    List.splitOn_intercalate separator hpieces hlists, List.map_map]
  simp

theorem intercalate_cut (hmark : mark.toList = [separator]) (s : String) :
    mark.intercalate (cut separator s) = s := by
  apply String.toList_inj.mp
  have hpieces : (cut separator s).map String.toList = s.toList.splitOn separator := by
    simp [cut_eq_splitOn, List.map_map, Function.comp_def]
  rw [String.toList_intercalate, hmark, hpieces, List.intercalate_splitOn]

theorem cut_append (hmark : mark.toList = [separator]) (s t : String) :
    cut separator (s ++ mark ++ t) = cut separator s ++ cut separator t := by
  simp only [cut_eq_splitOn, String.toList_append, hmark, List.append_assoc,
    List.singleton_append, List.splitOn_append_cons_self, List.map_append]

end Cut

theorem names_ne_nil (path : String) : names path ≠ [] := cut_ne_nil '/' path

theorem names_intercalate {ns : List String} (hne : ns ≠ [])
    (h : ∀ n ∈ ns, '/' ∉ n.toList) : names ("/".intercalate ns) = ns :=
  cut_intercalate rfl hne h

theorem intercalate_names (path : String) : "/".intercalate (names path) = path :=
  intercalate_cut rfl path

theorem not_mem_intercalate {c : Char} (hc : c ≠ '/') {ns : List String}
    (h : ∀ n ∈ ns, c ∉ n.toList) : c ∉ ("/".intercalate ns).toList := by
  induction ns with
  | nil => simp
  | cons n ns ih =>
    obtain ⟨hn, hns⟩ := List.forall_mem_cons.mp h
    have hrest := ih hns
    cases ns with
    | nil => simpa using hn
    | cons => simp_all [String.intercalate_cons_cons]

@[mk_iff]
structure IsComponent (name : String) : Prop where
  ne_empty : name ≠ ""
  ne_here : name ≠ "."
  ne_above : name ≠ ".."
  slash : '/' ∉ name.toList

instance (name : String) : Decidable (IsComponent name) :=
  decidable_of_iff _ (isComponent_iff name).symm

/-- A path that is one component, and what follows it leads nowhere else. -/
structure Spells (path component : String) : Prop where
  isComponent : IsComponent component
  exists_rest : ∃ rest : List String, path = "/".intercalate (component :: rest) ∧
    ∀ n ∈ rest, n = "" ∨ n = "."

variable {path component : String}

theorem IsComponent.spells (h : IsComponent component) : Spells component component where
  isComponent := h
  exists_rest := ⟨[], by simp⟩

theorem Spells.exists_names (h : Spells path component) :
    ∃ rest, names path = component :: rest ∧ ∀ n ∈ rest, n = "" ∨ n = "." := by
  obtain ⟨rest, rfl, hrest⟩ := h.exists_rest
  refine ⟨rest, names_intercalate (List.cons_ne_nil _ _) ?_, hrest⟩
  intro n hn
  rcases List.mem_cons.mp hn with rfl | hn
  · exact h.isComponent.slash
  · rcases hrest n hn with rfl | rfl <;> decide

theorem spells_iff_of_names {n : String} {ns : List String} (hnames : names path = n :: ns) :
    Spells path component ↔
      n = component ∧ n ≠ "" ∧ n ≠ "." ∧ n ≠ ".." ∧ ∀ m ∈ ns, m = "" ∨ m = "." := by
  constructor
  · intro h
    obtain ⟨rest, hrest, hstay⟩ := h.exists_names
    obtain ⟨rfl, rfl⟩ := List.cons.inj (hnames.symm.trans hrest)
    exact ⟨rfl, h.isComponent.ne_empty, h.isComponent.ne_here, h.isComponent.ne_above, hstay⟩
  · rintro ⟨rfl, hempty, hhere, habove, hstay⟩
    have hmem : n ∈ names path := by simp [hnames]
    have hslash : '/' ∉ n.toList := not_mem_of_mem_cut hmem
    exact ⟨⟨hempty, hhere, habove, hslash⟩, ns, by rw [← hnames, intercalate_names], hstay⟩

theorem isAbsolute_iff : isAbsolute path ↔ ∃ cs, path.toList = '/' :: cs := by
  simp [isAbsolute, List.head?_eq_some_iff]

theorem exists_names_of_not_isAbsolute (h : ¬ isAbsolute path) (hne : path ≠ "") :
    ∃ n ns, n ≠ "" ∧ names path = n :: ns := by
  obtain ⟨n, ns, hnames⟩ := List.exists_cons_of_ne_nil (names_ne_nil path)
  refine ⟨n, ns, ?_, hnames⟩
  rintro rfl
  have hpath := intercalate_names path
  rw [hnames] at hpath
  cases ns with
  | nil => exact hne (by simpa using hpath.symm)
  | cons m ms =>
    rw [String.intercalate_cons_cons] at hpath
    exact h (isAbsolute_iff.mpr ⟨("/".intercalate (m :: ms)).toList, by simp [← hpath]⟩)

theorem Spells.not_isAbsolute (h : Spells path component) : ¬ isAbsolute path := by
  intro habsolute
  obtain ⟨rest, hnames, -⟩ := h.exists_names
  obtain ⟨cs, hcs⟩ := isAbsolute_iff.mp habsolute
  have hfirst : names path = "" :: (cutAll '/' cs).map String.ofList := by
    simp [names, cut, cutAll, hcs]
  exact h.isComponent.ne_empty (List.cons.inj (hnames.symm.trans hfirst)).1

theorem Spells.ne_empty (h : Spells path component) : path ≠ "" := by
  rintro rfl
  obtain ⟨rest, hnames, -⟩ := h.exists_names
  exact h.isComponent.ne_empty (List.cons.inj hnames).1.symm

/-- What the names after the first one add to the components. -/
theorem filter_names_eq_nil_iff {ns : List String} :
    (ns.filter fun n => n != "" && n != ".") = [] ↔ ∀ n ∈ ns, n = "" ∨ n = "." := by
  simp [List.filter_eq_nil_iff, Decidable.or_iff_not_imp_left]

theorem components_ne_nil (h : ¬ isAbsolute path) (hne : path ≠ "") : components path ≠ [] := by
  obtain ⟨n, ns, hn, hnames⟩ := exists_names_of_not_isAbsolute h hne
  simp [components, hnames, hn]

/-- The single component of a path is the one that it spells. -/
theorem singleName?_eq_some_iff (h : ¬ isAbsolute path) (hne : path ≠ "") :
    singleName? path = some component ↔ Spells path component := by
  obtain ⟨n, ns, hn, hnames⟩ := exists_names_of_not_isAbsolute h hne
  rw [spells_iff_of_names hnames, ← filter_names_eq_nil_iff]
  simp only [singleName?, components, hnames, if_neg hn]
  cases hrest : ns.filter fun n => n != "" && n != "." with
  | cons => simp
  | nil => by_cases hhere : n = "." <;> by_cases habove : n = ".." <;> simp [hhere, habove, hn]

@[simp] theorem join_empty (path : String) : join "" path = path := by
  simp [join, below]

theorem slash_mem_join {directory : String} (h : directory ≠ "") (path : String) :
    '/' ∈ (join directory path).toList := by
  rw [join, String.toList_ofList, below]
  split
  · next hhead => exact List.mem_of_head? hhead
  · split
    · next hlast =>
      have hlast : directory.toList.getLast? = some '/' := by simpa [h] using hlast
      exact List.mem_append_left _ (List.mem_of_getLast? hlast)
    · simp

end CommandShell.Path
