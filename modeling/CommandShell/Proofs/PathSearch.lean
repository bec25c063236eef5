import CommandShell.PathSearch
import CommandShell.Proofs.Path

/-! # Finding a program

A name that is a component of its own is looked up in one directory after the other. The first
executable path is taken, and the first that is there at all decides if none is. A name with a slash
is a path of its own, unless nothing but slashes and `.` names follow its only component: then it is
looked up as that component.
-/

namespace CommandShell.PathSearch

open CommandShell.Path

variable {access : String → Access} {paths : List String} {search name component path : String}

def IsFirst (P : String → Prop) (paths : List String) (path : String) : Prop :=
  ∃ before after, paths = before ++ path :: after ∧ P path ∧ ∀ p ∈ before, ¬ P p

theorem find?_eq_some_iff_isFirst {P : String → Prop} [DecidablePred P] :
    paths.find? (fun p => decide (P p)) = some path ↔ IsFirst P paths path := by
  rw [List.find?_eq_some_iff_append]
  constructor
  · rintro ⟨hpath, before, after, hpaths, hbefore⟩
    exact ⟨before, after, hpaths, by simpa using hpath, by simpa using hbefore⟩
  · rintro ⟨before, after, hpaths, hpath, hbefore⟩
    exact ⟨by simpa using hpath, before, after, hpaths, by simpa using hbefore⟩

theorem check_eq_found_iff :
    check access name = .found path ↔ path = name ∧ access path = .executable := by
  unfold check
  constructor
  · intro h
    split at h
    · next hexecutable =>
      obtain rfl := Resolution.found.inj h
      exact ⟨rfl, hexecutable⟩
    · cases h
    · cases h
  · rintro ⟨rfl, hexecutable⟩
    rw [hexecutable]

/-- Looking at each path once is looking for an executable one, and then for one that is there. -/
theorem first_eq (access : String → Access) (paths : List String) :
    first access paths =
      match paths.find? (fun p => decide (access p = .executable)),
          paths.find? (fun p => decide (access p ≠ .missing)) with
      | some path, _ => .found path
      | none, some path => .notExecutable path
      | none, none => .notFound := by
  induction paths with
  | nil => rfl
  | cons path paths ih =>
    rw [first, ih]
    cases h : access path with
    | executable => simp [h]
    | missing => simp [h]
    | denied =>
      simp only [List.find?_cons, h, reduceCtorEq, decide_false, decide_true, ne_eq,
        not_false_eq_true]
      cases paths.find? fun p => decide (access p = .executable) with
      | some executable => rfl
      | none => cases paths.find? fun p => decide (access p ≠ .missing) <;> rfl

theorem first_eq_found_iff :
    first access paths = .found path ↔ IsFirst (access · = .executable) paths path := by
  rw [first_eq, ← find?_eq_some_iff_isFirst]
  cases paths.find? fun p => decide (access p = .executable) with
  | some executable => simp
  | none => cases paths.find? fun p => decide (access p ≠ .missing) <;> simp

theorem first_eq_notExecutable_iff :
    first access paths = .notExecutable path ↔
      (∀ p ∈ paths, access p ≠ .executable) ∧ IsFirst (access · ≠ .missing) paths path := by
  have hnone : paths.find? (fun p => decide (access p = .executable)) = none ↔
      ∀ p ∈ paths, access p ≠ .executable := by simp
  rw [first_eq, ← find?_eq_some_iff_isFirst, ← hnone]
  cases paths.find? fun p => decide (access p = .executable) with
  | some executable => simp
  | none => cases paths.find? fun p => decide (access p ≠ .missing) <;> simp

theorem first_eq_notFound_iff :
    first access paths = .notFound ↔ ∀ p ∈ paths, access p = .missing := by
  have hnone : paths.find? (fun p => decide (access p ≠ .missing)) = none ↔
      ∀ p ∈ paths, access p = .missing := by simp
  rw [first_eq]
  cases hexecutable : paths.find? fun p => decide (access p = .executable) with
  | some executable =>
    have hmem := List.mem_of_find?_eq_some hexecutable
    have haccess := List.find?_some hexecutable
    refine iff_of_false nofun fun hmissing => ?_
    simp [hmissing executable hmem] at haccess
  | none =>
    rw [← hnone]
    cases paths.find? fun p => decide (access p ≠ .missing) <;> simp

theorem first_append (access : String → Access) (xs ys : List String) :
    first access (xs ++ ys) =
      match first access xs, first access ys with
      | .found path, _ => .found path
      | .notExecutable _, .found path => .found path
      | .notExecutable path, _ => .notExecutable path
      | .notFound, ended => ended := by
  induction xs with
  | nil => rfl
  | cons x xs ih =>
    rw [List.cons_append, first, first, ih]
    cases access x with
    | executable => rfl
    | missing => rfl
    | denied => cases first access xs <;> cases first access ys <;> rfl

theorem candidates_append (search more name : String) :
    candidates (search ++ ":" ++ more) name = candidates search name ++ candidates more name := by
  rw [candidates, cut_append rfl, List.map_append]
  rfl

theorem resolve_of_spells (h : Spells name component) (access : String → Access)
    (search : String) :
    resolve access search name = first access (candidates search component) := by
  have hcomponents := components_ne_nil h.not_isAbsolute h.ne_empty
  have hsingle := (singleName?_eq_some_iff h.not_isAbsolute h.ne_empty).mpr h
  simp [resolve, h.not_isAbsolute, hcomponents, hsingle]

theorem resolve_of_not_spells (hne : name ≠ "") (h : ∀ component, ¬ Spells name component)
    (access : String → Access) (search : String) :
    resolve access search name = check access name := by
  rw [resolve]
  split
  · rfl
  · next hrelative =>
    have hsingle : singleName? name = none :=
      Option.eq_none_iff_forall_ne_some.mpr fun component hsome =>
        h component ((singleName?_eq_some_iff hrelative hne).mp hsome)
    rw [if_neg (components_ne_nil hrelative hne), hsingle]

/-- A component is looked up in the directories of the search list, one after the other. The first
executable candidate is found; if none is, the first that is there; else nothing. More directories
behind them leave a program that was found, and one that cannot be run gives way to none but a
program. -/
theorem resolve_component (h : IsComponent name) (access : String → Access) (search : String) :
    let entries := (search.toList.splitOn ':').map String.ofList
    let candidates := entries.map fun directory => join directory name
    (∀ path, resolve access search name = .found path ↔
      IsFirst (access · = .executable) candidates path) ∧
    (∀ path, resolve access search name = .notExecutable path ↔
      (∀ p ∈ candidates, access p ≠ .executable) ∧
        IsFirst (access · ≠ .missing) candidates path) ∧
    (resolve access search name = .notFound ↔ ∀ p ∈ candidates, access p = .missing) ∧
    ∀ more path,
      (resolve access search name = .found path →
        resolve access (search ++ ":" ++ more) name = .found path) ∧
      (resolve access search name = .notExecutable path →
        resolve access (search ++ ":" ++ more) name = .notExecutable path ∨
          ∃ program, resolve access (search ++ ":" ++ more) name = .found program) := by
  intro entries candidates
  have hresolve := resolve_of_spells h.spells access
  have hcandidates : PathSearch.candidates search name = candidates := by
    rw [PathSearch.candidates, cut_eq_splitOn]
  rw [hresolve search, hcandidates]
  refine ⟨fun path => first_eq_found_iff, fun path => first_eq_notExecutable_iff,
    first_eq_notFound_iff, fun more path => ?_⟩
  rw [hresolve, candidates_append, first_append, hcandidates]
  constructor
  · intro hfound
    rw [hfound]
  · intro hdenied
    rw [hdenied]
    cases first access (PathSearch.candidates more name) with
    | found program => exact .inr ⟨program, rfl⟩
    | notExecutable => exact .inl rfl
    | notFound => exact .inl rfl

theorem resolve_component_denied :
    let access (path : String) : Access :=
      if path = "/a/tool" then .denied else if path = "tool" then .executable else .missing
    IsComponent "tool" ∧
      resolve access "/b:/a/:/b" "tool" = .notExecutable "/a/tool" ∧
      resolve access ("/b:/a/:/b" ++ ":" ++ "") "tool" = .found "tool" ∧
      ∀ more, resolve access ("/b:/a/:/b" ++ ":" ++ more) "tool" ≠ .notFound := by
  intro access
  have htool : IsComponent "tool" := by decide
  obtain ⟨-, hdenied, -, hmore⟩ := resolve_component htool access "/b:/a/:/b"
  have hresolve : resolve access "/b:/a/:/b" "tool" = .notExecutable "/a/tool" := by
    rw [hdenied]
    exact ⟨by decide +kernel, ["/b/tool"], ["/b/tool"], by decide +kernel, by decide, by decide⟩
  refine ⟨htool, hresolve, by decide +kernel, fun more hmissing => ?_⟩
  rcases (hmore more "/a/tool").2 hresolve with hsame | ⟨program, hfound⟩
  · cases hmissing.symm.trans hsame
  · cases hmissing.symm.trans hfound

/-- A name with a slash stands for that very path, whatever directories are searched, exactly if
anything but slashes and `.` names follows its first component. If nothing else does, it stands for
what that component stands for. -/
theorem resolve_of_slash (hslash : '/' ∈ name.toList) :
    ((∀ access search search', resolve access search name = resolve access search' name) ↔
      ∀ component, ¬ Spells name component) ∧
    ((∀ component, ¬ Spells name component) →
      ∀ access search, resolve access search name = check access name) ∧
    ∀ component, Spells name component →
      ∀ access search, resolve access search name = resolve access search component := by
  have hne : name ≠ "" := by
    rintro rfl
    simp at hslash
  refine ⟨⟨?_, ?_⟩, fun hspells => resolve_of_not_spells hne hspells, ?_⟩
  · intro hsame component hspells
    have hbelow : join "a" component ≠ component := fun heq =>
      hspells.isComponent.slash (heq ▸ slash_mem_join (by decide) component)
    have hfound := hsame (fun p => if p = component then .missing else .executable) "a" ""
    rw [resolve_of_spells hspells, resolve_of_spells hspells] at hfound
    simp [candidates, cut, cutAll, first, hbelow] at hfound
  · intro hspells access search search'
    rw [resolve_of_not_spells hne hspells, resolve_of_not_spells hne hspells]
  · intro component hspells access search
    rw [resolve_of_spells hspells, resolve_of_spells hspells.isComponent.spells]

theorem resolve_of_slash_above :
    let access (path : String) : Access := if path = "/bin/tool" then .executable else .missing
    '/' ∈ "etc/../tool".toList ∧ (∀ component, ¬ Spells "etc/../tool" component) ∧
      resolve access "/bin" "tool" = .found "/bin/tool" ∧
      ∀ search, resolve access search "etc/../tool" = .notFound := by
  intro access
  have hslash : '/' ∈ "etc/../tool".toList := by decide
  have hspells : ∀ component, ¬ Spells "etc/../tool" component := by
    have hnames : names "etc/../tool" = ["etc", "..", "tool"] := by decide +kernel
    intro component
    simp [spells_iff_of_names hnames]
  exact ⟨hslash, hspells, by decide +kernel, (resolve_of_slash hslash).2.1 hspells access⟩

/-- A name that spells a path is looked up in the directories: where it stands, there is nothing. -/
theorem resolve_slash_ne :
    let access (path : String) : Access := if path = "/bin/tool" then .executable else .missing
    '/' ∈ "tool/".toList ∧ access "tool/" = .missing ∧
      resolve access "/bin" "tool/" = .found "/bin/tool" ∧
      resolve access "/etc" "tool/" = .notFound := by
  decide +kernel

end CommandShell.PathSearch
