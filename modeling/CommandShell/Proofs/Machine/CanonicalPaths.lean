import CommandShell.Machine.Basic
import CommandShell.Proofs.Path
import CommandShell.Proofs.Text.Utf8
import Mathlib.Tactic.MkIffOfInductiveProp

/-! # Canonical paths

Where all paths start at one root, a canonical path leads to the same thing from everywhere.
Machines are like that. Following a path ends at a place: something that is no link, in directories
that are none either. The path of a place is followed without links, so it leads back to the place.
-/

namespace CommandShell

variable {σ : Type}

/-- All paths start at one root: canonical paths are absolute and canonical from everywhere, and
which paths are directories does not depend on where an absolute path is looked up. -/
structure System.Rooted (sys : System σ) (world : σ) : Prop where
  isAbsolute_canonical : ∀ {start path canonical : RawPath},
    sys.canonical? world start path = some canonical → canonical.isAbsolute
  canonical_canonical : ∀ {start path canonical : RawPath},
    sys.canonical? world start path = some canonical →
      ∀ start, sys.canonical? world start canonical = some canonical
  isDirectory_eq : ∀ {path : RawPath}, path.isAbsolute →
    ∀ start start', sys.isDirectory world start path = sys.isDirectory world start' path

/-- A directory, by its canonical path, that a process may make its own. -/
structure System.Enterable (sys : System σ) (world : σ) (start directory : RawPath) : Prop where
  canonical_eq : sys.canonical? world start directory = some directory
  isDirectory : sys.isDirectory world start directory
  canEnter : sys.canEnter world directory

theorem System.Enterable.of_rooted {sys : System σ} {world : σ} {start directory : RawPath}
    (h : sys.Enterable world start directory) (hrooted : sys.Rooted world)
    (habsolute : directory.isAbsolute) (start' : RawPath) :
    sys.Enterable world start' directory where
  canonical_eq := hrooted.canonical_canonical h.canonical_eq start'
  isDirectory := by
    rw [hrooted.isDirectory_eq habsolute start' start]
    exact h.isDirectory
  canEnter := h.canEnter

namespace FileSystem

variable {fs : FileSystem} {p : Position} {n : Node}

@[mk_iff]
structure IsName (name : String) : Prop where
  ne_empty : name ≠ ""
  ne_here : name ≠ "."
  ne_above : name ≠ ".."
  slash : '/' ∉ name.toList
  nul : '\x00' ∉ name.toList

instance (name : String) : Decidable (IsName name) := decidable_of_iff _ (isName_iff name).symm

/-- Everything has a name, and lies in a directory. -/
structure WellFormed (fs : FileSystem) : Prop where
  isName : ∀ {p : Position} {name : String} {n : Node}, fs.node? (p ++ [name]) = some n →
    IsName name
  directory : ∀ {p : Position} {name : String} {n : Node}, fs.node? (p ++ [name]) = some n →
    fs.node? p = some .directory

/-- There is something that is no link. -/
def IsPlace (fs : FileSystem) (p : Position) : Prop :=
  ∃ n, fs.node? p = some n ∧ ∀ target, n ≠ .link target

theorem isPlace_of_directory (h : fs.node? p = some .directory) : fs.IsPlace p :=
  ⟨.directory, h, nofun⟩

theorem WellFormed.directory_of_append (hfs : fs.WellFormed) {q : Position} (hq : q ≠ [])
    (h : fs.node? (p ++ q) = some n) : fs.node? p = some .directory := by
  induction q generalizing p with
  | nil => exact absurd rfl hq
  | cons name names ih =>
    rw [List.append_cons] at h
    cases names with
    | nil => exact hfs.directory (by simpa using h)
    | cons => exact hfs.directory (ih (List.cons_ne_nil _ _) h)

theorem WellFormed.isName_of_mem (hfs : fs.WellFormed) (h : fs.node? p = some n) {name : String}
    (hname : name ∈ p) : IsName name := by
  obtain ⟨before, after, rfl⟩ := List.append_of_mem hname
  cases after with
  | nil => exact hfs.isName h
  | cons =>
    rw [List.append_cons] at h
    exact hfs.isName (hfs.directory_of_append (List.cons_ne_nil _ _) h)

theorem WellFormed.isPlace_append (hfs : fs.WellFormed) {q : Position}
    (h : fs.IsPlace (p ++ q)) : fs.IsPlace p := by
  obtain ⟨n, hn, hlink⟩ := h
  cases q with
  | nil => exact ⟨n, by simpa using hn, hlink⟩
  | cons => exact isPlace_of_directory (hfs.directory_of_append (List.cons_ne_nil _ _) hn)

/-- Following the names of a place from a place above it meets no link. -/
theorem WellFormed.walk_append (hfs : fs.WellFormed) (links : Nat) (p q : Position)
    (h : fs.IsPlace (p ++ q)) : fs.walk links p q = .ok (p ++ q) := by
  induction q generalizing p with
  | nil => rw [walk, List.append_nil]
  | cons name names ih =>
    have hplace := h
    obtain ⟨n, hn, -⟩ := h
    have hname : IsName name := hfs.isName_of_mem hn (by simp)
    have hdirectory := hfs.directory_of_append (List.cons_ne_nil _ _) hn
    rw [List.append_cons] at hplace ⊢
    obtain ⟨m, hm, hlink⟩ := hfs.isPlace_append hplace
    rw [walk, hdirectory]
    simp only [hname.ne_empty, hname.ne_here, hname.ne_above, hm]
    cases m with
    | link target => exact absurd rfl (hlink target)
    | _ => exact ih _ hplace

theorem WellFormed.directory_dropLast (hfs : fs.WellFormed) (h : fs.node? p = some n) :
    fs.node? p.dropLast = some .directory := by
  rcases List.eq_nil_or_concat p with rfl | ⟨above, name, rfl⟩
  · rfl
  · rw [List.concat_eq_append] at h ⊢
    rw [List.dropLast_concat]
    exact hfs.directory h

theorem WellFormed.isPlace_of_walk (hfs : fs.WellFormed) {links : Nat} {start : Position}
    {names : List String} (hstart : names = [] → fs.IsPlace start)
    (h : fs.walk links start names = .ok p) : fs.IsPlace p := by
  fun_induction fs.walk links start names with
  | case1 =>
    obtain rfl := Except.ok.inj h
    exact hstart rfl
  | case2 => cases h
  | case3 _ _ _ _ hdirectory _ ih => exact ih (fun _ => isPlace_of_directory hdirectory) h
  | case4 _ _ _ hdirectory _ ih =>
    exact ih (fun _ => isPlace_of_directory (hfs.directory_dropLast hdirectory)) h
  | case5 => cases h
  | case6 => cases h
  | case7 _ _ _ _ _ _ target _ _ ih =>
    refine ih (fun hnil => ?_) h
    exact absurd (List.append_eq_nil_iff.mp hnil).1 (Path.names_ne_nil target)
  | case8 _ _ _ _ _ _ _ val hlink hval ih => exact ih (fun _ => ⟨val, hval, hlink⟩) h
  | case9 => cases h

theorem WellFormed.isPlace_of_lookup (hfs : fs.WellFormed) {directory path : String}
    (h : fs.lookup directory path = .ok (p, n)) : fs.IsPlace p := by
  unfold lookup at h
  cases hresolve : fs.resolve directory path with
  | error e => simp [hresolve] at h
  | ok q =>
    have hq : fs.IsPlace q := by
      unfold resolve at hresolve
      split at hresolve
      · cases hresolve
      · split at hresolve
        · cases hresolve
        · exact hfs.isPlace_of_walk (fun hnil => absurd hnil (Path.names_ne_nil path)) hresolve
    simp only [hresolve] at h
    split at h
    · cases h
      exact hq
    · cases h

theorem toList_pathOf (p : Position) : (pathOf p).toList = '/' :: ("/".intercalate p).toList := by
  simp [pathOf]

theorem isAbsolute_pathOf (p : Position) : Path.isAbsolute (pathOf p) := by
  simp [Path.isAbsolute, toList_pathOf]

theorem names_pathOf (p : Position) :
    Path.names (pathOf p) = "" :: Path.names ("/".intercalate p) := by
  simp [Path.names, Path.cut, Path.cutAll, toList_pathOf]

theorem walk_stay (links : Nat) (h : fs.node? p = some .directory) (names : List String) :
    fs.walk links p ("" :: names) = fs.walk links p names := by
  rw [walk, h]
  rfl

/-- The path of a place leads to it, wherever one starts. -/
theorem WellFormed.resolve_pathOf (hfs : fs.WellFormed) (h : fs.IsPlace p) (directory : String) :
    fs.resolve directory (pathOf p) = .ok p := by
  have hname : ∀ name ∈ p, IsName name := by
    obtain ⟨n, hn, -⟩ := h
    exact fun name => hfs.isName_of_mem hn
  have hroot : fs.node? [] = some .directory := rfl
  have hwalk : fs.walk linkLimit [] (Path.names (pathOf p)) = .ok p := by
    rw [names_pathOf, walk_stay _ hroot]
    by_cases hp : p = []
    · subst hp
      exact (walk_stay _ hroot []).trans (by rw [walk])
    · rw [Path.names_intercalate hp fun name hmem => (hname name hmem).slash]
      exact hfs.walk_append linkLimit [] p h
  have hnul : ¬ (pathOf p).toList.contains '\x00' := by
    have hrest := Path.not_mem_intercalate (by decide) fun name hmem => (hname name hmem).nul
    rw [List.contains_iff_mem, toList_pathOf]
    exact List.not_mem_cons_of_ne_of_not_mem (by decide) hrest
  have hne : ¬ (pathOf p).isEmpty := by
    simp [pathOf]
  rw [resolve, if_neg hne, if_neg hnul, if_pos (isAbsolute_pathOf p)]
  exact hwalk

theorem WellFormed.lookup_pathOf (hfs : fs.WellFormed) (hn : fs.node? p = some n)
    (hlink : ∀ target, n ≠ .link target) (directory : String) :
    fs.lookup directory (pathOf p) = .ok (p, n) := by
  rw [lookup, hfs.resolve_pathOf ⟨n, hn, hlink⟩]
  simp only [hn]

theorem WellFormed.exists_place_of_canonical? (hfs : fs.WellFormed)
    {directory path canonical : String} (h : fs.canonical? directory path = some canonical) :
    ∃ p, fs.IsPlace p ∧ canonical = pathOf p := by
  unfold canonical? at h
  split at h
  · next hlookup =>
    exact ⟨_, hfs.isPlace_of_lookup hlookup, (Option.some.inj h).symm⟩
  · cases h

theorem WellFormed.canonical?_pathOf (hfs : fs.WellFormed) (h : fs.IsPlace p)
    (directory : String) : fs.canonical? directory (pathOf p) = some (pathOf p) := by
  obtain ⟨n, hn, hlink⟩ := h
  rw [canonical?, hfs.lookup_pathOf hn hlink]

theorem lookup_eq_of_isAbsolute {path : String} (h : Path.isAbsolute path)
    (directory directory' : String) : fs.lookup directory path = fs.lookup directory' path := by
  simp only [lookup, resolve, if_pos h]

theorem WellFormed.directory_of_walk (hfs : fs.WellFormed) {name : String}
    (hname : name = "." ∨ name = "..") {links : Nat} {start : Position}
    (h : fs.walk links start [name] = .ok p) : fs.node? p = some .directory := by
  rw [walk] at h
  split at h
  · cases h
  · next hdirectory =>
    rcases hname with rfl | rfl
    · obtain rfl : start = p := by simpa [walk] using h
      exact hdirectory
    · obtain rfl : start.dropLast = p := by simpa [walk] using h
      exact hfs.directory_dropLast hdirectory
  · cases h

theorem WellFormed.access_ne_executable (hfs : fs.WellFormed) {path : String}
    (hpath : path = "." ∨ path = "..") (directory : String) :
    fs.access directory path ≠ .executable := by
  have hresolve : ∀ p, fs.resolve directory path = .ok p → fs.node? p = some .directory := by
    intro p hp
    have hnames : Path.names path = [path] := by
      rcases hpath with rfl | rfl <;> decide +kernel
    unfold resolve at hp
    split at hp
    · cases hp
    · split at hp
      · cases hp
      · rw [hnames] at hp
        exact hfs.directory_of_walk hpath hp
  unfold access lookup
  cases hp : fs.resolve directory path with
  | error e => simp
  | ok p => simp [hresolve p hp]

theorem wellFormed_of_nodes
    (h : ∀ e ∈ fs.nodes, ∀ name ∈ e.1.getLast?,
      IsName name ∧ fs.node? e.1.dropLast = some .directory) : fs.WellFormed := by
  have hnode : ∀ {p : Position} {name : String} {n : Node}, fs.node? (p ++ [name]) = some n →
      IsName name ∧ fs.node? p = some .directory := by
    intro p name n hn
    rw [node?, if_neg (List.append_ne_nil_of_right_ne_nil p (List.cons_ne_nil name []))] at hn
    obtain ⟨e, he, -⟩ := Option.map_eq_some_iff.mp hn
    have hposition := List.find?_some he
    rw [beq_iff_eq] at hposition
    have hlast := h e (List.mem_of_find?_eq_some he) name (by simp [hposition])
    rwa [hposition, List.dropLast_concat] at hlast
  exact ⟨fun hn => (hnode hn).1, fun hn => (hnode hn).2⟩

end FileSystem

namespace RawPath

theorem text?_ofText (s : String) : (ofText s).text? = some s := Utf8.decode?_encode s

theorem isAbsolute_ofText {path : String} (h : Path.isAbsolute path) :
    (ofText path).isAbsolute := by
  obtain ⟨cs, hcs⟩ := Path.isAbsolute_iff.mp h
  simp [isAbsolute, ofText, Utf8.encode, hcs, Utf8.encodeChars, Utf8.encodeChar, slash]

theorem isAbsolute_text? {path : RawPath} {text : String} (h : path.isAbsolute)
    (htext : path.text? = some text) : Path.isAbsolute text := by
  obtain ⟨bs, hbytes⟩ : ∃ bs, path.bytes = slash :: bs := by
    simpa [isAbsolute, List.head?_eq_some_iff] using h
  have hpieces : Utf8.pieces path.bytes = some '/' :: Utf8.pieces bs := by
    rw [hbytes]
    exact Utf8.pieces_encodeChar '/' bs
  obtain ⟨cs, hcs, rfl⟩ := Option.map_eq_some_iff.mp htext
  rw [hpieces, List.mapM_cons] at hcs
  obtain ⟨_, hslash, hrest⟩ := Option.bind_eq_some_iff.mp hcs
  obtain ⟨_, -, hcons⟩ := Option.bind_eq_some_iff.mp hrest
  obtain rfl := Option.some.inj hslash
  obtain rfl := Option.some.inj hcons
  simp [Path.isAbsolute]

end RawPath

namespace Machine

theorem system_rooted {m : Machine} (hfs : m.files.WellFormed) : system.Rooted m := by
  have hplace : ∀ {start path canonical : RawPath},
      system.canonical? m start path = some canonical →
      ∃ p, m.files.IsPlace p ∧ canonical = FileSystem.pathOf p := by
    intro start path canonical h
    obtain ⟨text, -, htext⟩ := Option.bind_eq_some_iff.mp h
    obtain ⟨found, hfound, rfl⟩ := Option.map_eq_some_iff.mp htext
    obtain ⟨p, hp, rfl⟩ := hfs.exists_place_of_canonical? hfound
    exact ⟨p, hp, rfl⟩
  constructor
  · intro start path canonical h
    obtain ⟨p, -, rfl⟩ := hplace h
    exact RawPath.isAbsolute_ofText (FileSystem.isAbsolute_pathOf p)
  · intro start path canonical h start'
    obtain ⟨p, hp, rfl⟩ := hplace h
    simp only [system, RawPath.text?_ofText, Option.bind_some, hfs.canonical?_pathOf hp,
      Option.map_some]
  · intro path h start start'
    cases htext : path.text? with
    | none => simp only [system, htext, Option.any_none]
    | some text =>
      have habsolute := RawPath.isAbsolute_text? h htext
      simp only [system, htext, Option.any_some, FileSystem.isDirectory]
      rw [FileSystem.lookup_eq_of_isAbsolute habsolute start start']

theorem system_enterable {m : Machine} (hfs : m.files.WellFormed) {p : Position}
    (h : m.files.node? p = some .directory) (start : RawPath) :
    system.Enterable m start (FileSystem.pathOf p) := by
  have hdirectory : ∀ start, m.files.isDirectory start (FileSystem.pathOf p) := by
    intro start
    rw [FileSystem.isDirectory, hfs.lookup_pathOf h nofun]
  constructor
  · simp only [system, RawPath.text?_ofText, Option.bind_some, Option.map_some,
      hfs.canonical?_pathOf (FileSystem.isPlace_of_directory h)]
  · simp only [system, RawPath.text?_ofText, Option.any_some, hdirectory]
  · simp only [system, RawPath.text?_ofText, Option.any_some, hdirectory]

theorem wellFormed_baseFiles : baseFiles.WellFormed :=
  FileSystem.wellFormed_of_nodes (by decide +kernel)

end Machine

end CommandShell
