import CommandShell.Proofs.Machine.CanonicalPaths
import CommandShell.Proofs.PathSearch
import CommandShell.Shell.Command

/-! # Programs that are found under their bare names

A program that was found is run as it stands if its path has a slash. It has none exactly if it was
found through an empty entry of the search list. Such a program is looked up once more, in the
search list of the child process, which need not lead to the file that was found.
-/

namespace CommandShell

namespace Machine

variable {files : FileSystem}

theorem searchTool_of_missing {directory : String} {arguments paths : List String}
    (h : ∀ path ∈ paths, files.lookup directory path = .error .noEntry) :
    searchTool files directory arguments false paths = .error .noEntry := by
  induction paths with
  | nil => rfl
  | cons path paths ih =>
    obtain ⟨hpath, hpaths⟩ := List.forall_mem_cons.mp h
    have hfind : findTool files directory interpreterLimit path arguments = .error .noEntry := by
      rw [interpreterLimit, findTool, hpath]
    rw [searchTool, hfind]
    exact ih hpaths

/-- A program without a slash is not started if the search list of the child process leads to
nothing of its name, wherever it was found. -/
theorem toolOf_of_missing {launch : Launch} (hslash : '/' ∉ launch.program.toList)
    (hmissing : ∀ path ∈ PathSearch.candidates
      ((launch.environment.get? "PATH").getD PathSearch.standard) launch.program,
      files.lookup launch.directory path = .error .noEntry) :
    toolOf files launch = .error .noEntry := by
  have hbare : ¬ launch.program.toList.contains '/' := by simpa using hslash
  rw [toolOf, if_neg hbare]
  exact searchTool_of_missing hmissing

end Machine

namespace PathSearch

open CommandShell.Path

variable {access : String → Access}

/-- What is found has no slash exactly if it is the component that the name spells, and the first
executable candidate comes from an empty entry of the search list. In all other cases what is found
is run as it stands. -/
theorem found_without_slash_iff (hhere : access "." ≠ .executable)
    (habove : access ".." ≠ .executable) (search name path : String) :
    resolve access search name = .found path ∧ '/' ∉ path.toList ↔
      Spells name path ∧ access path = .executable ∧
        ∃ before after, (search.toList.splitOn ':').map String.ofList = before ++ "" :: after ∧
          ∀ directory ∈ before, access (join directory path) ≠ .executable := by
  rw [← cut_eq_splitOn]
  constructor
  · rintro ⟨hfound, hslash⟩
    have hne : name ≠ "" := by
      rintro rfl
      cases hfound
    by_cases hspells : ∃ component, Spells name component
    · obtain ⟨component, hspells⟩ := hspells
      rw [resolve_of_spells hspells, first_eq_found_iff] at hfound
      obtain ⟨_, _, hcandidates, hexecutable, hbefore⟩ := hfound
      obtain ⟨before, _, hentries, rfl, hrest⟩ := List.map_eq_append_iff.mp hcandidates
      obtain ⟨directory, after, rfl, hjoin, -⟩ := List.map_eq_cons_iff.mp hrest
      obtain rfl : directory = "" := Decidable.byContradiction fun hdirectory =>
        hslash (hjoin ▸ slash_mem_join hdirectory component)
      obtain rfl : component = path := by rwa [join_empty] at hjoin
      exact ⟨hspells, hexecutable, before, after, hentries, by simpa using hbefore⟩
    · have hnot := not_exists.mp hspells
      rw [resolve_of_not_spells hne hnot, check_eq_found_iff] at hfound
      obtain ⟨rfl, hexecutable⟩ := hfound
      have hcomponent : IsComponent path :=
        ⟨hne, fun h => hhere (h ▸ hexecutable), fun h => habove (h ▸ hexecutable), hslash⟩
      exact absurd hcomponent.spells (hnot path)
  · rintro ⟨hspells, hexecutable, before, after, hentries, hbefore⟩
    refine ⟨?_, hspells.isComponent.slash⟩
    rw [resolve_of_spells hspells, first_eq_found_iff]
    refine ⟨before.map (join · path), after.map (join · path), ?_, hexecutable, ?_⟩
    · simp [candidates, hentries]
    · simpa using hbefore

/-- A shell without a search list, in a directory with a program. There is a file of the same name
elsewhere that cannot be run. -/
def besideTool : Shell Machine where
  session := { history := { capacity := 10 }, directory := "/", name := "hsh", processId := 1 }
  processDirectory := "/"
  world :=
    { files :=
        { nodes :=
            [(["etc"], .directory), (["etc", "tool"], .file [] 0o644),
              (["tool"], .tool (.status 7))] } }

theorem wellFormed_besideTool : besideTool.world.files.WellFormed :=
  FileSystem.wellFormed_of_nodes (by decide +kernel)

theorem text_root : (RawPath.ofText "/").text = "/" := Utf8.decode_encode "/"

theorem access_besideTool :
    Machine.system.access besideTool.world besideTool.processDirectory "tool" = .executable := by
  have hnames : names "tool" = ["tool"] := by decide +kernel
  have hroot : names "/" = ["", ""] := by decide +kernel
  have hrelative : ¬ isAbsolute "tool" := by decide +kernel
  simp [Machine.system, FileSystem.access, FileSystem.lookup, FileSystem.resolve, hnames, hroot,
    hrelative, FileSystem.walk, FileSystem.positionOf, FileSystem.node?, besideTool, text_root]

theorem found_without_slash_iff_tool :
    let access := Machine.system.access besideTool.world besideTool.processDirectory
    access "." ≠ .executable ∧ access ".." ≠ .executable ∧
      resolve access "/etc::/bin" "tool/." = .found "tool" := by
  intro access
  have hhere : access "." ≠ .executable :=
    wellFormed_besideTool.access_ne_executable (.inl rfl) _
  have habove : access ".." ≠ .executable :=
    wellFormed_besideTool.access_ne_executable (.inr rfl) _
  have hdenied : access "/etc/tool" ≠ .executable := by
    have hnames : names "/etc/tool" = ["", "etc", "tool"] := by decide +kernel
    have habsolute : isAbsolute "/etc/tool" := by decide +kernel
    simp [access, Machine.system, FileSystem.access, FileSystem.lookup, FileSystem.resolve, hnames,
      habsolute, FileSystem.walk, FileSystem.node?, besideTool, FileSystem.isExecutableMode]
  have hspells : Spells "tool/." "tool" := ⟨by decide, ["."], by decide +kernel, by simp⟩
  have hjoin : join "/etc" "tool" = "/etc/tool" := by decide +kernel
  have hfound := (found_without_slash_iff hhere habove "/etc::/bin" "tool/." "tool").mpr
    ⟨hspells, access_besideTool, ["/etc"], ["/bin"], by decide +kernel,
      by simpa [hjoin] using hdenied⟩
  exact ⟨hhere, habove, hfound.1⟩

theorem resolve_besideTool :
    resolve (Machine.system.access besideTool.world besideTool.processDirectory)
      (Shell.searchList besideTool.session) "tool" = .found "tool" := by
  have htool : IsComponent "tool" := by decide
  have hcandidates : candidates (Shell.searchList besideTool.session) "tool" = ["tool"] := by
    decide +kernel
  rw [resolve_of_spells htool.spells, hcandidates, first, access_besideTool]

theorem spawn_besideTool :
    Machine.spawn besideTool.world
      { program := "tool", arguments := ["tool"], environment := .empty, directory := "/" } =
        (.error FileError.noEntry.toSystem, besideTool.world) := by
  have hstandard : candidates standard "tool" = ["/bin/tool", "/usr/bin/tool"] := by
    decide +kernel
  have hbin : names "/bin/tool" = ["", "bin", "tool"] := by decide +kernel
  have husr : names "/usr/bin/tool" = ["", "usr", "bin", "tool"] := by decide +kernel
  have habsolute : isAbsolute "/bin/tool" ∧ isAbsolute "/usr/bin/tool" := by decide +kernel
  have hmissing : Machine.toolOf besideTool.world.files
      { program := "tool", arguments := ["tool"], environment := .empty, directory := "/" } =
        .error .noEntry := by
    apply Machine.toolOf_of_missing (by decide)
    simp [hstandard, FileSystem.lookup, FileSystem.resolve, hbin, husr, habsolute, FileSystem.walk,
      FileSystem.node?, besideTool]
  have hnul : ¬ (["tool"].any Machine.hasNul || (Table.empty (β := String)).toList.any fun e =>
      Machine.hasNul e.1 || Machine.hasNul e.2) := by decide +kernel
  rw [Machine.spawn, if_neg hnul, hmissing]

/-- The program that was found is not the one that is run: its bare name is looked up once more, in
the search list of the child process. -/
theorem found_not_run :
    resolve (Machine.system.access besideTool.world besideTool.processDirectory)
        (Shell.searchList besideTool.session) "tool" = .found "tool" ∧
      '/' ∉ "tool".toList ∧ (Shell.run Machine.system "tool" [] besideTool).1 = 126 := by
  refine ⟨resolve_besideTool, by decide, ?_⟩
  have hbuiltin : Builtin.ofName? "tool" = none := by decide +kernel
  have henvironment : Shell.childEnvironment besideTool.session [] = .empty := rfl
  have hdirectory : besideTool.session.directory = "/" := rfl
  have hspawn : Machine.system.spawn = Machine.spawn := rfl
  simp only [Shell.run, Shell.dispatch, hbuiltin, resolve_besideTool, Shell.runProgram,
    henvironment, hdirectory, hspawn, spawn_besideTool]
  rfl

end PathSearch

end CommandShell
