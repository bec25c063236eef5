import CommandShell.Proofs.Shell.ExitStatus
import CommandShell.Proofs.Variables

/-! # What running a command changes

A built-in command does what it does without assignments before it. A program leaves nothing in the
session but its status: the assignments before it are seen by the child process alone.
-/

namespace CommandShell.Shell

variable {σ : Type}

/-- What a child process is handed: the command as it stands, and a value for each name, which is
that of the last assignment or else that of the exported variable. -/
structure Launches (launch : Launch) (s : Session) (assignments : List (String × String))
    (command : List String) (program : String) : Prop where
  program_eq : launch.program = program
  arguments_eq : launch.arguments = command
  directory_eq : launch.directory = s.directory
  get?_environment : ∀ name, launch.environment.get? name =
    (Table.lastBinding? assignments name).or (s.vars.exportedValue? name)

/-- How a command that is no built-in one ends, given what its name was resolved to: its status, and
the system after it. -/
inductive EndsProgram (sys : System σ) (sh : Shell σ) (assignments : List (String × String))
    (command : List String) : Resolution → Status → σ → Prop where
  | notFound : EndsProgram sys sh assignments command .notFound 127 sh.world
  | notExecutable (path : String) :
      EndsProgram sys sh assignments command (.notExecutable path) 126 sh.world
  | notStarted {program : String} {launch : Launch} {error : SystemError} {world : σ} :
      Launches launch sh.session assignments command program →
      sys.spawn sh.world launch = (.error error, world) →
      EndsProgram sys sh assignments command (.found program) 126 world
  | exited {program : String} {launch : Launch} {finished : Finished} {code : Nat} {world : σ} :
      Launches launch sh.session assignments command program →
      sys.spawn sh.world launch = (.ok finished, world) → finished.ending = .exited code →
      EndsProgram sys sh assignments command (.found program) code world
  | killed {program : String} {launch : Launch} {finished : Finished} {signal : Nat} {world : σ} :
      Launches launch sh.session assignments command program →
      sys.spawn sh.world launch = (.ok finished, world) → finished.ending = .killed signal →
      EndsProgram sys sh assignments command (.found program) (128 + signal) world

theorem get?_childEnvironment (s : Session) (assignments : List (String × String))
    (name : String) :
    (childEnvironment s assignments).get? name =
      (Table.lastBinding? assignments name).or (s.vars.exportedValue? name) := by
  have h := Table.get?_foldl_insert .empty (s.vars.exportedList ++ assignments) name
  rw [Table.get?_empty, Option.or_none, Table.lastBinding?_append,
    Variables.lastBinding?_exportedList] at h
  exact h

theorem endsProgram_runProgram (sys : System σ) (program name : String) (arguments : List String)
    (assignments : List (String × String)) (sh : Shell σ) :
    EndsProgram sys sh assignments (name :: arguments) (.found program)
      (runProgram sys program name arguments assignments sh).1
      (runProgram sys program name arguments assignments sh).2.world := by
  unfold runProgram
  generalize hl : Launch.mk program (name :: arguments) _ _ = launch
  have hlaunch : Launches launch sh.session assignments (name :: arguments) program :=
    hl ▸ ⟨rfl, rfl, rfl, get?_childEnvironment sh.session assignments⟩
  generalize hspawn : sys.spawn sh.world launch = spawned
  obtain ⟨r, world⟩ := spawned
  cases r with
  | error error => exact .notStarted hlaunch hspawn
  | ok finished =>
    have hworld := (writes_receive { sh with world } finished.written).world_eq
    simp only [flush, hworld]
    cases hending : finished.ending with
    | exited code => exact .exited hlaunch hspawn hending
    | killed signal => exact .killed hlaunch hspawn hending

theorem dispatch_program (sys : System σ) {name : String} (h : Builtin.ofName? name = none)
    (arguments : List String) (assignments : List (String × String)) (sh : Shell σ) :
    let ended := dispatch sys name arguments assignments sh
    Writes { sh with world := ended.2.world } ended.2 ∧
      EndsProgram sys sh assignments (name :: arguments)
        (PathSearch.resolve (sys.access sh.world sh.processDirectory) (searchList sh.session) name)
        ended.1 ended.2.world := by
  simp only [dispatch, h]
  generalize PathSearch.resolve (sys.access sh.world sh.processDirectory) _ name = resolution
  cases resolution with
  | notFound => exact ⟨writes_report sh _, .notFound⟩
  | notExecutable path => exact ⟨writes_report sh _, .notExecutable path⟩
  | found program =>
    obtain ⟨world, hw⟩ := writes_runProgram sys program name arguments assignments sh
    exact ⟨hw.world_eq ▸ hw, endsProgram_runProgram sys program name arguments assignments sh⟩

theorem execute_of_arguments (sys : System σ) {words : List Word} {sh : Shell σ} {name : String}
    {arguments : List String}
    (h : (Expansion.expand {} sh.session words).arguments = name :: arguments) :
    let assignments := (Expansion.expand {} sh.session words).assignments
    execute sys words sh = record (dispatch sys name arguments assignments sh) := by
  cases words with
  | nil => cases h
  | cons w ws => simp only [execute, List.isEmpty_cons, Bool.false_eq_true, if_false, h]

theorem execute_of_assignments (sys : System σ) {words : List Word} {sh : Shell σ}
    (hne : words ≠ []) (h : (Expansion.expand {} sh.session words).arguments = []) :
    execute sys words sh =
      record (0, sh.update (assign (Expansion.expand {} sh.session words).assignments)) := by
  have hempty : ¬ words.isEmpty := by simpa using hne
  simp only [execute, if_neg hempty, h]

/-- Running words with a command among them. A built-in command is run as by its name alone, with
nothing before it. Any other leaves the session with a new status, and what comes before it only in
the child process. -/
theorem execute_command (sys : System σ) {words : List Word} {sh : Shell σ} {name : String}
    {arguments : List String}
    (h : (Expansion.expand {} sh.session words).arguments = name :: arguments) :
    let ended := execute sys words sh
    ((Builtin.ofName? name).isSome → ended = run sys name arguments sh) ∧
      (Builtin.ofName? name = none →
        ended.2.session = { sh.session with lastStatus := ended.1 } ∧
          ended.2.processDirectory = sh.processDirectory ∧
          EndsProgram sys sh (Expansion.expand {} sh.session words).assignments
            (name :: arguments)
            (PathSearch.resolve (sys.access sh.world sh.processDirectory)
              (searchList sh.session) name)
            ended.1 ended.2.world) := by
  intro ended
  have hended : ended = record (dispatch sys name arguments _ sh) := execute_of_arguments sys h
  rw [hended]
  constructor
  · intro hb
    obtain ⟨b, hb⟩ := Option.isSome_iff_exists.mp hb
    simp only [run, dispatch, hb]
  · intro hb
    obtain ⟨hw, hends⟩ := dispatch_program sys hb arguments
      (Expansion.expand {} sh.session words).assignments sh
    exact ⟨congrArg (Session.recordStatus · _) hw.session_eq, hw.processDirectory_eq, hends⟩

/-- A killed program with assignments before it, of which the last one counts, over an exported
variable and beside one that is not. -/
theorem execute_command_killed :
    let sys : System Unit :=
      { System.bare with
        access := fun _ _ _ => .executable
        spawn := fun _ _ => (.ok { ending := .killed 9 }, ()) }
    let sh : Shell Unit :=
      Shell.bare.update fun s =>
        { s with vars := ((Variables.setExported .empty "A" "0").set "B" "0").setExported "C" "0" }
    let words : List Word :=
      ["A=1", "A=2", "/t", "$A"].map fun text => { parts := [.literal text], quoted := false }
    let assignments := [("A", "1"), ("A", "2")]
    let ended := execute sys words sh
    (Expansion.expand {} sh.session words).arguments = ["/t", "$A"] ∧
      Builtin.ofName? "/t" = none ∧
      ended.2.session = { sh.session with lastStatus := 137 } ∧
      EndsProgram sys sh assignments ["/t", "$A"] (.found "/t") 137 ended.2.world := by
  intro sys sh words assignments ended
  have hwords : (Expansion.expand {} sh.session words).arguments = ["/t", "$A"] := by
    decide +kernel
  have hbuiltin : Builtin.ofName? "/t" = none := by decide +kernel
  have hstatus : ended.1 = 137 := by decide +kernel
  have hassignments : (Expansion.expand {} sh.session words).assignments = assignments := by
    decide +kernel
  have hfound : PathSearch.resolve (sys.access sh.world sh.processDirectory)
      (searchList sh.session) "/t" = .found "/t" := by decide +kernel
  obtain ⟨hsession, -, hends⟩ := (execute_command sys hwords).2 hbuiltin
  rw [hstatus] at hsession hends
  rw [hassignments, hfound] at hends
  exact ⟨hwords, hbuiltin, hsession, hends⟩

end CommandShell.Shell
