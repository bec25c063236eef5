import CommandShell.Proofs.Builtin.Effects
import CommandShell.Proofs.Machine.CanonicalPaths
import CommandShell.Proofs.Arguments.Operands
import CommandShell.Proofs.Output.Streams
import CommandShell.Proofs.Text.Utf8
import CommandShell.Proofs.Variables

/-! # Changes of directory

A change of directory moves the process, the session and two of its variables, all of them or none.
It can be taken back: the variable of the previous directory leads to where the session came from.
-/

namespace CommandShell

variable {σ : Type}

namespace Shell

variable {sh sh₁ sh₂ : Shell σ} {directory : RawPath}

/-- The process, the session and its variables have moved to a directory; the directory that was
left is kept in a variable, and nothing else but the streams is different. -/
structure Moved (sh sh₁ : Shell σ) (directory : RawPath) : Prop where
  directory_eq : sh₁.session.directory = directory
  processDirectory_eq : sh₁.processDirectory = directory
  here : sh₁.session.vars.get? "PWD" = some { value := directory.text, exported := true }
  previous : sh₁.session.vars.get? "OLDPWD" =
    some { value := sh.session.directory.text, exported := true }
  vars_eq : ∀ name, name ≠ "PWD" → name ≠ "OLDPWD" →
    sh₁.session.vars.get? name = sh.session.vars.get? name
  session_eq : sh₁.session = { sh.session with directory, vars := sh₁.session.vars }
  world_eq : sh₁.world = sh.world

def enter (sh : Shell σ) (directory : RawPath) : Shell σ :=
  { sh.update (Request.moveTo · directory) with processDirectory := directory }

theorem moved_enter (sh : Shell σ) (directory : RawPath) :
    Moved sh (sh.enter directory) directory where
  directory_eq := rfl
  processDirectory_eq := rfl
  here := by simp [enter, update, Request.moveTo, Variables.get?_setExported]
  previous := by simp [enter, update, Request.moveTo, Variables.get?_setExported]
  vars_eq name hpwd hold := by
    simp [enter, update, Request.moveTo, Variables.get?_setExported, Ne.symm hpwd, Ne.symm hold]
  session_eq := rfl
  world_eq := rfl

theorem Moved.writes (h : Moved sh sh₁ directory) (hw : Writes sh₁ sh₂) :
    Moved sh sh₂ directory where
  directory_eq := by rw [hw.session_eq, h.directory_eq]
  processDirectory_eq := by rw [hw.processDirectory_eq, h.processDirectory_eq]
  here := by rw [hw.session_eq, h.here]
  previous := by rw [hw.session_eq, h.previous]
  vars_eq := by rw [hw.session_eq]; exact h.vars_eq
  session_eq := by rw [hw.session_eq]; exact h.session_eq
  world_eq := by rw [hw.world_eq, h.world_eq]

end Shell

namespace Request

open Arguments Shell

variable {sys : System σ} {arguments : List String} {sh : Shell σ} {directory : RawPath}

def namedTarget? (s : Session) : List String → Option String
  | [] | [""] => s.parameter? "HOME"
  | ["-"] => s.parameter? "OLDPWD"
  | [target] => some target
  | _ => none

/-- What is printed on arrival: the directory, if the way there was not spelled out. -/
def announcement (arguments : List String) (directory : RawPath) : List String :=
  if arguments = ["-"] then [directory.text, "\n"] else []

/-- Where a change of directory leads. -/
structure LeadsTo (sys : System σ) (arguments : List String) (sh : Shell σ)
    (directory : RawPath) : Prop where
  canonical_eq : ∃ target, namedTarget? sh.session arguments = some target ∧
    sys.canonical? sh.world sh.processDirectory (sh.session.directory.join target) =
      some directory
  isDirectory : sys.isDirectory sh.world sh.processDirectory directory
  canEnter : sys.canEnter sh.world directory

theorem enterable?_eq_some_iff {target : String} :
    enterable? sys sh target = some directory ↔
      sys.canonical? sh.world sh.processDirectory (sh.session.directory.join target) =
          some directory ∧
        sys.isDirectory sh.world sh.processDirectory directory ∧
        sys.canEnter sh.world directory := by
  unfold enterable?
  constructor
  · intro h
    split at h
    · next hcanonical =>
      split at h
      · next henter =>
        obtain rfl := Option.some.inj h
        exact ⟨hcanonical, Bool.and_eq_true_iff.mp henter⟩
      · cases h
    · cases h
  · rintro ⟨hcanonical, hdirectory, henter⟩
    simp [hcanonical, hdirectory, henter]

theorem directoryTarget_of_named {s : Session} {target : String}
    (h : namedTarget? s arguments = some target) :
    directoryTarget s arguments.head? = .ok (target, arguments = ["-"]) := by
  unfold namedTarget? at h
  split at h
  · simp [directoryTarget, h]
  · simp [directoryTarget, h, Option.filter]
  · simp [directoryTarget, h]
  · next hempty hdash =>
    obtain rfl := Option.some.inj h
    simp_all [directoryTarget, Option.filter]
  · cases h

theorem directoryTarget_of_not_named {s : Session} (h : namedTarget? s arguments = none)
    (hroom : arguments.length ≤ 1) : ∃ e, directoryTarget s arguments.head? = .error e := by
  unfold namedTarget? at h
  split at h
  · exact ⟨.homeUnset, by simp [directoryTarget, h]⟩
  · exact ⟨.homeUnset, by simp [directoryTarget, h, Option.filter]⟩
  · exact ⟨.oldDirectoryUnset, by simp [directoryTarget, h]⟩
  · cases h
  · match arguments with
    | [] => simp at *
    | [target] => simp_all
    | _ :: _ :: _ => simp at hroom

theorem request_cd (h : arguments ≠ [helpOption]) (hroom : arguments.length ≤ 1) :
    Builtin.cd.request arguments = .cd arguments.head? := by
  match arguments with
  | [] => rfl
  | [_] =>
    rw [Builtin.request]
    exact ofOperands_of_room h rfl rfl _
  | _ :: _ :: _ => simp at hroom

theorem request_cd_surplus (hroom : 1 < arguments.length) :
    ∃ a, Builtin.cd.request arguments = .refused (.unrecognized a) := by
  match arguments, hroom with
  | target :: a :: as, _ =>
    refine ⟨a, ?_⟩
    rw [Builtin.request]
    exact ofOperands_of_surplus (n := 1) rfl rfl (by simp) _

theorem length_le_of_named {s : Session} {target : String}
    (h : namedTarget? s arguments = some target) : arguments.length ≤ 1 := by
  unfold namedTarget? at h
  split at h <;> simp_all

theorem run_cd_of_leadsTo (h : arguments ≠ [helpOption])
    (hl : LeadsTo sys arguments sh directory) :
    (Builtin.cd.request arguments).run sys sh =
      .ofPrint ((sh.enter directory).print (announcement arguments directory)) := by
  obtain ⟨⟨target, htarget, hcanonical⟩, hdirectory, henter⟩ := hl
  have henterable := enterable?_eq_some_iff.mpr ⟨hcanonical, hdirectory, henter⟩
  rw [request_cd h (length_le_of_named htarget), run, runCd, directoryTarget_of_named htarget]
  simp only [henterable, announcement, decide_eq_true_eq]
  split <;> rfl

theorem run_cd_of_not_leadsTo (h : arguments ≠ [helpOption])
    (hl : ∀ directory, ¬ LeadsTo sys arguments sh directory) :
    (∃ e, (Builtin.cd.request arguments).run sys sh = (.error e, sh)) ∨
      ∃ fragments, (Builtin.cd.request arguments).run sys sh =
        (.ok misuseStatus, sh.report fragments) := by
  by_cases hroom : arguments.length ≤ 1
  · left
    rw [request_cd h hroom, run, runCd]
    cases htarget : namedTarget? sh.session arguments with
    | none =>
      obtain ⟨e, he⟩ := directoryTarget_of_not_named htarget hroom
      exact ⟨e, by rw [he]⟩
    | some target =>
      rw [directoryTarget_of_named htarget]
      have hnone : enterable? sys sh target = none := by
        rw [Option.eq_none_iff_forall_ne_some]
        intro directory hd
        obtain ⟨hcanonical, hdirectory, henter⟩ := enterable?_eq_some_iff.mp hd
        exact hl directory ⟨⟨target, htarget, hcanonical⟩, hdirectory, henter⟩
      exact ⟨.cannotEnter target, by simp only [hnone]⟩
  · right
    obtain ⟨a, ha⟩ := request_cd_surplus (Nat.lt_of_not_le hroom)
    exact ⟨_, by rw [ha]; rfl⟩

theorem leavesFailure_cd (h : arguments ≠ [helpOption]) :
    (Builtin.cd.request arguments).leavesFailure = false := by
  rcases Nat.lt_or_ge 1 arguments.length with hroom | hroom
  · obtain ⟨a, ha⟩ := request_cd_surplus hroom
    rw [ha]
    rfl
  · rw [request_cd h hroom]
    rfl

theorem execute_cd_of_not_leadsTo (h : arguments ≠ [helpOption])
    (hl : ∀ directory, ¬ LeadsTo sys arguments sh directory) :
    ((Builtin.cd.request arguments).execute sys sh).1 = .ok misuseStatus ∧
      Writes sh ((Builtin.cd.request arguments).execute sys sh).2 := by
  rcases run_cd_of_not_leadsTo h hl with ⟨e, he⟩ | ⟨fragments, hf⟩
  · rw [execute_of_error he (leavesFailure_cd h)]
    exact ⟨rfl, writes_report sh _⟩
  · rw [execute_of_ok hf]
    exact ⟨rfl, writes_report sh _⟩

def Announced (arguments : List String) (sh : Shell σ) (directory : RawPath) : Prop :=
  (sh.out.writeAll (announcement arguments directory)).1 = .ok ()

/-- The move is complete before it is announced, so it stands even if it cannot be announced. -/
theorem execute_cd_of_leadsTo (h : arguments ≠ [helpOption])
    (hl : LeadsTo sys arguments sh directory) :
    let ended := (Builtin.cd.request arguments).execute sys sh
    Moved sh ended.2 directory ∧
      ended.2.out = (sh.out.writeAll (announcement arguments directory)).2 ∧
      (Announced arguments sh directory → ended.1 = .ok 0) ∧
      (¬ Announced arguments sh directory → ended.1 = .ok misuseStatus) := by
  intro ended
  have hmoved := moved_enter sh directory
  have hprint := writes_print (sh.enter directory) (announcement arguments directory)
  have hrun := run_cd_of_leadsTo h hl
  simp only [print] at hprint hrun
  unfold Announced
  change _ ∧ _ = (sh.out.writeAll _).2 ∧ ((sh.out.writeAll _).1 = _ → _) ∧ _
  have hout : (sh.enter directory).out = sh.out := rfl
  rw [hout] at hprint hrun
  generalize sh.out.writeAll (announcement arguments directory) = printed at hprint hrun ⊢
  obtain ⟨made, out⟩ := printed
  cases made with
  | ok _ =>
    have hended : ended = (.ok 0, { sh.enter directory with out }) := execute_of_ok hrun
    rw [hended]
    exact ⟨hmoved.writes hprint, rfl, fun _ => rfl, fun hn => absurd rfl hn⟩
  | error fault =>
    have hended := execute_of_error hrun (leavesFailure_cd h)
    change ended = _ at hended
    rw [hended]
    exact ⟨hmoved.writes (hprint.trans (writes_report _ _)), rfl, nofun, fun _ => rfl⟩

theorem parameter?_oldDirectory (s : Session) :
    s.parameter? "OLDPWD" = s.vars.value? "OLDPWD" := rfl

theorem leadsTo_of_enterable {target : String}
    (htarget : namedTarget? sh.session arguments = some target)
    (habsolute : (target : RawPath).isAbsolute)
    (henter : sys.Enterable sh.world sh.processDirectory target) :
    LeadsTo sys arguments sh target where
  canonical_eq := by
    refine ⟨target, htarget, ?_⟩
    rw [RawPath.join_of_isAbsolute habsolute]
    exact henter.canonical_eq
  isDirectory := henter.isDirectory
  canEnter := henter.canEnter

/-- After a move, the way back leads to the directory that was left. -/
theorem leadsTo_back {sh₁ : Shell σ} {name : String} (hrooted : sys.Rooted sh.world)
    (hname : sh.session.directory = name)
    (henter : sys.Enterable sh.world sh.processDirectory sh.session.directory)
    (hmoved : Moved sh sh₁ directory) : LeadsTo sys ["-"] sh₁ sh.session.directory := by
  have habsolute := hrooted.isAbsolute_canonical henter.canonical_eq
  have hold : namedTarget? sh₁.session ["-"] = some name := by
    have htext : sh.session.directory.text = name := by
      rw [hname]
      exact Utf8.decode_encode name
    rw [namedTarget?, parameter?_oldDirectory, Variables.value?, hmoved.previous, ← htext]
    rfl
  rw [hname] at henter habsolute ⊢
  apply leadsTo_of_enterable hold habsolute
  rw [hmoved.world_eq]
  exact henter.of_rooted hrooted habsolute sh₁.processDirectory

/-- A change of directory that cannot be made fails with a status and leaves the session and the
process as they were. One that can be made moves both to the canonical directory and fails only if
its announcement is refused. From a directory with a name and an entry, it can be taken back. -/
theorem execute_cd_atomic (sys : System σ) (sh : Shell σ) (hrooted : sys.Rooted sh.world)
    (arguments : List String) (h : arguments ≠ [helpOption]) :
    let cd (arguments : List String) (sh : Shell σ) :=
      (Builtin.cd.request arguments).execute sys sh
    let ended := cd arguments sh
    (ended.1 ≠ .ok 0 →
        (∀ directory, LeadsTo sys arguments sh directory → Announced arguments sh directory) →
        ended.1 = .ok misuseStatus ∧ Writes sh ended.2) ∧
      (ended.1 = .ok 0 →
        ∃ directory, LeadsTo sys arguments sh directory ∧ Moved sh ended.2 directory) ∧
      (∀ directory, LeadsTo sys arguments sh directory → Announced arguments sh directory →
        ended.1 = .ok 0) ∧
      ∀ name : String, sh.session.directory = name →
        sys.Enterable sh.world sh.processDirectory sh.session.directory → ended.1 = .ok 0 →
        let back := cd ["-"] ended.2
        Moved ended.2 back.2 sh.session.directory ∧
          ((ended.2.out.writeAll [name, "\n"]).1 = .ok () →
            back.1 = .ok 0 ∧
              back.2.out.written = ended.2.out.written ++ Utf8.encode (name ++ "\n")) := by
  intro cd ended
  have hsuccess : ended.1 = .ok 0 →
      ∃ directory, LeadsTo sys arguments sh directory ∧ Moved sh ended.2 directory := by
    intro hok
    by_cases hl : ∃ directory, LeadsTo sys arguments sh directory
    · obtain ⟨directory, hl⟩ := hl
      exact ⟨directory, hl, (execute_cd_of_leadsTo h hl).1⟩
    · have hfails := (execute_cd_of_not_leadsTo h (not_exists.mp hl)).1
      exact absurd (hok.symm.trans hfails) (by simp [misuseStatus])
  refine ⟨?_, hsuccess, ?_, ?_⟩
  · intro hfails hannounced
    apply execute_cd_of_not_leadsTo h
    intro directory hl
    exact hfails ((execute_cd_of_leadsTo h hl).2.2.1 (hannounced directory hl))
  · intro directory hl hannounced
    exact (execute_cd_of_leadsTo h hl).2.2.1 hannounced
  · intro name hname henter hok back
    obtain ⟨directory, -, hmoved⟩ := hsuccess hok
    have hback := leadsTo_back hrooted hname henter hmoved
    obtain ⟨hreturned, hout, hannounced, -⟩ := execute_cd_of_leadsTo (by decide) hback
    refine ⟨hreturned, fun hprinted => ?_⟩
    have htext : announcement ["-"] sh.session.directory = [name, "\n"] := by
      rw [announcement, if_pos rfl, hname]
      exact congrArg (fun text => [text, "\n"]) (Utf8.decode_encode name)
    have hwritten := (Stream.appends_writeAll ended.2.out [name, "\n"]).written_eq hprinted
    refine ⟨hannounced (by rw [Announced, htext]; exact hprinted), ?_⟩
    change (cd ["-"] ended.2).2.out.written = _
    rw [hout, htext, hwritten]
    simp [String.join]

theorem execute_cd_atomic_back :
    let m : Machine := { files := Machine.baseFiles }
    let sh : Shell Machine :=
      { session :=
          { history := { capacity := 10 }, directory := "/usr", name := "hsh", processId := 1 }
        processDirectory := "/usr"
        world := m }
    let there := (Builtin.cd.request ["/tmp"]).execute Machine.system sh
    let back := (Builtin.cd.request ["-"]).execute Machine.system there.2
    Machine.system.Rooted m ∧ ["/tmp"] ≠ [helpOption] ∧
      there.1 = .ok 0 ∧ Moved sh there.2 "/tmp" ∧
      back.1 = .ok 0 ∧ Moved there.2 back.2 "/usr" ∧
      back.2.out.written = Utf8.encode "/usr\n" := by
  intro m sh there back
  have hfs : m.files.WellFormed := Machine.wellFormed_baseFiles
  have hrooted := Machine.system_rooted hfs
  have htmp : Machine.system.Enterable m "/usr" "/tmp" :=
    Machine.system_enterable hfs (p := ["tmp"]) rfl _
  have husr : Machine.system.Enterable m "/usr" "/usr" :=
    Machine.system_enterable hfs (p := ["usr"]) rfl _
  have hleads : LeadsTo Machine.system ["/tmp"] sh "/tmp" :=
    leadsTo_of_enterable rfl (by decide) htmp
  obtain ⟨hmoved, hout, -, -⟩ := execute_cd_of_leadsTo (by decide) hleads
  obtain ⟨-, -, hok, hback⟩ := execute_cd_atomic Machine.system sh hrooted ["/tmp"] (by decide)
  have hthere : there.1 = .ok 0 := hok _ hleads rfl
  have hout : there.2.out = {} := hout
  obtain ⟨hreturned, hprinted⟩ := hback "/usr" rfl husr hthere
  obtain ⟨hstatus, hwritten⟩ :=
    hprinted ((Stream.appends_writeAll there.2.out _).ok (by rw [hout]))
  refine ⟨hrooted, by decide, hthere, hmoved, hstatus, hreturned, ?_⟩
  rw [hout] at hwritten
  exact hwritten

end Request

end CommandShell
