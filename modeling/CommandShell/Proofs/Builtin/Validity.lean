import CommandShell.Proofs.Builtin.Effects
import CommandShell.Proofs.Expansion.Assignments

/-! # Valid sessions

What holds of every session of a shell: variables and aliases have names that can be written, the
history is bounded and has no blank lines, and every status fits into an exit code. Built-in
commands keep all of it.
-/

namespace CommandShell

/-- The status can be told to the caller as it is. -/
def IsExitCode (status : Status) : Prop := 0 ≤ status ∧ status ≤ 255

structure Session.Valid (s : Session) : Prop where
  vars_named : ∀ e ∈ s.vars.toList, Variables.isName e.1
  aliases_named : ∀ e ∈ s.aliases.toList, e.1 ≠ "" ∧ '=' ∉ e.1.toList
  history_bounded : s.history.size ≤ s.history.capacity
  history_text : ∀ line ∈ s.history.lines, ∃ c ∈ line.toList, Blank.isBlank c = false
  lastStatus_code : IsExitCode s.lastStatus
  exitRequest_code : ∀ status, s.exitRequest = some status → IsExitCode status

/-- The session is valid, and its directory is that of the process. -/
structure Shell.Valid {σ : Type} (sh : Shell σ) : Prop where
  session : sh.session.Valid
  directory_eq : sh.session.directory = sh.processDirectory

theorem isExitCode_zero : IsExitCode 0 := by simp [IsExitCode]

theorem isExitCode_mod (n : Nat) : IsExitCode (n % 256 : Nat) := by
  have h : n % 256 < 256 := Nat.mod_lt n (by decide)
  exact ⟨Int.natCast_nonneg _, Int.ofNat_le.mpr (Nat.le_of_lt_succ h)⟩

namespace Session.Valid

variable {s : Session}

theorem withVars (h : s.Valid) {vars : Variables}
    (hv : ∀ e ∈ vars.toList, Variables.isName e.1) : { s with vars }.Valid :=
  { h with vars_named := hv }

theorem withAliases (h : s.Valid) {aliases : Aliases}
    (ha : ∀ e ∈ aliases.toList, e.1 ≠ "" ∧ '=' ∉ e.1.toList) : { s with aliases }.Valid :=
  { h with aliases_named := ha }

theorem withExitRequest (h : s.Valid) {status : Status} (hs : IsExitCode status) :
    { s with exitRequest := some status }.Valid :=
  { h with exitRequest_code := fun _ hr => Option.some.inj hr ▸ hs }

theorem recordStatus (h : s.Valid) {status : Status} (hs : IsExitCode status) :
    (s.recordStatus status).Valid :=
  { h with lastStatus_code := hs }

theorem forall_mem_insert (h : s.Valid) {name : String} (hn : Variables.isName name)
    (v : Variable) : ∀ e ∈ (s.vars.insert name v).toList, Variables.isName e.1 := by
  intro e he
  rcases Table.mem_insert he with rfl | he
  · exact hn
  · exact h.vars_named e he

theorem forall_mem_exportName (h : s.Valid) {name : String} (hn : Variables.isName name) :
    ∀ e ∈ (s.vars.exportName name).toList, Variables.isName e.1 := by
  unfold Variables.exportName
  split
  · exact h.forall_mem_insert hn _
  · exact h.vars_named

theorem forall_mem_setExported (h : s.Valid) {name : String} (hn : Variables.isName name)
    (value : String) : ∀ e ∈ (s.vars.setExported name value).toList, Variables.isName e.1 :=
  (h.withVars (h.forall_mem_insert hn _)).forall_mem_exportName hn

theorem moveTo (h : s.Valid) (directory : RawPath) : (Request.moveTo s directory).Valid := by
  have holdName : Variables.isName "OLDPWD" := by decide
  have hname : Variables.isName "PWD" := by decide
  have hold := h.withVars (h.forall_mem_setExported holdName s.directory.text)
  have hnew := hold.forall_mem_setExported hname directory.text
  exact { h with vars_named := hnew }

theorem defineAlias (h : s.Valid) {definition name text : String}
    (hc : Expansion.cutAtEquals? definition = some (name, text)) (hne : name.isEmpty = false) :
    { s with aliases := s.aliases.insert name text }.Valid := by
  refine h.withAliases fun e he => ?_
  rcases Table.mem_insert he with rfl | he
  · exact ⟨by simpa using hne, (Expansion.cutAtEquals?_eq_some hc).1⟩
  · exact h.aliases_named e he

theorem remember (h : s.Valid) {text : String} (ht : Blank.isBlankText text = false) :
    { s with history := s.history.append text }.Valid := by
  refine { h with history_bounded := History.size_append_le _ _, history_text := fun line hl => ?_ }
  rcases List.mem_append.mp (List.mem_of_mem_drop hl) with hl | hl
  · exact h.history_text line hl
  · rw [List.mem_singleton.mp hl]
    simpa [Blank.isBlankText] using ht

end Session.Valid

namespace Shell

variable {σ : Type} {sh sh₁ : Shell σ}

theorem Valid.of_session (h : sh.Valid) (hs : sh₁.session = sh.session)
    (hd : sh₁.processDirectory = sh.processDirectory) : sh₁.Valid where
  session := hs ▸ h.session
  directory_eq := by rw [hs, hd, h.directory_eq]

theorem Valid.writes (h : sh.Valid) (hw : Writes sh sh₁) : sh₁.Valid :=
  h.of_session hw.session_eq hw.processDirectory_eq

theorem Valid.update (h : sh.Valid) {f : Session → Session} (hf : (f sh.session).Valid)
    (hd : (f sh.session).directory = sh.session.directory) : (sh.update f).Valid :=
  ⟨hf, hd.trans h.directory_eq⟩

end Shell

namespace Request

open Relation Shell

variable {σ : Type} {request : Request} {sh sh₁ : Shell σ}

theorem Effect.valid (he : Effect request sh sh₁) (h : sh.Valid) : sh₁.Valid := by
  cases he with
  | write hw => exact h.writes hw
  | enter directory => exact ⟨h.session.moveTo directory, rfl⟩
  | exitLast => exact h.update (h.session.withExitRequest h.session.lastStatus_code) rfl
  | exitWith n => exact h.update (h.session.withExitRequest (isExitCode_mod n)) rfl
  | setenv hn => exact h.update (h.session.withVars (h.session.forall_mem_setExported hn _)) rfl
  | exportValue _ _ hn =>
    exact h.update (h.session.withVars (h.session.forall_mem_setExported hn _)) rfl
  | exportName _ hn => exact h.update (h.session.withVars (h.session.forall_mem_exportName hn)) rfl
  | unset _ =>
    exact h.update (h.session.withVars fun e he => h.session.vars_named e (Table.mem_erase he)) rfl
  | defineAlias _ hc hne => exact h.update (h.session.defineAlias hc hne) rfl
  | removeAlias _ =>
    exact h.update
      (h.session.withAliases fun e he => h.session.aliases_named e (Table.mem_erase he)) rfl
  | clearAliases => exact h.update (h.session.withAliases fun e he => by cases he) rfl
  | clearHistory =>
    exact h.update { h.session with
      history_bounded := Nat.zero_le _
      history_text := fun line hl => by cases hl } rfl

theorem Effects.valid (he : Effects request sh sh₁) (h : sh.Valid) : sh₁.Valid := by
  induction he with
  | refl => exact h
  | tail _ he ih => exact he.valid ih

end Request

/-! ## The statuses of built-in commands -/

def Outcome.IsCode {σ : Type} (r : Outcome σ) : Prop :=
  ∀ status, r.1 = .ok status → IsExitCode status

namespace Request

variable {σ : Type} {sh : Shell σ}

theorem isCode_ok {status : Status} (h : IsExitCode status) (sh : Shell σ) :
    Outcome.IsCode (.ok status, sh) :=
  fun _ hr => Except.ok.inj hr ▸ h

theorem isCode_error (e : CommandError) (sh : Shell σ) : Outcome.IsCode (.error e, sh) := nofun

theorem isCode_zero (sh : Shell σ) : Outcome.IsCode (.ok 0, sh) := isCode_ok isExitCode_zero sh

theorem isCode_missing (sh : Shell σ) : Outcome.IsCode (.ok missingStatus, sh) :=
  isCode_ok (by simp [IsExitCode, missingStatus]) sh

theorem isExitCode_misuse : IsExitCode misuseStatus := by simp [IsExitCode, misuseStatus]

theorem isCode_misuse (sh : Shell σ) : Outcome.IsCode (.ok misuseStatus, sh) :=
  isCode_ok isExitCode_misuse sh

theorem isCode_ofPrint (r : Except WriteFault Unit × Shell σ) : (Outcome.ofPrint r).IsCode := by
  unfold Outcome.ofPrint
  split
  · exact isCode_zero _
  · exact isCode_error _ _

theorem isCode_forEach {f : String → Shell σ → Outcome σ} (h : ∀ x sh, (f x sh).IsCode)
    (xs : List String) {status : Status} (hs : IsExitCode status) (sh : Shell σ) :
    (Outcome.forEach f xs status sh).IsCode := by
  refine Outcome.forEach_induction (P := fun status _ => IsExitCode status) (Q := Outcome.IsCode)
    ?_ (fun _ sh hstatus => isCode_ok hstatus sh) hs
  intro x _ status sh hstatus
  have hx := h x sh
  generalize f x sh = ended at hx ⊢
  obtain ⟨made, after⟩ := ended
  cases made with
  | error e => exact isCode_error e after
  | ok s =>
    simp only
    split
    · exact hstatus
    · exact hx s rfl

theorem isCode_cd (sys : System σ) (target : Option String) (sh : Shell σ) :
    (runCd sys target sh).IsCode := by
  unfold runCd
  split
  · exact isCode_error _ _
  · split
    · exact isCode_error _ _
    · simp only
      split
      · exact isCode_ofPrint _
      · exact isCode_zero _

theorem isCode_exit (status : Option String) (h : IsExitCode sh.session.lastStatus) :
    (runExit status sh).IsCode := by
  unfold runExit
  split
  · exact isCode_ok h _
  · split
    · next n _ => exact isCode_ok (isExitCode_mod n) _
    · exact isCode_error _ _

theorem isCode_setenv (name : String) (value : Option String) (sh : Shell σ) :
    (runSetenv name value sh).IsCode := by
  unfold runSetenv
  split
  · exact isCode_zero _
  · exact isCode_error _ _

theorem isCode_exportOperand (operand : String) (sh : Shell σ) :
    (exportOperand operand sh).IsCode := by
  unfold exportOperand
  cases Expansion.cutAtEquals? operand <;>
  · simp only
    split
    · exact isCode_zero _
    · exact isCode_misuse _

theorem isCode_aliasOperand (definition : String) (sh : Shell σ) :
    (aliasOperand definition sh).IsCode := by
  unfold aliasOperand
  split
  · exact isCode_zero _
  · split
    · exact isCode_ofPrint _
    · exact isCode_missing _

theorem isCode_unaliasOperand (name : String) (sh : Shell σ) :
    (unaliasOperand name sh).IsCode := by
  unfold unaliasOperand
  split
  · exact isCode_zero _
  · exact isCode_missing _

theorem isCode_helpTopic (topic : String) (sh : Shell σ) : (helpTopic topic sh).IsCode := by
  unfold helpTopic
  split
  · exact isCode_ofPrint _
  · exact isCode_missing _

theorem isCode_run (sys : System σ) (request : Request) (h : IsExitCode sh.session.lastStatus) :
    (request.run sys sh).IsCode := by
  match request with
  | .alias [] => exact isCode_ofPrint _
  | .alias (_ :: _) => exact isCode_forEach isCode_aliasOperand _ isExitCode_zero _
  | .cd target => exact isCode_cd sys target sh
  | .echo _ _ => exact isCode_ofPrint _
  | .env => exact isCode_ofPrint _
  | .exit status => exact isCode_exit status h
  | .exportNames [] => exact isCode_ofPrint _
  | .exportNames (_ :: _) => exact isCode_forEach isCode_exportOperand _ isExitCode_zero _
  | .help [] => exact isCode_ofPrint _
  | .help (_ :: _) => exact isCode_forEach isCode_helpTopic _ isExitCode_zero _
  | .history true => exact isCode_zero _
  | .history false => exact isCode_ofPrint _
  | .pwd => exact isCode_ofPrint _
  | .setenv name value => exact isCode_setenv name value sh
  | .unalias true _ => exact isCode_zero _
  | .unalias false _ => exact isCode_forEach isCode_unaliasOperand _ isExitCode_zero _
  | .unset _ => exact isCode_zero _
  | .usage _ => exact isCode_ofPrint _
  | .refused _ => exact isCode_misuse _

theorem isCode_execute (sys : System σ) (request : Request)
    (h : IsExitCode sh.session.lastStatus) : (request.execute sys sh).IsCode := by
  have hrun := isCode_run sys request h
  unfold execute
  split
  · split
    · exact isCode_error _ _
    · exact isCode_misuse _
  · exact hrun

end Request

end CommandShell
