import CommandShell.Proofs.Shell.Writing
import Mathlib.Logic.Relation

/-! # Effects of built-in commands

Running a request is a sequence of writes and of changes that belong to the request. There are few
kinds of changes, so what holds after each of them holds after every built-in command.
-/

namespace CommandShell

open Relation Shell

variable {σ : Type}

namespace Request

/-- One write, or one change that a request may make. -/
inductive Effect : Request → Shell σ → Shell σ → Prop where
  | write {request : Request} {sh sh₁ : Shell σ} : Writes sh sh₁ → Effect request sh sh₁
  | enter {target : Option String} {sh : Shell σ} (directory : RawPath) :
      Effect (.cd target) sh
        { sh.update (moveTo · directory) with processDirectory := directory }
  | exitLast {sh : Shell σ} :
      Effect (.exit none) sh
        (sh.update fun s => { s with exitRequest := some s.lastStatus })
  | exitWith {text : String} {sh : Shell σ} (n : Nat) :
      Effect (.exit (some text)) sh
        (sh.update fun s => { s with exitRequest := some (n % 256 : Nat) })
  | setenv {name : String} {value : Option String} {sh : Shell σ} : Variables.isName name →
      Effect (.setenv name value) sh
        (sh.update fun s => { s with vars := s.vars.setExported name (value.getD "") })
  | exportValue {operands : List String} {sh : Shell σ} {operand name value : String} :
      operand ∈ operands → Expansion.cutAtEquals? operand = some (name, value) →
      Variables.isName name →
      Effect (.exportNames operands) sh
        (sh.update fun s => { s with vars := s.vars.setExported name value })
  | exportName {operands : List String} {sh : Shell σ} {name : String} :
      name ∈ operands → Variables.isName name →
      Effect (.exportNames operands) sh
        (sh.update fun s => { s with vars := s.vars.exportName name })
  | unset {names : List String} {sh : Shell σ} {name : String} : name ∈ names →
      Effect (.unset names) sh (sh.update fun s => { s with vars := s.vars.erase name })
  | defineAlias {definitions : List String} {sh : Shell σ} {definition name text : String} :
      definition ∈ definitions → Expansion.cutAtEquals? definition = some (name, text) →
      name.isEmpty = false →
      Effect (.alias definitions) sh
        (sh.update fun s => { s with aliases := s.aliases.insert name text })
  | removeAlias {names : List String} {sh : Shell σ} {name : String} : name ∈ names →
      Effect (.unalias false names) sh
        (sh.update fun s => { s with aliases := s.aliases.erase name })
  | clearAliases {names : List String} {sh : Shell σ} :
      Effect (.unalias true names) sh (sh.update fun s => { s with aliases := .empty })
  | clearHistory {sh : Shell σ} :
      Effect (.history true) sh (sh.update fun s => { s with history := s.history.clear })

abbrev Effects (request : Request) : Shell σ → Shell σ → Prop := ReflTransGen (Effect request)

variable {request : Request} {sh sh₁ : Shell σ}

theorem Effects.of_writes (h : Writes sh sh₁) : Effects request sh sh₁ := .single (.write h)

theorem effects_print (sh : Shell σ) (pieces : List String) :
    Effects request sh (Outcome.ofPrint (sh.print pieces)).2 := by
  have h : Effects request sh (sh.print pieces).2 := .of_writes (writes_print sh pieces)
  unfold Outcome.ofPrint
  split <;> next hp => rwa [hp] at h

theorem effects_report (sh : Shell σ) (fragments : List String) :
    Effects request sh (sh.report fragments) :=
  .of_writes (writes_report sh fragments)

theorem effects_forEach {f : String → Shell σ → Outcome σ} {xs : List String}
    (h : ∀ x ∈ xs, ∀ sh, Effects request sh (f x sh).2) (status : Status) (sh : Shell σ) :
    Effects request sh (Outcome.forEach f xs status sh).2 := by
  refine Outcome.forEach_induction (P := fun _ => Effects request sh)
    (Q := fun ended => Effects request sh ended.2) ?_ (fun _ _ hreached => hreached) .refl
  intro x hx status reached hreached
  have hnext := hreached.trans (h x hx reached)
  generalize f x reached = ended at hnext ⊢
  obtain ⟨made, after⟩ := ended
  cases made <;> exact hnext

theorem effects_cd (sys : System σ) (target : Option String) (sh : Shell σ) :
    Effects (.cd target) sh (runCd sys target sh).2 := by
  unfold runCd
  split
  · exact .refl
  · split
    · exact .refl
    · next directory _ =>
      have h : Effects (.cd target) sh
          { sh.update (moveTo · directory) with processDirectory := directory } :=
        .single (.enter directory)
      simp only
      split
      · exact h.trans (effects_print _ _)
      · exact h

theorem effects_exit (status : Option String) (sh : Shell σ) :
    Effects (.exit status) sh (runExit status sh).2 := by
  unfold runExit
  split
  · exact .single .exitLast
  · split
    · next n _ => exact .single (.exitWith n)
    · exact .refl

theorem effects_exportOperand {operands : List String} {operand : String} (h : operand ∈ operands)
    (sh : Shell σ) : Effects (.exportNames operands) sh (exportOperand operand sh).2 := by
  unfold exportOperand
  cases hcut : Expansion.cutAtEquals? operand with
  | none =>
    simp only
    split
    · next hn => exact .single (.exportName h hn)
    · exact effects_report _ _
  | some cut =>
    obtain ⟨name, value⟩ := cut
    simp only
    split
    · next hn => exact .single (.exportValue h hcut hn)
    · exact effects_report _ _

theorem effects_aliasOperand {definitions : List String} {definition : String}
    (h : definition ∈ definitions) (sh : Shell σ) :
    Effects (.alias definitions) sh (aliasOperand definition sh).2 := by
  unfold aliasOperand
  split
  · next name text hcut =>
    obtain ⟨hcut, hne⟩ := Option.filter_eq_some_iff.mp hcut
    exact .single (.defineAlias h hcut (by simpa using hne))
  · split
    · exact effects_print _ _
    · exact effects_report _ _

theorem effects_unaliasOperand {names : List String} {name : String} (h : name ∈ names)
    (sh : Shell σ) : Effects (.unalias false names) sh (unaliasOperand name sh).2 := by
  unfold unaliasOperand
  split
  · exact .single (.removeAlias h)
  · exact effects_report _ _

theorem effects_helpTopic (topic : String) (sh : Shell σ) :
    Effects request sh (helpTopic topic sh).2 := by
  unfold helpTopic
  split
  · exact effects_print _ _
  · exact effects_report _ _

theorem effects_setenv (name : String) (value : Option String) (sh : Shell σ) :
    Effects (.setenv name value) sh (runSetenv name value sh).2 := by
  unfold runSetenv
  split
  · next hn => exact .single (.setenv hn)
  · exact .refl

theorem effects_unset (names : List String) (sh : Shell σ) :
    Effects (.unset names) sh (sh.update fun s => { s with vars := unsetAll s.vars names }) := by
  suffices h : ∀ removed, removed ⊆ names → ∀ sh : Shell σ,
      Effects (.unset names) sh (sh.update fun s => { s with vars := unsetAll s.vars removed }) from
    h names (List.Subset.refl names) sh
  intro removed
  induction removed with
  | nil => exact fun _ _ => .refl
  | cons name removed ih =>
    intro hs sh
    obtain ⟨hname, hs⟩ := List.cons_subset.mp hs
    exact .head (.unset hname) (ih hs _)

/-- Whatever a request does to the shell, it does by its effects. -/
theorem effects_run (sys : System σ) (request : Request) (sh : Shell σ) :
    Effects request sh (request.run sys sh).2 := by
  match request with
  | .alias [] => exact effects_print _ _
  | .alias (_ :: _) => exact effects_forEach (fun _ h sh => effects_aliasOperand h sh) _ _
  | .cd target => exact effects_cd sys target sh
  | .echo _ _ => exact effects_print _ _
  | .env => exact effects_print _ _
  | .exit status => exact effects_exit status sh
  | .exportNames [] => exact effects_print _ _
  | .exportNames (_ :: _) =>
    exact effects_forEach (fun _ h sh => effects_exportOperand h sh) _ _
  | .help [] => exact effects_print _ _
  | .help (_ :: _) => exact effects_forEach (fun topic _ sh => effects_helpTopic topic sh) _ _
  | .history true => exact .single .clearHistory
  | .history false => exact effects_print _ _
  | .pwd => exact effects_print _ _
  | .setenv name value => exact effects_setenv name value sh
  | .unalias true _ => exact .single .clearAliases
  | .unalias false _ => exact effects_forEach (fun _ h sh => effects_unaliasOperand h sh) _ _
  | .unset names => exact effects_unset names sh
  | .usage _ => exact effects_print _ _
  | .refused _ => exact effects_report _ _

theorem execute_of_ok {sys : System σ} {status : Status}
    (h : request.run sys sh = (.ok status, sh₁)) :
    request.execute sys sh = (.ok status, sh₁) := by
  rw [execute, h]

theorem execute_of_error {sys : System σ} {e : CommandError}
    (h : request.run sys sh = (.error e, sh₁)) (hleaves : request.leavesFailure = false) :
    request.execute sys sh = (.ok misuseStatus, sh₁.report [e.message]) := by
  rw [execute, h]
  simp [hleaves]

theorem effects_execute (sys : System σ) (request : Request) (sh : Shell σ) :
    Effects request sh (request.execute sys sh).2 := by
  have h := effects_run sys request sh
  unfold execute
  split
  · next hr =>
    rw [hr] at h
    split
    · exact h
    · exact h.trans (effects_report _ _)
  · exact h

end Request

theorem Shell.effects_runBuiltin (sys : System σ) (b : Builtin) (name : String)
    (arguments : List String) (sh : Shell σ) :
    Request.Effects (b.request arguments) sh (runBuiltin sys b name arguments sh).2 := by
  have h := Request.effects_execute sys (b.request arguments) sh
  unfold runBuiltin
  generalize (b.request arguments).execute sys sh = ended at h ⊢
  obtain ⟨r, ended⟩ := ended
  have hflush := ReflTransGen.trans h (Request.Effects.of_writes (writes_flush ended))
  cases r with
  | ok status => exact hflush
  | error e => exact hflush.trans (Request.effects_report _ _)

end CommandShell
