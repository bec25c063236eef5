import CommandShell.Machine.Basic
import CommandShell.Proofs.Builtin.Operands
import CommandShell.Proofs.Expansion.Assignments
import CommandShell.Proofs.Variables

/-! # Defining and removing an alias

Removing a new alias undoes its definition, whatever the alias is called. The one name that cannot
be removed in this way is the word that asks for help: it is taken for that, and the alias stays.
-/

namespace CommandShell.Request

open Arguments Outcome

variable {σ : Type} (sys : System σ) {name : String} {sh : Shell σ}

theorem aliasOperand_definition (hne : name ≠ "") (hequals : '=' ∉ name.toList) (value : String)
    (sh : Shell σ) :
    aliasOperand (name ++ "=" ++ value) sh =
      (.ok 0, sh.update fun s => { s with aliases := s.aliases.insert name value }) := by
  have hcut : (Expansion.cutAtEquals? (name ++ "=" ++ value)).filter (!·.1.isEmpty) =
      some (name, value) := by
    rw [Expansion.cutAtEquals?_append hequals, Option.filter_eq_some_iff]
    simpa using hne
  simp only [aliasOperand, hcut]

theorem execute_alias_definition (hne : name ≠ "") (hequals : '=' ∉ name.toList) (value : String)
    (sh : Shell σ) :
    (Builtin.alias.request [name ++ "=" ++ value]).execute sys sh =
      (.ok 0, sh.update fun s => { s with aliases := s.aliases.insert name value }) := by
  have hhelp : [name ++ "=" ++ value] ≠ [helpOption] := fun h =>
    ne_helpOption_of_equals (by simp) (List.singleton_inj.mp h)
  apply execute_of_ok
  rw [operandwise_alias.run_eq sys (List.cons_ne_nil _ _) hhelp, forEach,
    aliasOperand_definition hne hequals]
  rfl

theorem request_unalias (hhyphen : name.toList.head? ≠ some '-') (hhelp : name ≠ helpWord) :
    Builtin.unalias.request [name] = .unalias false [name] := by
  rw [Builtin.request, ofOptions, parse_any rfl hhyphen hhelp]
  rfl

theorem execute_unalias (hhyphen : name.toList.head? ≠ some '-') (hhelp : name ≠ helpWord)
    (h : sh.session.aliases.contains name) :
    (Builtin.unalias.request [name]).execute sys sh =
      (.ok 0, sh.update fun s => { s with aliases := s.aliases.erase name }) := by
  apply execute_of_ok
  rw [request_unalias hhyphen hhelp, run, forEach, unaliasOperand, if_pos h]
  rfl

theorem session_execute_usage (text : String) (sh : Shell σ) :
    ((Request.usage text).execute sys sh).2.session = sh.session := by
  have h := effects_execute sys (.usage text) sh
  generalize ((Request.usage text).execute sys sh).2 = ended at h
  induction h with
  | refl => rfl
  | tail _ he ih =>
    cases he with
    | write hw => exact hw.session_eq.trans ih

/-- Defining a new alias and removing it leaves everything as it was, for every name that `alias`
takes and that is no option, but for the word that asks for help. That one is defined like any
other, and removing it changes nothing in the session. -/
theorem execute_unalias_alias (hne : name ≠ "") (hequals : '=' ∉ name.toList)
    (hhyphen : name.toList.head? ≠ some '-') (value : String)
    (hnew : sh.session.aliases.get? name = none) :
    let defined := (Builtin.alias.request [name ++ "=" ++ value]).execute sys sh
    let removed := (Builtin.unalias.request [name]).execute sys defined.2
    defined.1 = .ok 0 ∧ defined.2.session.aliases.get? name = some value ∧
      (name ≠ helpWord → removed = (.ok 0, sh)) ∧
      (name = helpWord → removed.2.session = defined.2.session) := by
  intro defined removed
  have hdefined : defined =
      (.ok 0, sh.update fun s => { s with aliases := s.aliases.insert name value }) :=
    execute_alias_definition sys hne hequals value sh
  refine ⟨by rw [hdefined], by simp [hdefined, Shell.update], fun hhelp => ?_, fun hhelp => ?_⟩
  · have hthere : defined.2.session.aliases.contains name := by
      simp [hdefined, Shell.update, Table.contains]
    have hremoved : removed =
        (.ok 0, defined.2.update fun s => { s with aliases := s.aliases.erase name }) :=
      execute_unalias sys hhyphen hhelp hthere
    rw [hremoved, hdefined]
    simp only [Shell.update, Table.erase_insert_of_get?_eq_none hnew]
  · subst hhelp
    exact session_execute_usage sys _ _

theorem execute_unalias_alias_spaced :
    let sh : Shell Machine :=
      { session :=
          { history := { capacity := 10 }, directory := "/", name := "hsh", processId := 1
            aliases := Table.empty.insert "ll" "ls -l" }
        processDirectory := "/"
        world := {} }
    let defined := (Builtin.alias.request ["a -a=b=c"]).execute Machine.system sh
    let removed := (Builtin.unalias.request ["a -a"]).execute Machine.system defined.2
    sh.session.aliases.get? "a -a" = none ∧ defined.1 = .ok 0 ∧
      defined.2.session.aliases.get? "a -a" = some "b=c" ∧ removed = (.ok 0, sh) := by
  intro sh defined removed
  have hnew : sh.session.aliases.get? "a -a" = none := by decide +kernel
  have hne : "a -a" ≠ "" := by decide
  obtain ⟨hstatus, hdefined, hremoved, -⟩ :=
    execute_unalias_alias Machine.system hne (by decide) (by decide) "b=c" hnew
  exact ⟨hnew, hstatus, hdefined, hremoved (by decide)⟩

/-- An alias for the word that asks for help is defined, and is still there when it was removed with
success. -/
theorem execute_unalias_alias_help :
    let sh : Shell Machine :=
      { session :=
          { history := { capacity := 10 }, directory := "/", name := "hsh", processId := 1 }
        processDirectory := "/"
        world := {} }
    let defined := (Builtin.alias.request ["help=ls"]).execute Machine.system sh
    let removed := (Builtin.unalias.request ["help"]).execute Machine.system defined.2
    sh.session.aliases.get? "help" = none ∧ defined.1 = .ok 0 ∧ removed.1 = .ok 0 ∧
      removed.2.session.aliases.get? "help" = some "ls" := by
  decide +kernel

end CommandShell.Request
