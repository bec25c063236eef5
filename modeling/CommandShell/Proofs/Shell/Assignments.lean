import CommandShell.Proofs.Expansion.Roles
import CommandShell.Proofs.Shell.Dispatch

/-! # Lines of assignments

A line without a command assigns the values that its words have before anything is assigned. It
changes the variables that it names, keeps their flags, and leaves everything else alone.
-/

namespace CommandShell.Shell

variable {σ : Type}

/-- What bindings leave in a session: for each of their names the last value, exported if the name
was exported before, and otherwise all that was there, with the status of success. -/
structure Assigned (bindings : List (String × String)) (before after : Session) : Prop where
  get?_vars : ∀ name, after.vars.get? name =
    ((Table.lastBinding? bindings name).map fun value =>
      { value, exported := before.vars.isExported name }).or (before.vars.get? name)
  rest_eq : after = { before with vars := after.vars, lastStatus := 0 }

theorem vars_assign (bindings : List (String × String)) (s : Session) :
    (assign bindings s).vars = s.vars.setAll bindings := by
  induction bindings generalizing s with
  | nil => rfl
  | cons b bindings ih => exact ih (s.setVariable b.1 b.2)

theorem assigned_assign (bindings : List (String × String)) (s : Session) :
    Assigned bindings s ((assign bindings s).recordStatus 0) where
  get?_vars := by
    intro name
    rw [Session.recordStatus, vars_assign, Variables.get?_setAll]
  rest_eq := by
    rw [assign_eq]
    rfl

/-- Running a line that has no command. Its first words are assignments, whose values are those of
the session before the line, and the other words stand for nothing. -/
theorem execute_assignments (sys : System σ) {words : List Word} {sh : Shell σ} (hne : words ≠ [])
    (h : (Expansion.expand {} sh.session words).arguments = []) :
    let s := sh.session
    let bindings := (Expansion.expand {} s words).assignments
    let ended := execute sys words sh
    (∃ assigning vanishing,
        Expansion.substituteAlias {} s.aliases words = assigning ++ vanishing ∧
          List.Forall₂ (Expansion.Assigns s) assigning bindings ∧
            ∀ w ∈ vanishing, w.quoted = false ∧ Expansion.partsText s w.parts = "") ∧
      ended.1 = 0 ∧ ended.2 = { sh with session := ended.2.session } ∧
        Assigned bindings s ended.2.session := by
  intro s bindings ended
  have hended : ended = record (0, sh.update (assign bindings)) := execute_of_assignments sys hne h
  refine ⟨Expansion.exists_of_arguments_eq_nil h, ?_⟩
  rw [hended]
  exact ⟨rfl, rfl, assigned_assign bindings s⟩

theorem execute_assignments_again :
    let sh : Shell Unit := Shell.bare.update fun s =>
      { s with
        vars := Variables.setExported .empty "A" "0"
        aliases := Table.empty.insert "e" "A=1 B=$A" }
    let words : List Word :=
      [{ parts := [.literal "e"] }, { parts := [.literal "A=", .parameter "A", .literal "2"] },
        { parts := [.parameter "C"] }]
    let ended := execute System.bare words sh
    words ≠ [] ∧ (Expansion.expand {} sh.session words).arguments = [] ∧
      (Expansion.expand {} sh.session words).assignments =
        [("A", "1"), ("B", "0"), ("A", "02")] ∧
      ended.1 = 0 ∧ Assigned [("A", "1"), ("B", "0"), ("A", "02")] sh.session ended.2.session ∧
      ended.2.session.vars.get? "A" = some { value := "02", exported := true } ∧
      ended.2.session.vars.get? "B" = some { value := "0", exported := false } := by
  intro sh words ended
  have hne : words ≠ [] := List.cons_ne_nil _ _
  have harguments : (Expansion.expand {} sh.session words).arguments = [] := by decide +kernel
  have hbindings : (Expansion.expand {} sh.session words).assignments =
      [("A", "1"), ("B", "0"), ("A", "02")] := by decide +kernel
  obtain ⟨-, hstatus, -, hassigned⟩ := execute_assignments System.bare hne harguments
  rw [hbindings] at hassigned
  refine ⟨hne, harguments, hbindings, hstatus, hassigned, ?_, ?_⟩
  · rw [hassigned.get?_vars]
    decide +kernel
  · rw [hassigned.get?_vars]
    decide +kernel

end CommandShell.Shell
