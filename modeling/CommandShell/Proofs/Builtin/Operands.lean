import CommandShell.Machine.Basic
import CommandShell.Proofs.Builtin.Effects
import CommandShell.Proofs.Arguments.Operands
import CommandShell.Proofs.Output.Streams
import Mathlib.Tactic.FinCases

/-! # Commands that take their operands one by one

Some built-in commands do the same thing for each operand and go on when one fails. Calling them
with all operands at once is calling them with the first ones and then with the others.
-/

namespace CommandShell

variable {σ : Type}

namespace Outcome

variable {f : String → Shell σ → Outcome σ} {failure : Status} {sh : Shell σ}

/-- The command succeeds or fails with a status of its own, and the standard output goes on taking
everything. -/
def Completes (failure : Status) (ended : Outcome σ) : Prop :=
  ∃ status sh, ended = (.ok status, sh) ∧ (status = 0 ∨ status = failure) ∧
    sh.out.device.room = none

theorem completes_ofPrint (h : sh.out.device.room = none) (pieces : List String) :
    Completes failure (ofPrint (sh.print pieces)) := by
  have hprint := Stream.appends_writeAll sh.out pieces
  unfold Shell.print
  generalize sh.out.writeAll pieces = printed at hprint ⊢
  obtain ⟨made, out⟩ := printed
  obtain rfl : made = .ok () := hprint.ok h
  exact ⟨0, { sh with out }, rfl, .inl rfl, hprint.room_eq h⟩

theorem forEach_append (f : String → Shell σ → Outcome σ) (xs ys : List String) (status : Status)
    (sh : Shell σ) :
    forEach f (xs ++ ys) status sh =
      match forEach f xs status sh with
      | (.ok status, sh) => forEach f ys status sh
      | ended => ended := by
  induction xs generalizing status sh with
  | nil => rfl
  | cons x xs ih =>
    rw [List.cons_append, forEach, forEach]
    generalize f x sh = ended
    obtain ⟨made, after⟩ := ended
    cases made with
    | ok s => exact ih _ after
    | error e => rfl

theorem forEach_status (f : String → Shell σ → Outcome σ) (xs : List String) (status : Status)
    (sh : Shell σ) :
    forEach f xs status sh =
      ((forEach f xs 0 sh).1.map fun s => if s = 0 then status else s,
        (forEach f xs 0 sh).2) := by
  induction xs generalizing status sh with
  | nil => rfl
  | cons x xs ih =>
    rw [forEach, forEach]
    generalize f x sh = ended
    obtain ⟨made, after⟩ := ended
    cases made with
    | error e => rfl
    | ok s =>
      simp only
      rw [ih (if s = 0 then status else s), ih (if s = 0 then 0 else s)]
      generalize (forEach f xs 0 after).1 = made
      cases made with
      | error e => rfl
      | ok t => by_cases hs : s = 0 <;> by_cases ht : t = 0 <;> simp [hs, ht, Except.map]

theorem completes_forEach
    (h : ∀ x {sh : Shell σ}, sh.out.device.room = none → Completes failure (f x sh))
    (xs : List String) {status : Status} (hstatus : status = 0 ∨ status = failure)
    (hroom : sh.out.device.room = none) : Completes failure (forEach f xs status sh) := by
  refine forEach_induction (Q := Completes failure)
    (P := fun status sh => (status = 0 ∨ status = failure) ∧ sh.out.device.room = none)
    ?_ (fun status sh hsh => ⟨status, sh, rfl, hsh.1, hsh.2⟩) ⟨hstatus, hroom⟩
  rintro x - status sh ⟨hstatus, hroom⟩
  obtain ⟨s, after, hx, hs, hafter⟩ := h x hroom
  rw [hx]
  refine ⟨?_, hafter⟩
  split
  · exact hstatus
  · exact hs

end Outcome

namespace Request

open Arguments Outcome Shell

variable {sys : System σ} {b : Builtin} {operands : List String} {sh : Shell σ}

def unsetOperand (name : String) (sh : Shell σ) : Outcome σ :=
  (.ok 0, sh.update fun s => { s with vars := s.vars.erase name })

theorem forEach_unsetOperand (names : List String) (sh : Shell σ) :
    forEach unsetOperand names 0 sh =
      (.ok 0, sh.update fun s => { s with vars := unsetAll s.vars names }) := by
  induction names generalizing sh with
  | nil => rfl
  | cons name names ih => exact ih _

theorem completes_aliasOperand (definition : String) (h : sh.out.device.room = none) :
    Completes missingStatus (aliasOperand definition sh) := by
  unfold aliasOperand
  split
  · exact ⟨0, _, rfl, .inl rfl, h⟩
  · split
    · exact completes_ofPrint h _
    · exact ⟨missingStatus, _, rfl, .inr rfl, h⟩

theorem completes_exportOperand (operand : String) (h : sh.out.device.room = none) :
    Completes misuseStatus (exportOperand operand sh) := by
  unfold exportOperand
  cases Expansion.cutAtEquals? operand <;>
  · simp only
    split
    · exact ⟨0, _, rfl, .inl rfl, h⟩
    · exact ⟨misuseStatus, _, rfl, .inr rfl, h⟩

theorem completes_unsetOperand (name : String) (h : sh.out.device.room = none) :
    Completes 0 (unsetOperand name sh) :=
  ⟨0, _, rfl, .inl rfl, h⟩

/-- A command that does the same for each operand, and goes on if that fails. -/
structure Operandwise (b : Builtin) (f : String → Shell σ → Outcome σ) (failure : Status) :
    Prop where
  run_eq : ∀ (sys : System σ) {operands : List String}, operands ≠ [] → operands ≠ [helpOption] →
    (b.request operands).run sys = forEach f operands 0
  completes : ∀ operand {sh : Shell σ}, sh.out.device.room = none →
    Completes failure (f operand sh)

theorem operandwise_alias : Operandwise (σ := σ) .alias aliasOperand missingStatus where
  run_eq sys operands hne hhelp := by
    have hrequest : Builtin.request .alias operands = .alias operands :=
      ofOperands_any rfl hhelp _
    obtain ⟨x, xs, rfl⟩ := List.exists_cons_of_ne_nil hne
    rw [hrequest]
    rfl
  completes definition _ := completes_aliasOperand definition

theorem operandwise_exportNames : Operandwise (σ := σ) .exportNames exportOperand misuseStatus where
  run_eq sys operands hne hhelp := by
    have hrequest : Builtin.request .exportNames operands = .exportNames operands :=
      ofOperands_any rfl hhelp _
    obtain ⟨x, xs, rfl⟩ := List.exists_cons_of_ne_nil hne
    rw [hrequest]
    rfl
  completes operand _ := completes_exportOperand operand

theorem operandwise_unset (hb : b = .unset ∨ b = .unsetenv) :
    Operandwise (σ := σ) b unsetOperand 0 where
  run_eq sys operands hne hhelp := by
    have hrequest : b.request operands = .unset operands := by
      rcases hb with rfl | rfl <;> exact ofOperands_any rfl hhelp _
    funext sh
    rw [hrequest, forEach_unsetOperand]
    rfl
  completes name _ := completes_unsetOperand name

section Operandwise

variable {f : String → Shell σ → Outcome σ} {failure : Status}

theorem Operandwise.execute_eq (h : Operandwise b f failure) (hne : operands ≠ [])
    (hhelp : operands ≠ [helpOption]) (hroom : sh.out.device.room = none) :
    (b.request operands).execute sys sh = forEach f operands 0 sh := by
  obtain ⟨status, after, hrun, -, -⟩ := completes_forEach h.completes operands (.inl rfl) hroom
  rw [hrun]
  apply execute_of_ok
  rw [h.run_eq sys hne hhelp, hrun]

theorem append_ne_help {xs ys : List String} (hxs : xs ≠ []) (hys : ys ≠ []) :
    xs ++ ys ≠ [helpOption] := by
  intro h
  rcases List.append_eq_singleton_iff.mp h with ⟨hnil, -⟩ | ⟨-, hnil⟩
  · exact hxs hnil
  · exact hys hnil

/-- One call with all operands, and one with the first followed by one with the others. -/
theorem Operandwise.execute_append (h : Operandwise b f failure) {xs ys : List String}
    (hxs : xs ≠ []) (hys : ys ≠ []) (hxhelp : xs ≠ [helpOption]) (hyhelp : ys ≠ [helpOption])
    (hroom : sh.out.device.room = none) :
    ∃ s t sh₁ sh₂,
      (b.request xs).execute sys sh = (.ok s, sh₁) ∧
      (b.request ys).execute sys sh₁ = (.ok t, sh₂) ∧
      (b.request (xs ++ ys)).execute sys sh = (.ok (if t = 0 then s else t), sh₂) ∧
      (s = 0 ∨ s = failure) ∧ (t = 0 ∨ t = failure) := by
  obtain ⟨s, sh₁, hfirst, hs, hroom₁⟩ := completes_forEach h.completes xs (.inl rfl) hroom
  obtain ⟨t, sh₂, hsecond, ht, -⟩ := completes_forEach h.completes ys (.inl rfl) hroom₁
  refine ⟨s, t, sh₁, sh₂, ?_, ?_, ?_, hs, ht⟩
  · rw [h.execute_eq hxs hxhelp hroom, hfirst]
  · rw [h.execute_eq hys hyhelp hroom₁, hsecond]
  · rw [h.execute_eq (List.append_ne_nil_of_left_ne_nil hxs ys) (append_ne_help hxs hys) hroom,
      forEach_append, hfirst]
    simp only
    rw [forEach_status, hsecond]
    rfl

end Operandwise

theorem exists_operandwise (hb : b ∈ [.alias, .exportNames, .unset, .unsetenv]) :
    ∃ f : String → Shell σ → Outcome σ, ∃ failure : Status, Operandwise b f failure ∧
      (failure = 0 ∨ b = .alias ∧ failure = 1 ∨ b = .exportNames ∧ failure = 2) := by
  fin_cases hb
  · exact ⟨_, _, operandwise_alias, .inr (.inl ⟨rfl, rfl⟩)⟩
  · exact ⟨_, _, operandwise_exportNames, .inr (.inr ⟨rfl, rfl⟩)⟩
  · exact ⟨_, _, operandwise_unset (.inl rfl), .inl rfl⟩
  · exact ⟨_, _, operandwise_unset (.inr rfl), .inl rfl⟩

/-- Operands are independent of how they are spread over calls: neither a failing operand nor the
end of a call stops, undoes or hides anything. Some operand fails in the one call if one fails in
the two. -/
theorem execute_append_operands (sys : System σ) {b : Builtin}
    (hb : b ∈ [.alias, .exportNames, .unset, .unsetenv]) {xs ys : List String} (hxs : xs ≠ [])
    (hys : ys ≠ []) (hxhelp : xs ≠ [helpOption]) (hyhelp : ys ≠ [helpOption]) (sh : Shell σ)
    (hroom : sh.out.device.room = none) :
    let call (operands : List String) (sh : Shell σ) := (b.request operands).execute sys sh
    let first := call xs sh
    let second := call ys first.2
    let both := call (xs ++ ys) sh
    both.2 = second.2 ∧
      ∃ s t u, first.1 = .ok s ∧ second.1 = .ok t ∧ both.1 = .ok u ∧
        (u = 0 ↔ s = 0 ∧ t = 0) ∧
        (u = 0 ∨ b = .alias ∧ u = 1 ∨ b = .exportNames ∧ u = 2) := by
  intro call first second both
  obtain ⟨f, failure, h, hfailure⟩ := exists_operandwise (σ := σ) hb
  obtain ⟨s, t, sh₁, sh₂, hfirst, hsecond, hboth, hs, ht⟩ :=
    h.execute_append hxs hys hxhelp hyhelp hroom
  have hfirst : first = (.ok s, sh₁) := hfirst
  have hsecond : second = (.ok t, sh₂) := by
    change (b.request ys).execute sys first.2 = _
    rw [hfirst, hsecond]
  have hboth : both = (.ok (if t = 0 then s else t), sh₂) := hboth
  rw [hfirst, hsecond, hboth]
  refine ⟨rfl, s, t, _, rfl, rfl, rfl, ?_, ?_⟩
  · split
    · next hzero => exact ⟨fun hs => ⟨hs, hzero⟩, And.left⟩
    · next hne => exact ⟨fun hzero => absurd hzero hne, fun hzero => absurd hzero.2 hne⟩
  · have hcombined : (if t = 0 then s else t) = 0 ∨ (if t = 0 then s else t) = failure := by
      split <;> assumption
    rcases hcombined with hzero | hfails
    · exact .inl hzero
    · rwa [hfails]

theorem execute_append_operands_alias :
    let sh : Shell Machine :=
      { session :=
          { history := { capacity := 10 }, directory := "/", name := "hsh", processId := 1 }
        processDirectory := "/"
        world := {} }
    let call (operands : List String) (sh : Shell Machine) :=
      (Builtin.request .alias operands).execute Machine.system sh
    let first := call ["ll=ls -l"] sh
    let second := call ["la", "ll", "--"] first.2
    let both := call ["ll=ls -l", "la", "ll", "--"] sh
    Builtin.alias ∈ [.alias, .exportNames, .unset, .unsetenv] ∧
      first.1 = .ok 0 ∧ second.1 = .ok 1 ∧ both.1 = .ok 1 ∧ both.2 = second.2 ∧
      both.2.out.written = Utf8.encode "ll='ls -l'\n" ∧
      both.2.err.written =
        Utf8.encode "hsh: 0: alias: la not found\nhsh: 0: alias: -- not found\n" := by
  intro sh call first second both
  have hb : Builtin.alias ∈ [.alias, .exportNames, .unset, .unsetenv] := by decide
  have hfirst : first.1 = .ok 0 := rfl
  have hsecond : second.1 = .ok 1 := rfl
  obtain ⟨hended, s, t, u, hs, ht, hu, hzero, hstatus⟩ :=
    @execute_append_operands Machine Machine.system _ hb ["ll=ls -l"] ["la", "ll", "--"]
      (by decide) (by decide) (by decide) (by decide) sh rfl
  have hone : u = 1 := by
    obtain rfl : 1 = t := Except.ok.inj (hsecond.symm.trans ht)
    simpa [hzero] using hstatus
  refine ⟨hb, hfirst, hsecond, hu.trans (congrArg _ hone), hended, ?_, ?_⟩ <;> decide +kernel

end Request

end CommandShell
