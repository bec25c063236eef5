import CommandShell.Machine.Basic
import CommandShell.Proofs.Arguments.Operands
import CommandShell.Proofs.Output.Streams
import CommandShell.Proofs.Shell.ExitStatus
import Mathlib.Tactic.FinCases

/-! # End marks before operands

The commands with a fixed number of operands show in their usage line that a mark may end their
options. Since they take every argument for an operand, the mark is one too: it takes the place of
the first operand, so that the last one is refused or the mark itself is.
-/

namespace CommandShell

theorem Blank.head?_trimEnd {s : String} {c : Char} (h : s.toList.head? = some c)
    (hc : isBlank c = false) : (trimEnd s).toList.head? = some c := by
  obtain ⟨cs, hs⟩ := List.head?_eq_some_iff.mp h
  rw [trimEnd, hs, List.reverse_cons, List.dropWhile_append]
  split <;> simp [hc]

theorem head?_append {s : String} {c : Char} (h : s.toList.head? = some c) (t : String) :
    (s ++ t).toList.head? = some c := by
  rw [String.toList_append, List.head?_append, h]
  rfl

theorem Shell.report_inj {σ : Type} {sh : Shell σ} (h : sh.err.device.room = none) {s t : String} :
    sh.report [s] = sh.report [t] ↔ s = t := by
  constructor
  · intro heq
    have hwritten := congrArg (·.err.written) heq
    simp only [Shell.report, Stream.written_writeAndFlush h, List.append_cancel_left_eq]
      at hwritten
    have htext := Function.LeftInverse.injective Utf8.decode_encode hwritten
    simpa [Session.diagnostic, ← String.toList_inj] using htext
  · rintro rfl
    rfl

namespace Request

open Arguments

variable {σ : Type} {sys : System σ} {sh : Shell σ} {b : Builtin} {n : Nat}
  {arguments : List String} {a : String}

/-- What is said of an argument without room. -/
def complaint (a : String) : String := Blank.trimEnd (Refusal.unrecognized a).message

theorem head?_complaint (a : String) : (complaint a).toList.head? = some 'U' :=
  Blank.head?_trimEnd (head?_append (head?_append (by decide +kernel) a) "\n") rfl

theorem eq_of_limit (hb : b.form.operands.limit = some (n + 1)) :
    b = .cd ∧ n = 0 ∨ b = .exit ∧ n = 0 ∨ b = .setenv ∧ n = 1 := by
  cases b <;> simp_all [Builtin.form, Operands.limit]

theorem execute_of_surplus (hb : b.form.operands.limit = some (n + 1))
    (ha : arguments[n + 1]? = some a) :
    (b.request arguments).execute sys sh = (.ok misuseStatus, sh.report [complaint a]) := by
  have hhelp : arguments ≠ [helpOption] := by
    rintro rfl
    simp at ha
  have hrequest : b.request arguments = .refused (.unrecognized a) := by
    rcases eq_of_limit hb with ⟨rfl, -⟩ | ⟨rfl, -⟩ | ⟨rfl, -⟩ <;> rw [Builtin.request] <;>
      exact ofOperands_of_surplus hb ha hhelp _
  apply execute_of_ok
  rw [hrequest]
  rfl

section Bare

/-! Without files and variables, nothing else is answered like an argument without room. -/

theorem report_ne_complaint {e : CommandError} {c : Char} (he : e.message.toList.head? = some c)
    (hc : c ≠ 'U') (a : String) :
    Shell.bare.report [e.message] ≠ Shell.bare.report [complaint a] := by
  intro h
  rw [(Shell.report_inj rfl).mp h, head?_complaint] at he
  exact hc (Option.some.inj he).symm

theorem execute_usage_ne (text : String) (sh₁ : Shell σ) :
    (Request.usage text).execute sys sh ≠ (.ok misuseStatus, sh₁) := by
  intro h
  have hfirst := congrArg Prod.fst h
  simp only [execute, run, Outcome.ofPrint] at hfirst
  generalize sh.print [text] = printed at hfirst
  obtain ⟨_ | _, _⟩ := printed <;> simp [leavesFailure, misuseStatus] at hfirst

theorem run_cd_bare (target : Option String) :
    ∃ e, (Request.cd target).run System.bare Shell.bare = (.error e, Shell.bare) ∧
      e.message.toList.head? = some 'c' := by
  cases hd : directoryTarget Shell.bare.session target with
  | error e =>
    refine ⟨e, by simp [run, runCd, hd], ?_⟩
    unfold directoryTarget at hd
    split at hd
    · split at hd <;> cases hd
      decide +kernel
    · split at hd
      · cases hd
      · split at hd <;> cases hd
        decide +kernel
  | ok found =>
    obtain ⟨directory, announce⟩ := found
    refine ⟨.cannotEnter directory, ?_, head?_append (by decide +kernel) directory⟩
    simp only [run, runCd, hd]
    rfl

theorem execute_cd_ne (target : Option String) (a : String) :
    (Request.cd target).execute System.bare Shell.bare ≠
      (.ok misuseStatus, Shell.bare.report [complaint a]) := by
  obtain ⟨e, hrun, he⟩ := run_cd_bare target
  rw [execute_of_error hrun rfl]
  intro h
  exact report_ne_complaint he (by decide) a (Prod.mk.inj h).2

theorem execute_exit_ne (text a : String) :
    (Request.exit (some text)).execute System.bare Shell.bare ≠
      (.ok misuseStatus, Shell.bare.report [complaint a]) := by
  cases hd : Decimal.digits? Decimal.wordBound text with
  | none =>
    have hrun : (Request.exit (some text)).run System.bare Shell.bare =
        (.error (.illegalNumber text), Shell.bare) := by
      simp [run, runExit, hd]
    rw [execute_of_error hrun rfl]
    intro h
    have hhead : (CommandError.illegalNumber text).message.toList.head? = some 'e' :=
      head?_append (by decide +kernel) text
    exact report_ne_complaint hhead (by decide) a (Prod.mk.inj h).2
  | some k =>
    have hrun : (Request.exit (some text)).run System.bare Shell.bare =
        requestExit (k % 256 : Nat) Shell.bare := by
      simp [run, runExit, hd]
    rw [execute_of_ok hrun]
    intro h
    have hexit := congrArg (·.2.session.exitRequest) h
    cases hexit

theorem execute_setenv_of_isName {name : String} (h : Variables.isName name)
    (value : Option String) :
    ((Request.setenv name value).execute sys sh).1 = .ok 0 := by
  simp [execute, run, runSetenv, h]

theorem execute_setenv_of_not_isName {name : String} (h : ¬ Variables.isName name)
    (value : Option String) :
    (Request.setenv name value).execute sys sh =
      (.ok misuseStatus, sh.report [(CommandError.badVariableName name).message]) := by
  refine execute_of_error ?_ rfl
  simp [run, runSetenv, h]

theorem execute_setenv_ne (name : String) (value : Option String) (a : String) :
    (Request.setenv name value).execute System.bare Shell.bare ≠
      (.ok misuseStatus, Shell.bare.report [complaint a]) := by
  by_cases hn : Variables.isName name
  · intro h
    have hfirst := congrArg Prod.fst h
    rw [execute_setenv_of_isName hn] at hfirst
    cases hfirst
  · rw [execute_setenv_of_not_isName hn]
    intro h
    have hhead : (CommandError.badVariableName name).message.toList.head? = some 's' :=
      head?_append (by decide +kernel) name
    exact report_ne_complaint hhead (by decide) a (Prod.mk.inj h).2

theorem execute_ne_of_length (hb : b.form.operands.limit = some (n + 1))
    (hlength : arguments.length = n + 1) (a : String) :
    (b.request arguments).execute System.bare Shell.bare ≠
      (.ok misuseStatus, Shell.bare.report [complaint a]) := by
  by_cases hhelp : arguments = [helpOption]
  · subst hhelp
    rcases eq_of_limit hb with ⟨rfl, rfl⟩ | ⟨rfl, rfl⟩ | ⟨rfl, rfl⟩
    · exact execute_usage_ne _ _
    · exact execute_usage_ne _ _
    · simp at hlength
  · rcases eq_of_limit hb with ⟨rfl, rfl⟩ | ⟨rfl, rfl⟩ | ⟨rfl, rfl⟩ <;> rw [Builtin.request]
    · obtain ⟨target, rfl⟩ := List.length_eq_one_iff.mp hlength
      rw [ofOperands_of_room hhelp rfl rfl]
      exact execute_cd_ne _ a
    · obtain ⟨status, rfl⟩ := List.length_eq_one_iff.mp hlength
      rw [ofOperands_of_room hhelp rfl rfl]
      exact execute_exit_ne status a
    · obtain ⟨name, value, rfl⟩ := List.length_eq_two.mp hlength
      rw [ofOperands_of_room hhelp rfl rfl]
      exact execute_setenv_ne name (some value) a

end Bare

theorem request_setenv_endMark (hroom : arguments.length ≤ 1) :
    Builtin.setenv.request (endMark :: arguments) = .setenv endMark arguments.head? := by
  rw [Builtin.request]
  match arguments, hroom with
  | [], _ => rfl
  | [value], _ => exact ofOperands_of_room (by simp) rfl rfl _

theorem execute_setenv_endMark :
    (Builtin.setenv.request [endMark, endMark]).execute sys sh =
      (Builtin.setenv.request [endMark]).execute sys sh := by
  have hmark : ¬ Variables.isName endMark := by decide
  rw [request_setenv_endMark (by simp), Builtin.request, ofOperands_of_room (by decide) rfl rfl,
    execute_setenv_of_not_isName hmark, execute_setenv_of_not_isName hmark]

theorem execute_setenv_eq_iff (x : String) :
    (Builtin.setenv.request [endMark, x]).execute System.bare Shell.bare =
        (Builtin.setenv.request [x]).execute System.bare Shell.bare ↔ x = endMark := by
  have hmark : ¬ Variables.isName endMark := by decide
  constructor
  · intro h
    rw [request_setenv_endMark (by simp), execute_setenv_of_not_isName hmark] at h
    by_cases hhelp : [x] = [helpOption]
    · rw [hhelp] at h
      exact absurd h.symm (execute_usage_ne _ _)
    · rw [Builtin.request, ofOperands_of_room hhelp rfl rfl] at h
      by_cases hn : Variables.isName x
      · have hfirst := congrArg Prod.fst h
        rw [execute_setenv_of_isName hn] at hfirst
        cases hfirst
      · rw [execute_setenv_of_not_isName hn] at h
        have hmessage := (Shell.report_inj rfl).mp (Prod.mk.inj h).2
        exact ((String.append_right_inj _).mp hmessage).symm
  · rintro rfl
    exact execute_setenv_endMark

theorem execute_mark_eq_iff (hb : b.form.operands.limit = some (n + 1)) :
    (∀ (τ : Type) (sys : System τ) (sh : Shell τ),
      (b.request (endMark :: arguments)).execute sys sh = (b.request arguments).execute sys sh) ↔
      (∃ a c, arguments[n]? = some a ∧ arguments[n + 1]? = some c ∧ complaint a = complaint c) ∨
        b = .setenv ∧ arguments = [endMark] := by
  constructor
  · intro h
    have hbare := h Unit System.bare Shell.bare
    cases hlast : arguments[n]? with
    | some a =>
      rw [execute_of_surplus hb (a := a) (by simpa using hlast)] at hbare
      cases hsurplus : arguments[n + 1]? with
      | some c =>
        rw [execute_of_surplus hb hsurplus] at hbare
        exact .inl ⟨a, c, rfl, rfl, (Shell.report_inj rfl).mp (Prod.mk.inj hbare).2⟩
      | none =>
        obtain ⟨hn, -⟩ := List.getElem?_eq_some_iff.mp hlast
        have hlength : arguments.length = n + 1 :=
          Nat.le_antisymm (List.getElem?_eq_none_iff.mp hsurplus) hn
        exact absurd hbare.symm (execute_ne_of_length hb hlength a)
    | none =>
      have hroom := List.getElem?_eq_none_iff.mp hlast
      right
      rcases eq_of_limit hb with ⟨rfl, rfl⟩ | ⟨rfl, rfl⟩ | ⟨rfl, rfl⟩
      · obtain rfl := List.eq_nil_of_length_eq_zero (Nat.le_zero.mp hroom)
        exact absurd (congrArg (·.2.err.contents) hbare) (by decide +kernel)
      · obtain rfl := List.eq_nil_of_length_eq_zero (Nat.le_zero.mp hroom)
        exact absurd (congrArg (·.2.err.contents) hbare) (by decide +kernel)
      · match arguments, hroom with
        | [], _ => exact absurd (congrArg (·.2.err.contents) hbare) (by decide +kernel)
        | [x], _ => exact ⟨rfl, congrArg (List.cons · []) ((execute_setenv_eq_iff x).mp hbare)⟩
  · rintro (⟨a, c, ha, hc, heq⟩ | ⟨rfl, rfl⟩) τ sys sh
    · rw [execute_of_surplus hb (a := a) (by simpa using ha), execute_of_surplus hb hc, heq]
    · exact execute_setenv_endMark

/-- A command with a fixed number of operands shows in its usage line that a mark may come before
them, but takes the mark for the first of them. So the argument that would have been the last
operand is refused, or else the mark is: it is no number, no name of a variable, and only by chance
a directory. The mark makes no difference to any outcome exactly if an argument is refused in either
case, in the same words, or the mark is typed twice where the name of a variable belongs. -/
theorem execute_endMark (sys : System σ) (hb : b ∈ [.cd, .exit, .setenv])
    (arguments : List String) (sh : Shell σ) :
    let marked := (b.request (endMark :: arguments)).execute sys sh
    ∃ n, b.form.operands.limit = some (n + 1) ∧
      (∃ rest, b.form.operands.shape = " [" ++ endMark ++ "]" ++ rest) ∧
      (∀ a, arguments[n]? = some a → marked = (.ok misuseStatus, sh.report [complaint a])) ∧
      (arguments.length ≤ n →
        (b = .cd → marked = (Request.cd (some endMark)).execute sys sh) ∧
        (b = .exit → marked =
          (.ok misuseStatus, sh.report [(CommandError.illegalNumber endMark).message])) ∧
        (b = .setenv → marked =
          (.ok misuseStatus, sh.report [(CommandError.badVariableName endMark).message]))) ∧
      ((∀ (τ : Type) (sys : System τ) (sh : Shell τ),
        (b.request (endMark :: arguments)).execute sys sh =
          (b.request arguments).execute sys sh) ↔
        (∃ a c, arguments[n]? = some a ∧ arguments[n + 1]? = some c ∧ complaint a = complaint c) ∨
          b = .setenv ∧ arguments = [endMark]) := by
  intro marked
  obtain ⟨n, hlimit⟩ : ∃ n, b.form.operands.limit = some (n + 1) := by
    fin_cases hb
    exacts [⟨0, rfl⟩, ⟨0, rfl⟩, ⟨1, rfl⟩]
  refine ⟨n, hlimit, ?_, fun a ha => ?_, fun hroom => ⟨?_, ?_, ?_⟩,
    execute_mark_eq_iff hlimit⟩
  · fin_cases hb
    · exact ⟨" [<target>]", by decide⟩
    · exact ⟨" [<status>]", by decide⟩
    · exact ⟨" <name> [<value>]", by decide⟩
  · exact execute_of_surplus hlimit (by simpa using ha)
  · rintro rfl
    obtain rfl : n = 0 := by simpa [Builtin.form, Operands.limit] using hlimit
    obtain rfl := List.eq_nil_of_length_eq_zero (Nat.le_zero.mp hroom)
    rfl
  · rintro rfl
    obtain rfl : n = 0 := by simpa [Builtin.form, Operands.limit] using hlimit
    obtain rfl := List.eq_nil_of_length_eq_zero (Nat.le_zero.mp hroom)
    exact execute_of_error rfl rfl
  · rintro rfl
    obtain rfl : n = 1 := by simpa [Builtin.form, Operands.limit] using hlimit
    have hmark : ¬ Variables.isName endMark := by decide
    exact (congrArg (·.execute sys sh) (request_setenv_endMark hroom)).trans
      (execute_setenv_of_not_isName hmark _)

theorem execute_endMark_setenv :
    let sh : Shell Machine :=
      { session :=
          { history := { capacity := 10 }, directory := "/", name := "hsh", processId := 1 }
        processDirectory := "/"
        world := {} }
    let marked := Builtin.setenv.request [endMark, "A", "b", "b "]
    let plain := Builtin.setenv.request ["A", "b", "b "]
    Builtin.setenv ∈ [.cd, .exit, .setenv] ∧
      marked.execute Machine.system sh = (.ok 2, sh.report ["Unrecognized argument: b"]) ∧
      marked.execute Machine.system sh = plain.execute Machine.system sh := by
  intro sh marked plain
  have hb : Builtin.setenv ∈ [.cd, .exit, .setenv] := by decide
  have hvalue : complaint "b" = "Unrecognized argument: b" := by decide +kernel
  have hsurplus : complaint "b" = complaint "b " := by decide +kernel
  obtain ⟨n, hlimit, -, hrefused, -, hequal⟩ :=
    execute_endMark Machine.system hb ["A", "b", "b "] sh
  obtain rfl : n = 1 := by simpa [Builtin.form, Operands.limit] using hlimit
  exact ⟨hb, hvalue ▸ hrefused "b" rfl,
    hequal.mpr (.inl ⟨"b", "b ", rfl, rfl, hsurplus⟩) Machine Machine.system sh⟩

/-- The usage line of `exit` shows the mark, but behind a mark the status is refused and the shell
is not asked to end. -/
theorem execute_endMark_ne :
    let sh : Shell Machine :=
      { session :=
          { history := { capacity := 10 }, directory := "/", name := "hsh", processId := 1 }
        processDirectory := "/"
        world := {} }
    let plain := (Builtin.exit.request ["3"]).execute Machine.system sh
    let marked := (Builtin.exit.request [endMark, "3"]).execute Machine.system sh
    Builtin.exit.form.operands.shape = " [--] [<status>]" ∧
      plain.1 = .ok 3 ∧ plain.2.session.exitRequest = some 3 ∧
      marked.1 = .ok 2 ∧ marked.2.session.exitRequest = none := by
  decide +kernel

end Request

end CommandShell
