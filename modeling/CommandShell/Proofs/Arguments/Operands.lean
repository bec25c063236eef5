import CommandShell.Builtin.Basic

/-! # Operands

Once the options have ended, all arguments are operands and are taken as they are, as long as there
is room for them. Built-in commands rely on the parser of arguments for no more than that, and for
`parse_any`: the theorems about them go through the lemmas here and do not look into the parser.
-/

namespace CommandShell.Arguments

variable {form : Form}

theorem continueParse_cons_ended (given : Given) (a : String) (as : List String) :
    continueParse form { given, optionsEnded := true } (a :: as) =
      if form.operands.hasRoom given.operands.length then
        continueParse form
          { given := { given with operands := given.operands ++ [a] }, optionsEnded := true } as
      else .refused (.unrecognized a) := by
  rw [continueParse.eq_def]
  simp only [Bool.true_or, if_true, readOperand]
  split
  · next h =>
    split at h
    · next hroom =>
      obtain rfl := Except.ok.inj h
      rw [if_pos hroom]
    · cases h
  · next h =>
    split at h
    · cases h
    · next hroom =>
      obtain rfl := Except.error.inj h
      rw [if_neg hroom]

theorem continueParse_ended {given : Given} {arguments : List String}
    (h : form.operands.limit.all (given.operands.length + arguments.length ≤ ·)) :
    continueParse form { given, optionsEnded := true } arguments =
      Progress.close form
        { given := { given with operands := given.operands ++ arguments }
          optionsEnded := true } := by
  induction arguments generalizing given with
  | nil => rw [List.append_nil, continueParse.eq_def]
  | cons a as ih =>
    have hroom : form.operands.hasRoom given.operands.length := by
      unfold Operands.hasRoom
      cases hl : form.operands.limit with
      | none => rfl
      | some n =>
        simp only [hl, Option.all_some, List.length_cons, decide_eq_true_eq] at h ⊢
        omega
    have hrest := @ih { given with operands := given.operands ++ [a] }
      (by simpa [Nat.add_assoc, Nat.add_comm 1] using h)
    rw [continueParse_cons_ended, if_pos hroom, hrest, List.append_assoc, List.singleton_append]

theorem continueParse_surplus {given : Given} {before : List String}
    (h : form.operands.limit = some (given.operands.length + before.length)) (a : String)
    (after : List String) :
    continueParse form { given, optionsEnded := true } (before ++ a :: after) =
      .refused (.unrecognized a) := by
  induction before generalizing given with
  | nil =>
    have hfull : ¬ form.operands.hasRoom given.operands.length := by
      simp [Operands.hasRoom, h]
    rw [List.nil_append, continueParse_cons_ended, if_neg hfull]
  | cons b before ih =>
    have hroom : form.operands.hasRoom given.operands.length := by
      simp [Operands.hasRoom, h]
    have hrest := @ih { given with operands := given.operands ++ [b] }
      (by simp [h, Nat.add_assoc, Nat.add_comm 1])
    rw [List.cons_append, continueParse_cons_ended, if_pos hroom, hrest]

theorem operands_of_continueParse {given accepted : Given} {arguments : List String}
    (h : continueParse form { given, optionsEnded := true } arguments = .accepted accepted) :
    accepted.operands = given.operands ++ arguments := by
  induction arguments generalizing given with
  | nil =>
    rw [continueParse.eq_def] at h
    simp only [Progress.close, Bool.false_eq_true, if_false] at h
    split at h
    · cases h
      rw [List.append_nil]
    · cases h
  | cons a as ih =>
    rw [continueParse_cons_ended] at h
    split at h
    · simpa using ih h
    · cases h

theorem parseOperands_eq_continueParse {arguments : List String} (h : arguments ≠ [helpOption]) :
    parseOperands form arguments = continueParse form { optionsEnded := true } arguments := by
  rw [parseOperands, if_neg h, parse, continueParse.eq_def]
  rfl

theorem operands_of_parseOperands {accepted : Given} {arguments : List String}
    (h : parseOperands form arguments = .accepted accepted) : accepted.operands = arguments := by
  by_cases hhelp : arguments = [helpOption]
  · rw [parseOperands, if_pos hhelp] at h
    cases h
  · rw [parseOperands_eq_continueParse hhelp] at h
    exact operands_of_continueParse h

theorem parseOperands_of_room {arguments : List String} (h : arguments ≠ [helpOption])
    (hroom : form.operands.limit.all (arguments.length ≤ ·))
    (hgiven : form.operands.missing arguments.length = []) :
    parseOperands form arguments = .accepted { operands := arguments } := by
  rw [parseOperands_eq_continueParse h, continueParse_ended (by simpa using hroom)]
  simp [Progress.close, hgiven]

/-- The first operand of a command that takes any operands ends its options, so that what follows is
an operand too. -/
theorem parse_any {name : String} (hf : form.operands = .any name) {a : String}
    (hhyphen : a.toList.head? ≠ some '-') (hhelp : a ≠ helpWord) (as : List String) :
    parse form (a :: as) = .accepted { operands := a :: as } := by
  have hlimit : form.operands.limit = none := by rw [hf, Operands.limit]
  have hfirst : readOperand form {} a =
      .ok { given := { operands := [a] }, optionsEnded := true } := by
    simp [readOperand, Operands.hasRoom, hlimit]
  have hrest : continueParse form { given := { operands := [a] }, optionsEnded := true } as =
      .accepted { operands := a :: as } := by
    rw [continueParse_ended (by simp [hlimit])]
    simp [Progress.close, hf, Operands.missing]
  rw [parse, continueParse.eq_def]
  simp [hhyphen, hhelp, hfirst, hrest]

theorem ne_helpOption_of_equals {a : String} (h : '=' ∈ a.toList) : a ≠ helpOption := by
  rintro rfl
  exact absurd h (by decide)

theorem parseOperands_of_surplus {n : Nat} {arguments : List String} {a : String}
    (hlimit : form.operands.limit = some n) (ha : arguments[n]? = some a)
    (h : arguments ≠ [helpOption]) : parseOperands form arguments = .refused (.unrecognized a) := by
  obtain ⟨hn, rfl⟩ := List.getElem?_eq_some_iff.mp ha
  have hsplit : arguments.take n ++ arguments[n] :: arguments.drop (n + 1) = arguments := by
    rw [List.getElem_cons_drop, List.take_append_drop]
  have hlength : (arguments.take n).length = n := List.length_take_of_le (Nat.le_of_lt hn)
  have hsurplus := @continueParse_surplus form {} (arguments.take n)
    (by simpa [hlength] using hlimit) arguments[n] (arguments.drop (n + 1))
  rw [hsplit] at hsurplus
  rw [parseOperands_eq_continueParse h, hsurplus]

end CommandShell.Arguments

namespace CommandShell.Request

open Arguments

variable {b : Builtin} {arguments : List String}

theorem ofOperands_of_room (h : arguments ≠ [helpOption])
    (hroom : b.form.operands.limit.all (arguments.length ≤ ·))
    (hgiven : b.form.operands.missing arguments.length = []) (accept : List String → Request) :
    ofOperands b arguments accept = accept arguments :=
  congrArg (ofAnswer b fun given => accept given.operands) (parseOperands_of_room h hroom hgiven)

theorem ofOperands_of_surplus {n : Nat} {a : String} (hlimit : b.form.operands.limit = some n)
    (ha : arguments[n]? = some a) (h : arguments ≠ [helpOption])
    (accept : List String → Request) :
    ofOperands b arguments accept = .refused (.unrecognized a) :=
  congrArg (ofAnswer b fun given => accept given.operands) (parseOperands_of_surplus hlimit ha h)

theorem ofOperands_any {name : String} (hf : b.form.operands = .any name)
    (h : arguments ≠ [helpOption]) (accept : List String → Request) :
    ofOperands b arguments accept = accept arguments :=
  ofOperands_of_room h (by simp [hf, Operands.limit]) (by simp [hf, Operands.missing]) accept

end CommandShell.Request
