import CommandShell.Proofs.LogicalLine.Lookahead
import CommandShell.Proofs.Shell.ExitStatus
import CommandShell.Proofs.Shell.LineByLine

/-! # Running without looking ahead

A run is settled by the events that it asked for. What would have come after them changes nothing.
-/

namespace CommandShell.Shell

open LineReader

variable {σ : Type} {sys : System σ} {asked rest : List Event} {r : LineReader} {sh : Shell σ}

theorem firstAnswer_append
    (h : (firstAnswer (r.withEvents (asked ++ rest))).prompts.length ≤ asked.length)
    (rest' : List Event) :
    firstAnswer (r.withEvents (asked ++ rest')) =
      let answer := firstAnswer (r.withEvents (asked ++ rest))
      { answer with
        reader := answer.reader.withEvents (asked.drop answer.prompts.length ++ rest') } :=
  next_append h rest'

theorem firstStep_append
    (h : (firstAnswer (r.withEvents (asked ++ rest))).prompts.length ≤ asked.length)
    (rest' : List Event) :
    firstStep sys (r.withEvents (asked ++ rest')) sh =
      firstStep sys (r.withEvents (asked ++ rest)) sh := by
  rw [firstStep, firstAnswer_append h rest']
  rfl

theorem firstLine_append
    (h : (firstAnswer (r.withEvents (asked ++ rest))).prompts.length ≤ asked.length)
    (rest' : List Event) :
    firstLine (r.withEvents (asked ++ rest')) sh = firstLine (r.withEvents (asked ++ rest)) sh := by
  rw [firstLine, firstAnswer_append h rest']
  rfl

/-- A run that made as many requests as there are events in front, one prompt for each, is the same
whatever comes behind them, and leaves that unread. -/
theorem runSource_append
    (h : (runSource sys (r.withEvents (asked ++ rest)) sh).prompts.length = asked.length)
    (rest' : List Event) :
    runSource sys (r.withEvents (asked ++ rest')) sh =
      let run := runSource sys (r.withEvents (asked ++ rest)) sh
      { run with reader := run.reader.withEvents rest' } := by
  induction hn : asked.length using Nat.strongRecOn generalizing asked r sh with
  | _ n ih =>
    subst hn
    cases ha : firstStep sys (r.withEvents (asked ++ rest)) sh with
    | done result sh' =>
      rw [runSource_eq_of_done sys ha] at h ⊢
      have hasked : (firstAnswer (r.withEvents (asked ++ rest))).prompts.length ≤ asked.length :=
        Nat.le_of_eq h
      have ha' := (firstStep_append hasked rest').trans ha
      rw [runSource_eq_of_done sys ha', firstAnswer_append hasked rest',
        firstLine_append hasked rest']
      have hnone : asked.drop (firstAnswer (r.withEvents (asked ++ rest))).prompts.length = [] :=
        List.drop_eq_nil_of_le (Nat.le_of_eq h.symm)
      simp only [hnone, List.nil_append]
    | next sh' =>
      rw [runSource_eq_of_next sys ha] at h ⊢
      generalize hanswer : firstAnswer (r.withEvents (asked ++ rest)) = answer at h ⊢
      simp only [List.length_append] at h
      have hasked : answer.prompts.length ≤ asked.length := by omega
      have hpos : 0 < answer.prompts.length := by
        rw [← hanswer]
        exact Nat.succ_pos _
      have ha' := (firstStep_append (hanswer ▸ hasked) rest').trans ha
      have hleft : answer.reader.withEvents (asked.drop answer.prompts.length ++ rest) =
          answer.reader := by
        subst hanswer
        exact (congrArg Answer.reader (firstAnswer_append hasked rest)).symm
      have hrun : (runSource sys (answer.reader.withEvents
          (asked.drop answer.prompts.length ++ rest)) sh').prompts.length =
            (asked.drop answer.prompts.length).length := by
        rw [hleft, List.length_drop]
        omega
      have hrest := ih _ (by rw [List.length_drop]; omega) hrun rfl
      rw [hleft] at hrest
      rw [runSource_eq_of_next sys ha', firstAnswer_append (hanswer ▸ hasked) rest',
        firstLine_append (hanswer ▸ hasked) rest', hanswer]
      simp only [hrest]

theorem runSource_append_exit :
    let r : LineReader := { source := { events := [] } }
    let asked : List Event := [.line "alias q='exit", .line "3'", .line "q"]
    let after : List Event := [.line "'", .failure (.failed "closed")]
    let run := runSource .bare (r.withEvents (asked ++ after)) .bare
    (runSource .bare (r.withEvents asked) .bare).prompts.length = asked.length ∧
      run.result = .ok 3 ∧ run.prompts.length = asked.length ∧
      run.reader.source.events = after := by
  intro r asked after run
  have hread : (runSource .bare (r.withEvents (asked ++ [])) .bare).prompts.length =
      asked.length := by decide +kernel
  have hresult : (runSource .bare (r.withEvents (asked ++ [])) .bare).result = .ok 3 := by
    decide +kernel
  have hrun : run = _ := runSource_append hread after
  rw [hrun]
  exact ⟨hread, hresult, hread, rfl⟩

end CommandShell.Shell
