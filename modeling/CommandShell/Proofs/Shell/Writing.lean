import CommandShell.Shell.Run

/-! # What writing leaves alone

Output, diagnostics and prompts change the streams of a shell and nothing else.
-/

namespace CommandShell.Shell

variable {σ : Type} {sh sh₁ sh₂ : Shell σ}

/-- Nothing but the streams is different. -/
structure Writes (sh sh₁ : Shell σ) : Prop where
  session_eq : sh₁.session = sh.session
  processDirectory_eq : sh₁.processDirectory = sh.processDirectory
  world_eq : sh₁.world = sh.world

theorem Writes.refl (sh : Shell σ) : Writes sh sh := ⟨rfl, rfl, rfl⟩

theorem Writes.trans (h : Writes sh sh₁) (h₁ : Writes sh₁ sh₂) : Writes sh sh₂ where
  session_eq := h₁.session_eq.trans h.session_eq
  processDirectory_eq := h₁.processDirectory_eq.trans h.processDirectory_eq
  world_eq := h₁.world_eq.trans h.world_eq

theorem writes_print (sh : Shell σ) (pieces : List String) : Writes sh (sh.print pieces).2 :=
  ⟨rfl, rfl, rfl⟩

theorem writes_report (sh : Shell σ) (fragments : List String) : Writes sh (sh.report fragments) :=
  ⟨rfl, rfl, rfl⟩

theorem writes_flush (sh : Shell σ) : Writes sh sh.flush := ⟨rfl, rfl, rfl⟩

theorem writes_receive (sh : Shell σ) (written : List (Channel × List UInt8)) :
    Writes sh (sh.receive written) := by
  induction written generalizing sh with
  | nil => exact .refl sh
  | cons w written ih =>
    obtain ⟨channel, bytes⟩ := w
    cases channel with
    | output =>
      have h : Writes sh { sh with out := sh.out.receive bytes } := ⟨rfl, rfl, rfl⟩
      exact h.trans (ih _)
    | diagnostics =>
      have h : Writes sh { sh with err := sh.err.receive bytes } := ⟨rfl, rfl, rfl⟩
      exact h.trans (ih _)

theorem writes_showPrompts (sh : Shell σ) (prompts : List String) :
    Writes sh (sh.showPrompts prompts).2 := by
  induction prompts generalizing sh with
  | nil => exact .refl sh
  | cons prompt prompts ih =>
    rw [showPrompts]
    split
    · exact ⟨rfl, rfl, rfl⟩
    · next out _ =>
      have h : Writes sh { sh with out } := ⟨rfl, rfl, rfl⟩
      exact h.trans (ih _)

theorem writes_prompted (display : Bool) (answer : LineReader.Answer) (sh : Shell σ) :
    Writes sh (sh.prompted display answer).2 := by
  unfold prompted
  cases display with
  | false => exact .refl sh
  | true =>
    have hshown := writes_showPrompts sh answer.prompts
    rw [if_pos rfl]
    generalize sh.showPrompts answer.prompts = shown at hshown ⊢
    obtain ⟨_ | _, shown⟩ := shown <;> exact hshown

theorem prompted_line (display : Bool) (answer : LineReader.Answer) (sh : Shell σ) :
    (sh.prompted display answer).1 = answer.result ∨
      display = true ∧ ∃ reason, (sh.prompted display answer).1 = .failure (.failed reason) := by
  cases display with
  | false => exact .inl rfl
  | true =>
    unfold prompted
    split
    · exact .inr ⟨rfl, _, rfl⟩
    · exact .inl rfl

theorem advance_eq_take (sys : System σ) (display interactive : Bool)
    (answer : LineReader.Answer) (sh : Shell σ) :
    advance sys display interactive answer sh =
      take sys interactive answer.reader.startLine (sh.prompted display answer).1
        (sh.prompted display answer).2 :=
  rfl

/-- Prompts come first. Then the line is taken, unless a prompt could not be written. -/
theorem exists_writes_advance (sys : System σ) (display interactive : Bool)
    (answer : LineReader.Answer) (sh : Shell σ) :
    ∃ shown, Writes sh shown ∧
      (advance sys display interactive answer sh =
          take sys interactive answer.reader.startLine answer.result shown ∨
        ∃ error, advance sys display interactive answer sh = .done (.error error) shown) := by
  refine ⟨_, writes_prompted display answer sh, ?_⟩
  rw [advance_eq_take]
  rcases prompted_line display answer sh with hline | ⟨-, reason, hline⟩
  · exact .inl (by rw [hline])
  · exact .inr ⟨.failed reason, by rw [hline, take]; simp⟩

theorem writes_runProgram (sys : System σ) (program name : String) (arguments : List String)
    (assignments : List (String × String)) (sh : Shell σ) :
    ∃ world, Writes { sh with world } (runProgram sys program name arguments assignments sh).2 := by
  unfold runProgram
  generalize sys.spawn _ _ = spawned
  obtain ⟨r, world⟩ := spawned
  refine ⟨world, ?_⟩
  cases r with
  | ok finished => exact (writes_receive _ finished.written).trans (writes_flush _)
  | error e => exact (writes_flush _).trans (writes_report _ _)

end CommandShell.Shell
