import CommandShell.Proofs.LogicalLine.LastLine
import CommandShell.Proofs.Output.Streams
import CommandShell.Proofs.Shell.ExitStatus
import CommandShell.Proofs.Shell.LineByLine

/-! # Input that ends inside quotes

A last logical line that the input ends inside quotes is rejected, and nothing of it is run: the run
is that of the lines before it, with one more diagnostic.
-/

namespace CommandShell

namespace LineReader

open Source

theorem readAll_takeLines {lexer : Lexer} {bytes : List UInt8} {earlier : List (LogicalLine × Nat)}
    {last : LogicalLine} {start : Nat}
    (h : readAll "" { lexer, source := .ofBytes bytes } = earlier ++ [(last, start)]) :
    readAll "" { lexer, source := .ofBytes (Lines.takeLines lineFeed (start - 1) bytes) } =
      earlier := by
  obtain ⟨n, hstart, hearlier⟩ := exists_readAll_take "" _ (events_ofBytes bytes) h
  obtain rfl : start - 1 = n := by
    simp only at hstart
    omega
  rw [← physicalLines_takeLines] at hearlier
  rw [ofBytes_eq]
  rw [ofBytes_eq] at hearlier
  exact hearlier

end LineReader

namespace Shell

open LogicalLine LineReader Source

variable {σ : Type} {sys : System σ}

theorem exitRequest_of_runLogical {lines : List (LogicalLine × Nat)}
    (h : ∀ a ∈ lines, ∃ text words, a.1 = .line text words) {sh sh' : Shell σ}
    {result : Except ReadError Status} (hrun : runLogical sys lines sh = .done result sh') :
    sh'.session.exitRequest ≠ none := by
  induction lines generalizing sh with
  | nil => cases hrun
  | cons a lines ih =>
    obtain ⟨l, number⟩ := a
    obtain ⟨⟨text, words, rfl⟩, hlines⟩ := List.forall_mem_cons.mp h
    simp only [runLogical, take] at hrun
    generalize (execute sys words (sh.startLine number (.line text words))).2 = after at hrun
    unfold Step.after at hrun
    cases hx : after.session.exitRequest with
    | none =>
      simp only [hx] at hrun
      exact ih hlines hrun
    | some status =>
      simp only [hx] at hrun
      cases hrun
      rw [hx]
      exact Option.some_ne_none status

/-- What is said about a line that the input ends inside quotes. -/
def openQuoteReport (name : String) (start : Nat) : List String :=
  [name, ": ", toString start, ": ", "Syntax error: unterminated quoted string", "\n"]

/-- The shell after a line that starts on the given physical one and is rejected for an open
quote. -/
def rejectOpenQuote (start : Nat) (text : String) (sh : Shell σ) : Shell σ :=
  { sh with
    session :=
      { sh.session with
        lastStatus := 2
        lineNumber := start
        history :=
          if Blank.isBlankText text then sh.session.history else sh.session.history.append text }
    err := (sh.err.writeAndFlush (openQuoteReport sh.session.name start)).2 }

theorem take_openQuote (start : Nat) (text : String) (sh : Shell σ) :
    take sys false start (.invalid text .unfinishedQuote) sh =
      .done (.ok 2) (rejectOpenQuote start text sh) := by
  have hreport : (startText start text sh).session.diagnostic [malformedLine .unfinishedQuote] =
      openQuoteReport sh.session.name start := by
    have hmessage : malformedLine .unfinishedQuote =
        "Syntax error: unterminated quoted string" := by decide
    rw [hmessage]
    rfl
  have hstart : sh.startLine start (.invalid text .unfinishedQuote) = startText start text sh :=
    startLine_of_text? rfl start sh
  simp only [take, hstart, reject, record, report, hreport]
  rfl

/-- An input that ends inside quotes is run like the lines before its last logical line, and that
line is then rejected. -/
theorem runSource_openQuote (sys : System σ) (lexer : Lexer) (bytes : List UInt8) (sh : Shell σ)
    {earlier : List (LogicalLine × Nat)} {last : LogicalLine} {start : Nat} {text : String}
    (hlines : readAll "" { lexer, source := .ofBytes bytes } = earlier ++ [(last, start)])
    (htext : last.text? = some text)
    (hopen : (lexer.scan text).pending = some .unfinishedQuote)
    (haccepted : ∀ a ∈ earlier, ∃ text words, a.1 = .line text words)
    (hexit : (runSource sys
      { lexer, source := .ofBytes (Lines.takeLines lineFeed (start - 1) bytes) }
      sh).shell.session.exitRequest = none) :
    let full := runSource sys { lexer, source := .ofBytes bytes } sh
    let before := (runSource sys
      { lexer, source := .ofBytes (Lines.takeLines lineFeed (start - 1) bytes) } sh).shell
    full.result = .ok 2 ∧
      full.shell = rejectOpenQuote start text before ∧
      (before.err.device.room = none →
        full.shell.err.written = before.err.written ++
          Utf8.encode (before.session.name ++ ": " ++ toString start ++
            ": Syntax error: unterminated quoted string\n")) := by
  intro full before
  have hmem : (last, start) ∈ readAll "" { lexer, source := .ofBytes bytes } := by
    rw [hlines]
    exact List.mem_append_right _ (List.mem_singleton_self _)
  have hlast : last = .invalid text .unfinishedQuote := invalid_of_mem_readAll "" _ hmem htext hopen
  subst hlast
  obtain ⟨hresult, hshell⟩ := runSource_eq_runLogical sys
    (r := { lexer, source := .ofBytes bytes }) rfl rfl sh
  obtain ⟨-, hbefore⟩ := runSource_eq_runLogical sys
    (r := { lexer, source := .ofBytes (Lines.takeLines lineFeed (start - 1) bytes) }) rfl rfl sh
  rw [hlines, runLogical_append] at hresult hshell
  rw [readAll_takeLines hlines] at hbefore
  cases hrun : runLogical sys earlier sh with
  | done result ended =>
    rw [hrun] at hbefore
    rw [hbefore] at hexit
    exact absurd hexit (exitRequest_of_runLogical haccepted hrun)
  | next ended =>
    rw [hrun] at hbefore hresult hshell
    obtain rfl : before = ended := hbefore
    simp only [runLogical, take_openQuote] at hresult hshell
    refine ⟨hresult, hshell, ?_⟩
    intro hroom
    have hwritten := Stream.written_writeAndFlush hroom (openQuoteReport before.session.name start)
    have hjoin : String.join (openQuoteReport before.session.name start) =
        before.session.name ++ ": " ++ toString start ++
          ": Syntax error: unterminated quoted string\n" := by
      simp [openQuoteReport, String.append_assoc]
    rw [hjoin] at hwritten
    exact (congrArg (·.err.written) hshell).trans hwritten

/-- Behind an assignment, a quote that swallows another one, an `exit` and a malformed parameter. -/
theorem runSource_openQuote_exit :
    let text := "x=2 '\nexit 4\n$\x7b-\x7d \\"
    let bytes := Utf8.encode ("x=1\n" ++ text)
    let run := runSource .bare { source := .ofBytes bytes } .bare
    (({} : Lexer).scan text).pending = some .unfinishedQuote ∧
      run.result = .ok 2 ∧ run.shell.session.parameter? "x" = some "1" ∧
      run.shell.session.lineNumber = 2 ∧
      run.shell.err.written = Utf8.encode "hsh: 2: Syntax error: unterminated quoted string\n" := by
  intro text bytes run
  have hlines : readAll "" { source := .ofBytes bytes } =
      [(.line "x=1" [{ parts := [.literal "x=1"] }], 1)] ++
        [(.invalid text .unfinishedQuote, 2)] := by
    decide +kernel
  have hopen : (({} : Lexer).scan text).pending = some .unfinishedQuote := by decide +kernel
  have haccepted : ∀ a ∈ [(LogicalLine.line "x=1" [{ parts := [.literal "x=1"] }], 1)],
      ∃ text words, a.1 = .line text words := by
    rintro a ha
    obtain rfl := List.mem_singleton.mp ha
    exact ⟨_, _, rfl⟩
  obtain ⟨hresult, hshell, hwritten⟩ := runSource_openQuote .bare {} bytes .bare hlines rfl hopen
    haccepted (by decide +kernel)
  have hdiagnostic := hwritten (by decide +kernel)
  refine ⟨hopen, hresult, ?_, ?_, hdiagnostic.trans (by decide +kernel)⟩
  · rw [hshell]
    decide +kernel
  · rw [hshell]
    rfl

end Shell

end CommandShell
