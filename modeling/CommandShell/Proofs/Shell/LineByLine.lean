import CommandShell.Machine.Basic
import CommandShell.Proofs.LogicalLine.InputEnd
import CommandShell.Proofs.Text.Lines
import CommandShell.Shell.Run

/-! # Running a source line by line

The run of a source that nobody types is the run of its logical lines, one after the other, up to
the first that asks for the end or is no list of words. If each of them is what its text is, it is
the run of the texts.
-/

namespace CommandShell

namespace LineReader

/-- The texts of all logical lines and the numbers of the lines they start on. -/
def texts (r : LineReader) : List (String × Nat) :=
  (readAll "" r).filterMap fun a => a.1.text?.map fun text => (text, a.2)

variable {r : LineReader}

theorem texts_of_readAll {lexer : Lexer} {texts : List String}
    (h : (readAll "" r).map Prod.fst = texts.map (LogicalLine.ofText lexer)) :
    r.texts.map Prod.fst = texts := by
  have hfst : r.texts.map Prod.fst =
      ((readAll "" r).map Prod.fst).filterMap LogicalLine.text? := by
    simp [LineReader.texts, List.map_filterMap, List.filterMap_map, Function.comp_def]
  have hsome : LogicalLine.text? ∘ LogicalLine.ofText lexer = some :=
    funext (LogicalLine.text?_ofText lexer)
  rw [hfst, h, List.filterMap_map, hsome, List.filterMap_some]

end LineReader

namespace Shell

open LogicalLine LineReader

variable {σ : Type}

def startText (number : Nat) (text : String) (sh : Shell σ) : Shell σ :=
  sh.update fun s =>
    { s with
      lineNumber := number
      history := if Blank.isBlankText text then s.history else s.history.append text }

/-- Runs texts that start on the given lines, up to the first that asks for the end or is no list of
words. -/
def runTexts (sys : System σ) : List (String × Nat) → Shell σ → Status × Shell σ
  | [], sh => (sh.session.lastStatus, sh)
  | (text, number) :: texts, sh =>
    let sh := (runLine sys text (sh.startText number text)).2
    match sh.session.exitRequest, ({} : Lexer).split text with
    | some status, _ => (status, sh)
    | none, .error _ => (misuseStatus, sh)
    | none, .ok _ => runTexts sys texts sh

/-- Runs logical lines that start on the given physical ones, up to the first that ends the
source. -/
def runLogical (sys : System σ) : List (LogicalLine × Nat) → Shell σ → Step σ
  | [], sh => .next sh
  | (l, number) :: lines, sh =>
    match take sys false number l sh with
    | .next sh => runLogical sys lines sh
    | .done result sh => .done result sh

theorem runLogical_append (sys : System σ) (lines lines' : List (LogicalLine × Nat))
    (sh : Shell σ) :
    runLogical sys (lines ++ lines') sh =
      match runLogical sys lines sh with
      | .next sh => runLogical sys lines' sh
      | .done result sh => .done result sh := by
  induction lines generalizing sh with
  | nil => rfl
  | cons a lines ih =>
    obtain ⟨l, number⟩ := a
    rw [List.cons_append, runLogical, runLogical]
    cases take sys false number l sh with
    | next sh => exact ih sh
    | done result sh => rfl

/-- How a source ends after the step of its last line. -/
def Step.close : Step σ → Except ReadError Status × Shell σ
  | .next sh => (.ok sh.session.lastStatus, sh)
  | .done result sh => (result, sh)

theorem startLine_of_text? {l : LogicalLine} {text : String} (h : l.text? = some text)
    (number : Nat) (sh : Shell σ) : sh.startLine number l = sh.startText number text := by
  unfold startLine startText remembered?
  rw [h]
  cases hb : Blank.isBlankText text <;> simp [Option.filter, hb]

theorem exitRequest_runLine_of_error (sys : System σ) {text : String} {error : LexError}
    (h : ({} : Lexer).split text = .error error) (sh : Shell σ) :
    (runLine sys text sh).2.session.exitRequest = sh.session.exitRequest := by
  rw [runLine, h]
  rfl

theorem take_ofText (sys : System σ) (number : Nat) (text : String) (sh : Shell σ) :
    take sys false number (ofText {} text) sh =
      match ({} : Lexer).split text with
      | .ok _ => .after (runLine sys text (sh.startText number text)).2
      | .error _ =>
        .done (.ok misuseStatus) (runLine sys text (sh.startText number text)).2 := by
  rw [← startLine_of_text? (text?_ofText {} text)]
  cases hs : ({} : Lexer).split text <;> simp [ofText, hs, take, runLine, reject, record]

section Run

variable (sys : System σ) {r : LineReader}

theorem promptOf_quiet {source : Source} (hi : source.interactive = false) :
    promptOf source = "" := by
  simp [promptOf, hi]

theorem advance_quiet (hi : r.source.interactive = false) (hd : r.source.display = false)
    (sh : Shell σ) :
    advance sys r.source.display r.source.interactive (r.next (promptOf r.source)) sh =
      take sys false (r.next "").reader.startLine (r.next "").result sh := by
  simp [advance, promptOf_quiet hi, hi, hd]

def firstAnswer (r : LineReader) : Answer := r.next (promptOf r.source)

/-- Its line, as the shell gets it behind the prompts. -/
def firstLine (r : LineReader) (sh : Shell σ) : LogicalLine :=
  (sh.prompted r.source.display (firstAnswer r)).1

def firstStep (sys : System σ) (r : LineReader) (sh : Shell σ) : Step σ :=
  advance sys r.source.display r.source.interactive (firstAnswer r) sh

theorem runSource_eq_of_done {sh sh' : Shell σ} {result : Except ReadError Status}
    (h : firstStep sys r sh = .done result sh') :
    runSource sys r sh =
      { result, shell := sh', reader := (firstAnswer r).reader, prompts := (firstAnswer r).prompts
        remembered := (firstLine r sh).remembered?.toList } := by
  rw [firstStep, firstAnswer] at h
  rw [runSource]
  split
  · next ha => rw [h] at ha; cases ha; rfl
  · next ha => rw [h] at ha; cases ha

theorem runSource_eq_of_next {sh sh' : Shell σ} (h : firstStep sys r sh = .next sh') :
    runSource sys r sh =
      let run := runSource sys (firstAnswer r).reader sh'
      { run with
        prompts := (firstAnswer r).prompts ++ run.prompts
        remembered := (firstLine r sh).remembered?.toList ++ run.remembered } := by
  rw [firstStep, firstAnswer] at h
  rw [runSource]
  split
  · next ha => rw [h] at ha; cases ha
  · next ha => rw [h] at ha; cases ha; rfl

theorem runSource_of_done {sh sh' : Shell σ} {result : Except ReadError Status}
    (h : advance sys r.source.display r.source.interactive (r.next (promptOf r.source)) sh =
      .done result sh') :
    (runSource sys r sh).result = result ∧ (runSource sys r sh).shell = sh' := by
  rw [runSource_eq_of_done sys h]
  exact ⟨rfl, rfl⟩

theorem runSource_of_next {sh sh' : Shell σ}
    (h : advance sys r.source.display r.source.interactive (r.next (promptOf r.source)) sh =
      .next sh') :
    (runSource sys r sh).result =
        (runSource sys (r.next (promptOf r.source)).reader sh').result ∧
      (runSource sys r sh).shell =
        (runSource sys (r.next (promptOf r.source)).reader sh').shell := by
  rw [runSource_eq_of_next sys h]
  exact ⟨rfl, rfl⟩

/-- A source that nobody types is run line by line. -/
theorem runSource_eq_runLogical (hi : r.source.interactive = false)
    (hd : r.source.display = false) (sh : Shell σ) :
    (runSource sys r sh).result = (runLogical sys (readAll "" r) sh).close.1 ∧
      (runSource sys r sh).shell = (runLogical sys (readAll "" r) sh).close.2 := by
  induction r using readAll.induct "" generalizing sh with
  | case1 r answer =>
    rename_i hend
    have ha := advance_quiet sys hi hd sh
    rw [hend] at ha
    rw [readAll, dif_pos hend]
    exact runSource_of_done sys ha
  | case2 r answer hne =>
    rename_i ih
    have ha := advance_quiet sys hi hd sh
    rw [readAll, dif_neg hne, runLogical]
    cases hstep : take sys false (r.next "").reader.startLine (r.next "").result sh with
    | done result sh' =>
      rw [hstep] at ha
      exact runSource_of_done sys ha
    | next sh' =>
      rw [hstep] at ha
      obtain ⟨hr, hsh⟩ := runSource_of_next sys ha
      rw [hr, hsh, promptOf_quiet hi]
      exact ih hi hd sh'

theorem runLogical_eq_runTexts {lines : List (LogicalLine × Nat)}
    (ht : ∀ a ∈ lines, ∃ text, a.1 = ofText {} text) (sh : Shell σ)
    (he : sh.session.exitRequest = none) :
    let texts := lines.filterMap fun a => a.1.text?.map fun text => (text, a.2)
    (runLogical sys lines sh).close =
      (.ok (runTexts sys texts sh).1, (runTexts sys texts sh).2) := by
  induction lines generalizing sh with
  | nil => rfl
  | cons a lines ih =>
    obtain ⟨l, number⟩ := a
    obtain ⟨⟨text, rfl⟩, hlines⟩ := List.forall_mem_cons.mp ht
    simp only [List.filterMap_cons, text?_ofText, Option.map_some, runLogical, runTexts,
      take_ofText]
    cases hs : ({} : Lexer).split text with
    | error error =>
      have hx := (exitRequest_runLine_of_error sys hs (startText number text sh)).trans he
      simp only [hx]
      rfl
    | ok words =>
      generalize (runLine sys text (startText number text sh)).2 = after
      cases hx : after.session.exitRequest with
      | some status =>
        simp only [Step.after, hx]
        rfl
      | none =>
        simp only [Step.after, hx]
        exact ih hlines after hx

/-- A source of logical lines that are what their texts are is run text by text. -/
theorem runSource_eq_runTexts (hi : r.source.interactive = false) (hd : r.source.display = false)
    (ht : ∀ a ∈ readAll "" r, ∃ text, a.1 = ofText {} text)
    (sh : Shell σ) (he : sh.session.exitRequest = none) :
    (runSource sys r sh).result = .ok (runTexts sys r.texts sh).1 ∧
      (runSource sys r sh).shell = (runTexts sys r.texts sh).2 := by
  obtain ⟨hresult, hshell⟩ := runSource_eq_runLogical sys hi hd sh
  have hlogical := runLogical_eq_runTexts sys ht sh he
  rw [hlogical] at hresult hshell
  exact ⟨hresult, hshell⟩

/-- Running bytes that do not end inside quotes is running the texts of their logical lines. -/
theorem runSource_ofBytes_eq_runTexts (bytes : List UInt8) (sh : Shell σ)
    (he : sh.session.exitRequest = none)
    (hq : pendingAtEnd {} {} (Source.physicalLines bytes) ≠ some .unfinishedQuote) :
    (runSource sys { source := .ofBytes bytes } sh).result =
        .ok (runTexts sys (texts { source := .ofBytes bytes }) sh).1 ∧
      (runSource sys { source := .ofBytes bytes } sh).shell =
        (runTexts sys (texts { source := .ofBytes bytes }) sh).2 :=
  runSource_eq_runTexts sys rfl rfl
    (exists_ofText_of_mem_readAll "" _ (Source.events_ofBytes bytes) hq) sh he

theorem runSource_ofBytes_eq_runTexts_exit :
    let input := Utf8.encode "x='a\nb'\nexit \\\n3\necho c \\"
    let sh : Shell Machine :=
      { session :=
          { history := { capacity := 10 }, directory := "/", name := "hsh", processId := 1 }
        processDirectory := "/"
        world := {} }
    sh.session.exitRequest = none ∧
      pendingAtEnd {} {} (Source.physicalLines input) ≠ some .unfinishedQuote ∧
      (runSource Machine.system { source := .ofBytes input } sh).result = .ok 3 := by
  intro input sh
  have hq : pendingAtEnd {} {} (Source.physicalLines input) ≠ some .unfinishedQuote := by
    decide +kernel
  have hstatus : (runTexts Machine.system (texts { source := .ofBytes input }) sh).1 = 3 := by
    decide +kernel
  have hrun := (runSource_ofBytes_eq_runTexts Machine.system input sh rfl hq).1
  exact ⟨rfl, hq, hrun.trans (congrArg Except.ok hstatus)⟩

end Run

end Shell

end CommandShell
