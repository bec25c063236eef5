import CommandShell.Proofs.Output.Streams
import CommandShell.Proofs.Shell.ExportLine
import CommandShell.Proofs.Shell.LineByLine
import CommandShell.Proofs.Variables

/-! # Exported variables as a script

What `export` prints is a script: run in a fresh session, it exports the same variables with the
same values and does nothing else. The values may be any texts without a line end of two characters.
-/

namespace CommandShell

namespace Shell

open LineReader Variables

variable {σ τ : Type}

/-- A shell without aliases whose last command succeeded and did not ask for the end. -/
structure Ready (sh : Shell σ) : Prop where
  aliases_eq : sh.session.aliases = .empty
  exitRequest_eq : sh.session.exitRequest = none
  lastStatus_eq : sh.session.lastStatus = 0

/-- Variables were exported, and nothing was written. -/
structure Exports (bindings : List (String × String)) (before after : Shell σ) : Prop where
  vars_eq : after.session.vars = exportAll before.session.vars bindings
  out_eq : after.out.written = before.out.written
  err_eq : after.err.written = before.err.written

section Run

variable (sys : System σ) {sh mid after : Shell σ} {bindings : List (String × String)}

theorem Exports.cons {b : String × String} (h : Exports [b] sh mid)
    (h' : Exports bindings mid after) : Exports (b :: bindings) sh after where
  vars_eq := by rw [h'.vars_eq, h.vars_eq]; rfl
  out_eq := h'.out_eq.trans h.out_eq
  err_eq := h'.err_eq.trans h.err_eq

theorem exports_runLine {b : String × String} (hb : isName b.1) (h : Ready sh) (number : Nat) :
    let after := (runLine sys (exportLine b.1 b.2) (sh.startText number (exportLine b.1 b.2))).2
    Ready after ∧ Exports [b] sh after := by
  intro after
  have hafter : after = _ := congrArg Prod.snd (runLine_exportLine sys hb b.2 h.aliases_eq)
  rw [hafter]
  constructor
  · exact ⟨h.aliases_eq, h.exitRequest_eq, rfl⟩
  · exact ⟨rfl, Stream.written_flush sh.out, Stream.written_flush sh.err⟩

theorem exports_runTexts (hn : ∀ b ∈ bindings, isName b.1) {texts : List (String × Nat)}
    (ht : texts.map Prod.fst = bindings.map fun b => exportLine b.1 b.2) (h : Ready sh) :
    (runTexts sys texts sh).1 = 0 ∧ Exports bindings sh (runTexts sys texts sh).2 := by
  induction bindings generalizing texts sh with
  | nil =>
    rw [List.map_nil, List.map_eq_nil_iff] at ht
    subst ht
    exact ⟨h.lastStatus_eq, rfl, rfl, rfl⟩
  | cons b bindings ih =>
    obtain ⟨hb, hn⟩ := List.forall_mem_cons.mp hn
    cases texts with
    | nil => cases ht
    | cons t texts =>
      obtain ⟨text, number⟩ := t
      obtain ⟨rfl, hrest⟩ : text = exportLine b.1 b.2 ∧
          texts.map Prod.fst = bindings.map fun b => exportLine b.1 b.2 := List.cons.inj ht
      obtain ⟨hready, hfirst⟩ := exports_runLine sys hb h number
      rw [runTexts, hready.exitRequest_eq, split_exportLine hb]
      obtain ⟨hstatus, hexports⟩ := ih hn hrest hready
      exact ⟨hstatus, hfirst.cons hexports⟩

end Run

section Script

variable {bindings : List (String × String)}

def exportScript (bindings : List (String × String)) : String :=
  String.join (bindings.map fun b => exportLine b.1 b.2 ++ "\n")

theorem join_bindingLines :
    String.join (Request.bindingLines ["export "] Quoting.single bindings) =
      exportScript bindings := by
  induction bindings with
  | nil => rfl
  | cons b bindings ih =>
    rw [exportScript, List.map_cons, String.join_cons, ← exportScript, ← ih]
    simp [Request.bindingLines, exportLine, exportStart, ← String.toList_inj]

def printedExports (sys : System σ) (sh : Shell σ) : String :=
  ((Builtin.exportNames.request []).execute sys { sh with out := {} }).2.out.contents

theorem printedExports_eq (sys : System σ) (sh : Shell σ) :
    printedExports sys sh = exportScript sh.session.vars.exportedList := by
  have hrun : (Request.exportNames []).run sys { sh with out := {} } =
      (.ok 0, { sh with
        out := { device := { stored :=
          (Utf8.encode (exportScript sh.session.vars.exportedList)).toArray } } }) := by
    simp only [Request.run, print]
    rw [Stream.writeAll_fresh, join_bindingLines]
    rfl
  rw [printedExports, request_exportNames (by simp), Request.execute, hrun]
  exact Utf8.decode_encode _

theorem toList_exportScript :
    (exportScript bindings).toList =
      (bindings.map fun b => exportLine b.1 b.2).flatMap fun text => text.toList ++ ['\n'] := by
  simp [exportScript, String.toList_join, List.flatMap_map]

theorem readAll_exportScript (hn : ∀ b ∈ bindings, isName b.1)
    (hv : ∀ b ∈ bindings, ¬ ['\r', '\n'] <:+: b.2.toList) :
    (readAll "" { source := .ofText (exportScript bindings) }).map Prod.fst =
      (bindings.map fun b => exportLine b.1 b.2).map (LogicalLine.ofText {}) := by
  apply readAll_texts
  · intro text ht
    obtain ⟨b, hb, rfl⟩ := List.mem_map.mp ht
    exact ⟨isLogical_exportLine (hn b hb) b.2, keepsLines_exportLine (hn b hb) (hv b hb)⟩
  · rw [Source.events_ofText, toList_exportScript]

end Script

/-- Running what `export` prints exports the same variables again, and does nothing else. -/
theorem runSource_exported (sys₁ : System σ) (sh₁ : Shell σ) (sys₂ : System τ) (sh₂ : Shell τ)
    (hn : ∀ b ∈ sh₁.session.vars.exportedList, isName b.1)
    (hv : ∀ b ∈ sh₁.session.vars.exportedList, ¬ ['\r', '\n'] <:+: b.2.toList)
    (h : Ready sh₂) (hempty : sh₂.session.vars = .empty) :
    let r := runSource sys₂ { source := .ofText (printedExports sys₁ sh₁) } sh₂
    r.result = .ok 0 ∧
      r.shell.session.vars.toList = exportEntries sh₁.session.vars.exportedList ∧
      r.shell.out.written = sh₂.out.written ∧ r.shell.err.written = sh₂.err.written := by
  intro r
  have hread := readAll_exportScript hn hv
  rw [← printedExports_eq sys₁] at hread
  have hlines : ∀ a ∈ readAll "" { source := .ofText (printedExports sys₁ sh₁) },
      ∃ text, a.1 = LogicalLine.ofText {} text := by
    intro a ha
    have hm := List.mem_map_of_mem (f := Prod.fst) ha
    rw [hread] at hm
    obtain ⟨text, -, hl⟩ := List.mem_map.mp hm
    exact ⟨text, hl.symm⟩
  obtain ⟨hresult, hshell⟩ := runSource_eq_runTexts sys₂ rfl rfl hlines sh₂ h.exitRequest_eq
  obtain ⟨hstatus, hexports⟩ := exports_runTexts sys₂ hn (texts_of_readAll hread) h
  rw [← hshell] at hexports
  refine ⟨hresult.trans (congrArg Except.ok hstatus), ?_, hexports.out_eq, hexports.err_eq⟩
  rw [hexports.vars_eq, hempty]
  exact toList_exportAll sh₁.session.vars

theorem runSource_exported_values :
    let bindings := [("A", "it's\n\n$x=\"1\" # \\"), ("_b", ""), ("c9", "\n\r")]
    let sh₂ : Shell Machine :=
      { session :=
          { history := { capacity := 3 }, directory := "/", name := "hsh", processId := 1 }
        processDirectory := "/"
        world := {}
        out := .byLine {} }
    let sh₁ := sh₂.update fun s => { s with vars := (exportAll .empty bindings).set "x" "\r\n" }
    let script := printedExports Machine.system sh₁
    let r := runSource Machine.system { source := .ofText script } sh₂
    Ready sh₂ ∧ r.result = .ok 0 ∧ r.shell.session.vars.toList = exportEntries bindings ∧
      r.shell.out.written = [] := by
  intro bindings sh₂ sh₁ script r
  have hlist : sh₁.session.vars.exportedList = bindings := by decide +kernel
  have hn : ∀ b ∈ sh₁.session.vars.exportedList, isName b.1 := by
    rw [hlist]
    decide +kernel
  have hv : ∀ b ∈ sh₁.session.vars.exportedList, ¬ ['\r', '\n'] <:+: b.2.toList := by
    rw [hlist]
    decide +kernel
  have hready : Ready sh₂ := ⟨rfl, rfl, rfl⟩
  obtain ⟨hresult, hvars, hout, -⟩ :=
    runSource_exported Machine.system sh₁ Machine.system sh₂ hn hv hready rfl
  rw [hlist] at hvars
  exact ⟨hready, hresult, hvars, hout⟩

end Shell

end CommandShell
