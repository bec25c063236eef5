import CommandShell.Proofs.Arguments.Operands
import CommandShell.Proofs.Expansion.Assignments
import CommandShell.Proofs.LogicalLine.Texts
import CommandShell.Proofs.Quoting.LineEnds
import CommandShell.Shell.Command
import Mathlib.Data.List.TakeDrop

/-! # Lines that export a variable

The line `export name='value'` is one logical line, with a line end for every line end of the value.
Running it sets and exports the variable, whatever its value is.
-/

namespace CommandShell

def exportStart (name : String) : String := "export " ++ name ++ "="

def exportLine (name value : String) : String := exportStart name ++ Quoting.single value

def exportWords (name value : String) : List Word :=
  [{ parts := [.literal "export"] },
    { parts := .literal (name ++ "=") :: (Quoting.word value).parts, quoted := true }]

namespace Lexer

/-- Characters that are not always read as what they are. -/
def marks : List Char := ['#', '$', ' ', '\t', '\n', '\'', '"', '\\']

theorem not_mem_marks {c : Char} (h : Variables.isNameChar c) : c ∉ marks := by
  intro hc
  have hall : marks.all fun d => !Variables.isNameChar d := by decide
  have hno := List.all_eq_true.mp hall c hc
  simp [h] at hno

variable {s : State}

theorem step_plain (hm : s.mode = .start ∨ s.mode = .word) {c : Char} (hc : c ∉ marks) :
    s.step {} c = (s.literal c).enter .word := by
  obtain ⟨mode, done, parts, quoted⟩ := s
  simp [marks] at hc
  rcases hm with rfl | rfl <;> simp [State.step, State.stepWord, isDelimiter, hc]

theorem run_plain (hm : s.mode = .start ∨ s.mode = .word) {cs : List Char} (hne : cs ≠ [])
    (hc : ∀ c ∈ cs, c ∉ marks) :
    ({} : Lexer).run s cs = (cs.foldl State.literal s).enter .word := by
  induction cs generalizing s with
  | nil => exact absurd rfl hne
  | cons c cs ih =>
    obtain ⟨hc, hcs⟩ := List.forall_mem_cons.mp hc
    rw [run_cons, step_plain hm hc, List.foldl_cons]
    by_cases h : cs = []
    · subst h
      rfl
    · rw [ih (.inr rfl) h hcs, foldl_literal, foldl_literal]
      rfl

end Lexer

section Reading

open Lexer Quoting

variable {name : String}

theorem run_exportStart (h : Variables.isName name) :
    ({} : Lexer).run {} (exportStart name).toList =
      { mode := .word
        done := [{ parts := [.literal "export"] }]
        parts := [.literal (name ++ "=")] } := by
  have hexport : ({} : Lexer).run {} "export ".toList =
      { done := [{ parts := [.literal "export"] }] } := by
    decide
  have hplain : ∀ c ∈ (name ++ "=").toList, c ∉ marks := by
    intro c hc
    rcases List.mem_append.mp (String.toList_append ▸ hc) with hc | hc
    · exact not_mem_marks (isNameChar_of_mem_isName h hc)
    · rw [List.mem_singleton.mp hc]
      decide
  rw [exportStart, String.append_assoc, String.toList_append, run_append, hexport,
    run_plain (.inl rfl) (by simp) hplain, foldl_literal, foldl_addLiteral_eq (by simp) (by simp)]
  rfl

theorem run_exportLine (h : Variables.isName name) (value : String) :
    ({} : Lexer).run {} (exportLine name value).toList =
      { mode := .word
        done := [{ parts := [.literal "export"] }]
        parts := (Quoting.word value).parts ++ [.literal (name ++ "=")]
        quoted := true } := by
  rw [exportLine, String.toList_append, run_append, run_exportStart h, run_single (.inr rfl)]
  by_cases hv : value = ""
  · simp [hv, Quoting.word]
  · rw [foldl_addQuoted_eq (by simp) hv]
    simp [hv, Quoting.word]

theorem split_exportLine (h : Variables.isName name) (value : String) :
    ({} : Lexer).split (exportLine name value) = .ok (exportWords name value) := by
  rw [split, run_exportLine h]
  by_cases hv : value = "" <;>
    simp [State.finish, State.endWord, State.current, Word.isPresent, exportWords, Quoting.word, hv]

theorem not_mem_exportStart (h : Variables.isName name) {c : Char}
    (hc : Variables.isNameChar c = false) (he : c ∉ "export =".toList) :
    c ∉ (exportStart name).toList := by
  intro hm
  have hname := not_mem_of_isName h hc
  exact he (by simpa [exportStart, hname, or_assoc] using hm)

theorem isLogical_exportLine (h : Variables.isName name) (value : String) :
    ({} : Lexer).IsLogical (exportLine name value) where
  open_before before after heq := by
    have hl : ((exportStart name).toList ++ ['\'']) ++
        (escapeQuotes value.toList ++ ['\'']) = before.toList ++ '\n' :: after.toList := by
      have := congrArg String.toList heq
      simpa [exportLine, toList_single] using this
    have hno : '\n' ∉ (exportStart name).toList ++ ['\''] := by
      simp [not_mem_exportStart h (c := '\n') (by decide) (by decide)]
    obtain ⟨rest, hb, hrest⟩ := exists_append_of_not_mem hno hl
    apply isOpen_of_single
    rw [hb, run_append, run_append, run_exportStart h]
    exact mode_run_escapeQuotes rfl rfl hrest
  closed := by
    have hrun := run_exportLine h value
    have hscan : ({} : Lexer).scan (exportLine name value) = { place := .word } := by
      rw [Scanner.scan_eq_ofMode separatesNames_default (by rw [hrun]; simp), hrun]
      rfl
    rintro (hp | hp) <;> rw [hscan] at hp <;> cases hp

theorem keepsLines_exportLine (h : Variables.isName name) {value : String}
    (hv : ¬ ['\r', '\n'] <:+: value.toList) : KeepsLines (exportLine name value) := by
  intro hi
  have hl : (exportLine name value).toList ++ ['\n'] =
      ((exportStart name).toList ++ ['\'']) ++ (escapeQuotes value.toList ++ ['\'', '\n']) := by
    simp [exportLine, toList_single]
  have hno : '\r' ∉ (exportStart name).toList ++ ['\''] := by
    simp [not_mem_exportStart h (c := '\r') (by decide) (by decide)]
  rw [hl] at hi
  exact hv (infix_of_infix_escapeQuotes (infix_of_not_mem hno hi))

end Reading

section Expansion

open Expansion

variable {name : String}

theorem expand_exportWords {s : Session} (ha : s.aliases = .empty) (name value : String) :
    expand {} s (exportWords name value) = { arguments := ["export", name ++ "=" ++ value] } := by
  have hsub : substituteAlias {} s.aliases (exportWords name value) = exportWords name value := by
    rw [ha]
    rfl
  have hfirst : assignment? s { parts := [.literal "export"] } = none := rfl
  have hexport : argument? s { parts := [.literal "export"] } = some "export" := rfl
  have hoperand : argument? s
      { parts := .literal (name ++ "=") :: (Quoting.word value).parts, quoted := true } =
        some (name ++ "=" ++ value) := by
    by_cases hv : value = "" <;> simp [argument?, partsText, partText, Quoting.word, hv]
  rw [expand, hsub, exportWords, ofWords, hfirst]
  simp [hexport, hoperand]

end Expansion

namespace Shell

variable {σ : Type} (sys : System σ) {name : String}

theorem request_exportNames {operands : List String} (h : operands ≠ [Arguments.helpOption]) :
    Builtin.exportNames.request operands = .exportNames operands :=
  Request.ofOperands_any rfl h _

theorem exportOperand_assignment (h : Variables.isName name) (value : String) (sh : Shell σ) :
    Request.exportOperand (name ++ "=" ++ value) sh =
      (.ok 0, sh.update fun s => { s with vars := s.vars.setExported name value }) := by
  have hcut := Expansion.cutAtEquals?_append (not_mem_of_isName h (c := '=') (by decide)) value
  simp [Request.exportOperand, hcut, h]

/-- The line sets and exports its variable. It writes nothing of its own. -/
theorem runLine_exportLine (h : Variables.isName name) (value : String) {sh : Shell σ}
    (ha : sh.session.aliases = .empty) :
    runLine sys (exportLine name value) sh =
      record (0, (sh.update fun s => { s with vars := s.vars.setExported name value }).flush) := by
  have hhelp : [name ++ "=" ++ value] ≠ [Arguments.helpOption] := fun h =>
    Arguments.ne_helpOption_of_equals (by simp) (List.singleton_inj.mp h)
  have hb : Builtin.ofName? "export" = some .exportNames := by decide
  rw [runLine, split_exportLine h]
  simp only [execute, expand_exportWords ha, dispatch, hb, runBuiltin, request_exportNames hhelp]
  simp [exportWords, Request.execute, Request.run, Outcome.forEach, exportOperand_assignment h]

end Shell

end CommandShell
