import CommandShell.Proofs.Expansion.Roles
import CommandShell.Proofs.Lexer.NormalForm
import CommandShell.Proofs.Lexer.Separation

/-! # Aliases as text

A line that starts with the name of an alias expands to what the line with the text of the alias in
place of the name expands to where there are no aliases. So one name is replaced once, by text that
is read as if it had been written there.
-/

namespace CommandShell

theorem Word.plain?_eq_some_iff {w : Word} {text : String} :
    w.plain? = some text ↔ w.parts = [.literal text] := by
  obtain ⟨parts, quoted⟩ := w
  rcases parts with _ | ⟨_ | _ | _, _ | ⟨p, parts⟩⟩ <;> simp [Word.plain?]

namespace Lexer

theorem not_endsInComment_of_plain {name : String} {w : Word}
    (h : ({} : Lexer).split name = .ok [w]) (hw : w.plain? = some name) :
    ¬ ({} : Lexer).EndsInComment name := by
  have hnormal : w.IsNormal := isNormal_of_split h w List.mem_cons_self
  have hname : (WordPart.literal name).IsNormal w.quoted :=
    hnormal.parts.each _ (by simp [Word.plain?_eq_some_iff.mp hw])
  refine not_endsInComment_of_forall ?_ ?_
  · -- A comment as a whole has no words.
    intro hhash
    obtain ⟨cs, hcs⟩ := List.head?_eq_some_iff.mp hhash
    have hstep : (({} : State).step {} '#').mode = .comment := rfl
    rw [split, hcs, run_cons, State.run_comment hstep] at h
    cases h
  · intro c hc
    have hsyntax := hname.2 c hc
    simp [WordPart.syntaxChars] at hsyntax
    simp [isDelimiter, hsyntax]

end Lexer

namespace Expansion

/-- Splits and expands a line. -/
def expandText (lexer : Lexer) (s : Session) (line : String) : Except LexError Expansion :=
  (lexer.split line).map (expand lexer s)

theorem ofWords_withAliases (s : Session) (aliases : Aliases) :
    ofWords { s with aliases } = ofWords s := by
  apply ofWords_congr
  funext p
  cases p <;> rfl

theorem expand_withoutAliases (lexer : Lexer) (s : Session) (ws : List Word) :
    expand lexer { s with aliases := .empty } ws = ofWords s ws := by
  rw [expand, substituteAlias_empty, ofWords_withAliases]

/-- A line that starts with the name of an alias is read as if the text of the alias had been
written for it, and no alias counts after that. Any other line is read as if there were none. -/
theorem expandText_alias (s : Session) :
    let bare : Session := { s with aliases := .empty }
    (∀ (name value : String) (w : Word) (words : List Word),
        ({} : Lexer).split name = .ok [w] → w.plain? = some name →
        s.aliases.get? name = some value →
        ({} : Lexer).split value = .ok words → ¬ ({} : Lexer).EndsInComment value →
        ∀ rest, expandText {} s (name ++ " " ++ rest) =
          expandText {} bare (value ++ " " ++ rest)) ∧
      ∀ ws : List Word, ¬ StartsWithAlias {} s.aliases ws →
        expand {} s ws = expand {} bare ws := by
  intro bare
  have hd : ({} : Lexer).Separates ' ' := Lexer.separates_of_mem true (by simp)
  constructor
  · intro name value w words hn hw ha hv hc rest
    have hcn := Lexer.not_endsInComment_of_plain hn hw
    have hspace : " " = String.singleton ' ' := rfl
    rw [expandText, expandText, hspace, Lexer.split_append_separator hd hn hcn rest,
      Lexer.split_append_separator hd hv hc rest]
    cases ({} : Lexer).split rest with
    | error error => rfl
    | ok ws =>
      have hsub : substituteAlias {} s.aliases ([w] ++ ws) = words ++ ws :=
        substituteAlias_cons hw ha hv ws
      simp only [Except.map, expand_withoutAliases, bare]
      rw [expand, hsub]
  · intro ws h
    rw [expand, substituteAlias_eq_self h, expand_withoutAliases]

/-- An alias that has its own name, an assignment, quotes and a parameter in its text, before a line
that starts with an alias too; and a word that is no alias because it is quoted. -/
theorem expandText_alias_itself :
    let value := "B=$x 'c $x' a"
    let s : Session :=
      { vars := Variables.set .empty "x" "v", aliases := Table.empty.insert "a" value
        history := { capacity := 10 }, directory := "/", name := "hsh", processId := 1 }
    let bare : Session := { s with aliases := .empty }
    let ws : List Word := [{ parts := [.quoted "a"], quoted := true }]
    let rest := "a \"$x\""
    expandText {} s ("a" ++ " " ++ rest) = expandText {} bare (value ++ " " ++ rest) ∧
      (expandText {} s ("a" ++ " " ++ rest)).toOption =
        some { assignments := [("B", "v")], arguments := ["c $x", "a", "a", "v"] } ∧
      ¬ StartsWithAlias {} s.aliases ws ∧ expand {} s ws = expand {} bare ws := by
  intro value s bare ws rest
  let words : List Word :=
    [{ parts := [.literal "B=", .parameter "x"] }, { parts := [.quoted "c $x"], quoted := true },
      { parts := [.literal "a"] }]
  have hn : ({} : Lexer).split "a" = .ok [{ parts := [.literal "a"] }] := by rfl
  have hv : ({} : Lexer).split "B=$x 'c $x' a" = .ok words := by rfl
  have hc : ¬ ({} : Lexer).EndsInComment value := by decide +kernel
  have ha : s.aliases.get? "a" = some value := by decide +kernel
  have hws : ¬ StartsWithAlias {} s.aliases ws := by
    rintro ⟨w, hw, name, _, _, hname, -⟩
    cases hw
    cases hname
  obtain ⟨hreplaced, hkept⟩ := expandText_alias s
  refine ⟨hreplaced "a" value _ words hn rfl ha hv hc rest, ?_, hws, hkept ws hws⟩
  decide +kernel

end Expansion

end CommandShell
