import CommandShell.Proofs.Lexer.Names

/-! # Reading pieces of text

What the lexer does with a whole piece of text: characters of one kind become one part of the word,
and a name in braces becomes a parameter.
-/

namespace CommandShell.Lexer

section Parts

variable {parts : List WordPart}

theorem foldl_addLiteral (text : String) (parts : List WordPart) (cs : List Char) :
    cs.foldl (fun ps c => addLiteral c ps) (.literal text :: parts) =
      .literal (text ++ String.ofList cs) :: parts := by
  induction cs generalizing text with
  | nil => simp
  | cons c cs ih =>
    rw [List.foldl_cons, addLiteral, ih]
    congr 2
    simp [← String.toList_inj]

theorem foldl_addQuoted (text : String) (parts : List WordPart) (cs : List Char) :
    cs.foldl (fun ps c => addQuoted c ps) (.quoted text :: parts) =
      .quoted (text ++ String.ofList cs) :: parts := by
  induction cs generalizing text with
  | nil => simp
  | cons c cs ih =>
    rw [List.foldl_cons, addQuoted, ih]
    congr 2
    simp [← String.toList_inj]

theorem addLiteral_of_head? (h : ∀ t, parts.head? ≠ some (.literal t)) (c : Char) :
    addLiteral c parts = .literal (String.singleton c) :: parts := by
  match parts with
  | .literal t :: parts => exact absurd rfl (h t)
  | [] | .quoted _ :: _ | .parameter _ :: _ => rfl

theorem addQuoted_of_head? (h : ∀ t, parts.head? ≠ some (.quoted t)) (c : Char) :
    addQuoted c parts = .quoted (String.singleton c) :: parts := by
  match parts with
  | .quoted t :: parts => exact absurd rfl (h t)
  | [] | .literal _ :: _ | .parameter _ :: _ => rfl

theorem foldl_addLiteral_eq (h : ∀ t, parts.head? ≠ some (.literal t)) {text : String}
    (hne : text ≠ "") :
    text.toList.foldl (fun ps c => addLiteral c ps) parts = .literal text :: parts := by
  cases hs : text.toList with
  | nil => exact absurd (String.toList_eq_nil_iff.mp hs) hne
  | cons c cs =>
    rw [List.foldl_cons, addLiteral_of_head? h, foldl_addLiteral]
    simp [← String.toList_inj, hs]

theorem foldl_addQuoted_eq (h : ∀ t, parts.head? ≠ some (.quoted t)) {text : String}
    (hne : text ≠ "") :
    text.toList.foldl (fun ps c => addQuoted c ps) parts = .quoted text :: parts := by
  cases hs : text.toList with
  | nil => exact absurd (String.toList_eq_nil_iff.mp hs) hne
  | cons c cs =>
    rw [List.foldl_cons, addQuoted_of_head? h, foldl_addQuoted]
    simp [← String.toList_inj, hs]

end Parts

theorem foldl_literal (s : State) (cs : List Char) :
    cs.foldl State.literal s =
      { s with parts := cs.foldl (fun ps c => addLiteral c ps) s.parts } := by
  induction cs generalizing s with
  | nil => rfl
  | cons c cs ih => rw [List.foldl_cons, ih]; rfl

theorem foldl_quote (s : State) (cs : List Char) :
    cs.foldl State.quote s =
      { s with parts := cs.foldl (fun ps c => addQuoted c ps) s.parts } := by
  induction cs generalizing s with
  | nil => rfl
  | cons c cs ih => rw [List.foldl_cons, ih]; rfl

variable (lexer : Lexer)

theorem run_flatMap {f : Char → List Char} {g : State → Char → State} {P : State → Prop}
    {cs : List Char} (h : ∀ s, P s → ∀ c ∈ cs, lexer.run s (f c) = g s c ∧ P (g s c)) {s : State}
    (hs : P s) : lexer.run s (cs.flatMap f) = cs.foldl g s := by
  induction cs generalizing s with
  | nil => rfl
  | cons c cs ih =>
    obtain ⟨hc, hg⟩ := h s hs c List.mem_cons_self
    rw [List.flatMap_cons, run_append, hc, List.foldl_cons]
    exact ih (fun s hs d hd => h s hs d (List.mem_cons_of_mem _ hd)) hg

theorem run_rejected {s : State} (h : s.mode = .rejected) (cs : List Char) : lexer.run s cs = s :=
  run_eq_self (fun c => by rw [State.step, h]) cs

theorem run_brace {inQuotes : Bool} {text : String} {s : State}
    (hm : s.mode = .brace inQuotes text) {cs : List Char} (h : '}' ∉ cs) :
    lexer.run s cs = s.enter (.brace inQuotes (text ++ String.ofList cs)) := by
  induction cs generalizing s text with
  | nil => simp [State.enter, ← hm]
  | cons c cs ih =>
    obtain ⟨hc, hcs⟩ : '}' ≠ c ∧ '}' ∉ cs := by simpa using h
    have hstep : s.step lexer c = s.enter (.brace inQuotes (text.push c)) := by
      simp [State.step, hm, Ne.symm hc]
    have ht : text.push c ++ String.ofList cs = text ++ String.ofList (c :: cs) := by
      simp [← String.toList_inj]
    rw [run_cons, hstep, ih rfl hcs, ht]
    rfl

theorem run_inBraces {inQuotes : Bool} {s : State} (hm : s.mode = .dollar inQuotes) {name : String}
    (hn : isParameterName name) :
    lexer.run s ('{' :: name.toList ++ ['}']) = (s.parameter name).leave inQuotes := by
  have hbrace : '}' ∉ name.toList := fun h => by
    rcases isSpecialParameter_or_isNameChar hn h with hc | hc <;>
      simp [isSpecialParameter, Variables.isNameChar] at hc
  have hopen : s.step lexer '{' = s.enter (.brace inQuotes "") := by
    simp [State.step, hm]
  rw [List.cons_append, run_cons, hopen, run_append, run_brace lexer rfl hbrace]
  simp [State.step, State.enter, hn, State.leave, State.parameter]

theorem run_name {inQuotes : Bool} {text : String} {s : State}
    (hm : s.mode = .name inQuotes text) {cs : List Char} (h : ∀ c ∈ cs, Variables.isNameChar c) :
    lexer.run s cs = s.enter (.name inQuotes (text ++ String.ofList cs)) := by
  induction cs generalizing s text with
  | nil => simp [State.enter, ← hm]
  | cons c cs ih =>
    obtain ⟨hc, hcs⟩ := List.forall_mem_cons.mp h
    have hstep : s.step lexer c = s.enter (.name inQuotes (text.push c)) := by
      simp [State.step, hm, hc]
    have ht : text.push c ++ String.ofList cs = text ++ String.ofList (c :: cs) := by
      simp [← String.toList_inj]
    rw [run_cons, hstep, ih rfl hcs, ht]
    rfl

theorem State.step_dollar_of_isNameStart {inQuotes : Bool} {s : State}
    (hm : s.mode = .dollar inQuotes) {c : Char} (hc : isNameStart c) :
    s.step lexer c = s.enter (.name inQuotes (String.singleton c)) := by
  have hbrace : c ≠ '{' := by rintro rfl; simp [isNameStart] at hc
  have hspecial : isSpecialParameter c = false := by
    refine Bool.eq_false_iff.mpr fun h => ?_
    simp only [isSpecialParameter, Bool.or_eq_true, beq_iff_eq] at h
    rcases h with (rfl | rfl) | rfl <;> simp [isNameStart] at hc
  simp [State.step, hm, hbrace, hspecial, isDigit_of_isNameStart hc, hc]

theorem run_dollar {inQuotes : Bool} {s : State} (hm : s.mode = .dollar inQuotes) {name : String}
    (hn : Variables.isName name) :
    lexer.run s name.toList = s.enter (.name inQuotes name) := by
  cases hs : name.toList with
  | nil => simp [Variables.isName, hs] at hn
  | cons c cs =>
    have hname : String.singleton c ++ String.ofList cs = name := by
      simp [← String.toList_inj, hs]
    have hchars : ∀ d ∈ cs, Variables.isNameChar d := fun d hd =>
      isNameChar_of_mem_isName hn (hs ▸ List.mem_cons_of_mem c hd)
    have hc := isNameStart_of_isName hn hs
    rw [run_cons, State.step_dollar_of_isNameStart lexer hm hc, run_name lexer rfl hchars, hname]
    rfl

end CommandShell.Lexer
