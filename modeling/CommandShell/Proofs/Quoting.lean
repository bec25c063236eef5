import CommandShell.Expansion
import CommandShell.Quoting
import CommandShell.Proofs.Lexer.Runs

/-! # Reading quoted texts back

A text in single quotes is one quoted word for the lexer, whatever is in it. Expansion takes such a
word as it is: it is no alias, no assignment, and it has no parameters. So the arguments of a line
can be any texts at all.
-/

namespace CommandShell.Quoting

open Lexer

def word (text : String) : Word :=
  { parts := if text = "" then [] else [.quoted text], quoted := true }

theorem foldl_addQuoted_nil (text : String) :
    text.toList.foldl (fun ps c => addQuoted c ps) [] = (word text).parts := by
  by_cases h : text = ""
  · simp [word, h]
  · rw [foldl_addQuoted_eq (by simp) h, word, if_neg h]

/-- A quote inside single quotes is written in four characters that add only the quote. -/
theorem run_escaped_quote {s : State} (hm : s.mode = .single) (hq : s.quoted) :
    ({} : Lexer).run s ['\'', '\\', '\'', '\''] = s.quote '\'' := by
  obtain ⟨mode, done, parts, quoted⟩ := s
  cases hm
  cases hq
  rfl

theorem run_escapeQuotes {s : State} (hm : s.mode = .single) (hq : s.quoted) (cs : List Char) :
    ({} : Lexer).run s (escapeQuotes cs) = cs.foldl State.quote s := by
  induction cs generalizing s with
  | nil => rfl
  | cons c cs ih =>
    have hc : ({} : Lexer).run s (if c = '\'' then ['\'', '\\', '\'', '\''] else [c]) =
        s.quote c := by
      split
      · next h => rw [h, run_escaped_quote hm hq]
      · next h => simp [State.step, hm, h]
    rw [escapeQuotes, List.flatMap_cons, run_append, hc, List.foldl_cons]
    exact ih hm hq

theorem toList_single (text : String) :
    (single text).toList = '\'' :: (escapeQuotes text.toList ++ ['\'']) := by
  simp [single]

theorem run_single {s : State} (hm : s.mode = .start ∨ s.mode = .word) (text : String) :
    ({} : Lexer).run s (single text).toList =
      { s with
        mode := .word
        parts := text.toList.foldl (fun ps c => addQuoted c ps) s.parts
        quoted := true } := by
  obtain ⟨mode, done, parts, quoted⟩ := s
  have hopen : State.step {} { mode, done, parts, quoted } '\'' =
      { mode := .single, done, parts, quoted := true } := by
    rcases hm with rfl | rfl <;> rfl
  rw [toList_single, run_cons, hopen, run_append, run_escapeQuotes rfl rfl, foldl_quote]
  rfl

theorem run_single_start (done : List Word) (text : String) :
    ({} : Lexer).run { done } (single text).toList =
      { mode := .word, done, parts := (word text).parts, quoted := true } := by
  rw [run_single (.inl rfl), foldl_addQuoted_nil]

theorem endWord_word (done : List Word) (text : String) :
    State.endWord { mode := .word, done, parts := (word text).parts, quoted := true } =
      { done := word text :: done } := by
  have hr : (word text).parts.reverse = (word text).parts := by
    simp only [word]
    split <;> rfl
  have hc : State.current { mode := .word, done, parts := (word text).parts, quoted := true } =
      word text := by
    rw [State.current, hr]
    rfl
  rw [State.endWord, hc, if_pos (by simp [Word.isPresent, word])]

/-- The quoted texts of a line are its words. -/
theorem finish_run_join (done : List Word) (texts : List String) :
    (({} : Lexer).run { done } (" ".intercalate (texts.map single)).toList).finish =
      .ok (done.reverse ++ texts.map word) := by
  induction texts generalizing done with
  | nil => simp [State.finish]
  | cons text texts ih =>
    cases texts with
    | nil =>
      simp only [List.map_cons, List.map_nil, String.intercalate_singleton, run_single_start,
        State.finish, endWord_word, List.reverse_cons]
    | cons next texts =>
      rw [List.map_cons, List.map_cons, String.intercalate_cons_cons, String.toList_append,
        String.toList_append, run_append, run_append, run_single_start]
      have hspace : ({} : Lexer).run
          { mode := .word, done, parts := (word text).parts, quoted := true } " ".toList =
          { done := word text :: done } := endWord_word done text
      rw [hspace]
      simpa using ih (word text :: done)

theorem split_join (texts : List String) :
    ({} : Lexer).split (" ".intercalate (texts.map single)) = .ok (texts.map word) :=
  finish_run_join [] texts

variable (s : Session)

theorem plain?_word (text : String) : (word text).plain? = none := by
  simp only [word, Word.plain?]
  split
  · next h => split at h <;> cases h
  · rfl

theorem assignment?_word (text : String) : Expansion.assignment? s (word text) = none := by
  simp only [word, Expansion.assignment?]
  split
  · next h => split at h <;> cases h
  · rfl

theorem argument?_word (text : String) : Expansion.argument? s (word text) = some text := by
  have ht : Expansion.partsText s (word text).parts = text := by
    by_cases h : text = "" <;> simp [word, h, Expansion.partsText, Expansion.partText]
  have hq : (word text).quoted = true := rfl
  simp [Expansion.argument?, ht, hq]

theorem expand_words (lexer : Lexer) (texts : List String) :
    Expansion.expand lexer s (texts.map word) = { arguments := texts } := by
  cases texts with
  | nil => rfl
  | cons text texts =>
    have ha : Expansion.substituteAlias lexer s.aliases ((text :: texts).map word) =
        (text :: texts).map word := by
      simp [Expansion.substituteAlias, plain?_word]
    have hf : Expansion.argument? s ∘ word = some := funext (argument?_word s)
    rw [Expansion.expand, ha, List.map_cons, Expansion.ofWords, assignment?_word]
    simp only [← List.map_cons, List.filterMap_map, hf, List.filterMap_some]

/-- Any texts are the arguments of the line that quotes them, in every session. -/
theorem expand_split_join (lexer : Lexer) (texts : List String) :
    ∃ words, ({} : Lexer).split (" ".intercalate (texts.map single)) = .ok words ∧
      Expansion.expand lexer s words = { assignments := [], arguments := texts } :=
  ⟨texts.map word, split_join texts, expand_words s lexer texts⟩

end CommandShell.Quoting
