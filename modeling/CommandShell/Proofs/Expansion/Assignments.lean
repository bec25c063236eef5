import CommandShell.Expansion
import Mathlib.Data.List.TakeDrop

/-! # Assignments

A text is cut at its first equals sign, and every assignment that words expand to has the name of a
variable. Its value is what is written after the sign, with the parameters of the session as it is.
-/

namespace CommandShell.Expansion

variable {s : Session}

theorem cutAtEquals?_append {name : String} (h : '=' ∉ name.toList) (value : String) :
    cutAtEquals? (name ++ "=" ++ value) = some (name, value) := by
  have hname : ∀ c ∈ name.toList, (c != '=') = true := by
    intro c hc
    have hne : c ≠ '=' := fun he => h (he ▸ hc)
    simpa using hne
  have hspan : (name ++ "=" ++ value).toList.span (· != '=') =
      (name.toList, '=' :: value.toList) := by
    rw [List.span_eq_takeWhile_dropWhile, String.append_assoc, String.toList_append,
      List.takeWhile_append_of_pos hname, List.dropWhile_append_of_pos hname]
    simp
  simp only [cutAtEquals?, hspan, String.ofList_toList]

theorem cutAtEquals?_eq_some {text name value : String}
    (h : cutAtEquals? text = some (name, value)) :
    '=' ∉ name.toList ∧ text = name ++ "=" ++ value := by
  unfold cutAtEquals? at h
  rw [List.span_eq_takeWhile_dropWhile] at h
  split at h
  · cases h
  · next before c after hspan =>
    obtain ⟨hname, hvalue⟩ := Prod.mk.inj (Option.some.inj h)
    obtain ⟨hbefore, hafter⟩ := Prod.mk.inj hspan
    have hall : before.all (· != '=') := hbefore ▸ List.all_takeWhile
    have hc : c = '=' := by
      have hhead := List.head?_dropWhile_not (· != '=') text.toList
      rw [hafter] at hhead
      simpa using hhead
    constructor
    · intro hm
      rw [← hname, String.toList_ofList] at hm
      simpa using List.all_eq_true.mp hall _ hm
    · have hcut := List.takeWhile_append_dropWhile (p := (· != '=')) (l := text.toList)
      rw [hbefore, hafter, hc] at hcut
      simp [← hname, ← hvalue, ← String.toList_inj, ← hcut]

/-- A word that starts with an unquoted name and an equals sign, and the name with the value that
the rest of the word has in a session. -/
structure Assigns (s : Session) (w : Word) (a : String × String) : Prop where
  isName : Variables.isName a.1
  exists_parts : ∃ start parts, w.parts = .literal (a.1 ++ "=" ++ start) :: parts ∧
    a.2 = start ++ partsText s parts

theorem assigns_of_assignment? {w : Word} {a : String × String} (h : assignment? s w = some a) :
    Assigns s w a := by
  unfold assignment? at h
  split at h
  · next first parts hparts =>
    split at h
    · next name start hcut =>
      split at h
      · next hn =>
        obtain rfl := Option.some.inj h
        exact ⟨hn, start, parts, (cutAtEquals?_eq_some hcut).2 ▸ hparts, rfl⟩
      · cases h
    · cases h
  · cases h

theorem isName_of_mem_ofWords {ws : List Word} :
    ∀ a ∈ (ofWords s ws).assignments, Variables.isName a.1 := by
  induction ws with
  | nil => simp [ofWords]
  | cons w ws ih =>
    rw [ofWords]
    split
    · next a ha =>
      intro b hb
      rcases List.mem_cons.mp hb with rfl | hb
      · exact (assigns_of_assignment? ha).isName
      · exact ih b hb
    · simp

theorem isName_of_mem_expand (lexer : Lexer) (ws : List Word) :
    ∀ a ∈ (expand lexer s ws).assignments, Variables.isName a.1 :=
  isName_of_mem_ofWords

end CommandShell.Expansion
