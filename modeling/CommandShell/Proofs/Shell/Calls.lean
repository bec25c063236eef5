import CommandShell.Proofs.LogicalLine.Blocks
import CommandShell.Shell.Run

/-! # Requests for physical lines and their prompts

A request finds a line, the end of the input or a failure. The prompt before it says whether the
lines since the last command prompt are still open.
-/

namespace CommandShell

open Lexer LogicalLine

/-- What the first `n` requests find. After the last event, that is the end of the input. -/
def foundEvents (es : List Event) (n : Nat) : List Event :=
  (List.range n).map fun k => es[k]?.getD .endOfInput

@[simp] theorem length_foundEvents (es : List Event) (n : Nat) : (foundEvents es n).length = n := by
  simp [foundEvents]

@[simp] theorem foundEvents_zero (es : List Event) : foundEvents es 0 = [] := rfl

theorem foundEvents_one (es : List Event) : foundEvents es 1 = [es.head?.getD .endOfInput] := by
  cases es <;> rfl

theorem foundEvents_add (es : List Event) (m n : Nat) :
    foundEvents es (m + n) = foundEvents es m ++ foundEvents (es.drop m) n := by
  simp [foundEvents, List.range_add, Function.comp_def]

theorem foundEvents_append (es es' : List Event) (n : Nat) :
    foundEvents (es ++ es') (es.length + n) = es ++ foundEvents es' n := by
  have hfirst : foundEvents (es ++ es') es.length = es := by
    apply List.ext_getElem (by simp)
    intro k hk hk'
    simp only [foundEvents, List.getElem_map, List.getElem_range, List.getElem?_append_left hk',
      List.getElem?_eq_getElem hk', Option.getD_some]
  rw [foundEvents_add, hfirst, List.drop_left]

/-- A request for a physical line: the prompt before it, and what it found. -/
structure Call where
  prompt : String
  event : Event
deriving DecidableEq, Repr

namespace Call

def isLine (call : Call) : Bool :=
  match call.event with
  | .line _ => true
  | _ => false

/-- The lines since the last command prompt, with those of one more request. If it finds no line,
none are left. -/
def gather (lines : List String) (call : Call) : List String :=
  match call.event with
  | .line text => if call.prompt = commandPrompt then [text] else lines ++ [text]
  | _ => []

theorem gather_continuation (lines : List String) (text : String) :
    (Call.mk continuationPrompt (.line text)).gather lines = lines ++ [text] := by
  have hne : continuationPrompt ≠ commandPrompt := by decide
  simp [gather, hne]

section NoLine

variable {e : Event} (h : ∀ line, e ≠ .line line) (prompt : String)
include h

theorem isLine_of_ne_line : (Call.mk prompt e).isLine = false := by
  cases e with
  | line text => exact absurd rfl (h text)
  | _ => rfl

theorem gather_of_ne_line (lines : List String) : (Call.mk prompt e).gather lines = [] := by
  cases e with
  | line text => exact absurd rfl (h text)
  | _ => rfl

end NoLine

end Call

def promptAfter (lexer : Lexer) (lines : List String) : String :=
  if lexer.IsOpen (joinLines lines) then continuationPrompt else commandPrompt

def Prompted (lexer : Lexer) : List String → List Call → Prop
  | _, [] => True
  | lines, call :: calls =>
    call.prompt = promptAfter lexer lines ∧ Prompted lexer (call.gather lines) calls

variable {lexer : Lexer} {lines : List String} {calls calls' : List Call}

theorem prompted_append :
    Prompted lexer lines (calls ++ calls') ↔
      Prompted lexer lines calls ∧ Prompted lexer (calls.foldl Call.gather lines) calls' := by
  induction calls generalizing lines with
  | nil => simp [Prompted]
  | cons call calls ih => simp [Prompted, ih, and_assoc]

theorem Prompted.getElem (h : Prompted lexer lines calls) {k : Nat} (hk : k < calls.length) :
    calls[k].prompt = promptAfter lexer ((calls.take k).foldl Call.gather lines) := by
  induction calls generalizing lines k with
  | nil => cases hk
  | cons call calls ih =>
    cases k with
    | zero => exact h.1
    | succ k => exact ih h.2 (Nat.lt_of_succ_lt_succ hk)

theorem not_isOpen_joinLines_nil (lexer : Lexer) : ¬ lexer.IsOpen (joinLines []) := by
  simp [Lexer.IsOpen, joinLines, Lexer.scan, Scanner.feed, Scanner.pending]

/-! ## The requests for one logical line -/

def furtherCalls (es : List Event) : List Call := es.map (Call.mk continuationPrompt)

def blockCalls (text : String) (more : List String) : List Call :=
  ⟨commandPrompt, .line text⟩ :: furtherCalls (more.map .line)

def readCalls (lexer : Lexer) (es : List Event) : List Call :=
  ⟨commandPrompt, es.head?.getD .endOfInput⟩ ::
    furtherCalls (foundEvents es.tail (read lexer es).continued)

theorem foldl_gather_furtherCalls (lines more : List String) :
    (furtherCalls (more.map .line)).foldl Call.gather lines = lines ++ more := by
  induction more generalizing lines with
  | nil => simp [furtherCalls]
  | cons text more ih =>
    rw [furtherCalls, List.map_cons, List.map_cons, List.foldl_cons, Call.gather_continuation]
    simpa [furtherCalls] using ih (lines ++ [text])

theorem foldl_gather_blockCalls (lines : List String) (text : String) (more : List String) :
    (blockCalls text more).foldl Call.gather lines = text :: more :=
  foldl_gather_furtherCalls [text] more

theorem prompted_furtherCalls {more : List String}
    (h : ∀ k < more.length, lexer.IsOpen (joinLines (lines ++ more.take k))) :
    Prompted lexer lines (furtherCalls (more.map .line)) := by
  induction more generalizing lines with
  | nil => trivial
  | cons text more ih =>
    have hfirst : lexer.IsOpen (joinLines lines) := by simpa using h 0 (Nat.succ_pos _)
    refine ⟨(if_pos hfirst).symm, ?_⟩
    rw [Call.gather_continuation]
    apply ih
    intro k hk
    simpa using h (k + 1) (Nat.succ_lt_succ hk)

theorem prompted_blockCalls {text : String} {more : List String}
    (hlines : ¬ lexer.IsOpen (joinLines lines))
    (h : ∀ n, 0 < n → n < (text :: more).length →
      lexer.IsOpen (joinLines ((text :: more).take n))) :
    Prompted lexer lines (blockCalls text more) := by
  refine ⟨(if_neg hlines).symm, prompted_furtherCalls fun k hk => ?_⟩
  exact h (k + 1) (Nat.succ_pos k) (Nat.succ_lt_succ hk)

theorem readCalls_of_gathers {text : String} {es rest : List Event} {more : List String}
    (h : Gathers lexer (.line text :: es) (text :: more) rest
      (read lexer (.line text :: es))) :
    let missing := if (lexer.openIn? (joinLines (text :: more))).isSome then 1 else 0
    readCalls lexer (.line text :: es) =
      blockCalls text more ++ furtherCalls (foundEvents rest missing) := by
  intro missing
  have hes : es = more.map .line ++ rest := by simpa using h.events_eq
  have hcontinued := h.continued_eq
  rw [List.length_cons, Nat.add_right_comm, Nat.add_right_cancel_iff] at hcontinued
  have hlength : more.length = (more.map Event.line).length := by simp
  rw [readCalls, hcontinued, List.tail_cons, hes, hlength, foundEvents_append]
  simp [blockCalls, furtherCalls, missing]

/-- How the requests for a logical line account for what reading it gave. -/
structure Accounts (lexer : Lexer) (es : List Event) (calls : List Call) (r : Reading) : Prop where
  prompted : ∀ lines, ¬ lexer.IsOpen (joinLines lines) → Prompted lexer lines calls
  closed : ∀ lines, ¬ lexer.IsOpen (joinLines (calls.foldl Call.gather lines))
  rest_eq : r.rest = es.drop calls.length
  count_eq : r.count = calls.countP Call.isLine
  failure_iff : ∀ error, r.result = .failure error ↔
    ∃ cut : List String, calls.map Call.event = cut.map .line ++ [.failure error]

theorem map_event_furtherCalls (es : List Event) : (furtherCalls es).map Call.event = es := by
  simp [furtherCalls, Function.comp_def]

theorem map_event_blockCalls (text : String) (more : List String) :
    (blockCalls text more).map Call.event = (text :: more).map .line := by
  simp [blockCalls, map_event_furtherCalls]

theorem length_blockCalls (text : String) (more : List String) :
    (blockCalls text more).length = (text :: more).length := by
  simp [blockCalls, furtherCalls]

theorem countP_blockCalls (text : String) (more : List String) :
    (blockCalls text more).countP Call.isLine = (text :: more).length := by
  rw [← length_blockCalls, List.countP_eq_length]
  intro call hcall
  have hevent := List.mem_map_of_mem (f := Call.event) hcall
  rw [map_event_blockCalls] at hevent
  obtain ⟨line, -, hline⟩ := List.mem_map.mp hevent
  rw [Call.isLine, ← hline]

theorem exists_cut_iff (block : List String) {e : Event} {error : ReadError} :
    (∃ cut : List String, block.map .line ++ [e] = cut.map Event.line ++ [.failure error]) ↔
      e = .failure error := by
  constructor
  · rintro ⟨cut, h⟩
    exact List.singleton_inj.mp (List.append_inj_right' h rfl)
  · rintro rfl
    exact ⟨block, rfl⟩

theorem not_exists_cut {block : List String} {error : ReadError} :
    ¬ ∃ cut : List String, block.map .line = cut.map Event.line ++ [.failure error] := by
  rintro ⟨cut, h⟩
  have hmem : Event.failure error ∈ block.map Event.line := by simp [h]
  simp at hmem

theorem isSome_text?_ofOpenText (lexer : Lexer) (text : String) (error : LexError) :
    (ofOpenText lexer text error).text?.isSome := by
  unfold ofOpenText
  split
  · rw [text?_ofText]
    rfl
  · rfl

theorem ne_failure_of_text? {l : LogicalLine} (h : l.text?.isSome) (error : ReadError) :
    l ≠ .failure error := by
  rintro rfl
  cases h

theorem accounts_of_complete {text : String} {rest : List Event} {more : List String} {r : Reading}
    (h : Gathers lexer ((text :: more).map .line ++ rest) (text :: more) rest r)
    (hclosed : ¬ lexer.IsOpen (joinLines (text :: more))) (hresult : r.result.text?.isSome)
    (hrest : r.rest = rest) :
    Accounts lexer ((text :: more).map .line ++ rest) (blockCalls text more) r where
  prompted lines hlines := prompted_blockCalls hlines h.open_before
  closed lines := by rwa [foldl_gather_blockCalls]
  rest_eq := by rw [hrest, length_blockCalls]; simp
  count_eq := by rw [h.count_eq, countP_blockCalls]
  failure_iff error := by
    rw [map_event_blockCalls]
    exact iff_of_false (ne_failure_of_text? hresult error) not_exists_cut

theorem accounts_of_open {text : String} {rest : List Event} {more : List String} {r : Reading}
    (h : Gathers lexer ((text :: more).map .line ++ rest) (text :: more) rest r)
    (hopen : lexer.IsOpen (joinLines (text :: more))) {e : Event} (he : ∀ line, e ≠ .line line)
    (hrest : r.rest = rest.tail)
    (hfailure : ∀ error, r.result = .failure error ↔ e = .failure error) :
    Accounts lexer ((text :: more).map .line ++ rest) (blockCalls text more ++ furtherCalls [e])
      r where
  prompted lines hlines := by
    rw [prompted_append, foldl_gather_blockCalls]
    exact ⟨prompted_blockCalls hlines h.open_before, (if_pos hopen).symm, trivial⟩
  closed lines := by
    have hgather := Call.gather_of_ne_line he continuationPrompt (text :: more)
    rw [List.foldl_append, foldl_gather_blockCalls]
    simp only [furtherCalls, List.map_cons, List.map_nil, List.foldl_cons, List.foldl_nil, hgather]
    exact not_isOpen_joinLines_nil lexer
  rest_eq := by
    rw [hrest, List.length_append, length_blockCalls, furtherCalls, List.length_map,
      ← List.drop_drop]
    simp
  count_eq := by
    have hcount : (furtherCalls [e]).countP Call.isLine = 0 := by
      simp [furtherCalls, Call.isLine_of_ne_line he]
    rw [h.count_eq, List.countP_append, countP_blockCalls, hcount, Nat.add_zero]
  failure_iff error := by
    rw [List.map_append, map_event_blockCalls, map_event_furtherCalls, hfailure, exists_cut_iff]

theorem accounts_of_single {es : List Event} {e : Event} {r : Reading}
    (he : ∀ line, e ≠ .line line) (hrest : r.rest = es.tail) (hcount : r.count = 0)
    (hfailure : ∀ error, r.result = .failure error ↔ e = .failure error) :
    Accounts lexer es [⟨commandPrompt, e⟩] r where
  prompted lines hlines := ⟨(if_neg hlines).symm, trivial⟩
  closed lines := by
    rw [List.foldl_cons, List.foldl_nil, Call.gather_of_ne_line he]
    exact not_isOpen_joinLines_nil lexer
  rest_eq := by simp [hrest]
  count_eq := by
    simp [hcount, Call.isLine_of_ne_line he]
  failure_iff error := by
    rw [hfailure]
    exact (exists_cut_iff []).symm

/-- The requests account for every logical line. What stops it decides which of the three shapes
they have. -/
theorem accounts_read (lexer : Lexer) (es : List Event) :
    Accounts lexer es (readCalls lexer es) (read lexer es) := by
  match es with
  | [] => exact accounts_of_single (by simp) rfl rfl (by simp [LogicalLine.read])
  | .endOfInput :: es => exact accounts_of_single (by simp) rfl rfl (by simp [LogicalLine.read])
  | .failure error :: es =>
    exact accounts_of_single (by simp) rfl rfl (by simp [LogicalLine.read])
  | .line text :: es =>
    obtain ⟨more, rest, h⟩ := exists_gathers lexer text es
    have hes := h.events_eq
    have hstop := h.stop
    have hopenText := fun error =>
      ne_failure_of_text? (isSome_text?_ofOpenText lexer (joinLines (text :: more)) error)
    rw [readCalls_of_gathers h]
    generalize LogicalLine.read lexer (.line text :: es) = r at h hstop ⊢
    rw [hes] at h ⊢
    generalize hresult : r.result = result at hstop
    generalize hleft : r.rest = left at hstop
    cases hstop with
    | complete hn =>
      have htext : r.result.text?.isSome := by rw [hresult, text?_ofText]; rfl
      simpa [hn, furtherCalls] using accounts_of_complete h (openIn?_eq_none_iff.mp hn) htext hleft
    | exhausted ho =>
      have hopen := isOpen_of_openIn? ho
      simpa [ho, foundEvents_one] using
        accounts_of_open h hopen (e := .endOfInput) (by simp) hleft (by simp [hresult, hopenText])
    | ended ho =>
      have hopen := isOpen_of_openIn? ho
      simpa [ho, foundEvents_one] using
        accounts_of_open h hopen (e := .endOfInput) (by simp) hleft (by simp [hresult, hopenText])
    | @failed _ fault _ ho =>
      have hopen := isOpen_of_openIn? ho
      simpa [ho, foundEvents_one] using
        accounts_of_open h hopen (e := .failure fault) (by simp) hleft (by simp [hresult])

theorem map_prompt_readCalls (lexer : Lexer) (es : List Event) :
    (readCalls lexer es).map Call.prompt =
      commandPrompt :: List.replicate (LogicalLine.read lexer es).continued continuationPrompt := by
  simp [readCalls, furtherCalls, Function.comp_def, List.map_const']

theorem map_event_readCalls (lexer : Lexer) (es : List Event) :
    (readCalls lexer es).map Call.event = foundEvents es (readCalls lexer es).length := by
  have hlength : (readCalls lexer es).length = 1 + (LogicalLine.read lexer es).continued := by
    simp [readCalls, furtherCalls, Nat.add_comm]
  rw [hlength, foundEvents_add, foundEvents_one, List.drop_one, readCalls, List.map_cons,
    map_event_furtherCalls]
  rfl

theorem count_pos_of_text? {es : List Event}
    (h : (LogicalLine.read lexer es).result.text?.isSome) :
    0 < (LogicalLine.read lexer es).count := by
  match es with
  | [] => cases h
  | .line _ :: _ => exact Nat.succ_pos _
  | .endOfInput :: _ => cases h
  | .failure _ :: _ => cases h

end CommandShell
