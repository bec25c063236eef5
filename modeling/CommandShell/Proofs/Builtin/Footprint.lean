import CommandShell.Proofs.Builtin.Effects
import CommandShell.Proofs.Arguments.Operands
import CommandShell.Proofs.Expansion.Assignments
import CommandShell.Proofs.Lexer.Names
import CommandShell.Proofs.Variables
import Mathlib.Tactic.FinCases

/-! # The part of a session that a built-in command may change

Every built-in command has a footprint: the variables and aliases that its operands name, or another
part of the session. No effect of the command reaches beyond it, whatever goes wrong on the way.
-/

namespace CommandShell

variable {σ : Type}

structure Footprint where
  vars : String → Prop := fun _ => False
  aliases : String → Prop := fun _ => False
  directory : Prop := False
  history : Prop := False
  exitRequest : Prop := False

namespace Footprint

open Shell

variable {f g : Footprint} {sh sh₁ sh₂ : Shell σ}

/-- Every difference between two shells lies in the footprint, those of their streams aside. -/
structure Covers (f : Footprint) (sh sh₁ : Shell σ) : Prop where
  vars_eq : ∀ name, ¬ f.vars name → sh₁.session.vars.get? name = sh.session.vars.get? name
  aliases_eq : ∀ name, ¬ f.aliases name →
    sh₁.session.aliases.get? name = sh.session.aliases.get? name
  directory_eq : ¬ f.directory →
    sh₁.session.directory = sh.session.directory ∧ sh₁.processDirectory = sh.processDirectory
  history_eq : ¬ f.history → sh₁.session.history = sh.session.history
  exitRequest_eq : ¬ f.exitRequest → sh₁.session.exitRequest = sh.session.exitRequest
  name_eq : sh₁.session.name = sh.session.name
  positional_eq : sh₁.session.positional = sh.session.positional
  processId_eq : sh₁.session.processId = sh.session.processId
  lastStatus_eq : sh₁.session.lastStatus = sh.session.lastStatus
  lineNumber_eq : sh₁.session.lineNumber = sh.session.lineNumber
  world_eq : sh₁.world = sh.world

structure Within (f g : Footprint) : Prop where
  vars : ∀ name, f.vars name → g.vars name
  aliases : ∀ name, f.aliases name → g.aliases name
  directory : f.directory → g.directory
  history : f.history → g.history
  exitRequest : f.exitRequest → g.exitRequest

theorem Within.refl (f : Footprint) : Within f f :=
  ⟨fun _ => id, fun _ => id, id, id, id⟩

theorem empty_within (f : Footprint) : Within {} f :=
  ⟨fun _ => False.elim, fun _ => False.elim, False.elim, False.elim, False.elim⟩

theorem Covers.mono (h : f.Covers sh sh₁) (hfg : Within f g) : g.Covers sh sh₁ where
  vars_eq name hn := h.vars_eq name (hn ∘ hfg.vars name)
  aliases_eq name hn := h.aliases_eq name (hn ∘ hfg.aliases name)
  directory_eq hn := h.directory_eq (hn ∘ hfg.directory)
  history_eq hn := h.history_eq (hn ∘ hfg.history)
  exitRequest_eq hn := h.exitRequest_eq (hn ∘ hfg.exitRequest)
  name_eq := h.name_eq
  positional_eq := h.positional_eq
  processId_eq := h.processId_eq
  lastStatus_eq := h.lastStatus_eq
  lineNumber_eq := h.lineNumber_eq
  world_eq := h.world_eq

theorem Covers.trans (h : f.Covers sh sh₁) (h₁ : f.Covers sh₁ sh₂) : f.Covers sh sh₂ where
  vars_eq name hn := (h₁.vars_eq name hn).trans (h.vars_eq name hn)
  aliases_eq name hn := (h₁.aliases_eq name hn).trans (h.aliases_eq name hn)
  directory_eq hn :=
    ⟨(h₁.directory_eq hn).1.trans (h.directory_eq hn).1,
      (h₁.directory_eq hn).2.trans (h.directory_eq hn).2⟩
  history_eq hn := (h₁.history_eq hn).trans (h.history_eq hn)
  exitRequest_eq hn := (h₁.exitRequest_eq hn).trans (h.exitRequest_eq hn)
  name_eq := h₁.name_eq.trans h.name_eq
  positional_eq := h₁.positional_eq.trans h.positional_eq
  processId_eq := h₁.processId_eq.trans h.processId_eq
  lastStatus_eq := h₁.lastStatus_eq.trans h.lastStatus_eq
  lineNumber_eq := h₁.lineNumber_eq.trans h.lineNumber_eq
  world_eq := h₁.world_eq.trans h.world_eq

theorem covers_writes (f : Footprint) (h : Writes sh sh₁) : f.Covers sh sh₁ := by
  have hs := h.session_eq
  constructor <;> simp [hs, h.processDirectory_eq, h.world_eq]

theorem Covers.refl (f : Footprint) (sh : Shell σ) : f.Covers sh sh := covers_writes f (.refl sh)

theorem covers_vars (sh : Shell σ) {name : String} {vars : Variables} (hname : f.vars name)
    (h : ∀ m, name ≠ m → vars.get? m = sh.session.vars.get? m) :
    f.Covers sh (sh.update fun s => { s with vars }) := by
  refine { Covers.refl f sh with vars_eq := fun m hm => h m ?_ }
  rintro rfl
  exact hm hname

theorem covers_aliases (sh : Shell σ) {name : String} {aliases : Aliases} (hname : f.aliases name)
    (h : ∀ m, name ≠ m → aliases.get? m = sh.session.aliases.get? m) :
    f.Covers sh (sh.update fun s => { s with aliases }) := by
  refine { Covers.refl f sh with aliases_eq := fun m hm => h m ?_ }
  rintro rfl
  exact hm hname

theorem Covers.writes (h : Covers {} sh sh₁) : Writes sh sh₁ where
  session_eq := by
    have hvars := Table.ext_get? fun name => h.vars_eq name id
    have haliases := Table.ext_get? fun name => h.aliases_eq name id
    have hdirectory := (h.directory_eq id).1
    have hhistory := h.history_eq id
    have hexit := h.exitRequest_eq id
    obtain ⟨-, -, -, -, -, hname, hpositional, hprocess, hstatus, hline, -⟩ := h
    obtain ⟨s, _, _, _, _⟩ := sh
    obtain ⟨s₁, _, _, _, _⟩ := sh₁
    obtain ⟨⟩ := s
    obtain ⟨⟩ := s₁
    simp_all
  processDirectory_eq := (h.directory_eq id).2
  world_eq := h.world_eq

end Footprint

def Request.boundName (operand : String) : String :=
  match Expansion.cutAtEquals? operand with
  | some (name, _) => name
  | none => operand

def Request.footprint : Request → Footprint
  | .alias definitions => { aliases := (· ∈ definitions.map boundName) }
  | .cd _ => { directory := True, vars := (· ∈ ["OLDPWD", "PWD"]) }
  | .exit _ => { exitRequest := True }
  | .exportNames operands => { vars := (· ∈ operands.map boundName) }
  | .history clear => { history := clear }
  | .setenv name _ => { vars := (· = name) }
  | .unalias _ _ => { aliases := fun _ => True }
  | .unset names => { vars := (· ∈ names) }
  | .echo _ _ | .env | .help _ | .pwd | .usage _ | .refused _ => {}

/-- What a built-in command may change when it is called with arguments. -/
def Builtin.footprint (b : Builtin) (arguments : List String) : Footprint :=
  match b with
  | .pwd | .echo | .env | .help => {}
  | .cd => { directory := True, vars := (· ∈ ["OLDPWD", "PWD"]) }
  | .exit => { exitRequest := True }
  | .setenv => { vars := (· ∈ arguments.head?) }
  | .exportNames => { vars := (· ∈ arguments.map Request.boundName) }
  | .unset | .unsetenv => { vars := (· ∈ arguments) }
  | .alias => { aliases := (· ∈ arguments.map Request.boundName) }
  | .unalias => { aliases := fun _ => True }
  | .history => { history := True }

namespace Request

open Arguments Footprint Shell

variable {request : Request} {sh sh₁ : Shell σ}

theorem boundName_of_cut {operand name value : String}
    (h : Expansion.cutAtEquals? operand = some (name, value)) : boundName operand = name := by
  rw [boundName, h]

theorem boundName_of_isName {name : String} (h : Variables.isName name) :
    boundName name = name := by
  unfold boundName
  split
  · next m value hcut =>
    have hmem : '=' ∈ name.toList := by simp [(Expansion.cutAtEquals?_eq_some hcut).2]
    exact absurd hmem (not_mem_of_isName h (by decide))
  · rfl

/-- No effect of a request reaches beyond its footprint. -/
theorem Effect.covers (he : Effect request sh sh₁) : request.footprint.Covers sh sh₁ := by
  cases he with
  | write hw => exact covers_writes _ hw
  | enter directory =>
    refine { Covers.refl _ sh with vars_eq := fun m hm => ?_, directory_eq := absurd trivial }
    obtain ⟨hold, hhere⟩ : m ≠ "OLDPWD" ∧ m ≠ "PWD" := by simpa [footprint] using hm
    simp [Shell.update, moveTo, Variables.get?_setExported, Ne.symm hold, Ne.symm hhere]
  | exitLast => exact { Covers.refl _ sh with exitRequest_eq := absurd trivial }
  | exitWith n => exact { Covers.refl _ sh with exitRequest_eq := absurd trivial }
  | @setenv name _ _ _ =>
    have hname : (· = name) name := rfl
    exact covers_vars sh hname fun m hne => (Variables.get?_setExported _ _ _ m).trans (if_neg hne)
  | @exportValue _ _ operand name value hmem hcut _ =>
    have hname : name ∈ _ := List.mem_map.mpr ⟨operand, hmem, boundName_of_cut hcut⟩
    exact covers_vars sh hname fun m hne => (Variables.get?_setExported _ _ _ m).trans (if_neg hne)
  | @exportName _ _ name hmem hname =>
    have hname : name ∈ _ := List.mem_map.mpr ⟨name, hmem, boundName_of_isName hname⟩
    exact covers_vars sh hname fun m hne => Variables.get?_exportName_of_ne hne
  | @unset _ _ name hmem =>
    exact covers_vars sh hmem fun m hne => (Table.get?_erase _ _ _).trans (if_neg hne)
  | @defineAlias _ _ definition name text hmem hcut _ =>
    have hname : name ∈ _ := List.mem_map.mpr ⟨definition, hmem, boundName_of_cut hcut⟩
    exact covers_aliases sh hname fun m hne => (Table.get?_insert _ _ _ _).trans (if_neg hne)
  | removeAlias _ => exact { Covers.refl _ sh with aliases_eq := fun _ => absurd trivial }
  | clearAliases => exact { Covers.refl _ sh with aliases_eq := fun _ => absurd trivial }
  | clearHistory => exact { Covers.refl _ sh with history_eq := absurd rfl }

theorem Effects.covers (he : Effects request sh sh₁) : request.footprint.Covers sh sh₁ := by
  induction he with
  | refl => exact .refl _ sh
  | tail _ he ih => exact ih.trans he.covers

theorem within_ofOperands {b : Builtin} {arguments : List String}
    {accept : List String → Request} {f : Footprint}
    (h : (accept arguments).footprint.Within f) :
    (ofOperands b arguments accept).footprint.Within f := by
  unfold ofOperands
  cases hparse : parseOperands b.form arguments with
  | accepted given =>
    rw [← operands_of_parseOperands hparse] at h
    exact h
  | help => exact empty_within f
  | refused refusal => exact empty_within f

theorem within_ofOptions {b : Builtin} {arguments : List String} {accept : Given → Request}
    {f : Footprint} (h : ∀ given, (accept given).footprint.Within f) :
    (ofOptions b arguments accept).footprint.Within f := by
  unfold ofOptions
  cases parse b.form arguments with
  | accepted given => exact h given
  | help => exact empty_within f
  | refused refusal => exact empty_within f

theorem within_request (b : Builtin) (arguments : List String) :
    (b.request arguments).footprint.Within (b.footprint arguments) := by
  match b with
  | .alias | .exportNames | .help | .unset | .unsetenv =>
    exact within_ofOperands (.refl _)
  | .cd | .exit =>
    simp only [Builtin.request]
    exact within_ofOperands (.refl _)
  | .env | .pwd | .unalias => exact within_ofOptions fun _ => .refl _
  | .echo =>
    simp only [Builtin.request, ofEcho]
    split <;> exact empty_within _
  | .history =>
    apply within_ofOptions
    exact fun given => { Within.refl {} with history := fun _ => trivial }
  | .setenv =>
    simp only [Builtin.request]
    apply within_ofOperands
    cases arguments with
    | nil => exact empty_within _
    | cons name values => exact { Within.refl {} with vars := fun m hm => congrArg some hm.symm }

/-- The arguments are refused, or they ask for help. -/
def IsDeclined : Request → Prop
  | .usage _ | .refused _ => True
  | _ => False

/-- Whatever a built-in command does, it changes its own part of the session at most. Commands that
only show something change nothing, and neither does one that declines its arguments. -/
theorem footprint_covers_execute (sys : System σ) (b : Builtin) (arguments : List String)
    (sh : Shell σ) :
    let ended := ((b.request arguments).execute sys sh).2
    (b.footprint arguments).Covers sh ended ∧
      (b ∈ [.pwd, .echo, .env, .help] → Writes sh ended) ∧
      ((b.request arguments).IsDeclined → Writes sh ended) := by
  intro ended
  have hrequest : (b.request arguments).footprint.Covers sh ended :=
    (effects_execute sys (b.request arguments) sh).covers
  have hcovers := hrequest.mono (within_request b arguments)
  refine ⟨hcovers, fun hb => ?_, fun hdeclined => ?_⟩
  · have hempty : b.footprint arguments = {} := by
      fin_cases hb <;> rfl
    rw [hempty] at hcovers
    exact hcovers.writes
  · have hempty : (b.request arguments).footprint = {} := by
      revert hdeclined
      cases b.request arguments <;> first | exact fun _ => rfl | exact False.elim
    rw [hempty] at hrequest
    exact hrequest.writes

end Request

end CommandShell
