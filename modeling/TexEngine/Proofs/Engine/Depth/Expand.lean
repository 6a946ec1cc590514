/-
  TexEngine.Proofs.Engine.Depth.Expand

  Expansion does not look at the count of expansions either.  So it makes no difference to an
  expansion that it is counted (`nested_eq`), and the expanders of all depths may be described as
  if there were no counter: below the limit an expansion is one step with the expander of the next
  depth, and at the limit it fails.
-/
import TexEngine.Engine.Definition
import TexEngine.Engine.Expand
import TexEngine.Proofs.Engine.Depth.Scan

namespace TexEngine

namespace Levels

open Eng Expander

variable {ℓ : Levels}

/-! ## Macros -/

theorem scanParameter_parallel (params : Nat) :
    ℓ.Parallel (scanParameter params) (scanParameter params) :=
  .required token?_parallel fun _ => .ite _ (.pure _) (.ite _ (failAt_parallel ..)
    (.ite _ (failAt_parallel ..) (.pure _)))

section Calls

variable (d : MacroDef) (call : Token) (n : Nat)

theorem checkArgument_parallel (t : Token) :
    ℓ.Parallel (d.checkArgument call t) (d.checkArgument call t) := by
  refine .ite _ (.pure ()) ?_
  extract_lets checked
  have hchecked : ∀ u, ℓ.Parallel (checked u) (checked u) := by
    refine fun _ => (meaning?_parallel t).bind fun μ? => ?_
    split
    · exact .ite _ ((push_parallel _).bind fun _ => failAt_parallel ..) (.pure ())
    · exact .pure ()
  exact .ite _ ((push_parallel _).bind fun _ => (failAt_parallel ..).bind hchecked) (hchecked ())

theorem groupArgument_parallel :
    ℓ.Parallel (MacroDef.groupArgument n d call) (MacroDef.groupArgument n d call) := by
  refine .iterate rfl (fun (depth, seen) => .required token?_parallel fun t => ?_) _
  refine (checkArgument_parallel ..).bind fun _ => ?_
  split <;> exact .pure _

theorem undelimitedArgument_parallel :
    ℓ.Parallel (MacroDef.undelimitedArgument n d call)
      (MacroDef.undelimitedArgument n d call) := by
  refine .bind (.iterate rfl (fun _ => .required token?_parallel fun _ => .pure _) _) fun t => ?_
  refine (checkArgument_parallel ..).bind fun _ => ?_
  exact .ite _ (groupArgument_parallel ..) (.ite _ (failAt_parallel ..) (.pure _))

theorem delimitedArgument_parallel (delims : TokenList) :
    ℓ.Parallel (MacroDef.delimitedArgument n d call delims)
      (MacroDef.delimitedArgument n d call delims) := by
  refine .bind (.iterate rfl (fun a => .required token?_parallel fun t => ?_) _) fun _ => .pure _
  refine (checkArgument_parallel ..).bind fun _ => .ite _ (.pure _) ?_
  split
  · exact failAt_parallel ..
  · exact .pure _

theorem readArguments_parallel (pattern : TokenList) :
    ℓ.Parallel (MacroDef.readArguments n d call pattern)
      (MacroDef.readArguments n d call pattern) := by
  fun_induction MacroDef.readArguments n d call pattern with
  | case1 => exact .pure _
  | case2 k rest delims read hnone ih =>
    exact (undelimitedArgument_parallel ..).bind fun _ => ih.bind fun _ => .pure _
  | case3 k rest delims read hsome ih =>
    exact (delimitedArgument_parallel ..).bind fun _ => ih.bind fun _ => .pure _
  | case4 t rest hparam ih =>
    exact .required token?_parallel fun _ =>
      .ite _ ih ((push_parallel _).bind fun _ => failAt_parallel ..)

theorem traceArguments_parallel (esc : Option CharCode) (args : List TokenList) :
    ℓ.Parallel (MacroDef.traceArguments esc n args) (MacroDef.traceArguments esc n args) := by
  induction args generalizing n with
  | nil => exact .pure ()
  | cons arg args ih => exact (trace_parallel ..).bind fun _ => ih (n + 1)

theorem call_parallel (t : Token) : ℓ.Parallel (d.call n t) (d.call n t) := by
  refine (readArguments_parallel ..).bind fun args => env_parallel.bind fun env => ?_
  extract_lets replace esc
  have hreplace : ∀ u, ℓ.Parallel (replace u) (replace u) := fun _ => push_parallel _
  refine .ite _ ((trace_parallel ..).bind fun _ => ?_) (hreplace ())
  exact (traceArguments_parallel ..).bind hreplace

end Calls

section Definitions

variable {x x' : Expander} (h : ℓ.Expanders x x')
include h

theorem scanParameterText_parallel :
    ℓ.Parallel x.scanParameterText x'.scanParameterText := by
  refine .iterate h.fuel (fun p => .required token?_parallel fun t => ?_) _
  refine .ite _ (.pure _) (.ite _ (failAt_parallel ..) (.ite _ ?_ (.pure _)))
  exact .required token?_parallel fun _ => .ite _ (.pure _)
    (.ite _ (failAt_parallel ..) (.pure _))

theorem scanBody_parallel (params : Nat) (expand : Bool) :
    ℓ.Parallel (x.scanBody params expand) (x'.scanBody params expand) := by
  refine .iterate h.fuel (fun (depth, seen) => .required token?_parallel fun t => ?_) _
  extract_lets taken
  have htaken : ∀ item, ℓ.Parallel (taken item) (taken item) := by
    intro item
    cases item with
    | final ts => exact .pure _
    | expanded => exact .pure _
    | plain =>
      refine .ite _ ((scanParameter_parallel _).bind fun _ => .pure _) ?_
      split <;> exact .pure _
  exact .ite _ ((expandItem_parallel h t).bind htaken) (.bind (.pure _) htaken)

theorem scanDefinition_parallel (name : String) (expand : Bool) :
    ℓ.Parallel (x.scanDefinition name expand) (x'.scanDefinition name expand) :=
  (scanParameterText_parallel h).bind fun _ => (scanBody_parallel h ..).bind fun _ => .pure _

end Definitions

/-! ## Conditionals -/

theorem pushConditional_parallel (c : Conditional) :
    ℓ.Parallel (pushConditional c) (pushConditional c) := by
  constructor
  rintro m _ ⟨hdepth, hlimits, rfl⟩
  exact .ok _ ⟨hdepth, hlimits, rfl⟩

theorem modifyConditional_parallel (i : Nat) (f : Conditional → Conditional) :
    ℓ.Parallel (modifyConditional i f) (modifyConditional i f) :=
  modifyEnv_parallel _

theorem popConditional_parallel : ℓ.Parallel popConditional popConditional :=
  modifyEnv_parallel _

theorem sameTokens_parallel (a b : Token) : ℓ.Parallel (sameTokens a b) (sameTokens a b) := by
  unfold sameTokens
  split
  · refine (meaning?_parallel a).bind fun μ? => (meaning?_parallel b).bind fun ν? => ?_
    split <;> exact .pure _
  · exact (meaning?_parallel a).bind fun _ => .pure _
  · exact (meaning?_parallel b).bind fun _ => .pure _
  · exact .pure _

theorem charCat_parallel (t : Token) : ℓ.Parallel (charCat t) (charCat t) := by
  unfold charCat
  extract_lets found
  have hfound : ∀ μ?, ℓ.Parallel (found μ?) (found μ?) := by
    intro μ?
    dsimp only [found]
    split
    · exact .pure _
    · exact .ite _ (.pure _) (.pure _)
  refine isFrozen_parallel.bind fun frozen => ?_
  exact .ite _ ((meaning?_parallel t).bind hfound) (.bind (.pure _) hfound)

theorem whilePending_parallel {α : Type} (i : Nat) {act act' : Eng α} (hact : ℓ.Parallel act act') :
    ℓ.Parallel (whilePending i act) (whilePending i act') := by
  have hsettle := modifyConditional_parallel (ℓ := ℓ) i fun c => { c with pending := false }
  refine .bind (.tryCatch hact fun f => hsettle.bind fun _ => .throw f) fun a => ?_
  exact hsettle.bind fun _ => .pure a

theorem openConditional_parallel (name : String) (isCase : Bool) :
    ℓ.Parallel (openConditional name isCase) (openConditional name isCase) := by
  refine .get_bind ?_
  rintro m _ ⟨-, -, rfl⟩
  refine (pushConditional_parallel _).bind fun i => env_parallel.bind fun env => ?_
  exact .ite _ ((trace_parallel ..).bind fun _ => .pure i) (.pure i)

section Branches

variable {x x' : Expander} (h : ℓ.Expanders x x')
include h

theorem skipBranch_parallel (i : Nat) (cases : Bool) :
    ℓ.Parallel (x.skipBranch i cases) (x'.skipBranch i cases) := by
  refine .iterate h.fuel (fun depth => rawToken_parallel.bind fun t? => ?_) _
  cases t? with
  | none => exact env_parallel.bind fun _ => failHere_parallel ..
  | some t =>
    dsimp -zeta only
    extract_lets passed
    have hpassed : ∀ μ?, ℓ.Parallel (passed μ?) (passed μ?) := by
      intro μ?
      dsimp only [passed]
      split
      · split <;> exact .pure _
      · exact .pure _
    exact .ite _ ((meaning?_parallel t).bind hpassed) (.bind (.pure _) hpassed)

theorem skipToFi_parallel : ℓ.Parallel x.skipToFi x'.skipToFi := by
  refine env_parallel.bind fun env => ?_
  refine .iterate h.fuel (fun _ => (skipBranch_parallel h _ false).bind fun last => ?_) _
  cases last with
  | endIf => exact popConditional_parallel.bind fun _ => .pure _
  | orElse | orCase => exact .pure _

theorem scanRelation_parallel : ℓ.Parallel x.scanRelation x'.scanRelation :=
  .required (nextNonSpace?_parallel h) fun _ => .ite _ (.pure _) (.ite _ (.pure _)
    (.ite _ (.pure _) ((push_parallel _).bind fun _ => failAt_parallel ..)))

theorem scanBox_parallel : ℓ.Parallel x.scanBox x'.scanBox :=
  (scanRegisterNumber_parallel h).bind fun _ => env_parallel.bind fun _ => .pure _

theorem test_parallel (t : Test) : ℓ.Parallel (x.test t) (x'.test t) := by
  cases t with
  | always | never => exact .pure _
  | number =>
    refine (scanInteger_parallel h).bind fun _ => (scanRelation_parallel h).bind fun _ => ?_
    exact (scanInteger_parallel h).bind fun _ => .pure _
  | dimension =>
    refine (scanDimen_parallel h).bind fun _ => (scanRelation_parallel h).bind fun _ => ?_
    exact (scanDimen_parallel h).bind fun _ => .pure _
  | odd => exact (scanInteger_parallel h).bind fun _ => .pure _
  | sameMeaning =>
    exact .required rawToken_parallel fun _ => .required rawToken_parallel fun _ =>
      sameTokens_parallel ..
  | sameChar | sameCategory =>
    refine .required (next?_parallel h) fun _ => (charCat_parallel _).bind fun _ => ?_
    exact .required (next?_parallel h) fun _ => (charCat_parallel _).bind fun _ => .pure _
  | voidBox | horizontalBox | verticalBox => exact (scanBox_parallel h).bind fun _ => .pure _
  | defined =>
    exact .required rawToken_parallel fun _ =>
      .ite _ ((meaning?_parallel _).bind fun _ => .pure _) (.pure _)
  | definedName =>
    exact (scanCsname_parallel h).bind fun _ => env_parallel.bind fun _ => .pure _

theorem skipFirst_parallel (i : Nat) : ℓ.Parallel (x.skipFirst i) (x'.skipFirst i) := by
  refine (skipBranch_parallel h i false).bind fun last => ?_
  cases last with
  | endIf => exact popConditional_parallel
  | orElse | orCase => exact modifyConditional_parallel ..

theorem skipCases_parallel (i : Nat) (n : Int64) :
    ℓ.Parallel (x.skipCases i n) (x'.skipCases i n) := by
  refine .iterate h.fuel (fun n => ?_) _
  refine .ite _ ((modifyConditional_parallel ..).bind fun _ => .pure _) ?_
  refine (skipBranch_parallel h i true).bind fun last => ?_
  cases last with
  | endIf => exact popConditional_parallel.bind fun _ => .pure _
  | orElse => exact (modifyConditional_parallel ..).bind fun _ => .pure _
  | orCase => exact .pure _

theorem expandIf_parallel (t : Test) : ℓ.Parallel (x.expandIf t) (x'.expandIf t) := by
  refine (openConditional_parallel ..).bind fun i => ?_
  refine (whilePending_parallel i (test_parallel h t)).bind fun _ => ?_
  exact .ite _ (modifyConditional_parallel ..) (skipFirst_parallel h i)

theorem expandCase_parallel : ℓ.Parallel x.expandCase x'.expandCase := by
  refine (openConditional_parallel ..).bind fun i => ?_
  refine (whilePending_parallel i (scanInteger_parallel h)).bind fun n => ?_
  exact .ite _ (skipFirst_parallel h i) (skipCases_parallel h i n)

theorem endBranch_parallel (p : CondPrimitive) (t : Token) :
    ℓ.Parallel (x.endBranch p t) (x'.endBranch p t) := by
  refine env_parallel.bind fun env => ?_
  extract_lets top extra
  cases hextra : extra with
  | some kind => exact failAt_parallel ..
  | none => exact .ite _ (push_parallel _) (.ite _ popConditional_parallel (skipToFi_parallel h))

theorem expandConditional_parallel (p : CondPrimitive) (t : Token) :
    ℓ.Parallel (x.expandConditional p t) (x'.expandConditional p t) := by
  cases p with
  | test c => exact expandIf_parallel h c
  | ifCase => exact expandCase_parallel h
  | orElse | orCase | endIf => exact endBranch_parallel h _ t

end Branches

/-! ## Primitives -/

theorem describe_parallel (t : Token) : ℓ.Parallel (describe t) (describe t) := by
  refine .ite _ ((meaning?_parallel t).bind fun μ? => ?_) (.pure _)
  cases μ? with
  | none => exact .pure _
  | some μ => exact env_parallel.bind fun _ => .pure _

theorem stringTokens_parallel (t : Token) : ℓ.Parallel (stringTokens t) (stringTokens t) :=
  .ite _ ((showToken_parallel t).bind fun _ => .pure _) (.ite _ (.pure _) (.pure _))

theorem markNext_parallel : ℓ.Parallel markNext markNext := by
  refine .required token?_parallel fun t => ?_
  extract_lets back
  have hback : ∀ u, ℓ.Parallel (back u) (back u) := fun _ => push_parallel _
  refine .ite _ ((meaning?_parallel t).bind fun _ => .ite _ (.bind ?_ hback) (hback ())) (hback ())
  exact modify_parallel (fun _ => rfl) (fun _ => rfl) fun _ => rfl

section Primitives

variable {x x' : Expander} (h : ℓ.Expanders x x')
include h

theorem expandAfter_parallel : ℓ.Parallel x.expandAfter x'.expandAfter := by
  refine .required token?_parallel fun first => .required token?_parallel fun second => ?_
  extract_lets expanded expanded'
  have hexpanded : ∀ μ?, ℓ.Parallel (expanded μ?) (expanded' μ?) := by
    intro μ?
    dsimp only [expanded, expanded']
    split
    · exact (h.expand _ _).bind fun _ => push_parallel _
    · exact push_parallel _
  refine isFrozen_parallel.bind fun frozen => ?_
  exact .ite _ ((meaning?_parallel second).bind hexpanded) (.bind (.pure _) hexpanded)

theorem expandCsname_parallel : ℓ.Parallel x.expandCsname x'.expandCsname := by
  refine (scanCsname_parallel h).bind fun name => env_parallel.bind fun env => ?_
  exact .ite _ ((assign_parallel ..).bind fun _ => push_parallel _) (push_parallel _)

theorem expandFontName_parallel : ℓ.Parallel x.expandFontName x'.expandFontName := by
  refine .required (nextNonSpace?_parallel h) fun t => (meaning?_parallel t).bind fun μ? => ?_
  split
  · exact push_parallel _
  · exact env_parallel.bind fun _ => push_parallel _
  · exact (push_parallel _).bind fun _ => failAt_parallel ..

theorem expandInput_parallel (t : Token) : ℓ.Parallel (x.expandInput t) (x'.expandInput t) :=
  (scanFileName_parallel h).bind fun _ => checkInputDepth_parallel.bind fun _ =>
    .tryCatch (includeFile_parallel _) fun _ => failAt_parallel ..

theorem expandScanTokens_parallel : ℓ.Parallel x.expandScanTokens x'.expandScanTokens := by
  refine (scanLeftBrace_parallel h).bind fun _ => (scanBalanced_parallel h).bind fun ts => ?_
  exact checkInputDepth_parallel.bind fun _ => env_parallel.bind fun _ => pushText_parallel ..

theorem expandPrimitive_parallel (p : Expandable) (t : Token) :
    ℓ.Parallel (x.expandPrimitive p t) (x'.expandPrimitive p t) := by
  cases p with
  | expandafter => exact expandAfter_parallel h
  | noexpand => exact markNext_parallel
  | csname => exact expandCsname_parallel h
  | string =>
    exact .required token?_parallel fun _ => (stringTokens_parallel _).bind fun _ => push_parallel _
  | number | romannumeral => exact (scanInteger_parallel h).bind fun _ => push_parallel _
  | the => exact (theTokens_parallel h).bind fun _ => push_parallel _
  | meaning =>
    exact .required token?_parallel fun _ => (describe_parallel _).bind fun _ => push_parallel _
  | jobname =>
    refine .get_bind ?_
    rintro m _ ⟨-, -, rfl⟩
    exact push_parallel _
  | fontname => exact expandFontName_parallel h
  | input => exact expandInput_parallel h t
  | endinput => exact modify_parallel (fun _ => rfl) (fun _ => rfl) fun _ => rfl
  | scantokens => exact expandScanTokens_parallel h

theorem perform_parallel (μ : Meaning) (t : Token) :
    ℓ.Parallel (x.perform μ t) (x'.perform μ t) := by
  cases μ with
  | expandable p => exact expandPrimitive_parallel h p t
  | conditional p => exact expandConditional_parallel h p t
  | defined d =>
    rw [perform, perform, h.fuel]
    exact call_parallel ..
  | _ => exact .pure ()

theorem step_parallel (μ : Meaning) (t : Token) : ℓ.Parallel (step x μ t) (step x' μ t) := by
  refine .blame t ((perform_parallel h μ t).bind fun _ => .get_bind ?_)
  rintro m _ ⟨-, -, rfl⟩
  exact .ite _ (fail_parallel ..) (.pure ())

end Primitives

/-! ## Expanders of all depths -/

theorem tooDeep_parallel (t : Token) : ℓ.Parallel (tooDeep t) (tooDeep t) :=
  .blame t (fail_parallel ..)

theorem ofDepth_parallel (fuel depth : Nat) :
    ℓ.Expanders (ofDepth fuel depth) (ofDepth fuel depth) := by
  induction depth generalizing ℓ with
  | zero => exact ⟨rfl, fun _ t => .nested (tooDeep_parallel t)⟩
  | succ depth ih => exact ⟨rfl, fun μ t => .nested (step_parallel ih μ t)⟩

end Levels

namespace Expander

open Eng Levels

theorem ofDepth_zero (fuel : Nat) : ofDepth fuel 0 = { fuel, expand := fun _ t => tooDeep t } :=
  congrArg (Expander.mk fuel) <| funext fun _ => funext fun t =>
    Parallel.nested_eq fun _ => tooDeep_parallel t

/-- Below the limit, an expansion is one step with the expander of the next depth. -/
theorem ofDepth_succ (fuel depth : Nat) :
    ofDepth fuel (depth + 1) = { fuel, expand := step (ofDepth fuel depth) } :=
  congrArg (Expander.mk fuel) <| funext fun μ => funext fun t =>
    Parallel.nested_eq fun _ => step_parallel (ofDepth_parallel fuel depth) μ t

end Expander

end TexEngine
