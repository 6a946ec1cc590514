/-
  TexEngine.Proofs.Engine.Depth.Execute

  Commands and whole runs do not look at the count of expansions, and leave it as it was.
-/
import TexEngine.Engine.Run
import TexEngine.Proofs.Engine.Depth.Expand

namespace TexEngine

namespace Levels

open Eng Expander

variable {ℓ : Levels}

/-! ## Assignments -/

theorem assigning_parallel {act act' : Bool → Eng Unit}
    (hact : ∀ global, ℓ.Parallel (act global) (act' global)) :
    ℓ.Parallel (assigning act) (assigning act') := by
  refine .get_bind ?_
  rintro m _ ⟨-, -, rfl⟩
  refine (hact _).bind fun _ => env_parallel.bind fun env => ?_
  split
  · exact (modifyEnv_parallel _).bind fun _ => push_parallel _
  · exact .pure ()

theorem bind_parallel (t : Token) (μ? : Option Meaning) (global : Bool) :
    ℓ.Parallel (Expander.bind t μ? global) (Expander.bind t μ? global) :=
  modifyEnv_parallel _

theorem tokenMeaning_parallel (t : Token) : ℓ.Parallel (tokenMeaning t) (tokenMeaning t) :=
  .ite _ (meaning?_parallel t) (.pure _)

theorem forM_trace_parallel (texts : List String) (level : TraceLevel) (tracer : Tracer) :
    ℓ.Parallel (texts.forM fun text => trace level tracer fun _ => text)
      (texts.forM fun text => trace level tracer fun _ => text) := by
  induction texts with
  | nil => exact .pure ()
  | cons text texts ih => exact (trace_parallel ..).bind fun _ => ih

theorem openGroup_parallel (type : GroupType) (start : Token) (deliver : Option Delivery) :
    ℓ.Parallel (openGroup type start deliver) (openGroup type start deliver) := by
  refine .get_bind ?_
  rintro m _ ⟨hdepth, hlimits, rfl⟩
  exact .bind (.set ⟨hdepth, hlimits, rfl⟩) fun _ => forM_trace_parallel ..

theorem closeGroup_parallel : ℓ.Parallel closeGroup closeGroup := by
  refine .get_bind ?_
  rintro m _ ⟨hdepth, hlimits, rfl⟩
  dsimp only [Machine.atDepth]
  split
  · exact .throw _
  · refine .bind (.set ⟨hdepth, hlimits, rfl⟩) fun _ => ?_
    exact (forM_trace_parallel ..).bind fun _ => push_parallel _

theorem takeBox_parallel (n : Int64) (keep : Bool) :
    ℓ.Parallel (takeBox n keep) (takeBox n keep) :=
  env_parallel.bind fun _ => (logBoxes_parallel _).bind fun _ =>
    .ite _ ((assign_parallel ..).bind fun _ => .pure _) (.pure _)

section Assignments

variable {x x' : Expander} (h : ℓ.Expanders x x')
include h

theorem resolveMutable_parallel (μ : Meaning) :
    ℓ.Parallel (x.resolveMutable μ) (x'.resolveMutable μ) :=
  (resolve_parallel h μ).bind fun _ => .ite _ (.pure _) (fail_parallel ..)

theorem assignQuantity_parallel (μ : Meaning) :
    ℓ.Parallel (x.assignQuantity μ) (x'.assignQuantity μ) := by
  refine assigning_parallel fun global => (resolveMutable_parallel h μ).bind fun cell => ?_
  refine (scanOptionalEquals_parallel h).bind fun _ => (scanValue_parallel h _).bind fun _ => ?_
  exact write_parallel ..

theorem assignArithmetic_parallel (op : ArithOp) (global : Bool) :
    ℓ.Parallel (x.assignArithmetic op global) (x'.assignArithmetic op global) := by
  refine .required (nextNonSpace?_parallel h) fun t => (quantity?_parallel t).bind fun q => ?_
  split
  · exact failAt_parallel ..
  · refine (resolveMutable_parallel h _).bind fun cell => ?_
    refine (scanKeyword_parallel h _).bind fun _ => ?_
    refine (read_parallel cell).bind fun v => ?_
    extract_lets written
    have hwritten : ∀ v, ℓ.Parallel (written v) (written v) := fun _ => write_parallel ..
    cases op with
    | advance =>
      exact (scanValue_parallel h _).bind fun _ => (observe_parallel _).bind fun _ =>
        (arith_parallel _).bind hwritten
    | multiply | divide =>
      exact (scanInteger_parallel h).bind fun _ => (observe_parallel _).bind fun _ =>
        (arith_parallel _).bind hwritten

theorem assignMacro_parallel (alwaysGlobal expand global : Bool) :
    ℓ.Parallel (x.assignMacro alwaysGlobal expand global)
      (x'.assignMacro alwaysGlobal expand global) := by
  refine .get_bind ?_
  rintro m _ ⟨-, -, rfl⟩
  refine (scanDefinedToken_parallel h).bind fun t => ?_
  exact (scanDefinition_parallel h ..).bind fun _ => bind_parallel ..

theorem scanLetToken_parallel : ℓ.Parallel x.scanLetToken x'.scanLetToken := by
  refine .bind (.iterate h.fuel (fun _ => .required rawToken_parallel fun _ => .pure _) _)
    fun t => .ite _ ?_ (.pure _)
  refine .required rawToken_parallel fun _ => .ite _ ?_ (.pure _)
  exact rawToken_parallel.bind fun _ => expect_parallel ..

theorem assignCopy_parallel (global : Bool) :
    ℓ.Parallel (x.assignCopy global) (x'.assignCopy global) := by
  refine (scanDefinedToken_parallel h).bind fun t => (scanLetToken_parallel h).bind fun u => ?_
  exact (tokenMeaning_parallel u).bind fun _ => bind_parallel ..

theorem assignCopyNext_parallel (global : Bool) :
    ℓ.Parallel (x.assignCopyNext global) (x'.assignCopyNext global) := by
  refine (scanDefinedToken_parallel h).bind fun t => .required rawToken_parallel fun first => ?_
  refine .required rawToken_parallel fun second => (push_parallel _).bind fun _ => ?_
  exact (tokenMeaning_parallel _).bind fun _ => bind_parallel ..

theorem assignName_parallel {read read' : Token → Eng Meaning}
    (hread : ∀ t, ℓ.Parallel (read t) (read' t)) (global : Bool) :
    ℓ.Parallel (x.assignName read global) (x'.assignName read' global) := by
  refine (scanDefinedToken_parallel h).bind fun t => (bind_parallel ..).bind fun _ => ?_
  exact (scanOptionalEquals_parallel h).bind fun _ => (hread t).bind fun _ => bind_parallel ..

theorem scanFontSize_parallel : ℓ.Parallel x.scanFontSize x'.scanFontSize := by
  refine (scanKeyword_parallel h _).bind fun _ => .ite _ ?_ ?_
  · exact (scanDimen_parallel h).bind fun _ => .ite _ (fail_parallel ..) (.pure _)
  · refine (scanKeyword_parallel h _).bind fun _ => .ite _ ?_ (.pure _)
    refine (scanInteger_parallel h).bind fun _ => .ite _ (fail_parallel ..) ?_
    exact (observe_parallel _).bind fun _ => .pure _

theorem scanFontDefinition_parallel (command t : Token) :
    ℓ.Parallel (x.scanFontDefinition command t) (x'.scanFontDefinition command t) := by
  refine (scanFileName_parallel h).bind fun name => ?_
  extract_lets load load'
  have hload : ∀ u, ℓ.Parallel (load u) (load' u) := fun _ =>
    (scanFontSize_parallel h).bind fun _ => (observe_parallel _).bind fun _ =>
      env_parallel.bind fun _ => (modifyEnv_parallel _).bind fun _ => .pure _
  exact .ite _ ((failAt_parallel ..).bind hload) (hload ())

theorem scanColorComponent_parallel : ℓ.Parallel x.scanColorComponent x'.scanColorComponent := by
  refine (scanSigns_parallel h).bind fun (neg, t) => .ite _ ?_ ?_
  · exact (scanDecimal_parallel h t).bind fun _ => .pure _
  · exact (push_parallel _).bind fun _ => failAt_parallel ..

theorem scanColor_parallel (command : Token) :
    ℓ.Parallel (x.scanColor command) (x'.scanColor command) := by
  have hcomponent := scanColorComponent_parallel h
  refine (scanKeyword_parallel h _).bind fun _ => .ite _ ?_ ?_
  · exact hcomponent.bind fun _ => hcomponent.bind fun _ => hcomponent.bind fun _ => .pure _
  · refine (scanKeyword_parallel h _).bind fun _ => .ite _ ?_ (failAt_parallel ..)
    exact hcomponent.bind fun _ => .pure _

theorem scanDirection_parallel (command : Token) (ds : List Direction) :
    ℓ.Parallel (x.scanDirection command ds) (x'.scanDirection command ds) := by
  induction ds with
  | nil => exact failAt_parallel ..
  | cons d ds ih => exact (scanKeyword_parallel h _).bind fun _ => .ite _ (.pure _) ih

theorem assignDirection_parallel (command : Token) (global : Bool) :
    ℓ.Parallel (x.assignDirection command global) (x'.assignDirection command global) :=
  (scanDirection_parallel h ..).bind fun _ => (assign_parallel ..).bind fun _ =>
    skipOptionalSpace_parallel h

theorem scanBoxSpec_parallel : ℓ.Parallel x.scanBoxSpec x'.scanBoxSpec := by
  refine (scanKeyword_parallel h _).bind fun _ =>
    .ite _ ((scanDimen_parallel h).bind fun _ => .pure _) ?_
  exact (scanKeyword_parallel h _).bind fun _ =>
    .ite _ ((scanDimen_parallel h).bind fun _ => .pure _) (.pure _)

theorem beginBox_parallel (kind : BoxKind) (start : Token) (deliver : Delivery) :
    ℓ.Parallel (x.beginBox kind start deliver) (x'.beginBox kind start deliver) := by
  refine (scanBoxSpec_parallel h).bind fun spec => (scanLeftBrace_parallel h).bind fun _ => ?_
  refine .bind (modify_parallel (fun _ => rfl) (fun _ => rfl) fun _ => rfl) fun _ => ?_
  cases kind <;>
    exact (openGroup_parallel ..).bind fun _ => env_parallel.bind fun _ => push_parallel _

theorem assignBox_parallel (global : Bool) :
    ℓ.Parallel (x.assignBox global) (x'.assignBox global) := by
  refine (scanRegisterNumber_parallel h).bind fun n => ?_
  refine (scanOptionalEquals_parallel h).bind fun _ => ?_
  refine .required (nextNonRelax?_parallel h) fun t => ?_
  extract_lets filled filled'
  have hfilled : ∀ μ?, ℓ.Parallel (filled μ?) (filled' μ?) := by
    intro μ?
    dsimp only [filled, filled']
    split
    · exact beginBox_parallel h ..
    · exact (scanRegisterNumber_parallel h).bind fun _ => (takeBox_parallel ..).bind fun _ =>
        assign_parallel ..
    · exact (push_parallel _).bind fun _ => failAt_parallel ..
  exact .ite _ ((meaning?_parallel t).bind hfilled) (.bind (.pure _) hfilled)

theorem performAssigner_parallel (a : Assigner) (t : Token) (global : Bool) :
    ℓ.Parallel (x.performAssigner a t global) (x'.performAssigner a t global) := by
  cases a with
  | arithmetic op => exact assignArithmetic_parallel h ..
  | define alwaysGlobal expand => exact assignMacro_parallel h ..
  | copyMeaning => exact assignCopy_parallel h _
  | copyNextMeaning => exact assignCopyNext_parallel h _
  | charDef => exact assignName_parallel h (fun _ => (scanCharCode_parallel h).map) _
  | registerDef bank =>
    exact assignName_parallel h (fun _ => (scanRegisterNumber_parallel h).map) _
  | setBox => exact assignBox_parallel h _
  | font => exact assignName_parallel h (scanFontDefinition_parallel h t) _
  | color => exact (scanColor_parallel h t).bind fun _ => assign_parallel ..
  | textDirection => exact assignDirection_parallel h ..

end Assignments

/-! ## Commands -/

theorem dump_parallel : ℓ.Parallel dump dump := by
  refine .get_bind ?_
  rintro m _ ⟨-, -, rfl⟩
  dsimp only [Machine.atDepth]
  split
  · exact .throw _
  · split
    · exact .throw _
    · exact (trace_parallel ..).bind fun _ => .pure _

theorem addChar_parallel (c : CharCode) : ℓ.Parallel (addChar c) (addChar c) :=
  env_parallel.bind fun _ => typeset_parallel _

theorem addFontSpace_parallel : ℓ.Parallel addFontSpace addFontSpace :=
  env_parallel.bind fun _ => typeset_parallel _

theorem addSpace_parallel : ℓ.Parallel addSpace addSpace :=
  env_parallel.bind fun _ => .ite _ addFontSpace_parallel (typeset_parallel _)

theorem closeBrace_parallel (t : Token) : ℓ.Parallel (closeBrace t) (closeBrace t) := by
  refine env_parallel.bind fun env => ?_
  split
  · exact failAt_parallel ..
  · exact .ite _ (failAt_parallel ..) closeGroup_parallel

theorem closeSemiSimple_parallel (t : Token) :
    ℓ.Parallel (closeSemiSimple t) (closeSemiSimple t) := by
  refine env_parallel.bind fun env => ?_
  split
  · exact failAt_parallel ..
  · exact .ite _ closeGroup_parallel (failAt_parallel ..)

theorem executeChar_parallel (t : Token) : ℓ.Parallel (executeChar t) (executeChar t) := by
  unfold executeChar
  split
  · exact openGroup_parallel ..
  · exact closeBrace_parallel t
  · exact addSpace_parallel
  · exact failAt_parallel ..
  · exact failAt_parallel ..
  · exact addChar_parallel _

theorem showMeaning_parallel : ℓ.Parallel showMeaning showMeaning := by
  refine .required token?_parallel fun t => (describe_parallel t).bind fun _ => ?_
  exact .ite _ ((showToken_parallel t).bind fun _ => emit_parallel _) (emit_parallel _)

theorem storeFormat_parallel : ℓ.Parallel storeFormat storeFormat := by
  refine dump_parallel.bind fun img => .get_bind ?_
  rintro m _ ⟨-, -, rfl⟩
  dsimp only [Machine.atDepth]
  split
  · exact .throw _
  · refine .bind (modify_parallel (fun _ => rfl) (fun _ => rfl) fun _ => rfl) fun _ => ?_
    exact (emit_parallel _).bind fun _ =>
      modify_parallel (fun _ => rfl) (fun _ => rfl) fun _ => rfl

theorem reportUndefined_parallel (t : Token) :
    ℓ.Parallel (reportUndefined t) (reportUndefined t) := by
  refine .get_bind ?_
  rintro m _ ⟨-, -, rfl⟩
  exact (showToken_parallel t).bind fun _ => (trace_parallel ..).bind fun _ => emit_parallel _

section Commands

variable {x x' : Expander} (h : ℓ.Expanders x x')
include h

theorem addBox_parallel (keep : Bool) : ℓ.Parallel (x.addBox keep) (x'.addBox keep) := by
  refine (scanRegisterNumber_parallel h).bind fun n => (takeBox_parallel n keep).bind fun b? => ?_
  cases b? with
  | some b => exact (logBoxes_parallel _).bind fun _ => typeset_parallel _
  | none => exact .pure ()

theorem changeCase_parallel (table : CodeTable) :
    ℓ.Parallel (x.changeCase table) (x'.changeCase table) :=
  (scanLeftBrace_parallel h).bind fun _ => (scanBalanced_parallel h).bind fun _ =>
    env_parallel.bind fun _ => push_parallel _

theorem messageText_parallel : ℓ.Parallel x.messageText x'.messageText :=
  (scanGeneralText_parallel h).bind fun _ => env_parallel.bind fun _ => .pure _

theorem executeCommand_parallel (c : Command) (t : Token) :
    ℓ.Parallel (x.executeCommand c t) (x'.executeCommand c t) := by
  cases c with
  | endcsname => exact failAt_parallel ..
  | begingroup => exact openGroup_parallel ..
  | endgroup => exact closeSemiSimple_parallel t
  | aftergroup | afterassignment =>
    exact .required token?_parallel fun _ => modifyEnv_parallel _
  | makeBox kind => exact beginBox_parallel h ..
  | useBox keep => exact addBox_parallel h keep
  | controlSpace => exact addFontSpace_parallel
  | char => exact (scanCharCode_parallel h).bind fun _ => addChar_parallel _
  | skip vertical => exact (scanGlue_parallel h).bind fun _ => typeset_parallel _
  | kern => exact (scanDimen_parallel h).bind fun _ => typeset_parallel _
  | penalty => exact (scanInteger_parallel h).bind fun _ => typeset_parallel _
  | par => exact typeset_parallel _
  | relax => exact .pure ()
  | ignorespaces =>
    refine (nextNonSpace?_parallel h).bind fun t? => ?_
    cases t? with
    | some t => exact push_parallel _
    | none => exact .pure ()
  | changeCase upper => cases upper <;> exact changeCase_parallel h _
  | endJob => exact modify_parallel (fun _ => rfl) (fun _ => rfl) fun _ => rfl
  | dump => exact storeFormat_parallel
  | message => exact (messageText_parallel h).bind fun _ => emit_parallel _
  | showMeaning => exact showMeaning_parallel
  | showValue =>
    exact (theTokens_parallel h).bind fun _ => env_parallel.bind fun _ => emit_parallel _
  | write =>
    exact (scanInteger_parallel h).bind fun _ => (messageText_parallel h).bind fun _ =>
      emit_parallel _
  | errmessage => exact (messageText_parallel h).bind fun _ => fail_parallel ..

theorem dispatch_parallel (t : Token) : ℓ.Parallel (x.dispatch t) (x'.dispatch t) := by
  refine .get_bind ?_
  rintro m _ ⟨-, -, rfl⟩
  refine .ite _ ?_ ((meaning?_parallel t).bind fun μ? => ?_)
  · extract_lets typeset
    have htypeset : ∀ u, ℓ.Parallel (typeset u) (typeset u) :=
      fun _ => (executeChar_parallel t).bind fun _ => .pure _
    exact .ite _ ((failAt_parallel ..).bind htypeset) (htypeset ())
  · cases μ? with
    | none => exact (reportUndefined_parallel t).bind fun _ => .pure _
    | some μ =>
      dsimp -zeta only
      extract_lets done act run act' run'
      have hact : ∀ u, ℓ.Parallel (act u) (act' u) := by
        intro u
        dsimp only [act, act']
        cases μ with
        | modifier f =>
          refine .bind (modify_parallel (fun _ => rfl) (fun _ => rfl) fun _ => rfl) fun _ => ?_
          exact .required (nextNonRelax?_parallel h) fun _ => .pure _
        | command c => exact (executeCommand_parallel h c t).bind fun _ => .pure _
        | assigner a =>
          exact (assigning_parallel (performAssigner_parallel h a t)).bind fun _ => .pure _
        | quantity q | register bank index =>
          exact (assignQuantity_parallel h _).bind fun _ => .pure _
        | charDef c => exact (addChar_parallel c).bind fun _ => .pure _
        | font f => exact (assigning_parallel fun _ => assign_parallel ..).bind fun _ => .pure _
        | charToken c => exact (executeChar_parallel c).bind fun _ => .pure _
        | _ => exact (failAt_parallel ..).bind fun _ => .pure _
      have hrun : ∀ u, ℓ.Parallel (run u) (run' u) := by
        refine fun _ => env_parallel.bind fun env => .ite _ ?_ (hact ())
        exact (showToken_parallel t).bind fun _ => (trace_parallel ..).bind hact
      exact .ite _ ((failAt_parallel ..).bind hrun) (hrun ())

theorem round_parallel (t : Token) : ℓ.Parallel (x.round t) (x'.round t) := by
  refine .bind (.blame t (dispatch_parallel h t)) fun next? => ?_
  cases next? <;> exact .pure _

/-- The modifiers are taken back whatever the count is. -/
theorem execute_parallel (t : Token) : ℓ.Parallel (x.execute t) (x'.execute t) := by
  constructor
  intro m m' hm
  have hrounds : ℓ.Parallel (iterate x.round x.fuel t) (iterate x'.round x'.fuel t) :=
    .iterate h.fuel (round_parallel h) t
  have houtcomes := hrounds.outcomes m m' hm
  unfold execute
  generalize iterate x.round x.fuel t m = r at houtcomes ⊢
  generalize iterate x'.round x'.fuel t m' = r' at houtcomes ⊢
  cases houtcomes with
  | ok u hn =>
    obtain ⟨hdepth, hlimits, rfl⟩ := hn
    exact .ok () ⟨hdepth, hlimits, rfl⟩
  | error f hn =>
    obtain ⟨hdepth, hlimits, rfl⟩ := hn
    exact .error f ⟨hdepth, hlimits, rfl⟩

theorem run_parallel : ℓ.Parallel x.run x'.run := by
  refine env_parallel.bind fun env => (push_parallel _).bind fun _ => ?_
  refine .bind (.iterate h.fuel (fun _ => .get_bind ?_) _) fun _ => .get_bind ?_
  · rintro m _ ⟨-, -, rfl⟩
    refine .ite _ (.pure _) ((next?_parallel h).bind fun t? => ?_)
    cases t? with
    | none => exact .pure _
    | some t =>
      refine isFrozen_parallel.bind fun frozen => ?_
      exact .ite _ (.pure _) ((execute_parallel h t).bind fun _ => .pure _)
  · rintro m _ ⟨-, -, rfl⟩
    dsimp only [Machine.atDepth, Machine.finish]
    split
    · exact .pure ()
    · exact .throw _

end Commands

end Levels

end TexEngine
