/-
  TexEngine.Proofs.Engine.Storing.Execute

  Execution keeps states well formed, whether it succeeds or fails, and so does a whole
  job.
-/
import TexEngine.Engine.Run
import TexEngine.Proofs.Engine.Legal.Execute
import TexEngine.Proofs.Engine.Storing.Assign

namespace TexEngine.Expander

open Eng Discipline

variable {n : Nat} {x : Expander} {P : Prop}

/-! ## Typesetting and groups -/

theorem typeset_keeps (node : Node) : Spec (storing n) P (typeset node) fun _ => True :=
  modifyRest_keeps (fun _ => rfl) fun _ => rfl

theorem addChar_keeps (c : CharCode) : Spec (storing n) P (addChar c) fun _ => True :=
  env_keeps.seq fun _ => typeset_keeps _

theorem addFontSpace_keeps : Spec (storing n) P addFontSpace fun _ => True :=
  env_keeps.seq fun _ => typeset_keeps _

theorem addSpace_keeps : Spec (storing n) P addSpace fun _ => True := by
  refine env_keeps.seq fun env => ?_
  dsimp only
  split
  · exact addFontSpace_keeps
  · exact typeset_keeps _

theorem closeBrace_keeps (t : Token) : Spec (storing n) P (closeBrace t) fun _ => True := by
  refine env_keeps.seq fun env => ?_
  split
  · exact failAt_spec ..
  · split
    · exact failAt_spec ..
    · exact closeGroup_keeps

theorem closeSemiSimple_keeps (t : Token) :
    Spec (storing n) P (closeSemiSimple t) fun _ => True := by
  refine env_keeps.seq fun env => ?_
  split
  · exact failAt_spec ..
  · split
    · exact closeGroup_keeps
    · exact failAt_spec ..

theorem executeChar_keeps (t : Token) : Spec (storing n) P (executeChar t) fun _ => True := by
  unfold executeChar
  split
  · exact openGroup_keeps ..
  · exact closeBrace_keeps t
  · exact addSpace_keeps
  · exact failAt_spec ..
  · exact failAt_spec ..
  · exact addChar_keeps _

/-! ## Commands -/

theorem showMeaning_keeps : Spec (storing n) P showMeaning fun _ => True := by
  refine token?_keeps.required fun t => (describe_keeps t).seq fun text => ?_
  split
  · exact (showToken_keeps t).seq fun _ => emit_keeps _
  · exact emit_keeps _

theorem dump_keeps : Spec (storing n) P dump fun _ => True := by
  refine Spec.get.seq fun m => ?_
  split
  · exact .throw _
  · split
    · exact .throw _
    · exact (trace_keeps ..).seq fun _ => .done

theorem storeFormat_keeps : Spec (storing n) P storeFormat fun _ => True := by
  refine dump_keeps.seq fun img => Spec.get.seq fun m => ?_
  split
  · exact .throw _
  · refine Spec.seq (modifyRest_keeps (fun _ => rfl) fun _ => rfl) fun _ => ?_
    exact (emit_keeps _).seq fun _ => modifyRest_keeps (fun _ => rfl) fun _ => rfl

theorem reportUndefined_keeps (t : Token) :
    Spec (storing n) P (reportUndefined t) fun _ => True :=
  Spec.get.seq fun _ => (showToken_keeps t).seq fun _ => (trace_keeps ..).seq fun _ => emit_keeps _

section Expanding

variable (hx : x.Storing n)

include hx

theorem addBox_keeps (keep : Bool) : Spec (storing n) P (x.addBox keep) fun _ => True := by
  refine (scanRegisterNumber_keeps hx).seq fun k => (takeBox_keeps k keep).seq fun b? => ?_
  cases b? with
  | some b => exact (logBoxes_keeps _).seq fun _ => typeset_keeps _
  | none => exact .done

/-- Changing case leads from characters to characters. -/
theorem changeCase_keeps (table : CodeTable) :
    Spec (storing n) P (x.changeCase table) fun _ => True := by
  refine (scanLeftBrace_keeps hx).seq fun _ => scanBalanced_keeps.bind fun ts => ?_
  refine env_keeps.seq fun env => push_keeps fun hP t ht => ?_
  obtain ⟨u, hu, rfl⟩ := List.mem_map.mp ht
  have hparam := hP.2.parameterFree u hu
  split
  · dsimp only
    split
    · exact hparam
    · rfl
  · exact hparam

theorem messageText_keeps : Spec (storing n) P x.messageText fun _ => True :=
  (scanGeneralText_keeps hx).seq fun _ => env_keeps.seq fun _ => .done

theorem executeCommand_keeps (c : Command) (t : Token) :
    Spec (storing n) P (x.executeCommand c t) fun _ => True := by
  -- Most commands store nothing themselves: what they scan goes to one of the operations from
  -- above, or is typeset.
  cases c with
  | endcsname => exact failAt_spec ..
  | begingroup => exact openGroup_keeps ..
  | endgroup => exact closeSemiSimple_keeps t
  | aftergroup =>
    exact token?_keeps.required fun next => modifyPlaces_keeps (fun _ => Env.lasting_afterGroup ..)
      fun hP _ henv => henv.afterGroup hP.2
  | afterassignment =>
    refine token?_keeps.required fun next => modifyEnv_keeps (fun _ => rfl)
      (fun _ => Nat.le_refl _) fun hP _ henv => henv.withAfterAssignment fun t ht => ?_
    exact Option.mem_some.mp ht ▸ hP.2
  | makeBox kind => exact beginBox_keeps hx ..
  | useBox keep => exact addBox_keeps hx keep
  | controlSpace => exact addFontSpace_keeps
  | char => exact (scanCharCode_keeps hx).seq fun _ => addChar_keeps _
  | skip vertical => exact (scanGlue_keeps hx).seq fun _ => typeset_keeps _
  | kern => exact (scanDimen_keeps hx).seq fun _ => typeset_keeps _
  | penalty => exact (scanInteger_keeps hx).seq fun _ => typeset_keeps _
  | par => exact typeset_keeps _
  | relax => exact .done
  | ignorespaces =>
    refine (nextNonSpace?_keeps hx).bind fun t? => ?_
    cases t? with
    | some t => exact pushBack_keeps fun hP => hP.2 t rfl
    | none => exact .done
  | changeCase upper => cases upper <;> exact changeCase_keeps hx _
  | endJob => exact modifyRest_keeps (fun _ => rfl) fun _ => rfl
  | dump => exact storeFormat_keeps
  | message => exact (messageText_keeps hx).seq fun _ => emit_keeps _
  | showMeaning => exact showMeaning_keeps
  | showValue =>
    exact (theTokens_keeps hx).seq fun _ => env_keeps.seq fun _ => emit_keeps _
  | write =>
    exact (scanInteger_keeps hx).seq fun _ => (messageText_keeps hx).seq fun _ => emit_keeps _
  | errmessage => exact (messageText_keeps hx).seq fun _ => fail_spec ..

/-! ## Tokens -/

theorem dispatch_keeps (t : Token) : Spec (storing n) P (x.dispatch t) fun _ => True := by
  have hdone : ∀ {P : Prop} (_ : Unit), Spec (storing n) P (pure none : Eng (Option Token))
      fun _ => True :=
    fun _ => .done
  unfold dispatch
  refine Spec.get.seq fun m => ?_
  extract_lets modifiers executeChar' done
  split
  · have hchar : ∀ u, Spec (storing n) P (executeChar' u) fun _ => True :=
      fun _ => (executeChar_keeps t).seq hdone
    split
    · exact Spec.seq (Q := fun _ => True) (failAt_spec ..) hchar
    · exact hchar ()
  · refine (meaning?_keeps t).bind fun μ? => ?_
    cases μ? with
    | none => exact (reportUndefined_keeps t).seq hdone
    | some μ =>
      dsimp -zeta only
      extract_lets act accept
      -- `accept` traces the command if this is wanted, and `act` then does it.
      have hact : ∀ u, Spec (storing n) (P ∧ ∀ μ' ∈ some μ, μ'.WellFormed n) (act u)
          fun _ => True := by
        intro u
        cases μ with
        | modifier f =>
          refine Spec.seq (modifyRest_keeps (fun _ => rfl) fun _ => rfl) fun _ => ?_
          exact (nextNonRelax?_keeps hx).required fun next => .done
        | command c => exact (executeCommand_keeps hx c t).seq hdone
        | assigner a => exact (assigning_keeps (performAssigner_keeps hx a t)).seq hdone
        | quantity q => exact (assignQuantity_keeps hx _).seq hdone
        | register bank i => exact (assignQuantity_keeps hx _).seq hdone
        | charDef c => exact (addChar_keeps c).seq hdone
        | font f =>
          refine Spec.seq (assigning_keeps fun global => ?_) hdone
          exact assign_keeps (fun hP => hP.2 _ rfl) global
        | charToken c => exact (executeChar_keeps c).seq hdone
        | _ => exact Spec.seq (Q := fun _ => True) (failAt_spec ..) hdone
      have haccept : ∀ u, Spec (storing n) (P ∧ ∀ μ' ∈ some μ, μ'.WellFormed n) (accept u)
          fun _ => True := by
        refine fun _ => env_keeps.seq fun env => ?_
        split
        · exact (showToken_keeps t).seq fun _ => (trace_keeps ..).seq hact
        · exact hact ()
      split
      · exact Spec.seq (Q := fun _ => True) (failAt_spec ..) haccept
      · exact haccept ()

theorem execute_keeps (t : Token) : Spec (storing n) P (x.execute t) fun _ => True :=
  spec_execute (dispatch_keeps hx) (storing n).refl (fun _ hm => ⟨hm.1, hm.2⟩) t

/-! ## Jobs -/

theorem run_keeps : Spec (storing n) P x.run fun _ => True :=
  spec_run env_keeps (fun _ => push_keeps fun hP => (hP.2.tokens "everyjob").parameterFree)
    (next?_keeps hx) (execute_keeps hx)

end Expanding

end TexEngine.Expander

namespace TexEngine.Eng

open Discipline

theorem run_keeps {n : Nat} {P : Prop} (fuel : Nat) :
    Spec (storing n) P (run fuel) fun _ => True :=
  Spec.get.seq fun m =>
    Expander.run_keeps (Expander.ofDepth_storing n fuel m.limits.expansionDepth)

end TexEngine.Eng
