/-
  TexEngine.Proofs.Engine.Legal.Execute

  Execution leads from legal states to legal states, whether it succeeds or fails, and
  so does a whole job.  What execution and jobs repeat is treated first, for any
  discipline: it holds for them if it holds for one command (`spec_execute`, `spec_run`).
-/
import TexEngine.Engine.Run
import TexEngine.Proofs.Engine.Legal.Assign

namespace TexEngine.Expander

open Eng Discipline

variable {x : Expander} {D E : Discipline} [Expanding D] [Executing E] {P : Prop}

/-! ## Loops of execution -/

section
variable {F : Discipline} {Q : Option Token → Prop}

theorem spec_round (hdispatch : ∀ t, Spec F P (x.dispatch t) Q) (t : Token) :
    Spec F P (x.round t) fun _ => True := by
  refine (Spec.blame t (hdispatch t)).seq fun t? => ?_
  split
  · exact .done
  · exact .done

/-- A discipline to which the modifiers are nothing holds for a token with all its modifiers if
    it holds for each of them. -/
theorem spec_execute (hdispatch : ∀ t, Spec F P (x.dispatch t) Q)
    (hrel : ∀ m : Machine, F.rel m { m with modifiers := {} })
    (hinv : ∀ m : Machine, F.inv m → F.inv { m with modifiers := {} }) (t : Token) :
    Spec F P (x.execute t) fun _ => True := by
  have hrounds : Spec F P (iterate x.round x.fuel t) fun _ => True :=
    .loop (spec_round hdispatch) x.fuel t
  constructor
  intro m
  have hm := hrounds.holds m
  unfold execute
  generalize iterate x.round x.fuel t m = result at hm ⊢
  cases result with
  | ok u m' =>
    refine ⟨F.trans hm.1 (hrel m'), fun hP hfirst hgood => ?_⟩
    exact ⟨hinv m' (hm.2 hP hfirst (F.good_of_rel (hrel m') hgood)).1, True.intro⟩
  | error f m' =>
    refine ⟨F.trans hm.1 (hrel m'), fun hP hfirst hgood => ?_⟩
    exact hinv m' (hm.2 hP hfirst (F.good_of_rel (hrel m') hgood))

/-- A whole job. -/
theorem spec_run {I : Env Meaning → Prop} (henv : Spec F P env I)
    (hpush : ∀ env, Spec F (P ∧ I env) (push (env.tokens "everyjob")) fun _ => True)
    (hnext : Spec F P x.next? Q) (hexecute : ∀ t, Spec F P (x.execute t) fun _ => True) :
    Spec F P x.run fun _ => True := by
  refine henv.bind fun env => (hpush env).seq fun _ => Spec.mono ?_ And.left fun _ _ => id
  refine Spec.seq (Spec.loop (fun _ => ?_) _ _) fun _ => ?_
  · refine Spec.get.seq fun m => ?_
    split
    · exact .done
    · refine hnext.seq fun t? => ?_
      split
      · exact .done
      · refine Spec.seq (Spec.get.seq fun _ => .done) fun frozen => ?_
        split
        · exact .done
        · exact (hexecute _).seq fun _ => .done
  · refine Spec.get.seq fun m => ?_
    split
    · exact .done
    · exact .throw _

end

/-! ## Typesetting and groups -/

theorem addChar_spec (c : CharCode) : Spec E P (addChar c) fun _ => True :=
  env_spec.executing.seq fun _ => typeset_spec _

theorem addFontSpace_spec : Spec E P addFontSpace fun _ => True :=
  env_spec.executing.seq fun _ => typeset_spec _

theorem addSpace_spec : Spec E P addSpace fun _ => True := by
  refine env_spec.executing.seq fun env => ?_
  dsimp only
  split
  · exact addFontSpace_spec
  · exact typeset_spec _

theorem closeBrace_spec (t : Token) : Spec E P (closeBrace t) fun _ => True := by
  refine env_spec.executing.seq fun env => ?_
  split
  · exact failAt_spec ..
  · split
    · exact failAt_spec ..
    · exact closeGroup_spec

theorem closeSemiSimple_spec (t : Token) : Spec E P (closeSemiSimple t) fun _ => True := by
  refine env_spec.executing.seq fun env => ?_
  split
  · exact failAt_spec ..
  · split
    · exact closeGroup_spec
    · exact failAt_spec ..

theorem executeChar_spec (t : Token) : Spec E P (executeChar t) fun _ => True := by
  unfold executeChar
  split
  · exact openGroup_spec ..
  · exact closeBrace_spec t
  · exact addSpace_spec
  · exact failAt_spec ..
  · exact failAt_spec ..
  · exact addChar_spec _

/-! ## Commands -/

theorem showMeaning_spec : Spec E P showMeaning fun _ => True := by
  refine token?_spec.executing.required fun t => (describe_spec t).executing.seq fun text => ?_
  split
  · exact (showToken_spec t).executing.seq fun _ => (emit_spec _).executing
  · exact (emit_spec _).executing

theorem dump_spec : Spec D P dump fun _ => True := by
  refine get_spec.seq fun m => ?_
  split
  · exact .throw _
  · split
    · exact .throw _
    · exact (trace_spec ..).seq fun _ => .done

theorem storeFormat_spec : Spec E P storeFormat fun _ => True := by
  refine dump_spec.executing.seq fun img => get_spec.executing.seq fun m => ?_
  split
  · exact .throw _
  · refine Spec.seq
      (modifyRest_spec (fun _ => rfl) (fun _ => rfl) (fun _ => rfl) fun _ => rfl) fun _ => ?_
    refine (emit_spec _).executing.seq fun _ => ?_
    exact modifyRest_spec (fun _ => rfl) (fun _ => rfl) (fun _ => rfl) fun _ => rfl

theorem reportUndefined_spec (t : Token) : Spec D P (reportUndefined t) fun _ => True :=
  get_spec.seq fun _ => (showToken_spec t).seq fun _ => (trace_spec ..).seq fun _ => emit_spec _

/-- Changing case leads from character codes to character codes. -/
theorem legal_changeCase {env : Env Meaning} (henv : env.Legal) {table : CodeTable}
    (htable : table.IsCase) {ts : TokenList} (hts : ts.Legal) :
    TokenList.Legal (ts.map fun t =>
      match t with
      | .char c k =>
        let v := env.charCode table c
        if v = 0 then t else .char (CharCode.ofWord v) k
      | t => t) := by
  intro t ht
  obtain ⟨u, hu, rfl⟩ := List.mem_map.mp ht
  have hlegal := hts u hu
  split
  · rename_i c k
    dsimp only
    split
    · exact hlegal
    · have hcode := henv.charCode_inRange_charCode htable (Token.legal_char.mp hlegal)
      have hword : CharCode.ofWord (env.charCode table c) = (env.charCode table c).toInt := by
        rw [CharCode.inRange_iff] at hcode
        exact Int.bmod_eq_of_le (by omega) (by omega)
      rw [Token.legal_char, hword]
      exact hcode
  · exact hlegal

theorem messageText_spec (hx : x.KeepsTo D) : Spec D P x.messageText fun _ => True :=
  (scanGeneralText_spec hx).seq fun _ => env_spec.seq fun _ => .done

section Expanding

variable (hx : x.KeepsTo advancing)

include hx

theorem addBox_spec (keep : Bool) : Spec E P (x.addBox keep) fun _ => True := by
  refine (scanRegisterNumber_spec hx).executing.seq fun n => (takeBox_spec n keep).seq fun b? => ?_
  cases b? with
  | some b => exact (logBoxes_spec _).seq fun _ => typeset_spec _
  | none => exact .done

theorem changeCase_spec {table : CodeTable} (htable : table.IsCase) :
    Spec E P (x.changeCase table) fun _ => True := by
  refine (scanLeftBrace_spec hx).executing.seq fun _ => ?_
  refine scanBalanced_spec.executing.bind fun ts => ?_
  refine env_spec.executing.bind fun env => (push_spec fun hP => ?_).executing
  exact legal_changeCase hP.2 htable hP.1.2

theorem executeCommand_spec (c : Command) (t : Token) :
    Spec E P (x.executeCommand c t) fun _ => True := by
  -- A command either fails, or it scans legal values and hands them to one operation.
  cases c with
  | endcsname => exact failAt_spec ..
  | begingroup => exact openGroup_spec ..
  | endgroup => exact closeSemiSimple_spec t
  | aftergroup =>
    exact token?_spec.executing.required fun next =>
      modifyEnv_spec fun hP _ henv => henv.afterGroup hP.2
  | afterassignment =>
    refine token?_spec.executing.required fun next => modifyEnv_spec fun hP env henv => ?_
    exact { henv with afterAssignment := fun t ht => Option.mem_some.mp ht ▸ hP.2 }
  | makeBox kind => exact beginBox_spec hx ..
  | useBox keep => exact addBox_spec hx keep
  | controlSpace => exact addFontSpace_spec
  | char => exact (scanCharCode_spec hx).executing.seq fun _ => addChar_spec _
  | skip vertical => exact (scanGlue_spec hx).executing.seq fun _ => typeset_spec _
  | kern => exact (scanDimen_spec hx).executing.seq fun _ => typeset_spec _
  | penalty => exact (scanInteger_spec hx).executing.seq fun _ => typeset_spec _
  | par => exact typeset_spec _
  | relax => exact .done
  | ignorespaces =>
    refine (nextNonSpace?_spec hx).executing.bind fun t? => ?_
    cases t? with
    | some t => exact (pushBack_spec fun hP => hP.2 t rfl).executing
    | none => exact .done
  | changeCase upper =>
    cases upper with
    | true => exact changeCase_spec hx True.intro
    | false => exact changeCase_spec hx True.intro
  | endJob => exact modifyRest_spec (fun _ => rfl) (fun _ => rfl) (fun _ => rfl) fun _ => rfl
  | dump => exact storeFormat_spec
  | message => exact (messageText_spec hx).executing.seq fun _ => (emit_spec _).executing
  | showMeaning => exact showMeaning_spec
  | showValue =>
    exact (theTokens_spec hx).executing.seq fun _ => env_spec.executing.seq fun _ =>
      (emit_spec _).executing
  | write =>
    exact (scanInteger_spec hx).executing.seq fun _ => (messageText_spec hx).executing.seq fun _ =>
      (emit_spec _).executing
  | errmessage => exact (messageText_spec hx).executing.seq fun _ => fail_spec ..

/-! ## Tokens -/

theorem dispatch_spec (t : Token) :
    Spec E P (x.dispatch t) fun t? => ∀ t' ∈ t?, t'.Legal := by
  have hdone : ∀ {P : Prop} (_ : Unit), Spec E P (pure none : Eng (Option Token))
      fun t? => ∀ t' ∈ t?, t'.Legal :=
    fun _ => .pure fun _ => by simp
  unfold dispatch
  refine get_spec.executing.seq fun m => ?_
  extract_lets modifiers executeChar' done
  split
  · have hchar : ∀ u, Spec E P (executeChar' u) fun t? => ∀ t' ∈ t?, t'.Legal :=
      fun _ => (executeChar_spec t).seq hdone
    split
    · exact Spec.seq (Q := fun _ => True) (failAt_spec ..) hchar
    · exact hchar ()
  · refine (meaning?_spec t).executing.bind fun μ? => ?_
    cases μ? with
    | none => exact (reportUndefined_spec t).executing.seq hdone
    | some μ =>
      dsimp -zeta only
      extract_lets act accept
      -- `accept` traces the command if this is wanted, and `act` then does it.
      have hact : ∀ u, Spec E (P ∧ ∀ μ' ∈ some μ, μ'.Legal) (act u)
          fun t? => ∀ t' ∈ t?, t'.Legal := by
        intro u
        cases μ with
        | modifier f =>
          refine Spec.seq
            (modifyRest_spec (fun _ => rfl) (fun _ => rfl) (fun _ => rfl) fun _ => rfl) fun _ => ?_
          refine (nextNonRelax?_spec hx).executing.required fun next => .pure fun hP t' ht' => ?_
          exact Option.mem_some.mp ht' ▸ hP.2
        | command c => exact (executeCommand_spec hx c t).seq hdone
        | assigner a => exact (assigning_spec (performAssigner_spec hx a t)).seq hdone
        | quantity q => exact (assignQuantity_spec hx fun hP => hP.2 _ rfl).seq hdone
        | register bank i => exact (assignQuantity_spec hx fun hP => hP.2 _ rfl).seq hdone
        | charDef c => exact (addChar_spec c).seq hdone
        | font f =>
          refine Spec.seq (assigning_spec fun global => ?_) hdone
          exact assign_spec (fun _ => Assignment.legal_font f) global
        | charToken c => exact (executeChar_spec c).seq hdone
        | _ => exact Spec.seq (Q := fun _ => True) (failAt_spec ..) hdone
      have haccept : ∀ u, Spec E (P ∧ ∀ μ' ∈ some μ, μ'.Legal) (accept u)
          fun t? => ∀ t' ∈ t?, t'.Legal := by
        refine fun _ => env_spec.executing.seq fun env => ?_
        split
        · exact (showToken_spec t).executing.seq fun _ => (trace_spec ..).executing.seq hact
        · exact hact ()
      split
      · exact Spec.seq (Q := fun _ => True) (failAt_spec ..) haccept
      · exact haccept ()

theorem execute_spec (t : Token) : Spec E P (x.execute t) fun _ => True := by
  refine spec_execute (dispatch_spec hx) (fun _ => ?_) (fun _ => ?_) t
  · exact Executing.rel (Nat.le_refl _) (.of_input_eq rfl rfl)
  · rw [Executing.inv_eq (D := E)]
    exact fun hm => ⟨hm.env, hm.input, hm.exact⟩

/-! ## Jobs -/

theorem run_spec : Spec E P x.run fun _ => True :=
  spec_run env_spec.executing
    (fun _ => (push_spec fun hP => hP.2.tokens "everyjob").executing) (next?_spec hx).executing
    (execute_spec hx)

end Expanding

end TexEngine.Expander

namespace TexEngine.Eng

open Discipline

theorem run_spec {E : Discipline} [Executing E] {P : Prop} (fuel : Nat) :
    Spec E P (run fuel) fun _ => True :=
  get_spec.executing.seq fun m =>
    Expander.run_spec (Expander.ofDepth_keepsTo advancing fuel m.limits.expansionDepth)

end TexEngine.Eng
