/-
  TexEngine.Proofs.Engine.Storing.Expand

  Expansion keeps states well formed: conditionals, the expandable primitives and macro
  calls do, if all deeper expansions do, and so every expander does.
-/
import TexEngine.Proofs.Engine.Depth.Expand
import TexEngine.Proofs.Engine.Legal.Expand
import TexEngine.Proofs.Engine.Storing.Texts

namespace TexEngine.Expander

open Eng Discipline

variable {n : Nat} {x : Expander} {P : Prop}

/-! ## Skipping -/

theorem popConditional_keeps : Spec (storing n) P popConditional fun _ => True :=
  modifyConditionals_keeps Array.pop

theorem modifyConditional_keeps (i : Nat) (f : Conditional → Conditional) :
    Spec (storing n) P (modifyConditional i f) fun _ => True :=
  modifyConditionals_keeps (·.modify i f)

theorem skipBranch_keeps (i : Nat) (cases : Bool) :
    Spec (storing n) P (x.skipBranch i cases) fun _ => True :=
  skipBranch_spec rawToken_keeps.trivial i cases

theorem skipToFi_keeps : Spec (storing n) P x.skipToFi fun _ => True := by
  refine env_keeps.seq fun env => ?_
  refine .iterate (I := fun _ => True) (fun _ => ?_) _ fun _ => True.intro
  refine (skipBranch_keeps ..).seq fun e => ?_
  split
  · exact popConditional_keeps.seq fun _ => .pure fun _ => True.intro
  · exact .pure fun _ => True.intro

theorem skipFirst_keeps (i : Nat) : Spec (storing n) P (x.skipFirst i) fun _ => True := by
  refine (skipBranch_keeps ..).seq fun e => ?_
  split
  · exact popConditional_keeps
  · exact modifyConditional_keeps ..

theorem skipCases_keeps (i : Nat) (k : Int64) :
    Spec (storing n) P (x.skipCases i k) fun _ => True := by
  refine .iterate (I := fun _ => True) (fun k => ?_) _ fun _ => True.intro
  split
  · exact (modifyConditional_keeps ..).seq fun _ => .pure fun _ => True.intro
  · refine (skipBranch_keeps ..).seq fun e => ?_
    split
    · exact popConditional_keeps.seq fun _ => .pure fun _ => True.intro
    · exact (modifyConditional_keeps ..).seq fun _ => .pure fun _ => True.intro
    · exact .pure fun _ => True.intro

/-! ## Tests -/

theorem sameTokens_keeps (a b : Token) : Spec (storing n) P (sameTokens a b) fun _ => True := by
  unfold sameTokens
  split
  · refine (meaning?_keeps a).seq fun _ => (meaning?_keeps b).seq fun _ => ?_
    split <;> exact .done
  · exact (meaning?_keeps a).seq fun _ => .done
  · exact (meaning?_keeps b).seq fun _ => .done
  · exact .done

theorem charCat_keeps (t : Token) : Spec (storing n) P (charCat t) fun _ => True := by
  refine isFrozen_keeps.seq fun frozen => ?_
  extract_lets finish
  -- The meaning of a token that is marked as not to be expanded is not looked up.
  have hfinish : ∀ μ?, Spec (storing n) P (finish μ?) fun _ => True := by
    intro μ?
    dsimp only [finish]
    split
    · exact .done
    · split <;> exact .done
  split
  · exact (meaning?_keeps t).seq hfinish
  · exact Spec.done.seq hfinish

/-! ## Conditionals -/

theorem whilePending_keeps {α : Type} {act : Eng α} (i : Nat)
    (hact : Spec (storing n) P act fun _ => True) :
    Spec (storing n) P (whilePending i act) fun _ => True := by
  refine Spec.seq (.tryCatch hact fun f => ?_) fun a => ?_
  · exact (modifyConditional_keeps ..).seq fun _ => .throw f
  · exact (modifyConditional_keeps ..).seq fun _ => .done

theorem openConditional_keeps (name : String) (isCase : Bool) :
    Spec (storing n) P (openConditional name isCase) fun _ => True := by
  have hpush : ∀ {P : Prop} c, Spec (storing n) P (pushConditional c) fun _ => True :=
    fun c => ⟨fun m => ⟨(storing n).refl m, fun _ hm _ =>
      ⟨⟨hm.env.withConditionals _, hm.input⟩, True.intro⟩⟩⟩
  refine Spec.get.seq fun m => (hpush _).seq fun i => env_keeps.seq fun env => ?_
  split
  · exact (trace_keeps ..).seq fun _ => .done
  · exact .done

theorem endBranch_keeps (p : CondPrimitive) {t : Token} (ht : P → t.isParam = false) :
    Spec (storing n) P (x.endBranch p t) fun _ => True := by
  refine env_keeps.seq fun env => ?_
  dsimp only
  split
  · exact failAt_spec ..
  · split
    · exact push_keeps fun hP => by simpa [Token.isParam] using ht hP
    · split
      · exact popConditional_keeps
      · exact skipToFi_keeps

section Expanding

variable (hx : x.Storing n)

include hx

theorem scanRelation_keeps : Spec (storing n) P x.scanRelation fun _ => True := by
  refine (nextNonSpace?_keeps hx).required fun t => ?_
  split
  · exact .done
  · split
    · exact .done
    · split
      · exact .done
      · exact refuse_keeps (fun hP => hP.2) ..

theorem scanBox_keeps : Spec (storing n) P x.scanBox fun _ => True :=
  (scanRegisterNumber_keeps hx).seq fun _ => env_keeps.seq fun _ => .done

theorem test_keeps (t : Test) : Spec (storing n) P (x.test t) fun _ => True := by
  have hbox : ∀ (f : Option Box → Bool), Spec (storing n) P (do return f (← x.scanBox))
      fun _ => True :=
    fun f => (scanBox_keeps hx).seq fun _ => .done
  -- Two tests compare characters, with different comparisons.
  have hchars : ∀ (f : CharCode × Catcode → CharCode × Catcode → Bool), Spec (storing n) P (do
      let a ← charCat (← expect (← x.next?) .runawayConditional [])
      let b ← charCat (← expect (← x.next?) .runawayConditional [])
      return f a b) fun _ => True :=
    fun f => (next?_keeps hx).required fun t => (charCat_keeps t).seq fun _ =>
      (next?_keeps hx).required fun u => (charCat_keeps u).seq fun _ => .done
  cases t with
  | always => exact .done
  | never => exact .done
  | number =>
    exact (scanInteger_keeps hx).seq fun _ => (scanRelation_keeps hx).seq fun _ =>
      (scanInteger_keeps hx).seq fun _ => .done
  | dimension =>
    exact (scanDimen_keeps hx).seq fun _ => (scanRelation_keeps hx).seq fun _ =>
      (scanDimen_keeps hx).seq fun _ => .done
  | odd => exact (scanInteger_keeps hx).seq fun _ => .done
  | sameMeaning =>
    exact rawToken_keeps.required fun a => rawToken_keeps.required fun b => sameTokens_keeps a b
  | sameChar => exact hchars fun a b => a.1 == b.1
  | sameCategory => exact hchars fun a b => a.2 == b.2
  | voidBox => exact hbox _
  | horizontalBox => exact hbox _
  | verticalBox => exact hbox _
  | defined =>
    refine rawToken_keeps.required fun t => ?_
    split
    · exact (meaning?_keeps t).seq fun _ => .done
    · exact .done
  | definedName => exact (scanCsname_keeps hx).seq fun _ => env_keeps.seq fun _ => .done

theorem expandConditional_keeps (p : CondPrimitive) {t : Token} (ht : P → t.isParam = false) :
    Spec (storing n) P (x.expandConditional p t) fun _ => True := by
  cases p with
  | test c =>
    refine (openConditional_keeps ..).seq fun i => ?_
    refine (whilePending_keeps i (test_keeps hx c)).seq fun b => ?_
    split
    · exact modifyConditional_keeps ..
    · exact skipFirst_keeps i
  | ifCase =>
    refine (openConditional_keeps ..).seq fun i => ?_
    refine (whilePending_keeps i (scanInteger_keeps hx)).seq fun k => ?_
    split
    · exact skipFirst_keeps i
    · exact skipCases_keeps i k
  | _ => exact endBranch_keeps _ ht

/-! ## Expandable primitives -/

theorem expandAfter_keeps : Spec (storing n) P x.expandAfter fun _ => True := by
  refine token?_keeps.required fun first => token?_keeps.required fun second => ?_
  refine isFrozen_keeps.seq fun frozen => ?_
  extract_lets finish
  have hfinish : ∀ μ?, Spec (storing n) ((P ∧ first.isParam = false) ∧ second.isParam = false)
      (finish μ?) fun _ => True := by
    intro μ?
    dsimp only [finish]
    split
    · exact (hx fun hP => hP.2).seq fun _ => pushBack_keeps fun hP => hP.1.2
    · exact push_keeps fun hP => by simpa using ⟨hP.1.2, hP.2⟩
  split
  · exact (meaning?_keeps second).seq hfinish
  · exact Spec.done.seq hfinish

omit hx in
theorem markNext_keeps : Spec (storing n) P markNext fun _ => True := by
  refine token?_keeps.required fun t => ?_
  have hpush : Spec (storing n) (P ∧ t.isParam = false) (push [t]) fun _ => True :=
    pushBack_keeps fun hP => hP.2
  dsimp only
  split
  · refine (meaning?_keeps t).seq fun μ? => ?_
    split
    · exact Spec.seq (modifyRest_keeps (fun _ => rfl) fun _ => rfl) fun _ => hpush
    · exact hpush
  · exact hpush

theorem expandCsname_keeps : Spec (storing n) P x.expandCsname fun _ => True := by
  refine (scanCsname_keeps hx).seq fun name => env_keeps.seq fun env => ?_
  have hpush : ∀ {P : Prop}, Spec (storing n) P (push [.cs name]) fun _ => True :=
    pushBack_keeps fun _ => rfl
  have hrelax : Assignment.WellFormed n (.code name (some Meaning.relax)) := by
    intro μ hμ
    rw [← Option.mem_some.mp hμ]
    exact Meaning.wellFormed_relax n
  dsimp only
  split
  · exact Spec.seq (assign_keeps (fun _ => hrelax) false) fun _ => hpush
  · exact hpush

theorem expandFontName_keeps : Spec (storing n) P x.expandFontName fun _ => True := by
  refine (nextNonSpace?_keeps hx).required fun t => (meaning?_keeps t).seq fun μ? => ?_
  split
  · exact push_keeps fun _ => TokenList.parameterFree_ofText _
  · exact env_keeps.seq fun _ => push_keeps fun _ => TokenList.parameterFree_ofText _
  · exact refuse_keeps (fun hP => hP.2) ..

theorem expandInput_keeps (t : Token) : Spec (storing n) P (x.expandInput t) fun _ => True := by
  refine (scanFileName_keeps hx).seq fun name => checkInputDepth_keeps.seq fun _ => ?_
  exact .tryCatch (includeFile_keeps name) fun _ => failAt_spec ..

theorem expandScanTokens_keeps : Spec (storing n) P x.expandScanTokens fun _ => True := by
  refine (scanLeftBrace_keeps hx).seq fun _ => scanBalanced_keeps.seq fun ts => ?_
  exact checkInputDepth_keeps.seq fun _ => env_keeps.seq fun _ => pushText_keeps ..

omit hx in
theorem describe_keeps (t : Token) : Spec (storing n) P (describe t) fun _ => True := by
  unfold describe
  split
  · refine (meaning?_keeps t).seq fun μ? => ?_
    split
    · exact .done
    · exact env_keeps.seq fun _ => .done
  · exact .done

omit hx in
theorem stringTokens_keeps (t : Token) :
    Spec (storing n) P (stringTokens t) TokenList.ParameterFree := by
  unfold stringTokens
  split
  · exact (showToken_keeps t).seq fun _ => .pure fun _ => TokenList.parameterFree_ofText _
  · split
    · exact .pure fun _ => by simp [Token.space, Token.isParam]
    · exact .pure fun _ => by simp [Token.other, Token.isParam]

theorem expandPrimitive_keeps (p : Expandable) (t : Token) :
    Spec (storing n) P (x.expandPrimitive p t) fun _ => True := by
  have hpushText : ∀ {P : Prop} (text : String), Spec (storing n) P (push (TokenList.ofText text))
      fun _ => True :=
    fun text => push_keeps fun _ => TokenList.parameterFree_ofText text
  cases p with
  | expandafter => exact expandAfter_keeps hx
  | noexpand => exact markNext_keeps
  | csname => exact expandCsname_keeps hx
  | string =>
    exact token?_keeps.required fun t => (stringTokens_keeps t).bind fun _ =>
      push_keeps fun hP => hP.2
  | number => exact (scanInteger_keeps hx).seq fun _ => hpushText _
  | romannumeral => exact (scanInteger_keeps hx).seq fun _ => hpushText _
  | the => exact (theTokens_keeps hx).bind fun _ => push_keeps fun hP => hP.2.parameterFree
  | meaning => exact token?_keeps.required fun t => (describe_keeps t).seq fun _ => hpushText _
  | jobname => exact Spec.get.seq fun _ => hpushText _
  | fontname => exact expandFontName_keeps hx
  | input => exact expandInput_keeps hx t
  | endinput =>
    exact modify_keeps (fun _ => rfl) fun _ _ hm => Source.endInput_parameterFree hm.input
  | scantokens => exact expandScanTokens_keeps hx

/-! ## Expansion -/

theorem step_keeps (μ : Meaning) {t : Token} (ht : P → t.isParam = false) :
    Spec (storing n) P (step x μ t) fun _ => True := by
  have hperform : Spec (storing n) P (x.perform μ t) fun _ => True := by
    cases μ with
    | expandable p => exact expandPrimitive_keeps hx p t
    | conditional p => exact expandConditional_keeps hx p ht
    | defined d => exact MacroDef.call_keeps x.fuel d t
    | _ => exact .done
  refine .blame t (hperform.seq fun _ => Spec.get.seq fun m => ?_)
  split
  · exact fail_spec ..
  · exact .done

end Expanding

/-- Expansion keeps states well formed, however deep expansions may be nested. -/
theorem ofDepth_storing (n fuel depth : Nat) : (ofDepth fuel depth).Storing n := by
  induction depth with
  -- No level is left: the expansion is refused, and the state stays as it was.
  | zero =>
    rw [ofDepth_zero]
    exact fun _ => .blame _ (fail_spec ..)
  | succ depth ih =>
    rw [ofDepth_succ]
    exact fun ht => step_keeps ih _ ht

end TexEngine.Expander
