/-
  TexEngine.Proofs.Engine.Legal.Texts

  Everything that reads texts and names: balanced texts, with and without expansion,
  what \the gives, and the arguments of macro calls.  The tokens of all these texts
  are legal, because each of them was read, or was kept in a legal state.
-/
import TexEngine.Proofs.Engine.Depth.Expand
import TexEngine.Proofs.Engine.Arguments
import TexEngine.Proofs.Engine.Legal.Lengths

namespace TexEngine

open Eng Discipline

variable {x : Expander} {D : Discipline} [Expanding D] {P : Prop}

namespace Expander

/-! ## Raw texts -/

theorem scanBalanced_spec : Spec D P x.scanBalanced TokenList.Legal := by
  refine .iterate (I := fun s => TokenList.Legal s.2) ?_ _ fun _ => TokenList.legal_nil
  rintro ⟨depth, seen⟩
  refine token?_spec.required fun t => ?_
  split
  · exact .pure fun hP => TokenList.legal_reverse.mpr hP.1.2
  · exact .pure fun hP => TokenList.legal_cons.mpr ⟨hP.2, hP.1.2⟩

variable (hx : x.KeepsTo D)

include hx

theorem scanLeftBrace_spec : Spec D P x.scanLeftBrace fun _ => True := by
  refine (nextNonRelax?_spec hx).required fun t => ?_
  split
  · exact .done
  · refine (meaning?_spec t).seq fun μ? => ?_
    split
    · split
      · exact .done
      · exact refuse_spec (fun hP => hP.2) ..
    · exact refuse_spec (fun hP => hP.2) ..

/-! ## Expanded texts -/

theorem theTokens_spec : Spec D P x.theTokens TokenList.Legal := by
  refine (next?_spec hx).required fun t => (quantity?_spec t).bind fun q => ?_
  cases q with
  | some q =>
    refine (resolve_spec hx fun hP => hP.2 q rfl).bind fun cell => ?_
    exact (Cell.read_spec fun hP => hP.2).bind fun v => .pure fun hP => Value.legal_tokens hP.2
  | none =>
    refine isFrozen_spec.seq fun frozen => ?_
    extract_lets finish
    -- What is no quantity may still be a font.
    have hfinish : ∀ {P : Prop} (μ? : Option Meaning), (P → t.Legal) →
        Spec D P (finish μ?) TokenList.Legal := by
      intro P μ? ht
      dsimp only [finish]
      split
      · exact .pure fun _ => by simp
      · exact env_spec.seq fun _ => .pure fun _ => by simp
      · exact refuse_spec ht ..
    split
    · exact Spec.seq (Q := fun _ => True) (.done) fun μ? =>
        hfinish μ? fun hP => hP.1.2
    · exact (meaning?_spec t).seq fun μ? => hfinish μ? fun hP => hP.1.2

/-- The tokens that are final in an expanded text are legal. -/
def TextItem.Legal : TextItem → Prop
  | .final ts => TokenList.Legal ts
  | _ => True

theorem expandItem_spec {t : Token} (ht : P → t.Legal) :
    Spec D P (x.expandItem t) TextItem.Legal := by
  refine isFrozen_spec.seq fun frozen => ?_
  split
  · exact .pure fun _ => True.intro
  · refine (meaning?_spec t).bind fun μ? => ?_
    split
    · exact (theTokens_spec hx).bind fun ts => .pure fun hP => hP.2
    · split
      · exact .pure fun _ => True.intro
      · refine Spec.seq (hx (fun hP => ?_) fun hP => ht hP.1) fun _ => .pure fun _ => True.intro
        exact hP.2 _ rfl
    · split
      · refine Spec.seq (hx (fun hP => ?_) fun hP => ht hP.1) fun _ => .pure fun _ => True.intro
        exact hP.2 _ rfl
      · exact .pure fun _ => True.intro
    · exact .pure fun _ => True.intro

theorem expandBalanced_spec : Spec D P x.expandBalanced TokenList.Legal := by
  refine .iterate (I := fun s => TokenList.Legal s.2) ?_ _ fun _ => TokenList.legal_nil
  rintro ⟨depth, seen⟩
  refine token?_spec.required fun t => (expandItem_spec hx fun hP => hP.2).bind fun item => ?_
  cases item with
  | final ts =>
    refine .pure fun hP => ?_
    exact TokenList.legal_append.mpr ⟨TokenList.legal_reverse.mpr hP.2, hP.1.1.2⟩
  | expanded => exact .pure fun hP => hP.1.1.2
  | plain =>
    dsimp only
    split
    · exact .pure fun hP => TokenList.legal_reverse.mpr hP.1.1.2
    · exact .pure fun hP => TokenList.legal_cons.mpr ⟨hP.1.2, hP.1.1.2⟩

theorem scanGeneralText_spec : Spec D P x.scanGeneralText TokenList.Legal :=
  (scanLeftBrace_spec hx).seq fun _ => expandBalanced_spec hx

/-! ## Values -/

theorem scanToksValue_spec : Spec D P x.scanToksValue TokenList.Legal := by
  refine (nextNonRelax?_spec hx).required fun t => (quantity?_spec t).bind fun q => ?_
  split
  · refine (resolve_spec hx fun hP => hP.2 _ rfl).bind fun cell => ?_
    refine (Cell.read_spec fun hP => hP.2).bind fun v => ?_
    cases v with
    | toks ts => exact .pure fun hP => hP.2
    | _ => exact .pure fun _ => TokenList.legal_nil
  · refine (pushBack_spec fun hP => hP.1.2).seq fun _ => ?_
    exact (scanLeftBrace_spec hx).seq fun _ => scanBalanced_spec

/-- The value that is read has the type that was asked for. -/
theorem scanValue_spec (k : ValueKind) : Spec D P (x.scanValue k) Value.Legal := by
  cases k with
  | int => exact (scanInteger_spec hx).map fun _ => id
  | dimen => exact (scanDimen_spec hx).map fun _ => id
  | glue => exact (scanGlue_spec hx).map fun _ => id
  | toks => exact (scanToksValue_spec hx).map fun _ => id

/-! ## Names -/

omit hx in
theorem scanDefinedToken_spec : Spec D P x.scanDefinedToken Token.Legal := by
  refine .iterate (I := fun _ => True) (fun _ => ?_) _ fun _ => True.intro
  refine token?_spec.required fun t => ?_
  split
  · exact .pure fun _ => True.intro
  · split
    · exact refuse_spec (fun hP => hP.2) ..
    · exact .pure fun hP => hP.2

theorem scanFileName_spec : Spec D P x.scanFileName fun _ => True := by
  refine (nextNonSpace?_spec hx).required fun t => ?_
  split
  · exact (expandBalanced_spec hx).seq fun _ => .done
  · refine .iterate (I := fun s => s.1.Legal) ?_ _ fun hP => hP.2
    rintro ⟨t, name⟩
    refine isFrozen_spec.seq fun frozen => ?_
    split
    · split
      · exact .pure fun _ => True.intro
      · exact (pushBack_spec fun hP => hP.2).seq fun _ => .pure fun _ => True.intro
    · refine (next?_spec hx).bind fun t? => ?_
      cases t? with
      | some t' => exact .pure fun hP => hP.2 t' rfl
      | none => exact .pure fun _ => True.intro

theorem scanCsname_spec : Spec D P x.scanCsname fun _ => True := by
  refine .iterate (I := fun _ => True) (fun name => ?_) _ fun _ => True.intro
  refine (next?_spec hx).required fun t => ?_
  split
  · refine isFrozen_spec.seq fun frozen => (meaning?_spec t).seq fun μ? => ?_
    split
    · exact .pure fun _ => True.intro
    · exact refuse_spec (fun hP => hP.2) ..
  · exact .pure fun _ => True.intro

end Expander

/-! ## Arguments -/

namespace MacroDef

variable (fuel : Nat) (d : MacroDef) (call : Token)

theorem checkArgument_spec {t : Token} (ht : P → t.Legal) :
    Spec D P (d.checkArgument call t) fun _ => True := by
  unfold checkArgument
  split
  · exact .done
  · extract_lets finish
    -- `finish` looks for an outer macro, which is refused even in long arguments.
    have hfinish : ∀ u, Spec D P (finish u) fun _ => True := by
      refine fun u => (meaning?_spec t).seq fun μ? => ?_
      split
      · split
        · exact refuse_spec ht ..
        · exact .done
      · exact .done
    split
    · exact (pushBack_spec ht).seq fun _ => Spec.seq (Q := fun _ => True) (failAt_spec ..) hfinish
    · exact hfinish ()

theorem groupArgument_spec :
    Spec D P (groupArgument fuel d call) TokenList.Legal := by
  refine .iterate (I := fun s => TokenList.Legal s.2) ?_ _ fun _ => TokenList.legal_nil
  rintro ⟨depth, seen⟩
  refine token?_spec.required fun t => (checkArgument_spec d call fun hP => hP.2).seq fun _ => ?_
  split
  · exact .pure fun hP => TokenList.legal_reverse.mpr hP.1.2
  · exact .pure fun hP => TokenList.legal_cons.mpr ⟨hP.2, hP.1.2⟩

theorem undelimitedArgument_spec :
    Spec D P (undelimitedArgument fuel d call) TokenList.Legal := by
  refine Spec.bind (Q := Token.Legal) (.iterate (I := fun _ => True) (fun _ => ?_) _
    fun _ => True.intro) fun t => ?_
  · refine token?_spec.required fun t => .pure fun hP => ?_
    split
    · exact True.intro
    · exact hP.2
  · refine (checkArgument_spec d call fun hP => hP.2).seq fun _ => ?_
    split
    · exact groupArgument_spec fuel d call
    · split
      · exact failAt_spec ..
      · exact .pure fun hP => TokenList.legal_cons.mpr ⟨hP.2, TokenList.legal_nil⟩

theorem delimitedArgument_spec (delims : TokenList) :
    Spec D P (delimitedArgument fuel d call delims) TokenList.Legal := by
  refine Spec.bind (Q := TokenList.Legal) (.iterate (I := fun a => TokenList.Legal a.seen) ?_ _
    fun _ => TokenList.legal_nil) fun arg => ?_
  · intro a
    refine token?_spec.required fun t => (checkArgument_spec d call fun hP => hP.2).seq fun _ => ?_
    have hseen : ∀ {P : Prop}, (P ∧ TokenList.Legal a.seen) ∧ t.Legal →
        TokenList.Legal (t :: a.seen) :=
      fun hP => TokenList.legal_cons.mpr ⟨hP.2, hP.1.2⟩
    dsimp only
    split
    · refine .pure fun hP => TokenList.legal_reverse.mpr ?_
      exact (hseen hP).of_subset (List.drop_subset _ _)
    · split
      · exact failAt_spec ..
      · exact .pure hseen
  · exact .pure fun hP => hP.2.of_subset (stripGroup_subset arg)

/-- All arguments of a call are legal. -/
theorem readArguments_spec (pattern : TokenList) :
    Spec D P (readArguments fuel d call pattern)
      fun args => ∀ arg ∈ args, TokenList.Legal arg := by
  fun_induction readArguments fuel d call pattern generalizing P with
  | case1 => exact .pure fun _ => by simp
  | case2 n rest delims finish hdelims =>
    rename_i ih
    refine (undelimitedArgument_spec fuel d call).bind fun arg => ih.bind fun args => ?_
    exact .pure fun hP => List.forall_mem_cons.mpr ⟨hP.1.2, hP.2⟩
  | case3 n rest delims finish hdelims =>
    rename_i ih
    refine (delimitedArgument_spec fuel d call delims).bind fun arg => ih.bind fun args => ?_
    exact .pure fun hP => List.forall_mem_cons.mpr ⟨hP.1.2, hP.2⟩
  | case4 p rest hp ih =>
    refine token?_spec.required fun t => ?_
    split
    · exact ih
    · exact refuse_spec (fun hP => hP.2) ..

/-! ## Calls -/

theorem legal_substitute {args : List TokenList} (hargs : ∀ arg ∈ args, TokenList.Legal arg)
    {body : TokenList} (hbody : body.Legal) : TokenList.Legal (substitute args body) :=
  forall_mem_substitute hargs fun t ht _ => hbody t ht

theorem traceArguments_spec (esc : Option CharCode) (n : Nat) (args : List TokenList) :
    Spec D P (traceArguments esc n args) fun _ => True := by
  induction args generalizing n with
  | nil => exact .done
  | cons arg args ih => exact (trace_spec ..).seq fun _ => ih (n + 1)

/-- A call is replaced by legal tokens. -/
theorem call_spec {d : MacroDef} (hd : P → TokenList.Legal d.body) (t : Token) :
    Spec D P (d.call fuel t) fun _ => True := by
  refine (readArguments_spec fuel d t d.pattern).bind fun args => env_spec.seq fun env => ?_
  have hpush : Spec D (P ∧ ∀ arg ∈ args, TokenList.Legal arg)
      (push (substitute args d.body)) fun _ => True :=
    push_spec fun hP => legal_substitute hP.2 (hd hP.1)
  dsimp only
  split
  · exact (trace_spec ..).seq fun _ => (traceArguments_spec ..).seq fun _ => hpush
  · exact hpush

end MacroDef

end TexEngine
