/-
  TexEngine.Proofs.Engine.Storing.Texts

  Texts that are read are regular: they are balanced, because the loops that read them
  count braces, and they have no parameters.  What \the puts into an expanded text keeps
  it so, because registers hold regular texts.  The arguments of macro calls have no
  parameters either.
-/
import TexEngine.Proofs.Engine.Legal.Texts
import TexEngine.Proofs.Engine.Storing.Scan

namespace TexEngine

open Eng Discipline

variable {n : Nat} {x : Expander} {P : Prop}

/-! ## Reading up to a closing brace -/

/-- What has been read of a balanced text, the latest token first: `depth` braces are open
    behind it, and `q` holds of its tokens. -/
structure TextPart (q : Token → Prop) (depth : Nat) (seen : TokenList) : Prop where
  tokens : ∀ t ∈ seen, q t
  depth_eq : braceDepthAfter? 0 seen.reverse = some depth

namespace TextPart

variable {q : Token → Prop} {depth : Nat} {seen ts : TokenList} {t : Token}

theorem nil : TextPart q 0 [] :=
  ⟨by simp, rfl⟩

theorem cons (h : TextPart q depth seen) (ht : q t) {depth' : Nat}
    (hdepth : braceDepth? depth t = some depth') : TextPart q depth' (t :: seen) :=
  ⟨List.forall_mem_cons.mpr ⟨ht, h.tokens⟩, (braceDepthAfter?_reverse_cons h.depth_eq).trans hdepth⟩

/-- A balanced list leaves the depth as it is. -/
theorem append (h : TextPart q depth seen) (htokens : ∀ t ∈ ts, q t) (hts : Balanced ts) :
    TextPart q depth (ts.reverse ++ seen) where
  tokens := by
    refine List.forall_mem_append.mpr ⟨fun t ht => htokens t (List.mem_reverse.mp ht), h.tokens⟩
  depth_eq := by
    rw [List.reverse_append, List.reverse_reverse, braceDepthAfter?_append, h.depth_eq]
    exact hts.braceDepthAfter? depth

/-- The text ends in front of the brace that closes it. -/
theorem complete (h : TextPart q depth seen) (hend : braceDepth? depth t = none) :
    (∀ t ∈ seen.reverse, q t) ∧ Balanced seen.reverse :=
  ⟨fun t ht => h.tokens t (List.mem_reverse.mp ht), balanced_of_braceDepth?_none h.depth_eq hend⟩

theorem regular (h : TextPart (·.isParam = false) depth seen) (hend : braceDepth? depth t = none) :
    TokenList.Regular seen.reverse :=
  ⟨(h.complete hend).1, (h.complete hend).2⟩

end TextPart

namespace Expander

theorem scanBalanced_keeps : Spec (storing n) P x.scanBalanced TokenList.Regular := by
  refine .iterate (I := fun s => TextPart (·.isParam = false) s.1 s.2) ?_ _ fun _ => .nil
  rintro ⟨depth, seen⟩
  refine token?_keeps.required fun t => ?_
  split
  · rename_i hend
    exact .pure fun hP => hP.1.2.regular hend
  · rename_i hdepth
    exact .pure fun hP => hP.1.2.cons hP.2 hdepth

variable (hx : x.Storing n)

include hx

theorem scanLeftBrace_keeps : Spec (storing n) P x.scanLeftBrace fun _ => True := by
  refine (nextNonRelax?_keeps hx).required fun t => ?_
  split
  · exact .done
  · refine (meaning?_keeps t).seq fun μ? => ?_
    split
    · split
      · exact .done
      · exact refuse_keeps (fun hP => hP.2) ..
    · exact refuse_keeps (fun hP => hP.2) ..

/-! ## Expanded texts -/

theorem theTokens_keeps : Spec (storing n) P x.theTokens TokenList.Regular := by
  refine (next?_keeps hx).required fun t => (quantity?_keeps t).seq fun q => ?_
  cases q with
  | some q =>
    refine (resolve_keeps hx _).seq fun cell => cell.read_keeps.bind fun v => ?_
    exact .pure fun hP => Value.regular_tokens hP.2
  | none =>
    refine isFrozen_keeps.seq fun frozen => ?_
    extract_lets finish
    -- What is no quantity may still be a font.
    have hfinish : ∀ μ?, Spec (storing n) (P ∧ t.isParam = false) (finish μ?)
        TokenList.Regular := by
      intro μ?
      dsimp only [finish]
      split
      · exact .pure fun _ => TokenList.regular_cs _
      · exact env_keeps.seq fun _ => .pure fun _ => TokenList.regular_cs _
      · exact refuse_keeps (fun hP => hP.2) ..
    split
    · exact Spec.done.seq hfinish
    · exact (meaning?_keeps t).seq hfinish

/-- The tokens that are final in an expanded text are regular. -/
def TextItem.Regular : TextItem → Prop
  | .final ts => ts.Regular
  | _ => True

theorem expandItem_keeps {t : Token} (ht : P → t.isParam = false) :
    Spec (storing n) P (x.expandItem t) TextItem.Regular := by
  have hplain : ∀ {P : Prop}, Spec (storing n) P (pure .plain) TextItem.Regular :=
    .pure fun _ => True.intro
  have hexpand : ∀ {P : Prop} (μ : Meaning), (P → t.isParam = false) →
      Spec (storing n) P (do x.expand μ t; return .expanded) TextItem.Regular :=
    fun μ ht => (hx ht).seq fun _ => .pure fun _ => True.intro
  refine isFrozen_keeps.seq fun frozen => ?_
  split
  · exact hplain
  · refine (meaning?_keeps t).seq fun μ? => ?_
    split
    · exact (theTokens_keeps hx).bind fun ts => .pure fun hP => hP.2
    · split
      · exact hplain
      · exact hexpand _ ht
    · split
      · exact hexpand _ ht
      · exact hplain
    · exact hplain

theorem expandBalanced_keeps : Spec (storing n) P x.expandBalanced TokenList.Regular := by
  refine .iterate (I := fun s => TextPart (·.isParam = false) s.1 s.2) ?_ _ fun _ => .nil
  rintro ⟨depth, seen⟩
  refine token?_keeps.required fun t => (expandItem_keeps hx fun hP => hP.2).bind fun item => ?_
  cases item with
  | final ts => exact .pure fun hP => hP.1.1.2.append hP.2.parameterFree hP.2.balanced
  | expanded => exact .pure fun hP => hP.1.1.2
  | plain =>
    dsimp only
    split
    · rename_i hend
      exact .pure fun hP => hP.1.1.2.regular hend
    · rename_i hdepth
      exact .pure fun hP => hP.1.1.2.cons hP.1.2 hdepth

theorem scanGeneralText_keeps : Spec (storing n) P x.scanGeneralText TokenList.Regular :=
  (scanLeftBrace_keeps hx).seq fun _ => expandBalanced_keeps hx

/-! ## Values -/

theorem scanToksValue_keeps : Spec (storing n) P x.scanToksValue TokenList.Regular := by
  refine (nextNonRelax?_keeps hx).required fun t => (quantity?_keeps t).seq fun q => ?_
  split
  · refine (resolve_keeps hx _).seq fun cell => cell.read_keeps.bind fun v => ?_
    cases v with
    | toks ts => exact .pure fun hP => hP.2
    | _ => exact .pure fun _ => TokenList.regular_nil
  · refine (pushBack_keeps fun hP => hP.2).seq fun _ => ?_
    exact (scanLeftBrace_keeps hx).seq fun _ => scanBalanced_keeps

theorem scanValue_keeps (k : ValueKind) : Spec (storing n) P (x.scanValue k) Value.Regular := by
  cases k with
  | int => exact (scanInteger_keeps hx).map fun _ _ => True.intro
  | dimen => exact (scanDimen_keeps hx).map fun _ _ => True.intro
  | glue => exact (scanGlue_keeps hx).map fun _ _ => True.intro
  | toks => exact (scanToksValue_keeps hx).map fun _ => id

/-! ## Names -/

omit hx in
theorem scanDefinedToken_keeps : Spec (storing n) P x.scanDefinedToken (·.isParam = false) := by
  refine .iterate (I := fun _ => True) (fun _ => ?_) _ fun _ => True.intro
  refine token?_keeps.required fun t => ?_
  split
  · exact .pure fun _ => True.intro
  · split
    · exact refuse_keeps (fun hP => hP.2) ..
    · exact .pure fun hP => hP.2

theorem scanFileName_keeps : Spec (storing n) P x.scanFileName fun _ => True := by
  refine (nextNonSpace?_keeps hx).required fun t => ?_
  split
  · exact (expandBalanced_keeps hx).seq fun _ => .done
  · refine .iterate (I := fun s => s.1.isParam = false) ?_ _ fun hP => hP.2
    rintro ⟨t, name⟩
    refine isFrozen_keeps.seq fun frozen => ?_
    split
    · split
      · exact .pure fun _ => True.intro
      · exact (pushBack_keeps fun hP => hP.2).seq fun _ => .pure fun _ => True.intro
    · refine (next?_keeps hx).bind fun t? => ?_
      cases t? with
      | some t' => exact .pure fun hP => hP.2 t' rfl
      | none => exact .pure fun _ => True.intro

theorem scanCsname_keeps : Spec (storing n) P x.scanCsname fun _ => True := by
  refine .iterate (I := fun _ => True) (fun name => ?_) _ fun _ => True.intro
  refine (next?_keeps hx).required fun t => ?_
  split
  · refine isFrozen_keeps.seq fun frozen => (meaning?_keeps t).seq fun μ? => ?_
    split
    · exact .pure fun _ => True.intro
    · exact refuse_keeps (fun hP => hP.2) ..
  · exact .pure fun _ => True.intro

end Expander

/-! ## Arguments -/

namespace MacroDef

variable (fuel : Nat) (d : MacroDef) (call : Token)

theorem checkArgument_keeps {t : Token} (ht : P → t.isParam = false) :
    Spec (storing n) P (d.checkArgument call t) fun _ => True := by
  unfold checkArgument
  split
  · exact .done
  · extract_lets finish
    -- `finish` looks for an outer macro, which is refused even in long arguments.
    have hfinish : ∀ u, Spec (storing n) P (finish u) fun _ => True := by
      refine fun u => (meaning?_keeps t).seq fun μ? => ?_
      split
      · split
        · exact refuse_keeps ht ..
        · exact .done
      · exact .done
    split
    · exact (pushBack_keeps ht).seq fun _ => Spec.seq (Q := fun _ => True) (failAt_spec ..) hfinish
    · exact hfinish ()

theorem groupArgument_keeps :
    Spec (storing n) P (groupArgument fuel d call) TokenList.ParameterFree := by
  refine .iterate (I := fun s => TokenList.ParameterFree s.2) ?_ _ fun _ =>
    TokenList.parameterFree_nil
  rintro ⟨depth, seen⟩
  refine token?_keeps.required fun t => (checkArgument_keeps d call fun hP => hP.2).seq fun _ => ?_
  split
  · exact .pure fun hP => TokenList.parameterFree_reverse.mpr hP.1.2
  · exact .pure fun hP => TokenList.parameterFree_cons.mpr ⟨hP.2, hP.1.2⟩

theorem undelimitedArgument_keeps :
    Spec (storing n) P (undelimitedArgument fuel d call) TokenList.ParameterFree := by
  refine Spec.bind (Q := fun t => t.isParam = false) (.iterate (I := fun _ => True) (fun _ => ?_) _
    fun _ => True.intro) fun t => ?_
  · refine token?_keeps.required fun t => .pure fun hP => ?_
    split
    · exact True.intro
    · exact hP.2
  · refine (checkArgument_keeps d call fun hP => hP.2).seq fun _ => ?_
    split
    · exact groupArgument_keeps fuel d call
    · split
      · exact failAt_spec ..
      · refine .pure fun hP => ?_
        exact TokenList.parameterFree_cons.mpr ⟨hP.2, TokenList.parameterFree_nil⟩

theorem delimitedArgument_keeps (delims : TokenList) :
    Spec (storing n) P (delimitedArgument fuel d call delims) TokenList.ParameterFree := by
  refine Spec.bind (Q := TokenList.ParameterFree) (.iterate
    (I := fun a => TokenList.ParameterFree a.seen) ?_ _ fun _ => TokenList.parameterFree_nil)
    fun arg => .pure fun hP => hP.2.of_subset (stripGroup_subset arg)
  intro a
  refine token?_keeps.required fun t => (checkArgument_keeps d call fun hP => hP.2).seq fun _ => ?_
  have hseen : ∀ {P : Prop}, (P ∧ TokenList.ParameterFree a.seen) ∧ t.isParam = false →
      TokenList.ParameterFree (t :: a.seen) :=
    fun hP => TokenList.parameterFree_cons.mpr ⟨hP.2, hP.1.2⟩
  dsimp only
  split
  · refine .pure fun hP => TokenList.parameterFree_reverse.mpr ?_
    exact (hseen hP).of_subset (List.drop_subset _ _)
  · split
    · exact failAt_spec ..
    · exact .pure hseen

/-- No argument of a call has parameters. -/
theorem readArguments_keeps (pattern : TokenList) :
    Spec (storing n) P (readArguments fuel d call pattern)
      fun args => ∀ arg ∈ args, TokenList.ParameterFree arg := by
  fun_induction readArguments fuel d call pattern generalizing P with
  | case1 => exact .pure fun _ => by simp
  | case2 k rest delims finish hdelims =>
    rename_i ih
    refine (undelimitedArgument_keeps fuel d call).bind fun arg => ih.bind fun args => ?_
    exact .pure fun hP => List.forall_mem_cons.mpr ⟨hP.1.2, hP.2⟩
  | case3 k rest delims finish hdelims =>
    rename_i ih
    refine (delimitedArgument_keeps fuel d call delims).bind fun arg => ih.bind fun args => ?_
    exact .pure fun hP => List.forall_mem_cons.mpr ⟨hP.1.2, hP.2⟩
  | case4 p rest hp ih =>
    refine token?_keeps.required fun t => ?_
    split
    · exact ih
    · exact refuse_keeps (fun hP => hP.2) ..

/-! ## Calls -/

theorem traceArguments_keeps (esc : Option CharCode) (k : Nat) (args : List TokenList) :
    Spec (storing n) P (traceArguments esc k args) fun _ => True := by
  induction args generalizing k with
  | nil => exact .done
  | cons arg args ih => exact (trace_keeps ..).seq fun _ => ih (k + 1)

/-- A call is replaced by tokens that are no parameters. -/
theorem call_keeps (t : Token) : Spec (storing n) P (d.call fuel t) fun _ => True := by
  refine (readArguments_keeps fuel d t d.pattern).bind fun args => env_keeps.seq fun env => ?_
  have hpush : Spec (storing n) (P ∧ ∀ arg ∈ args, TokenList.ParameterFree arg)
      (push (substitute args d.body)) fun _ => True :=
    push_keeps fun hP => parameterFree_substitute hP.2 d.body
  dsimp only
  split
  · exact (trace_keeps ..).seq fun _ => (traceArguments_keeps ..).seq fun _ => hpush
  · exact hpush

end MacroDef

end TexEngine
