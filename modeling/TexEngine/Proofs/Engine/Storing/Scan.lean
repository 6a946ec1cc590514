/-
  TexEngine.Proofs.Engine.Storing.Scan

  Reading values keeps states well formed.  What is read ahead and put back are tokens
  from the input, which are no parameters; token list values are balanced; and a cell
  that is a font parameter belongs to a font that was loaded.

  As elsewhere, this rests on an assumption about the expander (`Expander.Storing`).
-/
import TexEngine.Engine.Scan.Tokens
import TexEngine.Proofs.Engine.Storing.Operations

namespace TexEngine

open Eng Discipline

variable {n : Nat} {x : Expander} {P : Prop}

/-! ## Values and cells -/

/-- A token list value may be kept in a register. -/
def Value.Regular : Value → Prop
  | .toks ts => ts.Regular
  | _ => True

theorem Value.regular_tokens {v : Value} (h : v.Regular) : v.tokens.Regular := by
  cases v with
  | toks ts => exact h
  | _ => exact TokenList.regular_ofText _

/-- A font parameter belongs to a font other than the null font. -/
def Cell.Loaded : Cell → Prop
  | .fontDimen f _ => 0 < f.serial
  | _ => True

theorem Cell.read_keeps (cell : Cell) : Spec (storing n) P cell.read Value.Regular := by
  refine Spec.get.bind fun m => ?_
  cases cell with
  | register bank name =>
    cases bank with
    | toks => exact .pure fun hP => hP.2.env.tokens name
    | _ => exact .pure fun _ => True.intro
  | inputLine => exact (observeLevel_keeps _).seq fun _ => .pure fun _ => True.intro
  | groupLevel => exact (observeLevel_keeps _).seq fun _ => .pure fun _ => True.intro
  | conditionalLevel => exact (observeLevel_keeps _).seq fun _ => .pure fun _ => True.intro
  | _ => exact .pure fun _ => True.intro

namespace Expander

/-! ## Reading with expansion -/

/-- Expanding a token keeps states well formed. -/
def Storing (n : Nat) (x : Expander) : Prop :=
  ∀ {P : Prop} {μ : Meaning} {t : Token}, (P → t.isParam = false) →
    Spec (storing n) P (x.expand μ t) fun _ => True

variable (hx : x.Storing n)

include hx

theorem next?_keeps : Spec (storing n) P x.next? fun t? => ∀ t ∈ t?, t.isParam = false := by
  refine .iterate (I := fun _ => True) (fun _ => ?_) _ fun _ => True.intro
  refine token?_keeps.bind fun t? => ?_
  cases t? with
  | none => exact .pure fun hP => hP.2
  | some t =>
    refine isFrozen_keeps.seq fun frozen => ?_
    split
    · exact .pure fun hP => hP.2
    · refine (meaning?_keeps t).seq fun μ? => ?_
      cases μ? with
      | none => exact .pure fun hP => hP.2
      | some μ =>
        dsimp only
        split
        · exact (hx fun hP => hP.2 t rfl).seq fun _ => .pure fun _ => True.intro
        · exact .pure fun hP => hP.2

theorem nextNonSpace?_keeps :
    Spec (storing n) P x.nextNonSpace? fun t? => ∀ t ∈ t?, t.isParam = false := by
  refine .iterate (I := fun _ => True) (fun _ => ?_) _ fun _ => True.intro
  refine (next?_keeps hx).bind fun t? => ?_
  cases t? with
  | none => exact .pure fun hP => hP.2
  | some t =>
    refine .pure fun hP => ?_
    split
    · exact True.intro
    · exact hP.2

theorem nextNonRelax?_keeps :
    Spec (storing n) P x.nextNonRelax? fun t? => ∀ t ∈ t?, t.isParam = false := by
  refine .iterate (I := fun _ => True) (fun _ => ?_) _ fun _ => True.intro
  refine (next?_keeps hx).bind fun t? => ?_
  cases t? with
  | none => exact .pure fun hP => hP.2
  | some t =>
    refine isFrozen_keeps.seq fun frozen => (meaning?_keeps t).seq fun μ? => ?_
    split
    · exact .pure fun _ => True.intro
    · exact .pure fun hP => hP.2

/-! ## Keywords and signs -/

theorem scanKeyword_keeps (keyword : String) :
    Spec (storing n) P (x.scanKeyword keyword) fun _ => True := by
  refine .iterate (I := fun s => TokenList.ParameterFree s.2.2) ?_ _ fun _ =>
    TokenList.parameterFree_nil
  rintro ⟨wanted, started, seen⟩
  cases wanted with
  | nil => exact .pure fun _ => True.intro
  | cons k ks =>
    refine (next?_keeps hx).bind fun t? => ?_
    cases t? with
    | none =>
      refine Spec.seq (push_keeps fun hP => ?_) fun _ => .pure fun _ => True.intro
      exact TokenList.parameterFree_reverse.mpr hP.1.2
    | some t =>
      have hseen : ∀ {P : Prop},
          (P ∧ TokenList.ParameterFree seen) ∧ (∀ t' ∈ some t, t'.isParam = false) →
          TokenList.ParameterFree (t :: seen) :=
        fun hP => TokenList.parameterFree_cons.mpr ⟨hP.2 t rfl, hP.1.2⟩
      dsimp only
      split
      · exact .pure hseen
      · split
        · exact .pure hseen
        · refine Spec.seq (push_keeps fun hP => ?_) fun _ => .pure fun _ => True.intro
          exact TokenList.parameterFree_reverse.mpr (hseen hP)

theorem scanOptionalEquals_keeps : Spec (storing n) P x.scanOptionalEquals fun _ => True := by
  refine (nextNonSpace?_keeps hx).bind fun t? => ?_
  cases t? with
  | none => exact .done
  | some t =>
    dsimp only
    split
    · exact .done
    · exact pushBack_keeps fun hP => hP.2 t rfl

theorem skipOptionalSpace_keeps : Spec (storing n) P x.skipOptionalSpace fun _ => True := by
  refine (next?_keeps hx).bind fun t? => ?_
  cases t? with
  | none => exact .done
  | some t =>
    dsimp only
    split
    · exact .done
    · exact pushBack_keeps fun hP => hP.2 t rfl

theorem scanSigns_keeps : Spec (storing n) P x.scanSigns fun r => r.2.isParam = false := by
  refine .iterate (I := fun _ => True) (fun neg => ?_) _ fun _ => True.intro
  refine (next?_keeps hx).required fun t => ?_
  split
  · exact .pure fun _ => True.intro
  · split
    · exact .pure fun _ => True.intro
    · exact .pure fun hP => hP.2

/-! ## Constants -/

theorem scanRadix_keeps (radix : Int64) {first : Option Token}
    (hfirst : P → ∀ t ∈ first, t.isParam = false) :
    Spec (storing n) P (x.scanRadix radix first) fun _ => True := by
  unfold scanRadix
  refine Spec.seq (Q := fun _ => True) (.iterate (I := fun s => ∀ t ∈ s.2, t.isParam = false)
    ?_ _ hfirst) fun c => ?_
  · rintro ⟨c, first⟩
    dsimp -zeta only
    extract_lets stop next
    -- The first token may have been read by the caller; all others are read here.
    have hnext : ∀ t?, Spec (storing n)
        ((P ∧ ∀ t ∈ first, t.isParam = false) ∧ ∀ t ∈ t?, t.isParam = false) (next t?)
        (Spec.Round (fun s => ∀ t ∈ s.2, t.isParam = false) fun _ => True) := by
      intro t?
      cases t? with
      | none => exact .pure fun _ => True.intro
      | some t =>
        refine isFrozen_keeps.seq fun frozen => ?_
        split
        · exact (observe_keeps _).seq fun _ => .pure fun _ => by simp [Spec.Round]
        · split
          · exact .pure fun _ => True.intro
          · exact (pushBack_keeps fun hP => hP.2 t rfl).seq fun _ => .pure fun _ => True.intro
    cases first with
    | some t => exact (Spec.pure fun hP => hP.2).bind hnext
    | none => exact (next?_keeps hx).bind hnext
  · split
    · exact fail_spec ..
    · split
      · exact fail_spec ..
      · exact .done

theorem scanCharConstant_keeps : Spec (storing n) P x.scanCharConstant fun _ => True := by
  unfold scanCharConstant
  refine token?_keeps.required fun t => ?_
  extract_lets finish
  have hfinish : ∀ {P : Prop} c, Spec (storing n) P (finish c) fun _ => True :=
    fun c => (skipOptionalSpace_keeps hx).seq fun _ => .done
  split
  · split
    · exact Spec.done.seq hfinish
    · exact Spec.seq (Q := fun _ => True) (failAt_spec ..) hfinish
  · exact Spec.done.seq hfinish

/-! ## Quantities -/

omit hx in
theorem quantity?_keeps (t : Token) : Spec (storing n) P (quantity? t) fun _ => True := by
  unfold quantity?
  refine isFrozen_keeps.seq fun frozen => ?_
  split
  · exact .done
  · refine (meaning?_keeps t).seq fun μ? => ?_
    cases μ? with
    | none => exact .done
    | some μ => exact .done

theorem scanFont_keeps : Spec (storing n) P x.scanFont (Font.LoadedBefore n) := by
  unfold scanFont
  refine (nextNonSpace?_keeps hx).required fun t => ?_
  refine (meaning?_keeps t).bind fun μ? => ?_
  split
  · exact .pure fun hP => hP.2 _ rfl
  · exact env_keeps.bind fun env => .pure fun hP => hP.2.font
  · exact refuse_keeps (fun hP => hP.1.2) ..

omit hx in
/-- Whatever reads the number, a character code is in range. -/
theorem charCodeWith_keeps {int : Eng Int64} (hint : Spec (storing n) P int fun _ => True) :
    Spec (storing n) P (charCodeWith int) CharCode.InRange := by
  unfold charCodeWith
  refine hint.seq fun k => ?_
  split
  · exact fail_spec ..
  · rename_i hbounds
    refine .pure fun _ => ?_
    have hzero : (0 : Int64).toInt = 0 := by decide
    rw [not_or, Int64.lt_iff_toInt_lt, hzero] at hbounds
    exact ⟨Int.not_lt.mp hbounds.1, Int.not_lt.mp hbounds.2⟩

section Numbers

variable {int : Eng Int64} (hint : ∀ {P : Prop}, Spec (storing n) P int fun _ => True)

include hint

omit hx in
theorem numberWith_keeps (max : Int64) :
    Spec (storing n) P (numberWith int max) fun _ => True := by
  unfold numberWith
  refine hint.seq fun k => ?_
  split
  · exact fail_spec ..
  · exact .done

theorem resolveWith_keeps (μ : Meaning) :
    Spec (storing n) P (x.resolveWith int μ) Cell.Loaded := by
  unfold resolveWith
  split
  · exact .pure fun _ => True.intro
  · exact (numberWith_keeps hint _).seq fun _ => .pure fun _ => True.intro
  · exact .pure fun _ => True.intro
  · exact .pure fun _ => True.intro
  · exact .pure fun _ => True.intro
  · exact (charCodeWith_keeps hint).seq fun _ => .pure fun _ => True.intro
  · exact (charCodeWith_keeps hint).seq fun _ => .pure fun _ => True.intro
  · refine hint.seq fun k => (scanFont_keeps hx).bind fun f => ?_
    split
    · exact fail_spec ..
    · rename_i hvalid
      refine .pure fun hP => ?_
      rcases hP.2 with hnull | hloaded
      · exact absurd (.inr hnull) hvalid
      · exact hloaded.1
  · exact .pure fun _ => True.intro
  · exact .pure fun _ => True.intro
  · exact .pure fun _ => True.intro

theorem unsignedWith_keeps {t : Token} (ht : P → t.isParam = false) :
    Spec (storing n) P (x.unsignedWith int t) fun _ => True := by
  unfold unsignedWith
  refine (quantity?_keeps t).seq fun q => ?_
  split
  · exact refuse_keeps ht ..
  · exact (resolveWith_keeps hx hint _).seq fun cell => cell.read_keeps.seq fun _ => .done
  · split
    · exact scanCharConstant_keeps hx
    · split
      · exact scanRadix_keeps hx _ (by simp)
      · split
        · exact scanRadix_keeps hx _ (by simp)
        · split
          · exact scanRadix_keeps hx _ fun hP t' ht' => Option.mem_some.mp ht' ▸ ht hP
          · exact refuse_keeps ht ..

end Numbers

/-! ## Integers -/

theorem integerWithin_keeps (k : Nat) :
    Spec (storing n) P (x.integerWithin k) fun _ => True := by
  induction k generalizing P with
  | zero => exact .throw _
  | succ k ih =>
    unfold integerWithin
    refine (scanSigns_keeps hx).bind fun r => ?_
    refine (unsignedWith_keeps hx ih fun hP => hP.2).seq fun v => ?_
    exact (observe_keeps _).seq fun _ => .done

theorem scanInteger_keeps : Spec (storing n) P x.scanInteger fun _ => True :=
  integerWithin_keeps hx _

theorem scanRegisterNumber_keeps : Spec (storing n) P x.scanRegisterNumber fun _ => True :=
  numberWith_keeps (scanInteger_keeps hx) _

theorem scanCharCode_keeps : Spec (storing n) P x.scanCharCode CharCode.InRange :=
  charCodeWith_keeps (scanInteger_keeps hx)

theorem resolve_keeps (μ : Meaning) : Spec (storing n) P (x.resolve μ) Cell.Loaded :=
  resolveWith_keeps hx (scanInteger_keeps hx) μ

/-! ## Decimal numbers and units -/

theorem scanDecimal_keeps {t : Token} (ht : P → t.isParam = false) :
    Spec (storing n) P (x.scanDecimal t) fun _ => True := by
  unfold scanDecimal
  refine Spec.seq (Q := fun _ => True) (.iterate (I := fun s => s.2.isParam = false)
    ?_ _ ht) fun p => (observe_keeps _).seq fun _ => .done
  rintro ⟨p, t⟩
  dsimp -zeta only
  extract_lets stop resume
  -- `resume` gets the number with this token added to it, or none behind its last token.
  have hresume : ∀ p?, Spec (storing n) (P ∧ t.isParam = false) (resume p?)
      (Spec.Round (fun s => s.2.isParam = false) fun _ => True) := by
    intro p?
    cases p? with
    | none =>
      dsimp only [resume]
      split
      · exact .pure fun _ => True.intro
      · exact (pushBack_keeps fun hP => hP.2).seq fun _ => .pure fun _ => True.intro
    | some p' =>
      refine (next?_keeps hx).bind fun t? => ?_
      cases t? with
      | none => exact .pure fun _ => True.intro
      | some t' => exact .pure fun hP => hP.2 t' rfl
  refine isFrozen_keeps.seq fun frozen => ?_
  split
  · split
    · exact Spec.done.seq hresume
    · refine (observe_keeps _).seq fun _ => ?_
      dsimp only
      split
      · exact Spec.seq (Q := fun _ => True) (fail_spec ..) hresume
      · exact Spec.done.seq hresume
  · split
    · exact Spec.done.seq hresume
    · exact Spec.done.seq hresume

omit hx in
theorem fontUnit_keeps (integer frac : Int64) (k : Int) :
    Spec (storing n) P (scanInternalUnit.fontUnit integer frac k) fun _ => True :=
  env_keeps.seq fun _ => (observe_keeps _).seq fun _ => arith_spec fun _ _ _ => True.intro

theorem scanInternalUnit_keeps (integer frac : Int64) :
    Spec (storing n) P (x.scanInternalUnit integer frac) fun _ => True := by
  refine (nextNonSpace?_keeps hx).bind fun t? => ?_
  cases t? with
  | none => exact .done
  | some t =>
    refine (quantity?_keeps t).seq fun q => ?_
    dsimp only
    split
    · refine (resolve_keeps hx _).seq fun cell => cell.read_keeps.seq fun v => ?_
      refine (observe_keeps _).seq fun _ => ?_
      exact Spec.seq (Q := fun _ => True) (arith_spec fun _ _ _ => True.intro) fun _ => .done
    · refine (pushBack_keeps fun hP => hP.2 t rfl).seq fun _ => ?_
      refine (scanKeyword_keeps hx _).seq fun em => ?_
      split
      · exact (fontUnit_keeps ..).seq fun _ => .done
      · refine (scanKeyword_keeps hx _).seq fun ex => ?_
        split
        · exact (fontUnit_keeps ..).seq fun _ => .done
        · exact .done

theorem scanPhysicalUnit_keeps (us : List Dimen.PhysicalUnit) :
    Spec (storing n) P (x.scanPhysicalUnit us) fun _ => True := by
  induction us with
  | nil => exact .done
  | cons u us ih =>
    refine (scanKeyword_keeps hx _).seq fun found => ?_
    split
    · exact .done
    · exact ih

theorem scanTrueUnit_keeps (integer frac : Int64) :
    Spec (storing n) P (x.scanTrueUnit integer frac) fun _ => True := by
  unfold scanTrueUnit
  extract_lets finish
  have hfinish : ∀ {P : Prop} r, Spec (storing n) P (finish r) fun _ => True := by
    intro P r
    refine (scanPhysicalUnit_keeps hx _).seq fun u? => ?_
    cases u? with
    | some u => exact (observe_keeps _).seq fun _ => arith_spec fun _ _ _ => True.intro
    | none =>
      refine (scanKeyword_keeps hx _).seq fun sp => ?_
      split
      · split
        · exact fail_spec ..
        · exact .done
      · exact fail_spec ..
  refine (scanKeyword_keeps hx _).seq fun isTrue => ?_
  split
  · refine env_keeps.seq fun env => (observe_keeps _).seq fun _ => ?_
    exact Spec.seq (Q := fun _ => True) (arith_spec fun _ _ _ => True.intro) hfinish
  · exact Spec.done.seq hfinish

theorem scanOrder_keeps (k : Nat) : Spec (storing n) P (x.scanOrder k) fun _ => True := by
  induction k with
  | zero => exact .done
  | succ k ih =>
    refine (scanKeyword_keeps hx _).seq fun found => ?_
    split
    · exact ih.seq fun _ => .done
    · exact .done

theorem scanInfiniteUnit_keeps (integer frac : Int64) :
    Spec (storing n) P (x.scanInfiniteUnit integer frac) fun _ => True := by
  refine (scanKeyword_keeps hx _).seq fun found => ?_
  split
  · refine (scanOrder_keeps hx 2).seq fun k => ?_
    dsimp only
    split
    · exact fail_spec ..
    · exact (observe_keeps _).seq fun _ => .done
  · exact .done

theorem scanUnits_keeps (neg : Bool) (integer frac : Int64) (infinite : Bool) :
    Spec (storing n) P (x.scanUnits neg integer frac infinite) fun _ => True := by
  unfold scanUnits
  extract_lets finish choose
  have hfinish : ∀ {P : Prop} c, Spec (storing n) P (finish c) fun _ => True := by
    refine fun c => (skipOptionalSpace_keeps hx).seq fun _ => (observe_keeps _).seq fun _ => ?_
    exact Spec.seq (Q := fun _ => True) (arith_spec fun _ _ _ => True.intro) fun _ => .done
  have hchoose : ∀ c?, Spec (storing n) P (choose c?) fun _ => True := by
    intro c?
    cases c? with
    | some c => exact Spec.done.seq hfinish
    | none =>
      refine (scanInternalUnit_keeps hx ..).seq fun d? => ?_
      cases d? with
      | some d => exact Spec.done.seq hfinish
      | none => exact (scanTrueUnit_keeps hx ..).seq fun _ => Spec.done.seq hfinish
  split
  · exact (scanInfiniteUnit_keeps hx ..).seq hchoose
  · exact Spec.done.seq hchoose

/-! ## Lengths and glue -/

theorem scanDimenFrom_keeps (neg : Bool) {t : Token} (ht : P → t.isParam = false)
    (infinite : Bool) : Spec (storing n) P (x.scanDimenFrom neg t infinite) fun _ => True := by
  unfold scanDimenFrom
  extract_lets units
  have hunits : ∀ {P : Prop} integer frac, Spec (storing n) P (units integer frac)
      fun _ => True := by
    intro P integer frac
    dsimp only [units]
    split
    · exact (observe_keeps _).seq fun _ => scanUnits_keeps hx ..
    · exact scanUnits_keeps hx ..
  refine (quantity?_keeps t).seq fun q => ?_
  cases q with
  | some q =>
    refine (resolve_keeps hx _).seq fun cell => cell.read_keeps.seq fun v => ?_
    cases v with
    | int k => exact hunits ..
    | toks ts => exact failAt_spec ..
    | dimen d => exact (observe_keeps _).seq fun _ => .done
    | glue g => exact (observe_keeps _).seq fun _ => .done
  | none =>
    dsimp only
    split
    · exact (scanDecimal_keeps hx ht).seq fun r => hunits ..
    · exact (unsignedWith_keeps hx (scanInteger_keeps hx) ht).seq fun k => hunits ..

theorem scanDimen_keeps : Spec (storing n) P x.scanDimen fun _ => True :=
  (scanSigns_keeps hx).bind fun r =>
    (scanDimenFrom_keeps hx r.1 (fun hP => hP.2) false).seq fun _ => .done

theorem scanOptionalComponent_keeps (keyword : String) :
    Spec (storing n) P (x.scanOptionalComponent keyword) fun _ => True := by
  refine (scanKeyword_keeps hx _).seq fun found => ?_
  split
  · exact (scanSigns_keeps hx).bind fun r =>
      (scanDimenFrom_keeps hx r.1 (fun hP => hP.2) true).seq fun _ => .done
  · exact .done

theorem scanGlue_keeps : Spec (storing n) P x.scanGlue fun _ => True := by
  refine (scanSigns_keeps hx).bind fun r => (quantity?_keeps r.2).seq fun q => ?_
  dsimp only
  split
  · refine (resolve_keeps hx _).seq fun cell => cell.read_keeps.seq fun v => ?_
    cases v with
    | glue g => exact (observe_keeps _).seq fun _ => .done
    | _ => exact .done
  · refine (scanDimenFrom_keeps hx r.1 (fun hP => hP.2) false).seq fun width => ?_
    exact (scanOptionalComponent_keeps hx _).seq fun _ =>
      (scanOptionalComponent_keeps hx _).seq fun _ => .done

end Expander

end TexEngine
