/-
  TexEngine.Proofs.Engine.Storing.Assign

  Assignments keep states well formed: the values that are assigned were read as such,
  and the meanings that names get are those of other tokens, or made by a command.
-/
import TexEngine.Engine.Assign
import TexEngine.Proofs.Engine.Legal.Assign
import TexEngine.Proofs.Engine.Storing.Definition

namespace TexEngine

open Eng Discipline

variable {n : Nat} {x : Expander} {P : Prop}

/-! ## Cells -/

/-- What an assignment to a cell needs: a value that may be kept, and a font that was
    loaded. -/
theorem Cell.write_keeps {cell : Cell} (hcell : P → cell.Loaded) {v : Value} (hv : P → v.Regular)
    (global : Bool) : Spec (storing n) P (cell.write v global) fun _ => True := by
  unfold Cell.write
  -- The cases are the kinds of cells, in their order: integers, lengths, glue, lists of tokens,
  -- categories, the other tables, parameters of fonts, and what only can be read.
  split
  · exact assign_keeps (fun _ => by intro _; rfl) global
  · exact assign_keeps (fun _ => by trivial) global
  · exact assign_keeps (fun _ => by trivial) global
  · refine assign_keeps (fun hP => ?_) global
    intro ts hts
    rw [← Option.mem_some.mp hts]
    exact hv hP
  · dsimp only
    split
    · rename_i hvalid
      refine assign_keeps (fun _ => ?_) global
      intro k hk
      rw [← Option.mem_some.mp hk]
      exact Catcode.ofInt_mem_all hvalid
    · exact fail_spec ..
  · dsimp only
    split
    · exact fail_spec ..
    · rename_i hrange
      refine assign_keeps (fun _ => ?_) global
      intro c hc
      rw [← Option.mem_some.mp hc]
      exact CodeTable.allows_iff.mpr hrange
  · rename_i f k d
    refine modifyEnv_keeps (fun _ => rfl) (fun _ => Nat.le_refl _) fun hP env henv => ?_
    exact henv.withFonts (henv.fonts.setParam (hcell hP) k.toInt d)
  · exact .done

/-! ## Arithmetic -/

namespace Value

variable {v w r : Value}

/-- Arithmetic changes no list. -/
theorem regular_of_add (hv : v.Regular) (h : v.add w = .ok r) : r.Regular := by
  have hsame : Except.ok v = (Except.ok r : Except ArithFault Value) → r.Regular :=
    fun h => Except.ok.inj h ▸ hv
  cases v with
  | toks ts => exact hsame h
  | int a =>
    cases w with
    | int b =>
      obtain ⟨k, -, rfl⟩ := exists_of_map_eq_ok h
      exact True.intro
    | _ => exact hsame h
  | dimen d =>
    cases w with
    | dimen e =>
      obtain ⟨k, -, rfl⟩ := exists_of_map_eq_ok h
      exact True.intro
    | _ => exact hsame h
  | glue g =>
    cases w with
    | glue k =>
      obtain ⟨k, -, rfl⟩ := exists_of_map_eq_ok h
      exact True.intro
    | _ => exact hsame h

theorem regular_of_multiply (hv : v.Regular) {k : Int64} (h : v.multiply k = .ok r) :
    r.Regular := by
  cases v with
  | toks ts => exact Except.ok.inj h ▸ hv
  | _ =>
    obtain ⟨k, -, rfl⟩ := exists_of_map_eq_ok h
    exact True.intro

theorem regular_of_divide (hv : v.Regular) {k : Int64} (h : v.divide k = .ok r) :
    r.Regular := by
  cases v with
  | toks ts => exact Except.ok.inj h ▸ hv
  | _ =>
    obtain ⟨k, -, rfl⟩ := exists_of_map_eq_ok h
    exact True.intro

end Value

namespace Expander

/-! ## The frame of all assignments -/

theorem assigning_keeps {act : Bool → Eng Unit}
    (hact : ∀ global, Spec (storing n) P (act global) fun _ => True) :
    Spec (storing n) P (assigning act) fun _ => True := by
  refine Spec.get.seq fun m => (hact _).seq fun _ => env_keeps.bind fun env => ?_
  split
  · rename_i t ht
    refine Spec.seq (modifyEnv_keeps (fun _ => rfl) (fun _ => Nat.le_refl _) fun _ env henv => ?_)
      fun _ => pushBack_keeps fun hP => hP.2.holds.afterAssignment t ht
    exact henv.withAfterAssignment (by simp)
  · exact .done

theorem bind_keeps (t : Token) {μ? : Option Meaning} (hμ : P → ∀ μ ∈ μ?, μ.WellFormed n)
    (global : Bool) : Spec (storing n) P (bind t μ? global) fun _ => True :=
  modifyPlaces_keeps (fun _ => Env.lasting_setMeaning ..)
    fun hP _ henv => henv.setMeaning t (hμ hP) global

theorem bind_some_keeps (t : Token) {μ : Meaning} (hμ : P → μ.WellFormed n) (global : Bool) :
    Spec (storing n) P (bind t (some μ) global) fun _ => True :=
  bind_keeps t (fun hP _ hmem => Option.mem_some.mp hmem ▸ hμ hP) global

/-! ## Meanings -/

theorem tokenMeaning_keeps {t : Token} (ht : P → t.isParam = false) :
    Spec (storing n) P (tokenMeaning t) fun μ? => ∀ μ ∈ μ?, μ.WellFormed n := by
  unfold tokenMeaning
  split
  · exact meaning?_keeps t
  · exact .pure fun hP _ hmem => Option.mem_some.mp hmem ▸ ht hP

theorem scanLetToken_keeps : Spec (storing n) P x.scanLetToken (·.isParam = false) := by
  refine Spec.bind (Q := fun t => t.isParam = false) (.iterate (I := fun _ => True) (fun _ => ?_) _
    fun _ => True.intro) fun t => ?_
  · refine rawToken_keeps.required fun t => .pure fun hP => ?_
    split
    · exact True.intro
    · exact hP.2
  · split
    · refine rawToken_keeps.required fun t' => ?_
      split
      · exact rawToken_keeps.bind fun t? => expect_spec t? _ _ fun hP => hP.2
      · exact .pure fun hP => hP.2
    · exact .pure fun hP => hP.2

theorem assignCopy_keeps (global : Bool) :
    Spec (storing n) P (x.assignCopy global) fun _ => True := by
  refine scanDefinedToken_keeps.seq fun t => scanLetToken_keeps.bind fun u => ?_
  refine (tokenMeaning_keeps fun hP => hP.2).bind fun μ? => ?_
  exact bind_keeps t (fun hP => hP.2) global

theorem assignCopyNext_keeps (global : Bool) :
    Spec (storing n) P (x.assignCopyNext global) fun _ => True := by
  refine scanDefinedToken_keeps.seq fun t => ?_
  refine rawToken_keeps.required fun first => rawToken_keeps.required fun second => ?_
  refine Spec.seq (push_keeps fun hP => ?_) fun _ => ?_
  · simpa using ⟨hP.1.2, hP.2⟩
  · refine (tokenMeaning_keeps fun hP => hP.2).bind fun μ? => ?_
    exact bind_keeps t (fun hP => hP.2) global

/-! ## Groups -/

theorem forM_trace_keeps (texts : List String) :
    Spec (storing n) P (texts.forM fun text => trace .info .environment fun _ => text)
      fun _ => True := by
  induction texts with
  | nil => exact .done
  | cons text texts ih => exact (trace_keeps ..).seq fun _ => ih

theorem openGroup_keeps (type : GroupType) (start : Token) (deliver : Option Delivery) :
    Spec (storing n) P (openGroup type start deliver) fun _ => True := by
  constructor
  intro m
  have hrun : openGroup type start deliver m = (do
      set { m with env := (m.env.openGroup type m.input.locator start deliver).1 }
      (m.env.openGroup type m.input.locator start deliver).2.forM fun text =>
        trace .info .environment fun _ => text) m := rfl
  rw [hrun]
  refine Spec.holds_of_change (D := storing n) (P := P) rfl ⟨rfl, Nat.le_refl _⟩ ?_
    (forM_trace_keeps _)
  exact fun _ hm _ => ⟨hm.env.openGroup .., hm.input⟩

theorem closeGroup_keeps : Spec (storing n) P closeGroup fun _ => True := by
  constructor
  intro m
  have hget : (get : Eng Machine) m = .ok m m := rfl
  unfold closeGroup
  rw [bind_of_ok hget]
  cases hclose : m.env.closeGroup Meaning.name (some m.page) with
  | error f => exact ⟨(storing n).refl m, fun _ hm _ => hm⟩
  | ok c =>
    have hlasting := Env.lasting_closeGroup hclose
    simp only [Env.lasting, Prod.mk.injEq] at hlasting
    refine Spec.holds_of_change (D := storing n) (P := P) rfl
      ⟨hlasting.1, Nat.le_of_eq (congrArg FontBook.next hlasting.2.1.symm)⟩ ?_ ?_
    · exact fun _ hm _ => ⟨(hm.env.closeGroup hclose).1, hm.input⟩
    · exact (forM_trace_keeps _).seq fun _ => push_keeps fun hP => (hP.2.env.closeGroup hclose).2

theorem logBoxes_keeps (events : List BoxEvent) :
    Spec (storing n) P (logBoxes events) fun _ => True :=
  modifyRest_keeps (fun _ => rfl) fun _ => rfl

theorem takeBox_keeps (k : Int64) (keep : Bool) :
    Spec (storing n) P (takeBox k keep) fun _ => True := by
  refine env_keeps.seq fun env => (logBoxes_keeps _).seq fun _ => ?_
  dsimp only
  split
  · exact (assign_keeps (fun _ => by trivial) false).seq fun _ => .done
  · exact .done

/-! ## Fonts -/

/-- A font is loaded for a control sequence or active character: its serial number is the
    next one. -/
theorem loadFont_keeps (t : Token) (name : String) (size : Dimen) :
    Spec (storing n) P (do
      let (f, fonts) := (← env).fonts.load t.definedName name size
      modifyEnv fun env => { env with fonts }
      return Meaning.font f) (Meaning.WellFormed n) := by
  refine ⟨fun m => ⟨⟨rfl, Nat.le_succ _⟩, fun _ hm hgood => ⟨⟨?_, hm.input⟩, .inr ?_⟩⟩⟩
  · exact hm.env.withFonts (hm.env.fonts.load t.definedName name size)
  · exact ⟨hm.env.fonts.next_pos, hgood, FontBook.loadSize_pos size⟩

section Expanding

variable (hx : x.Storing n)

include hx

/-! ## Quantities -/

theorem resolveMutable_keeps (μ : Meaning) :
    Spec (storing n) P (x.resolveMutable μ) Cell.Loaded := by
  refine (resolve_keeps hx μ).bind fun cell => ?_
  split
  · exact .pure fun hP => hP.2
  · exact fail_spec ..

theorem assignQuantity_keeps (μ : Meaning) :
    Spec (storing n) P (x.assignQuantity μ) fun _ => True := by
  refine assigning_keeps fun global => (resolveMutable_keeps hx μ).bind fun cell => ?_
  refine (scanOptionalEquals_keeps hx).seq fun _ => (scanValue_keeps hx cell.kind).bind fun v => ?_
  exact Cell.write_keeps (fun hP => hP.1.2) (fun hP => hP.2) global

theorem assignArithmetic_keeps (op : ArithOp) (global : Bool) :
    Spec (storing n) P (x.assignArithmetic op global) fun _ => True := by
  refine (nextNonSpace?_keeps hx).required fun t => (quantity?_keeps t).seq fun q => ?_
  split
  · exact failAt_spec ..
  · refine (resolveMutable_keeps hx _).bind fun cell => ?_
    refine (scanKeyword_keeps hx _).seq fun _ => cell.read_keeps.bind fun v => ?_
    extract_lets finish
    have hfinish : ∀ {P : Prop} r, (P → cell.Loaded) → (P → r.Regular) →
        Spec (storing n) P (finish r) fun _ => True :=
      fun r hcell hr => Cell.write_keeps hcell hr global
    cases op with
    | advance =>
      refine (scanValue_keeps hx cell.kind).seq fun w => (observe_keeps _).seq fun _ => ?_
      refine Spec.bind (arith_spec fun hP r hr => Value.regular_of_add hP.2 hr) fun r => ?_
      exact hfinish r (fun hP => hP.1.1.2) fun hP => hP.2
    | multiply =>
      refine (scanInteger_keeps hx).seq fun k => (observe_keeps _).seq fun _ => ?_
      refine Spec.bind (arith_spec fun hP r hr => Value.regular_of_multiply hP.2 hr) fun r => ?_
      exact hfinish r (fun hP => hP.1.1.2) fun hP => hP.2
    | divide =>
      refine (scanInteger_keeps hx).seq fun k => (observe_keeps _).seq fun _ => ?_
      refine Spec.bind (arith_spec fun hP r hr => Value.regular_of_divide hP.2 hr) fun r => ?_
      exact hfinish r (fun hP => hP.1.1.2) fun hP => hP.2

/-! ## Definitions -/

theorem assignMacro_keeps (alwaysGlobal expand global : Bool) :
    Spec (storing n) P (x.assignMacro alwaysGlobal expand global) fun _ => True := by
  refine Spec.get.seq fun m => scanDefinedToken_keeps.seq fun t => ?_
  refine (scanDefinition_keeps hx _ _).bind fun d => bind_some_keeps t (fun hP => ?_) _
  -- Modifiers have nothing to do with the shape of a macro.
  exact ⟨hP.2.pattern, hP.2.indices, hP.2.body⟩

/-- A name is defined for what `read` gives. -/
theorem assignName_keeps {read : Token → Eng Meaning}
    (hread : ∀ t, Spec (storing n) P (read t) (Meaning.WellFormed n)) (global : Bool) :
    Spec (storing n) P (x.assignName read global) fun _ => True := by
  refine scanDefinedToken_keeps.seq fun t => ?_
  refine (bind_some_keeps t (fun _ => Meaning.wellFormed_relax n) global).seq fun _ => ?_
  refine (scanOptionalEquals_keeps hx).seq fun _ => (hread t).bind fun μ => ?_
  exact bind_some_keeps t (fun hP => hP.2) global

theorem scanFontSize_keeps : Spec (storing n) P x.scanFontSize fun _ => True := by
  refine (scanKeyword_keeps hx _).seq fun found => ?_
  split
  · refine (scanDimen_keeps hx).seq fun size => ?_
    split
    · exact fail_spec ..
    · exact .done
  · refine (scanKeyword_keeps hx _).seq fun found => ?_
    split
    · refine (scanInteger_keeps hx).seq fun k => ?_
      split
      · exact fail_spec ..
      · exact (observe_keeps _).seq fun _ => .done
    · exact .done

theorem scanFontDefinition_keeps (command t : Token) :
    Spec (storing n) P (x.scanFontDefinition command t) (Meaning.WellFormed n) := by
  refine (scanFileName_keeps hx).seq fun name => ?_
  extract_lets finish
  have hfinish : ∀ u, Spec (storing n) P (finish u) (Meaning.WellFormed n) :=
    fun u => (scanFontSize_keeps hx).seq fun size => (observe_keeps _).seq fun _ =>
      loadFont_keeps t name size
  split
  · exact Spec.seq (Q := fun _ => True) (failAt_spec ..) hfinish
  · exact hfinish ()

/-! ## Attributes -/

theorem scanColorComponent_keeps : Spec (storing n) P x.scanColorComponent fun _ => True := by
  refine (scanSigns_keeps hx).bind fun r => ?_
  dsimp only
  split
  · exact (scanDecimal_keeps hx fun hP => hP.2).seq fun _ => .done
  · exact refuse_keeps (fun hP => hP.2) ..

theorem scanColor_keeps (command : Token) :
    Spec (storing n) P (x.scanColor command) fun _ => True := by
  refine (scanKeyword_keeps hx _).seq fun rgb => ?_
  split
  · exact (scanColorComponent_keeps hx).seq fun _ => (scanColorComponent_keeps hx).seq fun _ =>
      (scanColorComponent_keeps hx).seq fun _ => .done
  · refine (scanKeyword_keeps hx _).seq fun gray => ?_
    split
    · exact (scanColorComponent_keeps hx).seq fun _ => .done
    · exact failAt_spec ..

theorem scanDirection_keeps (command : Token) (ds : List Direction) :
    Spec (storing n) P (x.scanDirection command ds) fun _ => True := by
  induction ds with
  | nil => exact failAt_spec ..
  | cons d ds ih =>
    refine (scanKeyword_keeps hx _).seq fun found => ?_
    split
    · exact .done
    · exact ih

/-! ## Boxes -/

theorem scanBoxSpec_keeps : Spec (storing n) P x.scanBoxSpec fun _ => True := by
  refine (scanKeyword_keeps hx _).seq fun exactly => ?_
  split
  · exact (scanDimen_keeps hx).seq fun _ => .done
  · refine (scanKeyword_keeps hx _).seq fun spread => ?_
    split
    · exact (scanDimen_keeps hx).seq fun _ => .done
    · exact .done

theorem beginBox_keeps (kind : BoxKind) (start : Token) (deliver : Delivery) :
    Spec (storing n) P (x.beginBox kind start deliver) fun _ => True := by
  have hevery : ∀ (name : String), Spec (storing n) P (do push ((← env).tokens name))
      fun _ => True :=
    fun name => env_keeps.bind fun _ => push_keeps fun hP => (hP.2.tokens name).parameterFree
  refine (scanBoxSpec_keeps hx).seq fun spec => (scanLeftBrace_keeps hx).seq fun _ => ?_
  refine Spec.seq (modifyRest_keeps (fun _ => rfl) fun _ => rfl) fun _ => ?_
  cases kind with
  | horizontal => exact (openGroup_keeps ..).seq fun _ => hevery "everyhbox"
  | vertical => exact (openGroup_keeps ..).seq fun _ => hevery "everyvbox"

theorem assignBox_keeps (global : Bool) :
    Spec (storing n) P (x.assignBox global) fun _ => True := by
  refine (scanRegisterNumber_keeps hx).seq fun k => (scanOptionalEquals_keeps hx).seq fun _ => ?_
  refine (nextNonRelax?_keeps hx).required fun t => ?_
  extract_lets finish
  have hfinish : ∀ μ?, Spec (storing n) (P ∧ t.isParam = false) (finish μ?) fun _ => True := by
    intro μ?
    dsimp only [finish]
    split
    · exact beginBox_keeps hx ..
    · refine (scanRegisterNumber_keeps hx).seq fun k => (takeBox_keeps k _).seq fun b => ?_
      exact assign_keeps (fun _ => by trivial) global
    · exact refuse_keeps (fun hP => hP.2) ..
  split
  · exact (meaning?_keeps t).seq hfinish
  · exact Spec.done.seq hfinish

/-! ## All assignments -/

theorem performAssigner_keeps (a : Assigner) (t : Token) (global : Bool) :
    Spec (storing n) P (x.performAssigner a t global) fun _ => True := by
  cases a with
  | arithmetic op => exact assignArithmetic_keeps hx op global
  | define alwaysGlobal expand => exact assignMacro_keeps hx alwaysGlobal expand global
  | copyMeaning => exact assignCopy_keeps global
  | copyNextMeaning => exact assignCopyNext_keeps global
  | charDef =>
    refine assignName_keeps hx (fun _ => ?_) global
    exact .map (scanCharCode_keeps hx) fun _ => id
  | registerDef bank =>
    refine assignName_keeps hx (fun _ => ?_) global
    exact .map (scanRegisterNumber_keeps hx) fun _ _ => True.intro
  | setBox => exact assignBox_keeps hx global
  | font => exact assignName_keeps hx (scanFontDefinition_keeps hx t) global
  | color =>
    exact (scanColor_keeps hx t).seq fun _ => assign_keeps (fun _ => by trivial) global
  | textDirection =>
    exact (scanDirection_keeps hx t _).seq fun _ =>
      (assign_keeps (fun _ => by trivial) global).seq fun _ => skipOptionalSpace_keeps hx

end Expanding

end Expander

end TexEngine
