/-
  TexEngine.Proofs.Engine.Legal.Assign

  Assignments lead from legal states to legal states.  What is assigned was read, or
  it is the result of arithmetic that checks its range; entries of tables and
  categories are checked when they are assigned.
-/
import TexEngine.Engine.Assign
import TexEngine.Proofs.Engine.Legal.Expand

namespace TexEngine

open Eng Discipline

variable {x : Expander} {D E : Discipline} [Expanding D] [Executing E] {P : Prop}

/-! ## Changing the state -/

namespace Eng

theorem modifyEnv_spec {f : Env Meaning → Env Meaning}
    (hf : P → ∀ env : Env Meaning, env.Legal → (f env).Legal) :
    Spec E P (modifyEnv f) fun _ => True := by
  refine .modify (fun _ => Executing.rel (Nat.le_refl _) (.of_input_eq rfl rfl)) ?_
  rw [Executing.inv_eq (D := E)]
  exact fun hP m hm _ => ⟨hf hP m.env hm.env, hm.input, hm.exact⟩

theorem assign_spec {a : Assignment Meaning} (ha : P → a.Legal) (global : Bool) :
    Spec E P (assign a global) fun _ => True :=
  modifyEnv_spec fun hP _ henv => henv.assign (ha hP) global

/-- A change that concerns neither the environment nor the input and its limits. -/
theorem modifyRest_spec {g : Machine → Machine} (henv : ∀ m, (g m).env = m.env)
    (hinput : ∀ m, (g m).input = m.input) (hobserved : ∀ m, (g m).observed = m.observed)
    (hlimits : ∀ m, (g m).limits = m.limits) : Spec E P (modify g) fun _ => True := by
  refine .modify (fun m => Executing.rel ?_ (.of_input_eq (hlimits m) (hinput m))) ?_
  · exact Nat.le_of_eq (congrArg Observations.highest (hobserved m).symm)
  · rw [Executing.inv_eq (D := E)]
    exact fun _ m hm _ => ⟨henv m ▸ hm.env, hinput m ▸ hm.input, hobserved m ▸ hm.exact⟩

theorem typeset_spec (n : Node) : Spec E P (typeset n) fun _ => True :=
  modifyRest_spec (fun _ => rfl) (fun _ => rfl) (fun _ => rfl) fun _ => rfl

theorem logBoxes_spec (events : List BoxEvent) : Spec E P (logBoxes events) fun _ => True :=
  modifyRest_spec (fun _ => rfl) (fun _ => rfl) (fun _ => rfl) fun _ => rfl

end Eng

/-! ## Fonts -/

/-- A size that is a magnification of the design size. -/
theorem Font.inRange_scaled {n : Int64} (hn : ¬ (n ≤ 0 ∨ n > 32768)) :
    Dimen.xnOverDFits defaultSize n 1000 = true ∧
      Dimen.InRange (Dimen.xnOverD defaultSize n 1000).1 := by
  have hsize : defaultSize.toInt = 655360 := by decide
  have hzero : (0 : Int64).toInt = 0 := by decide
  have hlimit : (32768 : Int64).toInt = 32768 := by decide
  have hthousand : (1000 : Int64).toInt = 1000 := by decide
  rw [not_or, gt_iff_lt, Int64.le_iff_toInt_le, Int64.lt_iff_toInt_lt, hzero, hlimit] at hn
  have hmul : Word.mulFits defaultSize n = true :=
    Word.mulFits_of_natAbs_le (m := 655360) (n := 32768) (by omega) (by omega) (by decide)
  have hprod := Word.toInt_mul hmul
  rw [hsize] at hprod
  have hdiv : Word.divFits (defaultSize * n) 1000 = true := Word.divFits_of_natAbs_lt (by omega)
  refine ⟨by rw [Dimen.xnOverDFits, hmul, hdiv]; rfl, ?_⟩
  show Dimen.InRange (defaultSize * n / 1000)
  rw [Dimen.inRange_iff, Word.toInt_div_of_nonneg (by omega), hprod, hthousand]
  omega

namespace FontBook

variable {b : FontBook}

theorem inRange_setParam (h : ∀ f n, Dimen.InRange (b.param f n)) (f : Font) (n : Int) {d : Dimen}
    (hd : Dimen.InRange d) : ∀ f' n', Dimen.InRange ((b.setParam f n d).param f' n') := by
  intro f' n'
  unfold param paramsOf setParam
  rw [Std.TreeMap.getD_insert]
  split
  · unfold paramsOf
    rw [Std.TreeMap.getD_insert]
    split
    · exact hd
    · exact h f n'
  · exact h f' n'

/-- The parameters of a font can be computed, and are in range. -/
theorem inRange_ofSize {size : Dimen} (hsize : Dimen.InRange size) :
    FontParams.ofSizeFits size = true ∧
      ∀ (n : Int) d, (FontParams.ofSize size)[n]? = some d → Dimen.InRange d := by
  have hdiv : ∀ {a n : Int64}, Dimen.InRange a → Dimen.InRange (a / n) := by
    intro a n ha
    rw [Dimen.inRange_iff] at ha ⊢
    have hle := Word.natAbs_toInt_div_le (b := n) (show a.toInt.natAbs < 2 ^ 63 by omega)
    omega
  have hbound := Dimen.inRange_iff.mp hsize
  have hmul : Word.mulFits size 43 = true :=
    Word.mulFits_of_natAbs_le hbound (n := 43) (by decide) (by decide)
  have hprod := Word.toInt_mul hmul
  have hfortyThree : (43 : Int64).toInt = 43 := by decide
  have hhundred : (100 : Int64).toInt = 100 := by decide
  rw [hfortyThree] at hprod
  have hdivProd : Word.divFits (size * 43) 100 = true := Word.divFits_of_natAbs_lt (by omega)
  refine ⟨?_, Env.Legal.forall_ofList ?_⟩
  · rw [FontParams.ofSizeFits, Dimen.divFits_of_inRange hsize, Dimen.divFits_of_inRange hsize,
      Dimen.divFits_of_inRange hsize, hmul, hdivProd]
    rfl
  · have hheight : Dimen.InRange (size * 43 / 100) := by
      rw [Dimen.inRange_iff, Word.toInt_div hdivProd, hprod, hhundred, Int.natAbs_tdiv]
      show (size.toInt * 43).natAbs / 100 ≤ 0x3FFFFFFF
      omega
    have hzero : Dimen.InRange 0 := by decide
    simp [hdiv hsize, hheight, hsize, hzero]

theorem inRange_loadSize {size : Dimen} (hsize : Dimen.InRange size) :
    Dimen.InRange (loadSize size) := by
  unfold loadSize
  split
  · decide
  · exact hsize

theorem inRange_load (h : ∀ f n, Dimen.InRange (b.param f n)) (id name : String)
    {size : Dimen} (hsize : Dimen.InRange size) :
    ∀ f n, Dimen.InRange ((b.load id name size).2.param f n) := by
  intro f n
  unfold param paramsOf load
  dsimp only
  rw [Std.TreeMap.getD_insert]
  split
  · refine Env.Legal.getD_of_forall ?_ (by decide)
    exact (inRange_ofSize (inRange_loadSize hsize)).2 n
  · exact h f n

end FontBook

/-! ## Cells -/

/-- An assignment to a cell checks what has to be checked. -/
theorem Cell.write_spec (cell : Cell) {v : Value} (hv : P → v.Legal) (global : Bool) :
    Spec E P (cell.write v global) fun _ => True := by
  have hassign : ∀ {a : Assignment Meaning}, (v.Legal → a.Legal) →
      Spec E P (assign a global) fun _ => True :=
    fun ha => assign_spec (fun hP => ha (hv hP)) global
  unfold Cell.write
  split
  · exact hassign fun h => by simpa [Assignment.Legal, Value.Legal] using h
  · exact hassign fun h => by simpa [Assignment.Legal, Value.Legal] using h
  · exact hassign fun h => by simpa [Assignment.Legal, Value.Legal] using h
  · exact hassign fun h => by simpa [Assignment.Legal, Value.Legal] using h
  · dsimp only
    split
    · rename_i hvalid
      exact hassign fun _ => by simpa [Assignment.Legal] using Catcode.ofInt_mem_all hvalid
    · exact fail_spec ..
  · dsimp only
    split
    · exact fail_spec ..
    · rename_i hrange
      exact hassign fun _ => by simpa [Assignment.Legal] using CodeTable.allows_iff.mpr hrange
  · rename_i f n d
    refine modifyEnv_spec fun hP env henv => ?_
    exact { henv with fonts := FontBook.inRange_setParam henv.fonts f n.toInt (hv hP) }
  · exact .done

/-! ## Arithmetic -/

/-- A mapped result is the map of a result. -/
theorem exists_of_map_eq_ok {α β : Type} {f : α → β} {r : Except ArithFault α} {b : β}
    (h : f <$> r = .ok b) : ∃ a, r = .ok a ∧ b = f a := by
  cases r with
  | ok a =>
    injection h with h
    exact ⟨a, rfl, h.symm⟩
  | error e => contradiction

namespace Value

variable {v w r : Value}

theorem add_legal (hv : v.Legal) (hw : w.Legal) :
    v.addFits w = true ∧ ∀ r, v.add w = .ok r → r.Legal := by
  have hsame : ∀ r, Except.ok v = (Except.ok r : Except ArithFault Value) → r.Legal := by
    intro r h
    injection h with h
    rwa [← h]
  -- Values of different kinds are not added: the first one stays as it is.
  cases v with
  | int a =>
    cases w with
    | int b =>
      refine ⟨Count.addFits_of_inRange hv hw, fun r h => ?_⟩
      obtain ⟨n, hn, rfl⟩ := exists_of_map_eq_ok h
      exact Count.inRange_of_checked hn
    | _ => exact ⟨rfl, hsame⟩
  | dimen d =>
    cases w with
    | dimen e =>
      refine ⟨Dimen.addFits_of_inRange hv hw, fun r h => ?_⟩
      obtain ⟨n, hn, rfl⟩ := exists_of_map_eq_ok h
      exact Dimen.inRange_of_checked hn
    | _ => exact ⟨rfl, hsame⟩
  | glue g =>
    cases w with
    | glue k =>
      refine ⟨Glue.addFits_of_isProper hv hw, fun r h => ?_⟩
      obtain ⟨n, hn, rfl⟩ := exists_of_map_eq_ok h
      exact Glue.isProper_of_add hv hw hn
    | _ => exact ⟨rfl, hsame⟩
  | toks ts => exact ⟨rfl, hsame⟩

theorem multiply_legal (hv : v.Legal) {n : Int64} (hn : Count.InRange n) :
    v.multiplyFits n = true ∧ ∀ r, v.multiply n = .ok r → r.Legal := by
  cases v with
  | int a =>
    refine ⟨Count.multiplyFits_of_inRange hv hn, fun r h => ?_⟩
    obtain ⟨n, hn, rfl⟩ := exists_of_map_eq_ok h
    exact Count.inRange_of_multiply hn
  | dimen d =>
    refine ⟨Dimen.multiplyFits_of_inRange hv hn, fun r h => ?_⟩
    obtain ⟨n, hn, rfl⟩ := exists_of_map_eq_ok h
    exact Dimen.inRange_of_multiply hn
  | glue g =>
    refine ⟨Glue.multiplyFits_of_isProper hv hn, fun r h => ?_⟩
    obtain ⟨n, hn, rfl⟩ := exists_of_map_eq_ok h
    exact Glue.isProper_of_mapM (fun _ _ _ => Dimen.inRange_of_multiply) hv hn
  | toks ts =>
    refine ⟨rfl, fun r h => ?_⟩
    injection h with h
    rwa [← h]

theorem divide_legal (hv : v.Legal) (n : Int64) :
    v.divideFits n = true ∧ ∀ r, v.divide n = .ok r → r.Legal := by
  cases v with
  | int a =>
    refine ⟨Count.divFits_of_inRange hv, fun r h => ?_⟩
    obtain ⟨n, hn, rfl⟩ := exists_of_map_eq_ok h
    exact Count.inRange_of_divide hv hn
  | dimen d =>
    refine ⟨Dimen.divFits_of_inRange hv, fun r h => ?_⟩
    obtain ⟨n, hn, rfl⟩ := exists_of_map_eq_ok h
    exact Dimen.inRange_of_divide hv hn
  | glue g =>
    refine ⟨Glue.divideFits_of_isProper hv n, fun r h => ?_⟩
    obtain ⟨n, hn, rfl⟩ := exists_of_map_eq_ok h
    exact Glue.isProper_of_mapM (fun _ _ hd h => Dimen.inRange_of_divide hd h) hv hn
  | toks ts =>
    refine ⟨rfl, fun r h => ?_⟩
    injection h with h
    rwa [← h]

end Value

namespace Expander

/-! ## What assignments read -/

/-- A parameter text that was read ends with a legal brace. -/
theorem scanParameterText_spec :
    Spec D P x.scanParameterText fun p => ∀ t ∈ p.brace, t.Legal := by
  refine .iterate (I := fun p => ∀ t ∈ p.brace, t.Legal) (fun p => ?_) _ fun _ => by simp
  refine token?_spec.required fun t => ?_
  split
  · exact .pure fun hP => hP.1.2
  · split
    · exact failAt_spec ..
    · split
      · refine token?_spec.required fun next => ?_
        split
        · refine .pure fun hP t' ht' => ?_
          rw [← Option.mem_some.mp ht']
          exact hP.2
        · split
          · exact failAt_spec ..
          · exact .pure fun hP => hP.1.1.2
      · exact .pure fun hP => hP.1.2

theorem scanParameter_spec (params : Nat) :
    Spec D P (scanParameter params) Token.Legal := by
  refine token?_spec.required fun next => ?_
  split
  · exact .pure fun hP => hP.2
  · split
    · exact failAt_spec ..
    · dsimp only
      split
      · exact failAt_spec ..
      · exact .pure fun _ => Token.legal_param _

theorem tokenMeaning_spec {t : Token} (ht : P → t.Legal) :
    Spec D P (tokenMeaning t) fun μ? => ∀ μ ∈ μ?, μ.Legal := by
  unfold tokenMeaning
  split
  · exact meaning?_spec t
  · exact .pure fun hP _ hmem => Option.mem_some.mp hmem ▸ ht hP

theorem scanLetToken_spec : Spec D P x.scanLetToken Token.Legal := by
  refine Spec.bind (Q := Token.Legal) (.iterate (I := fun _ => True) (fun _ => ?_) _
    fun _ => True.intro) fun t => ?_
  · refine rawToken_spec.required fun t => .pure fun hP => ?_
    split
    · exact True.intro
    · exact hP.2
  · split
    · refine rawToken_spec.required fun t' => ?_
      split
      · exact rawToken_spec.bind fun t? => expect_spec t? _ _ fun hP => hP.2
      · exact .pure fun hP => hP.2
    · exact .pure fun hP => hP.2

section Expanding

variable (hx : x.KeepsTo D)

include hx

theorem scanBody_spec (params : Nat) (expand : Bool) :
    Spec D P (x.scanBody params expand) TokenList.Legal := by
  refine .iterate (I := fun s => TokenList.Legal s.2) ?_ _ fun _ => TokenList.legal_nil
  rintro ⟨depth, seen⟩
  refine token?_spec.required fun t => ?_
  extract_lets next
  -- Without expansion every token is plain, and so legal because it was read.
  have hnext : ∀ item, Spec D (((P ∧ TokenList.Legal seen) ∧ t.Legal) ∧ item.Legal)
      (next item) (Spec.Round (fun s => TokenList.Legal s.2) TokenList.Legal) := by
    intro item
    cases item with
    | final ts =>
      refine .pure fun hP => ?_
      exact TokenList.legal_append.mpr ⟨TokenList.legal_reverse.mpr hP.2, hP.1.1.2⟩
    | expanded => exact .pure fun hP => hP.1.1.2
    | plain =>
      dsimp only [next]
      split
      · refine (scanParameter_spec params).bind fun t' => .pure fun hP => ?_
        exact TokenList.legal_cons.mpr ⟨hP.2, hP.1.1.1.2⟩
      · split
        · exact .pure fun hP => TokenList.legal_reverse.mpr hP.1.1.2
        · exact .pure fun hP => TokenList.legal_cons.mpr ⟨hP.1.2, hP.1.1.2⟩
  split
  · exact (expandItem_spec hx fun hP => hP.2).bind hnext
  · exact Spec.bind (.pure fun _ => True.intro) hnext

theorem scanDefinition_spec (name : String) (expand : Bool) :
    Spec D P (x.scanDefinition name expand) fun d => TokenList.Legal d.body := by
  refine scanParameterText_spec.bind fun p => (scanBody_spec hx p.params expand).bind fun body => ?_
  refine .pure fun hP => TokenList.legal_append.mpr ⟨hP.2, fun t ht => ?_⟩
  exact hP.1.2 t (Option.mem_toList.mp ht)

theorem resolveMutable_spec {μ : Meaning} (hμ : P → μ.Legal) :
    Spec D P (x.resolveMutable μ) Cell.Legal := by
  refine (resolve_spec hx hμ).bind fun cell => ?_
  split
  · exact .pure fun hP => hP.2
  · exact fail_spec ..

theorem scanFontSize_spec : Spec D P x.scanFontSize Dimen.InRange := by
  have hdefault : Dimen.InRange Font.defaultSize := by decide
  refine (scanKeyword_spec hx _).seq fun found => ?_
  split
  · refine (scanDimen_spec hx).bind fun size => ?_
    split
    · exact fail_spec ..
    · exact .pure fun hP => hP.2
  · refine (scanKeyword_spec hx _).seq fun found => ?_
    split
    · refine (scanInteger_spec hx).seq fun n => ?_
      split
      · exact fail_spec ..
      · rename_i hbounds
        have hscaled := Font.inRange_scaled hbounds
        exact Spec.seq (observe_spec fun _ => hscaled.1) fun _ => .pure fun _ => hscaled.2
    · exact .pure fun _ => hdefault

theorem scanColorComponent_spec : Spec D P x.scanColorComponent fun _ => True := by
  refine (scanSigns_spec hx).bind fun r => ?_
  dsimp only
  split
  · exact (scanDecimal_spec hx fun hP => hP.2).seq fun _ => .done
  · exact refuse_spec (fun hP => hP.2) ..

theorem scanColor_spec (command : Token) :
    Spec D P (x.scanColor command) fun _ => True := by
  refine (scanKeyword_spec hx _).seq fun rgb => ?_
  split
  · exact (scanColorComponent_spec hx).seq fun _ => (scanColorComponent_spec hx).seq fun _ =>
      (scanColorComponent_spec hx).seq fun _ => .done
  · refine (scanKeyword_spec hx _).seq fun gray => ?_
    split
    · exact (scanColorComponent_spec hx).seq fun _ => .done
    · exact failAt_spec ..

theorem scanDirection_spec (command : Token) (ds : List Direction) :
    Spec D P (x.scanDirection command ds) fun _ => True := by
  induction ds with
  | nil => exact failAt_spec ..
  | cons d ds ih =>
    refine (scanKeyword_spec hx _).seq fun found => ?_
    split
    · exact .done
    · exact ih

theorem scanBoxSpec_spec : Spec D P x.scanBoxSpec fun _ => True := by
  refine (scanKeyword_spec hx _).seq fun exactly => ?_
  split
  · exact (scanDimen_spec hx).seq fun _ => .done
  · refine (scanKeyword_spec hx _).seq fun spread => ?_
    split
    · exact (scanDimen_spec hx).seq fun _ => .done
    · exact .done

end Expanding

/-! ## The frame of all assignments -/

theorem assigning_spec {act : Bool → Eng Unit}
    (hact : ∀ global, Spec E P (act global) fun _ => True) :
    Spec E P (assigning act) fun _ => True := by
  refine get_spec.executing.seq fun m => (hact _).seq fun _ => env_spec.executing.bind fun env => ?_
  split
  · rename_i t ht
    refine Spec.seq (modifyEnv_spec fun _ env henv => ?_) fun _ => ?_
    · exact { henv with afterAssignment := by simp }
    -- The token is legal because it was kept in the environment up to now.
    · exact (pushBack_spec fun hP => hP.2.afterAssignment t ht).executing
  · exact .done

theorem bind_spec (t : Token) {μ? : Option Meaning} (hμ : P → ∀ μ ∈ μ?, μ.Legal) (global : Bool) :
    Spec E P (bind t μ? global) fun _ => True :=
  modifyEnv_spec fun hP _ henv => henv.setMeaning t (hμ hP) global

theorem bind_some_spec (t : Token) {μ : Meaning} (hμ : P → μ.Legal) (global : Bool) :
    Spec E P (bind t (some μ) global) fun _ => True :=
  bind_spec t (fun hP _ hmem => Option.mem_some.mp hmem ▸ hμ hP) global

theorem assignCopy_spec (global : Bool) : Spec E P (x.assignCopy global) fun _ => True := by
  refine scanDefinedToken_spec.executing.seq fun t => scanLetToken_spec.executing.bind fun u => ?_
  refine (tokenMeaning_spec fun hP => hP.2).executing.bind fun μ? => ?_
  exact bind_spec t (fun hP => hP.2) global

theorem assignCopyNext_spec (global : Bool) :
    Spec E P (x.assignCopyNext global) fun _ => True := by
  refine scanDefinedToken_spec.executing.seq fun t => ?_
  refine rawToken_spec.executing.required fun first => ?_
  refine rawToken_spec.executing.required fun second => ?_
  refine Spec.seq (push_spec fun hP => ?_).executing fun _ => ?_
  · simpa using ⟨hP.1.2, hP.2⟩
  · refine (tokenMeaning_spec fun hP => hP.2).executing.bind fun μ? => ?_
    exact bind_spec t (fun hP => hP.2) global

/-! ## Groups and boxes -/

theorem forM_trace_spec (texts : List String) :
    Spec D P (texts.forM fun text => trace .info .environment fun _ => text)
      fun _ => True := by
  induction texts with
  | nil => exact .done
  | cons text texts ih => exact (trace_spec ..).seq fun _ => ih

theorem openGroup_spec (type : GroupType) (start : Token) (deliver : Option Delivery) :
    Spec E P (openGroup type start deliver) fun _ => True := by
  constructor
  intro m
  have hrun : openGroup type start deliver m = (do
      set { m with env := (m.env.openGroup type m.input.locator start deliver).1 }
      (m.env.openGroup type m.input.locator start deliver).2.forM fun text =>
        trace .info .environment fun _ => text) m := rfl
  rw [hrun]
  refine Spec.holds_of_change (D := E) (P := P) rfl ?_ ?_ ?_
  · exact Executing.rel (Nat.le_refl _) (.of_input_eq rfl rfl)
  · rw [Executing.inv_eq (D := E)]
    exact fun _ hm _ => ⟨hm.env.openGroup .., hm.input, hm.exact⟩
  · exact (forM_trace_spec _).executing

theorem closeGroup_spec : Spec E P closeGroup fun _ => True := by
  constructor
  intro m
  have hget : (get : Eng Machine) m = .ok m m := rfl
  unfold closeGroup
  rw [bind_of_ok hget]
  cases hclose : m.env.closeGroup Meaning.name (some m.page) with
  | error f => exact ⟨E.refl m, fun _ hm _ => hm⟩
  | ok c =>
    refine Spec.holds_of_change (D := E) (P := P) rfl ?_ ?_ ?_
    · exact Executing.rel (Nat.le_refl _) (.of_input_eq rfl rfl)
    · rw [Executing.inv_eq (D := E)]
      exact fun _ hm _ => ⟨(hm.env.closeGroup hclose).1, hm.input, hm.exact⟩
    · refine (forM_trace_spec _).executing.seq fun _ => (push_spec fun hP => ?_).executing
      have hm : m.Legal := Executing.inv_eq (D := E) ▸ hP.2
      exact (hm.env.closeGroup hclose).2

theorem takeBox_spec (n : Int64) (keep : Bool) :
    Spec E P (takeBox n keep) fun _ => True := by
  refine env_spec.executing.seq fun env => (logBoxes_spec _).seq fun _ => ?_
  dsimp only
  split
  · exact (assign_spec (fun _ => Assignment.legal_box ..) false).seq fun _ => .done
  · exact .done

/-! ## All assignments -/

variable (hx : x.KeepsTo advancing)

include hx

theorem assignQuantity_spec {μ : Meaning} (hμ : P → μ.Legal) :
    Spec E P (x.assignQuantity μ) fun _ => True := by
  refine assigning_spec fun global => (resolveMutable_spec hx hμ).executing.seq fun cell => ?_
  refine (scanOptionalEquals_spec hx).executing.seq fun _ => ?_
  refine (scanValue_spec hx cell.kind).executing.bind fun v => ?_
  exact cell.write_spec (fun hP => hP.2) global

theorem assignArithmetic_spec (op : ArithOp) (global : Bool) :
    Spec E P (x.assignArithmetic op global) fun _ => True := by
  refine (nextNonSpace?_spec hx).executing.required fun t => ?_
  refine (quantity?_spec t).executing.bind fun q => ?_
  split
  · exact failAt_spec ..
  · rename_i μ k hq
    obtain ⟨hmem, -⟩ := Option.filter_eq_some_iff.mp hq
    refine (resolveMutable_spec hx fun hP => hP.2 _ hmem).executing.bind fun cell => ?_
    refine (scanKeyword_spec hx _).executing.seq fun _ => ?_
    refine (Cell.read_spec fun hP => hP.2).executing.bind fun v => ?_
    extract_lets finish
    -- Whatever the operation was, its result is written back to the cell that was read.
    have hfinish : ∀ {P : Prop} (r : Value),
        Spec E (P ∧ r.Legal) (finish r) fun _ => True :=
      fun r => cell.write_spec (fun hP => hP.2) global
    cases op with
    | advance =>
      refine (scanValue_spec hx cell.kind).executing.bind fun w => ?_
      refine Spec.seq (observe_spec fun hP => ?_).executing fun _ => ?_
      · exact (Value.add_legal hP.1.2 hP.2).1
      · exact Spec.bind (arith_spec fun hP => (Value.add_legal hP.1.2 hP.2).2) hfinish
    | multiply =>
      refine (scanInteger_spec hx).executing.bind fun n => ?_
      refine Spec.seq (observe_spec fun hP => ?_).executing fun _ => ?_
      · exact (Value.multiply_legal hP.1.2 hP.2).1
      · exact Spec.bind (arith_spec fun hP => (Value.multiply_legal hP.1.2 hP.2).2) hfinish
    | divide =>
      refine (scanInteger_spec hx).executing.bind fun n => ?_
      refine Spec.seq (observe_spec fun hP => ?_).executing fun _ => ?_
      · exact (Value.divide_legal hP.1.2 n).1
      · exact Spec.bind (arith_spec fun hP => (Value.divide_legal hP.1.2 n).2) hfinish

theorem assignMacro_spec (alwaysGlobal expand global : Bool) :
    Spec E P (x.assignMacro alwaysGlobal expand global) fun _ => True := by
  refine get_spec.executing.seq fun m => scanDefinedToken_spec.executing.seq fun t => ?_
  refine (scanDefinition_spec hx _ _).executing.bind fun d => ?_
  exact bind_some_spec t (fun hP => hP.2) _

/-- A name is defined for what `read` gives. -/
theorem assignName_spec {read : Token → Eng Meaning}
    (hread : ∀ t, Spec E P (read t) Meaning.Legal) (global : Bool) :
    Spec E P (x.assignName read global) fun _ => True := by
  refine scanDefinedToken_spec.executing.seq fun t => ?_
  refine (bind_some_spec t (fun _ => Meaning.legal_relax) global).seq fun _ => ?_
  refine (scanOptionalEquals_spec hx).executing.seq fun _ => (hread t).bind fun μ => ?_
  exact bind_some_spec t (fun hP => hP.2) global

theorem scanFontDefinition_spec (command t : Token) :
    Spec E P (x.scanFontDefinition command t) Meaning.Legal := by
  refine (scanFileName_spec hx).executing.seq fun name => ?_
  extract_lets finish
  have hfinish : ∀ u, Spec E P (finish u) Meaning.Legal := by
    refine fun u => (scanFontSize_spec hx).executing.bind fun size => ?_
    refine Spec.seq (observe_spec fun hP => ?_).executing fun _ => ?_
    · exact (FontBook.inRange_ofSize (FontBook.inRange_loadSize hP.2)).1
    · refine env_spec.executing.bind fun env => ?_
      refine Spec.seq (modifyEnv_spec fun hP env' henv' => ?_) fun _ => .pure fun _ => True.intro
      exact { henv' with fonts := FontBook.inRange_load hP.2.fonts t.definedName name hP.1.2 }
  split
  · exact Spec.seq (Q := fun _ => True) (failAt_spec ..) hfinish
  · exact hfinish ()

theorem assignDirection_spec (command : Token) (global : Bool) :
    Spec E P (x.assignDirection command global) fun _ => True :=
  (scanDirection_spec hx command _).executing.seq fun _ =>
    (assign_spec (fun _ => Assignment.legal_direction _) global).seq fun _ =>
      (skipOptionalSpace_spec hx).executing

theorem beginBox_spec (kind : BoxKind) (start : Token) (deliver : Delivery) :
    Spec E P (x.beginBox kind start deliver) fun _ => True := by
  have hevery : ∀ (name : String), Spec E P (do push ((← env).tokens name)) fun _ => True :=
    fun name => env_spec.executing.bind fun _ =>
      (push_spec fun hP => hP.2.tokens name).executing
  refine (scanBoxSpec_spec hx).executing.seq fun spec => ?_
  refine (scanLeftBrace_spec hx).executing.seq fun _ => ?_
  refine Spec.seq
    (modifyRest_spec (fun _ => rfl) (fun _ => rfl) (fun _ => rfl) fun _ => rfl) fun _ => ?_
  cases kind with
  | horizontal => exact (openGroup_spec ..).seq fun _ => hevery "everyhbox"
  | vertical => exact (openGroup_spec ..).seq fun _ => hevery "everyvbox"

theorem assignBox_spec (global : Bool) : Spec E P (x.assignBox global) fun _ => True := by
  refine (scanRegisterNumber_spec hx).executing.seq fun n => ?_
  refine (scanOptionalEquals_spec hx).executing.seq fun _ => ?_
  refine (nextNonRelax?_spec hx).executing.required fun t => ?_
  extract_lets finish
  have hfinish : ∀ μ?, Spec E (P ∧ t.Legal) (finish μ?) fun _ => True := by
    intro μ?
    dsimp only [finish]
    split
    · exact beginBox_spec hx ..
    · refine (scanRegisterNumber_spec hx).executing.seq fun k => (takeBox_spec k _).seq fun b => ?_
      exact assign_spec (fun _ => Assignment.legal_box ..) global
    · exact (refuse_spec (fun hP => hP.2) ..).executing
  split
  · exact (meaning?_spec t).executing.seq hfinish
  · exact Spec.seq (Q := fun _ => True) (.done) hfinish

theorem performAssigner_spec (a : Assigner) (t : Token) (global : Bool) :
    Spec E P (x.performAssigner a t global) fun _ => True := by
  cases a with
  | arithmetic op => exact assignArithmetic_spec hx op global
  | define alwaysGlobal expand => exact assignMacro_spec hx alwaysGlobal expand global
  | copyMeaning => exact assignCopy_spec global
  | copyNextMeaning => exact assignCopyNext_spec global
  | charDef =>
    refine assignName_spec hx (fun _ => ?_) global
    refine .map (scanCharCode_spec hx).executing fun c hc => ?_
    exact hc
  | registerDef bank =>
    refine assignName_spec hx (fun _ => ?_) global
    exact .map (scanRegisterNumber_spec hx).executing fun _ _ => True.intro
  | setBox => exact assignBox_spec hx global
  | font => exact assignName_spec hx (scanFontDefinition_spec hx t) global
  | color =>
    exact (scanColor_spec hx t).executing.seq fun _ =>
      assign_spec (fun _ => Assignment.legal_color _) global
  | textDirection => exact assignDirection_spec hx t global

end Expander

end TexEngine
