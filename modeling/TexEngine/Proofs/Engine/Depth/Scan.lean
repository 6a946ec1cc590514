/-
  TexEngine.Proofs.Engine.Depth.Scan

  Numbers, lengths, texts and names are read without looking at the count of expansions: what
  reads them is parallel if the expanders are.
-/
import TexEngine.Engine.Scan.Tokens
import TexEngine.Proofs.Engine.Depth.Parallel

namespace TexEngine.Levels

open Eng Expander

variable {ℓ : Levels}

/-! ## Cells -/

theorem read_parallel (cell : Cell) : ℓ.Parallel cell.read cell.read := by
  refine .get_bind ?_
  rintro m _ ⟨-, -, rfl⟩
  cases cell with
  | register bank name => cases bank <;> exact .pure _
  | inputLine | groupLevel | conditionalLevel =>
    exact (observeLevel_parallel _).bind fun _ => .pure _
  | _ => exact .pure _

theorem write_parallel (cell : Cell) (v : Value) (global : Bool) :
    ℓ.Parallel (cell.write v global) (cell.write v global) := by
  unfold Cell.write
  split
  · exact assign_parallel ..
  · exact assign_parallel ..
  · exact assign_parallel ..
  · exact assign_parallel ..
  · exact .ite _ (assign_parallel ..) (fail_parallel ..)
  · exact .ite _ (fail_parallel ..) (assign_parallel ..)
  · exact modifyEnv_parallel _
  · exact .pure ()

theorem quantity?_parallel (t : Token) : ℓ.Parallel (quantity? t) (quantity? t) := by
  refine isFrozen_parallel.bind fun frozen => .ite _ (.pure _) ?_
  refine (meaning?_parallel t).bind fun μ? => ?_
  cases μ? <;> exact .pure _

variable {x x' : Expander} (h : ℓ.Expanders x x')
include h

/-! ## Keywords -/

theorem scanKeyword_parallel (keyword : String) :
    ℓ.Parallel (x.scanKeyword keyword) (x'.scanKeyword keyword) := by
  refine .iterate h.fuel (fun (wanted, started, seen) => ?_) _
  cases wanted with
  | nil => exact .pure _
  | cons k ks =>
    refine (next?_parallel h).bind fun t? => ?_
    cases t? with
    | none => exact (push_parallel _).bind fun _ => .pure _
    | some t =>
      exact .ite _ (.pure _) (.ite _ (.pure _) ((push_parallel _).bind fun _ => .pure _))

theorem scanOptionalEquals_parallel : ℓ.Parallel x.scanOptionalEquals x'.scanOptionalEquals := by
  refine (nextNonSpace?_parallel h).bind fun t? => ?_
  cases t? with
  | none => exact .pure ()
  | some t => exact .ite _ (.pure ()) (push_parallel _)

theorem skipOptionalSpace_parallel : ℓ.Parallel x.skipOptionalSpace x'.skipOptionalSpace := by
  refine (next?_parallel h).bind fun t? => ?_
  cases t? with
  | none => exact .pure ()
  | some t => exact .ite _ (.pure ()) (push_parallel _)

theorem scanSigns_parallel : ℓ.Parallel x.scanSigns x'.scanSigns :=
  .iterate h.fuel (fun _ => .required (next?_parallel h) fun _ =>
    .ite _ (.pure _) (.ite _ (.pure _) (.pure _))) _

/-! ## Integers -/

theorem scanRadix_parallel (radix : Int64) (first : Option Token) :
    ℓ.Parallel (x.scanRadix radix first) (x'.scanRadix radix first) := by
  refine .bind (.iterate h.fuel ?_ _) fun c =>
    .ite _ (fail_parallel ..) (.ite _ (fail_parallel ..) (.pure _))
  rintro ⟨c, first⟩
  dsimp -zeta only
  extract_lets stop next
  have hnext : ∀ t?, ℓ.Parallel (next t?) (next t?) := by
    intro t?
    cases t? with
    | none => exact .pure _
    | some t =>
      refine isFrozen_parallel.bind fun frozen => ?_
      split
      · exact (observe_parallel _).bind fun _ => .pure _
      · exact .ite _ (.pure _) ((push_parallel _).bind fun _ => .pure _)
  cases first with
  | none => exact (next?_parallel h).bind hnext
  | some t => exact .bind (.pure _) hnext

theorem scanCharConstant_parallel : ℓ.Parallel x.scanCharConstant x'.scanCharConstant := by
  refine .required token?_parallel fun t => ?_
  have hrest : ∀ c, ℓ.Parallel (do x.skipOptionalSpace; return Int64.ofInt c)
      (do x'.skipOptionalSpace; return Int64.ofInt c) :=
    fun c => (skipOptionalSpace_parallel h).bind fun _ => .pure _
  refine .ite _ ?_ (.bind (.pure _) hrest)
  split
  · exact .bind (.pure _) hrest
  · exact (failAt_parallel ..).bind hrest

theorem scanFont_parallel : ℓ.Parallel x.scanFont x'.scanFont := by
  refine .required (nextNonSpace?_parallel h) fun t => (meaning?_parallel t).bind fun μ? => ?_
  split
  · exact .pure _
  · exact env_parallel.bind fun _ => .pure _
  · exact (push_parallel _).bind fun _ => failAt_parallel ..

/-! ## Numbers that read numbers -/

section Numbers

variable {int int' : Eng Int64} (hint : ℓ.Parallel int int')
include hint

omit h in
theorem numberWith_parallel (max : Int64) :
    ℓ.Parallel (numberWith int max) (numberWith int' max) :=
  hint.bind fun _ => .ite _ (fail_parallel ..) (.pure _)

omit h in
theorem charCodeWith_parallel : ℓ.Parallel (charCodeWith int) (charCodeWith int') :=
  hint.bind fun _ => .ite _ (fail_parallel ..) (.pure _)

theorem resolveWith_parallel (μ : Meaning) :
    ℓ.Parallel (x.resolveWith int μ) (x'.resolveWith int' μ) := by
  unfold resolveWith
  split
  · exact .pure _
  · exact (numberWith_parallel hint _).bind fun _ => .pure _
  · exact .pure _
  · exact .pure _
  · exact .pure _
  · exact (charCodeWith_parallel hint).bind fun _ => .pure _
  · exact (charCodeWith_parallel hint).bind fun _ => .pure _
  · exact hint.bind fun n => (scanFont_parallel h).bind fun f =>
      .ite _ (fail_parallel ..) (.pure _)
  · exact .pure _
  · exact .pure _
  · exact .pure _

theorem unsignedWith_parallel (t : Token) :
    ℓ.Parallel (x.unsignedWith int t) (x'.unsignedWith int' t) := by
  refine (quantity?_parallel t).bind fun q => ?_
  split
  · exact (push_parallel _).bind fun _ => failAt_parallel ..
  · refine (resolveWith_parallel h hint _).bind fun cell => ?_
    exact (read_parallel cell).bind fun _ => .pure _
  · refine .ite _ (scanCharConstant_parallel h) (.ite _ (scanRadix_parallel h ..) ?_)
    refine .ite _ (scanRadix_parallel h ..) (.ite _ (scanRadix_parallel h ..) ?_)
    exact (push_parallel _).bind fun _ => failAt_parallel ..

end Numbers

theorem integerWithin_parallel (n : Nat) :
    ℓ.Parallel (x.integerWithin n) (x'.integerWithin n) := by
  induction n with
  | zero => exact .throw _
  | succ n ih =>
    refine (scanSigns_parallel h).bind fun (neg, t) => ?_
    refine (unsignedWith_parallel h ih t).bind fun v => ?_
    exact (observe_parallel _).bind fun _ => .pure _

theorem scanInteger_parallel : ℓ.Parallel x.scanInteger x'.scanInteger := by
  rw [scanInteger, scanInteger, h.fuel]
  exact integerWithin_parallel h _

theorem scanUnsigned_parallel (t : Token) :
    ℓ.Parallel (x.scanUnsigned t) (x'.scanUnsigned t) :=
  unsignedWith_parallel h (scanInteger_parallel h) t

theorem scanNumber_parallel (max : Int64) :
    ℓ.Parallel (x.scanNumber max) (x'.scanNumber max) :=
  numberWith_parallel (scanInteger_parallel h) max

theorem scanRegisterNumber_parallel : ℓ.Parallel x.scanRegisterNumber x'.scanRegisterNumber :=
  scanNumber_parallel h _

theorem scanCharCode_parallel : ℓ.Parallel x.scanCharCode x'.scanCharCode :=
  charCodeWith_parallel (scanInteger_parallel h)

theorem resolve_parallel (μ : Meaning) : ℓ.Parallel (x.resolve μ) (x'.resolve μ) :=
  resolveWith_parallel h (scanInteger_parallel h) μ

/-! ## Lengths -/

theorem scanDecimal_parallel (t : Token) :
    ℓ.Parallel (x.scanDecimal t) (x'.scanDecimal t) := by
  refine .bind (.iterate h.fuel ?_ _) fun p => (observe_parallel _).bind fun _ => .pure _
  rintro ⟨p, t⟩
  dsimp -zeta only
  extract_lets stop next next'
  have hnext : ∀ p?, ℓ.Parallel (next p?) (next' p?) := by
    intro p?
    cases p? with
    | none => exact .ite _ (.pure _) ((push_parallel _).bind fun _ => .pure _)
    | some p =>
      refine (next?_parallel h).bind fun t? => ?_
      cases t? with
      | none => exact .pure _
      | some t => exact .pure _
  refine isFrozen_parallel.bind fun frozen => ?_
  split
  · refine .ite _ (.bind (.pure _) hnext) ((observe_parallel _).bind fun _ => ?_)
    exact .ite _ ((fail_parallel ..).bind hnext) (.bind (.pure _) hnext)
  · exact .ite _ (.bind (.pure _) hnext) (.bind (.pure _) hnext)

theorem scanPhysicalUnit_parallel (us : List Dimen.PhysicalUnit) :
    ℓ.Parallel (x.scanPhysicalUnit us) (x'.scanPhysicalUnit us) := by
  induction us with
  | nil => exact .pure _
  | cons u us ih => exact (scanKeyword_parallel h _).bind fun _ => .ite _ (.pure _) ih

omit h in
theorem fontUnit_parallel (integer frac : Int64) (n : Int) :
    ℓ.Parallel (scanInternalUnit.fontUnit integer frac n)
      (scanInternalUnit.fontUnit integer frac n) :=
  env_parallel.bind fun _ => (observe_parallel _).bind fun _ => arith_parallel _

theorem scanInternalUnit_parallel (integer frac : Int64) :
    ℓ.Parallel (x.scanInternalUnit integer frac) (x'.scanInternalUnit integer frac) := by
  have hfont : ∀ n, ℓ.Parallel (some <$> scanInternalUnit.fontUnit integer frac n)
      (some <$> scanInternalUnit.fontUnit integer frac n) := fun n => (fontUnit_parallel ..).map
  refine (nextNonSpace?_parallel h).bind fun t? => ?_
  cases t? with
  | none => exact .pure _
  | some t =>
    refine (quantity?_parallel t).bind fun q => ?_
    split
    · refine (resolve_parallel h _).bind fun cell => (read_parallel cell).bind fun v => ?_
      exact (observe_parallel _).bind fun _ => (arith_parallel _).map
    · refine (push_parallel _).bind fun _ => (scanKeyword_parallel h _).bind fun _ => ?_
      refine .ite _ (hfont 6) ((scanKeyword_parallel h _).bind fun _ => ?_)
      exact .ite _ (hfont 5) (.pure _)

theorem scanTrueUnit_parallel (integer frac : Int64) :
    ℓ.Parallel (x.scanTrueUnit integer frac) (x'.scanTrueUnit integer frac) := by
  refine (scanKeyword_parallel h _).bind fun isTrue => ?_
  extract_lets unit unit'
  have hunit : ∀ amount, ℓ.Parallel (unit amount) (unit' amount) := by
    rintro ⟨integer, frac⟩
    refine (scanPhysicalUnit_parallel h _).bind fun u? => ?_
    cases u? with
    | some u => exact (observe_parallel _).bind fun _ => arith_parallel _
    | none =>
      refine (scanKeyword_parallel h _).bind fun _ => .ite _ ?_ (fail_parallel ..)
      exact .ite _ (fail_parallel ..) (.pure _)
  refine .ite _ (env_parallel.bind fun env => ?_) (.bind (.pure _) hunit)
  exact (observe_parallel _).bind fun _ => (arith_parallel _).bind hunit

theorem scanOrder_parallel (n : Nat) : ℓ.Parallel (x.scanOrder n) (x'.scanOrder n) := by
  induction n with
  | zero => exact .pure _
  | succ n ih =>
    exact (scanKeyword_parallel h _).bind fun _ => .ite _ (ih.bind fun _ => .pure _) (.pure _)

theorem scanInfiniteUnit_parallel (integer frac : Int64) :
    ℓ.Parallel (x.scanInfiniteUnit integer frac) (x'.scanInfiniteUnit integer frac) := by
  refine (scanKeyword_parallel h _).bind fun _ => .ite _ ?_ (.pure _)
  refine (scanOrder_parallel h 2).bind fun _ => .ite _ (fail_parallel ..) ?_
  exact (observe_parallel _).bind fun _ => .pure _

theorem scanUnits_parallel (neg : Bool) (integer frac : Int64) (infinite : Bool) :
    ℓ.Parallel (x.scanUnits neg integer frac infinite)
      (x'.scanUnits neg integer frac infinite) := by
  unfold scanUnits
  extract_lets finish unit finish' unit'
  have hfinish : ∀ c, ℓ.Parallel (finish c) (finish' c) := fun c =>
    (skipOptionalSpace_parallel h).bind fun _ => (observe_parallel _).bind fun _ =>
      (arith_parallel _).bind fun _ => .pure _
  have hunit : ∀ c?, ℓ.Parallel (unit c?) (unit' c?) := by
    intro c?
    cases c? with
    | some c => exact .bind (.pure _) hfinish
    | none =>
      refine (scanInternalUnit_parallel h ..).bind fun d? => ?_
      cases d? with
      | some d => exact .bind (.pure _) hfinish
      | none => exact (scanTrueUnit_parallel h ..).bind fun _ => .bind (.pure _) hfinish
  exact .ite _ ((scanInfiniteUnit_parallel h ..).bind hunit) (.bind (.pure _) hunit)

theorem scanDimenFrom_parallel (neg : Bool) (t : Token) (infinite : Bool) :
    ℓ.Parallel (x.scanDimenFrom neg t infinite) (x'.scanDimenFrom neg t infinite) := by
  unfold scanDimenFrom
  extract_lets units units'
  have hunits : ∀ integer frac, ℓ.Parallel (units integer frac) (units' integer frac) :=
    fun integer frac => .ite _ ((observe_parallel _).bind fun _ => scanUnits_parallel h ..)
      (scanUnits_parallel h ..)
  refine (quantity?_parallel t).bind fun q => ?_
  split
  · refine (resolve_parallel h _).bind fun cell => (read_parallel cell).bind fun v => ?_
    split
    · exact hunits _ 0
    · exact failAt_parallel ..
    · exact (observe_parallel _).bind fun _ => .pure _
  · refine .ite _ ((scanDecimal_parallel h t).bind fun (integer, frac) => hunits integer frac) ?_
    exact (scanUnsigned_parallel h t).bind fun n => hunits n 0

theorem scanDimen_parallel : ℓ.Parallel x.scanDimen x'.scanDimen :=
  (scanSigns_parallel h).bind fun _ => (scanDimenFrom_parallel h ..).bind fun _ => .pure _

/-! ## Glue -/

theorem scanComponent_parallel : ℓ.Parallel x.scanComponent x'.scanComponent :=
  (scanSigns_parallel h).bind fun _ => (scanDimenFrom_parallel h ..).bind fun _ => .pure _

theorem scanOptionalComponent_parallel (keyword : String) :
    ℓ.Parallel (x.scanOptionalComponent keyword) (x'.scanOptionalComponent keyword) :=
  (scanKeyword_parallel h _).bind fun _ => .ite _ (scanComponent_parallel h) (.pure _)

theorem scanGlue_parallel : ℓ.Parallel x.scanGlue x'.scanGlue := by
  refine (scanSigns_parallel h).bind fun (neg, t) => (quantity?_parallel t).bind fun q => ?_
  split
  · refine (resolve_parallel h _).bind fun cell => (read_parallel cell).bind fun v => ?_
    split
    · exact (observe_parallel _).bind fun _ => .pure _
    · exact .pure _
  · refine (scanDimenFrom_parallel h ..).bind fun _ => ?_
    refine (scanOptionalComponent_parallel h _).bind fun _ => ?_
    exact (scanOptionalComponent_parallel h _).bind fun _ => .pure _

/-! ## Texts -/

theorem scanBalanced_parallel : ℓ.Parallel x.scanBalanced x'.scanBalanced := by
  refine .iterate h.fuel (fun (depth, seen) => .required token?_parallel fun t => ?_) _
  split <;> exact .pure _

theorem scanLeftBrace_parallel : ℓ.Parallel x.scanLeftBrace x'.scanLeftBrace := by
  refine .required (nextNonRelax?_parallel h) fun t => .ite _ (.pure ()) ?_
  refine (meaning?_parallel t).bind fun μ? => ?_
  split
  · exact .ite _ (.pure ()) ((push_parallel _).bind fun _ => failAt_parallel ..)
  · exact (push_parallel _).bind fun _ => failAt_parallel ..

theorem theTokens_parallel : ℓ.Parallel x.theTokens x'.theTokens := by
  refine .required (next?_parallel h) fun t => (quantity?_parallel t).bind fun q => ?_
  split
  · exact (resolve_parallel h _).bind fun cell => (read_parallel cell).bind fun _ => .pure _
  · refine isFrozen_parallel.bind fun frozen => ?_
    extract_lets shown
    have hshown : ∀ μ?, ℓ.Parallel (shown μ?) (shown μ?) := by
      intro μ?
      dsimp only [shown]
      split
      · exact .pure _
      · exact env_parallel.bind fun _ => .pure _
      · exact (push_parallel _).bind fun _ => failAt_parallel ..
    exact .ite _ (.bind (.pure _) hshown) ((meaning?_parallel t).bind hshown)

theorem expandItem_parallel (t : Token) : ℓ.Parallel (x.expandItem t) (x'.expandItem t) := by
  refine isFrozen_parallel.bind fun frozen => .ite _ (.pure _) ?_
  refine (meaning?_parallel t).bind fun μ? => ?_
  split
  · exact (theTokens_parallel h).bind fun _ => .pure _
  · exact .ite _ (.pure _) ((h.expand _ t).bind fun _ => .pure _)
  · exact .ite _ ((h.expand _ t).bind fun _ => .pure _) (.pure _)
  · exact .pure _

theorem expandBalanced_parallel : ℓ.Parallel x.expandBalanced x'.expandBalanced := by
  refine .iterate h.fuel (fun (depth, seen) => .required token?_parallel fun t => ?_) _
  refine (expandItem_parallel h t).bind fun item => ?_
  cases item with
  | final ts => exact .pure _
  | expanded => exact .pure _
  | plain =>
    dsimp only
    split <;> exact .pure _

theorem scanGeneralText_parallel : ℓ.Parallel x.scanGeneralText x'.scanGeneralText :=
  (scanLeftBrace_parallel h).bind fun _ => expandBalanced_parallel h

theorem scanToksValue_parallel : ℓ.Parallel x.scanToksValue x'.scanToksValue := by
  refine .required (nextNonRelax?_parallel h) fun t => (quantity?_parallel t).bind fun q => ?_
  split
  · refine (resolve_parallel h _).bind fun cell => (read_parallel cell).bind fun v => ?_
    split <;> exact .pure _
  · refine (push_parallel _).bind fun _ => (scanLeftBrace_parallel h).bind fun _ => ?_
    exact scanBalanced_parallel h

theorem scanValue_parallel (kind : ValueKind) :
    ℓ.Parallel (x.scanValue kind) (x'.scanValue kind) := by
  cases kind with
  | int => exact (scanInteger_parallel h).map
  | dimen => exact (scanDimen_parallel h).map
  | glue => exact (scanGlue_parallel h).map
  | toks => exact (scanToksValue_parallel h).map

/-! ## Names -/

theorem scanDefinedToken_parallel : ℓ.Parallel x.scanDefinedToken x'.scanDefinedToken :=
  .iterate h.fuel (fun _ => .required token?_parallel fun _ => .ite _ (.pure _)
    (.ite _ ((push_parallel _).bind fun _ => failAt_parallel ..) (.pure _))) _

theorem scanFileName_parallel : ℓ.Parallel x.scanFileName x'.scanFileName := by
  refine .required (nextNonSpace?_parallel h) fun t => ?_
  refine .ite _ ((expandBalanced_parallel h).bind fun _ => .pure _) ?_
  refine .iterate h.fuel (fun (t, name) => isFrozen_parallel.bind fun frozen => ?_) _
  refine .ite _ (.ite _ (.pure _) ((push_parallel _).bind fun _ => .pure _)) ?_
  refine (next?_parallel h).bind fun t? => ?_
  cases t? <;> exact .pure _

theorem scanCsname_parallel : ℓ.Parallel x.scanCsname x'.scanCsname := by
  refine .iterate h.fuel (fun name => .required (next?_parallel h) fun t => ?_) _
  refine .ite _ (isFrozen_parallel.bind fun frozen => ?_) (.pure _)
  refine (meaning?_parallel t).bind fun _ => .ite _ (.pure _) ?_
  exact (push_parallel _).bind fun _ => failAt_parallel ..

end TexEngine.Levels
