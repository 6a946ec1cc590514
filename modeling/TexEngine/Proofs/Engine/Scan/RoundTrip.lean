/-
  TexEngine.Proofs.Engine.Scan.RoundTrip

  Values that are written as \the writes them are read back.  The text of a value is
  put in front of an input that cannot be part of it: an input that is empty or goes
  on with a control sequence that is not expanded.  Then an integer, a length or a
  glue is read as what was written, and what follows is still there.

  A glue is the hardest of the three.  Its width, stretch and shrink are components
  that are written alike (`componentChars`), and the stretch and the shrink are left
  out where they are zero; `behind` is the machine behind one component, wherever
  that is.
-/
import Std.Data.TreeMap.Lemmas
import TexEngine.Engine.Expand
import TexEngine.Proofs.Engine.Scan.Dimen

namespace TexEngine

/-! ## Texts of components -/

/-- The text of a component. -/
def componentChars (c : GlueComponent) : List Char :=
  signChars (c.value < 0) ++
    (Expander.decimalChars c.value.toInt.natAbs ++ Expander.unitChars c.order)

theorem GlueComponent.toList_text {c : GlueComponent} (hc : Dimen.InRange c.value) :
    c.text.toList = componentChars c := by
  have hsize : c.value.toInt.natAbs < 2 ^ 63 :=
    Nat.lt_of_le_of_lt (Dimen.inRange_iff.mp hc) (by decide)
  have hnumber : (Dimen.formatScaled c.value).toList =
      signChars (c.value < 0) ++ Expander.decimalChars c.value.toInt.natAbs :=
    Dimen.toList_formatScaled hsize
  unfold text componentChars Expander.unitChars
  by_cases horder : c.order = 0
  · rw [if_pos (by simpa using horder), if_pos horder, Dimen.text, String.toList_append, hnumber,
      List.append_assoc]
    rfl
  · have hletters : (String.ofList (List.replicate c.order 'l')).toList =
        List.replicate c.order 'l' := String.toList_ofList
    rw [if_neg (by simpa using horder), if_neg horder, String.toList_append, String.toList_append,
      hletters, hnumber, List.append_assoc, List.append_assoc]
    rfl

theorem GlueComponent.eq_empty_of_isZero {c : GlueComponent} (hc : c.IsProper)
    (hzero : c.isZero = true) : c = {} := by
  have hvalue : c.value = 0 := by simpa [isZero] using hzero
  have horder := hc.order_eq_zero hvalue
  cases c
  simp_all

theorem GlueComponent.normalize_of_not_isZero {c : GlueComponent} (hc : c.isZero = false) :
    c.normalize = c := by
  rw [normalize, hc]
  rfl

/-- The text of the stretch or shrink of a glue, behind a keyword. -/
def optionalChars (keyword : String) (c : GlueComponent) : List Char :=
  if c.isZero then [] else ' ' :: (keyword.toList ++ ' ' :: componentChars c)

theorem toList_optional {keyword spaced : String}
    (hspaced : spaced.toList = ' ' :: (keyword.toList ++ [' '])) {c : GlueComponent}
    (hc : Dimen.InRange c.value) :
    (if c.isZero then "" else spaced ++ c.text).toList = optionalChars keyword c := by
  unfold optionalChars
  split
  · rfl
  · rw [String.toList_append, hspaced, GlueComponent.toList_text hc, List.cons_append,
      List.append_assoc]
    rfl

theorem Dimen.toList_text {d : Dimen} (hd : InRange d) :
    (text d).toList = componentChars ⟨d, 0⟩ := by
  have htext : GlueComponent.text ⟨d, 0⟩ = text d := if_pos rfl
  rw [← htext]
  exact GlueComponent.toList_text hd

theorem Glue.toList_text {g : Glue} (hg : g.IsProper) :
    g.text.toList = componentChars ⟨g.width, 0⟩ ++
      (optionalChars "plus" g.stretch ++ optionalChars "minus" g.shrink) := by
  have hplus : " plus ".toList = ' ' :: ("plus".toList ++ [' ']) := by decide
  have hminus : " minus ".toList = ' ' :: ("minus".toList ++ [' ']) := by decide
  rw [text, String.toList_append, String.toList_append, Dimen.toList_text hg.inRange,
    toList_optional hplus hg.stretch.inRange, toList_optional hminus hg.shrink.inRange,
    List.append_assoc]

namespace Expander

open Eng

variable {x : Expander} {m m' p : Machine}

/-! ## Integers -/

theorem isSign_of_mem_signChars (neg : Bool) :
    ∀ c ∈ signChars neg, c = '+' ∨ c = '-' ∨ c = ' ' := by
  intro c hc
  cases neg with
  | false => exact absurd hc List.not_mem_nil
  | true => exact .inr (.inl (List.mem_singleton.mp hc))

theorem ofDigitChars_toDigits_le {v : Int64} (hv : Count.InRange v) :
    Nat.ofDigitChars 10 (Nat.toDigits 10 v.toInt.natAbs) 0 ≤ Count.max.toInt := by
  have hmax : Count.max.toInt = 0x7FFFFFFF := by decide
  have hle := Count.inRange_iff.mp hv
  rw [Nat.ofDigitChars_ten_toDigits, hmax]
  omega

/-- The text of an integer as a literal. -/
def literalOf (v : Int64) (hv : Count.InRange v) : Literal where
  signs := signChars (v < 0)
  digits := Nat.toDigits 10 v.toInt.natAbs
  isSign := isSign_of_mem_signChars _
  isDigit := isDigit_of_mem_toDigits _
  digits_ne_nil := Nat.toDigits_ne_nil
  le_max := ofDigitChars_toDigits_le hv

theorem tokens_literalOf {v : Int64} (hv : Count.InRange v) :
    (literalOf v hv).tokens = (Value.int v).tokens := by
  show _ = (Count.text v).toList.map TokenList.ofChar
  rw [Count.toList_text]
  rfl

theorem isNegated_signChars (neg : Bool) :
    isNegated ((signChars neg).map TokenList.ofChar) = neg := by
  cases neg <;> decide

theorem word_literalOf {v : Int64} (hv : Count.InRange v) : (literalOf v hv).word = v := by
  have hsplit := eq_ofNat_natAbs v
  show (if isNegated ((signChars (v < 0)).map TokenList.ofChar) then _ else _) = v
  rw [isNegated_signChars, show (literalOf v hv).digits = Nat.toDigits 10 v.toInt.natAbs from rfl,
    Nat.ofDigitChars_ten_toDigits]
  simpa using hsplit.symm

/-- An integer is read back. -/
theorem scanInteger_tokens {v : Int64} (hv : Count.InRange v) (hfuel : 16 ≤ x.fuel)
    (hm : m.marked = none) (hend : x.Ends (m.ready.feed []) p) :
    x.scanInteger (m.feed (Value.int v).tokens) = .ok v p := by
  have hdigits : (Nat.toDigits 10 v.toInt.natAbs).length ≤ 10 := by
    have hle := Count.inRange_iff.mp hv
    exact (Nat.length_toDigits_le_iff (by omega) (by omega)).mpr (by omega)
  have hlength : (literalOf v hv).tokens.length ≤ 11 := by
    have hsign : (signChars (v < 0)).length ≤ 1 := by
      cases decide (v < 0) <;> decide
    rw [Literal.length_tokens]
    show (signChars (v < 0)).length + (Nat.toDigits 10 v.toInt.natAbs).length ≤ 11
    omega
  have hread := (literalOf v hv).scanInteger_tokens x (by omega) [] m p hm hend.endsDigits
  rwa [List.append_nil, tokens_literalOf, word_literalOf] at hread

/-! ## Components -/

/-- The space between a keyword and a component. -/
def blankChars (spaced : Bool) : List Char :=
  if spaced then [' '] else []

theorem signed_natAbs (v : Int64) : signed (v < 0) v.toInt.natAbs = v := by
  have hsplit := eq_ofNat_natAbs v
  unfold signed
  simpa using hsplit.symm

/-- The sign of a component is read with the space in front of it, and the rest is
    read as the component. -/
theorem exists_scanSigns_component {c : GlueComponent} (hrange : Dimen.InRange c.value)
    (horder : c.order ≤ 3) (infinite : Bool) (hinfinite : c.order ≠ 0 → infinite = true)
    (hfuel : 16 ≤ x.fuel) (hm : m.marked = none) {ts : TokenList}
    (hend : x.EndsUnit (m.ready.feed ts) m') (spaced : Bool) :
    ∃ neg t m₁, t.isCommand = false ∧
      x.scanSigns (m.feed ((blankChars spaced ++ componentChars c).map TokenList.ofChar ++ ts)) =
        .ok (neg, t) m₁ ∧
      x.scanDimenFrom neg t infinite m₁ = .ok c m' := by
  obtain ⟨d, ds, hdigits, hd⟩ := exists_decimalChars_eq_cons c.value.toInt.natAbs
  have hchars : decimalChars c.value.toInt.natAbs ++ unitChars c.order =
      d :: (ds ++ unitChars c.order) := by
    rw [hdigits, List.cons_append]
  have hsize : c.value.toInt.natAbs < 2 ^ 30 :=
    Nat.lt_of_le_of_lt (Dimen.inRange_iff.mp hrange) (by decide)
  have hcomponent := scanDimenFrom_component hsize horder hinfinite
    hfuel hend (decide (c.value < 0)) hchars
  rw [signed_natAbs] at hcomponent
  -- At most a space and a minus sign stand in front of the number.
  have hsigns : ∀ spaced neg : Bool,
      (∀ s ∈ (blankChars spaced ++ signChars neg).map TokenList.ofChar, (signFlip? s).isSome) ∧
        isNegated ((blankChars spaced ++ signChars neg).map TokenList.ofChar) = neg ∧
        ((blankChars spaced ++ signChars neg).map TokenList.ofChar).length ≤ 2 := by
    decide
  obtain ⟨hflip, hneg, hlength⟩ := hsigns spaced (decide (c.value < 0))
  have hread := x.scanSigns_feed _ (TokenList.ofChar d)
    ((ds ++ unitChars c.order).map TokenList.ofChar ++ ts) (by omega) hflip
    (signFlip?_of_digit? (digit?_ofChar hd)) m hm
    (unexpandable_of_not_isCommand _ (not_isCommand_ofChar d))
  rw [hneg] at hread
  refine ⟨_, _, _, not_isCommand_ofChar d, ?_, hcomponent⟩
  rw [← hread, componentChars, hchars]
  congr 2
  simp

/-- A length is read back. -/
theorem scanDimen_tokens {d : Dimen} (hd : Dimen.InRange d) (hfuel : 16 ≤ x.fuel)
    (hm : m.marked = none) (hend : x.Ends (m.ready.feed []) p) :
    x.scanDimen (m.feed (Value.dimen d).tokens) = .ok d p := by
  obtain ⟨neg, t, m₁, -, hsigns, hread⟩ := exists_scanSigns_component (c := ⟨d, 0⟩) hd
    (Nat.zero_le 3) false (fun h => absurd rfl h) hfuel hm (hend.endsUnit (by omega)) false
  have htokens : (Value.dimen d).tokens =
      (blankChars false ++ componentChars ⟨d, 0⟩).map TokenList.ofChar ++ [] := by
    rw [List.append_nil, ← Dimen.toList_text hd]
    rfl
  unfold scanDimen
  rw [htokens, bind_of_ok hsigns]
  dsimp only
  rw [bind_of_ok hread]
  rfl

/-! ## Glue -/

/-- The machine behind a component, if `ts` follows it in front of the rest: the
    space has been read, and `p` is the machine at the rest. -/
def behind (m p : Machine) : TokenList → Machine
  | [] => p
  | _ :: ts => m.ready.feed ts

/-- What can follow a component: nothing, or a space and a keyword that does not
    begin with l. -/
inductive Follows : TokenList → Prop where
  | nil : Follows []
  | keyword {c : CharCode} (hc : Misses 108 (.other c)) (ts : TokenList) :
      Follows (.space :: .other c :: ts)

theorem Follows.endsUnit {ts : TokenList} (h : Follows ts) (hx : 1 < x.fuel)
    (hend : x.Ends (m.ready.feed []) p) : x.EndsUnit (m.ready.feed ts) (behind m p ts) := by
  cases h with
  | nil => exact hend.endsUnit (by omega)
  | keyword hc ts => exact endsUnit_space hx hc m ts

/-- The tokens of the stretch or shrink of a glue. -/
def optionalTokens (keyword : String) (c : GlueComponent) : TokenList :=
  (optionalChars keyword c).map TokenList.ofChar

theorem optionalTokens_of_isZero (keyword : String) {c : GlueComponent} (hc : c.isZero = true) :
    optionalTokens keyword c = [] := by
  rw [optionalTokens, optionalChars, if_pos hc]
  rfl

theorem optionalTokens_of_not_isZero (keyword : String) {c : GlueComponent}
    (hc : c.isZero = false) :
    optionalTokens keyword c = .space :: (keyword.toList.map TokenList.ofChar ++
      (blankChars true ++ componentChars c).map TokenList.ofChar) := by
  rw [optionalTokens, optionalChars, hc, if_neg Bool.false_ne_true, List.map_cons,
    List.map_append]
  rfl

/-- A component behind its keyword is read. -/
theorem scanOptionalComponent_of_not_isZero (keyword : String) (ks : List CharCode)
    (hkeyword : CharCode.ofText (Text.toSmallText keyword) = ks)
    (hks : ∀ k ∈ ks, Text.toSmall k = k)
    (htokens : keyword.toList.map TokenList.ofChar = ks.map Token.other)
    (hlength : ks.length < 16) {c : GlueComponent} (hc : c.IsProper) (hzero : c.isZero = false)
    (hfuel : 16 ≤ x.fuel) {ts : TokenList} (hend : x.EndsUnit (m.ready.feed ts) m') :
    x.scanOptionalComponent keyword (behind m p (optionalTokens keyword c ++ ts)) = .ok c m' := by
  have hbehind : behind m p (optionalTokens keyword c ++ ts) =
      m.ready.feed (ks.map Token.other ++
        ((blankChars true ++ componentChars c).map TokenList.ofChar ++ ts)) := by
    rw [optionalTokens_of_not_isZero keyword hzero, ← htokens, List.cons_append,
      List.append_assoc]
    rfl
  have hfound := scanKeyword_feed (x := x) keyword ks hkeyword hks (by omega) m
    ((blankChars true ++ componentChars c).map TokenList.ofChar ++ ts)
  obtain ⟨neg, t, m₁, -, hsigns, hread⟩ := exists_scanSigns_component (m := m.ready)
    hc.inRange hc.order_le true (fun _ => rfl) hfuel rfl hend true
  unfold scanOptionalComponent
  rw [hbehind, bind_of_ok hfound]
  simp only [if_true]
  unfold scanComponent
  rw [bind_of_ok hsigns]
  dsimp only
  rw [bind_of_ok hread, GlueComponent.normalize_of_not_isZero hzero]
  rfl

/-- Where the keyword is not found, the component is zero. -/
theorem scanOptionalComponent_of_isZero {keyword : String} {c : GlueComponent} (hc : c.IsProper)
    (hzero : c.isZero = true) (hmissing : x.scanKeyword keyword m = .ok false m') :
    x.scanOptionalComponent keyword m = .ok c m' := by
  rw [GlueComponent.eq_empty_of_isZero hc hzero]
  unfold scanOptionalComponent
  rw [bind_of_ok hmissing]
  rfl

/-- The shrink is read at the end of a glue. -/
theorem scanOptionalComponent_minus {c : GlueComponent} (hc : c.IsProper) (hfuel : 16 ≤ x.fuel)
    (hend : x.Ends (m.ready.feed []) p) :
    x.scanOptionalComponent "minus" (behind m p (optionalTokens "minus" c)) = .ok c p := by
  cases hzero : c.isZero with
  | true =>
    rw [optionalTokens_of_isZero "minus" hzero]
    exact scanOptionalComponent_of_isZero hc hzero
      (hend.again.scanKeyword "minus" 109 [105, 110, 117, 115] rfl (by omega))
  | false =>
    rw [← List.append_nil (optionalTokens "minus" c)]
    exact scanOptionalComponent_of_not_isZero "minus" [109, 105, 110, 117, 115] rfl (by decide)
      (by decide) (by decide) hc hzero hfuel (hend.endsUnit (by omega))

theorem follows_minus (c : GlueComponent) : Follows (optionalTokens "minus" c) := by
  cases hzero : c.isZero with
  | true =>
    rw [optionalTokens_of_isZero "minus" hzero]
    exact .nil
  | false =>
    rw [optionalTokens_of_not_isZero "minus" hzero]
    exact .keyword (c := 109) ⟨by decide, rfl⟩ _

theorem follows_plus (c c' : GlueComponent) :
    Follows (optionalTokens "plus" c ++ optionalTokens "minus" c') := by
  cases hzero : c.isZero with
  | true =>
    rw [optionalTokens_of_isZero "plus" hzero, List.nil_append]
    exact follows_minus c'
  | false =>
    rw [optionalTokens_of_not_isZero "plus" hzero]
    exact .keyword (c := 112) ⟨by decide, rfl⟩ _

/-- The stretch is read in front of the shrink.  If there is none, the keyword is
    looked for in vain, at the shrink or at the end of the glue. -/
theorem scanOptionalComponent_plus {c : GlueComponent} (hc : c.IsProper) (c' : GlueComponent)
    (hfuel : 16 ≤ x.fuel) (hend : x.Ends (m.ready.feed []) p) :
    x.scanOptionalComponent "plus"
        (behind m p (optionalTokens "plus" c ++ optionalTokens "minus" c')) =
      .ok c (behind m p (optionalTokens "minus" c')) := by
  cases hzero : c.isZero with
  | true =>
    rw [optionalTokens_of_isZero "plus" hzero, List.nil_append]
    apply scanOptionalComponent_of_isZero hc hzero
    -- What follows is the end of the glue, or the letter m of minus.
    cases hzero' : c'.isZero with
    | true =>
      rw [optionalTokens_of_isZero "minus" hzero']
      exact hend.again.scanKeyword "plus" 112 [108, 117, 115] rfl (by omega)
    | false =>
      rw [optionalTokens_of_not_isZero "minus" hzero']
      exact scanKeyword_of_misses "plus" 112 [108, 117, 115] rfl (by omega) (c := 109)
        ⟨by decide, rfl⟩ m _
  | false =>
    exact scanOptionalComponent_of_not_isZero "plus" [112, 108, 117, 115] rfl (by decide)
      (by decide) (by decide) hc hzero hfuel ((follows_minus c').endsUnit (by omega) hend)

/-- A glue is read back. -/
theorem scanGlue_tokens {g : Glue} (hg : g.IsProper) (hfuel : 16 ≤ x.fuel)
    (hm : m.marked = none) (hend : x.Ends (m.ready.feed []) p) :
    x.scanGlue (m.feed (Value.glue g).tokens) = .ok g p := by
  have hfollows := (follows_plus g.stretch g.shrink).endsUnit (x := x) (by omega) hend
  obtain ⟨neg, t, m₁, hcommand, hsigns, hwidth⟩ := exists_scanSigns_component (c := ⟨g.width, 0⟩)
    hg.inRange (Nat.zero_le 3) false (fun h => absurd rfl h) hfuel hm hfollows false
  have hstretch := scanOptionalComponent_plus hg.stretch g.shrink hfuel hend
  have hshrink := scanOptionalComponent_minus hg.shrink hfuel hend
  have htokens : (Value.glue g).tokens =
      (blankChars false ++ componentChars ⟨g.width, 0⟩).map TokenList.ofChar ++
        (optionalTokens "plus" g.stretch ++ optionalTokens "minus" g.shrink) := by
    show g.text.toList.map TokenList.ofChar = _
    rw [Glue.toList_text hg, List.map_append, List.map_append]
    rfl
  unfold scanGlue
  rw [htokens, bind_of_ok hsigns]
  dsimp only
  rw [bind_of_ok (quantity?_of_not_isCommand hcommand m₁)]
  dsimp only
  rw [bind_of_ok hwidth, bind_of_ok hstretch, bind_of_ok hshrink]
  rfl

/-! ## All values -/

/-- The tokens `ts` in front of the input of `m` are read as `a`, and what is read
    next is what would have been read without them. -/
def ReadsBack {α : Type} (scan : Eng α) (ts : TokenList) (a : α) (m : Machine) : Prop :=
  ∃ m', (do push ts; scan : Eng α) m = .ok a m' ∧ token? m' = token? m

theorem readsBack_of_peek {α : Type} {scan : Eng α} {ts : TokenList} {a : α} (hts : ts ≠ [])
    (hm : m.marked = none) {t? : Option Token} (hrest : token? m = .ok t? m')
    (hscan : scan (m.feed ts) = .ok a m.peek) : ReadsBack scan ts a m := by
  refine ⟨m.peek, ?_, ?_⟩
  · rw [bind_of_ok (push_apply m hts)]
    exact hscan
  · rw [token?_peek hm hrest, hrest]

theorem componentChars_ne_nil (c : GlueComponent) : componentChars c ≠ [] := by
  obtain ⟨d, ds, hdigits, -⟩ := exists_decimalChars_eq_cons c.value.toInt.natAbs
  rw [componentChars, hdigits]
  simp

theorem tokens_int_ne_nil (v : Int64) : (Value.int v).tokens ≠ [] := by
  show (Count.text v).toList.map TokenList.ofChar ≠ []
  rw [Count.toList_text]
  simp [Nat.toDigits_ne_nil]

theorem tokens_dimen_ne_nil {d : Dimen} (hd : Dimen.InRange d) : (Value.dimen d).tokens ≠ [] := by
  show (Dimen.text d).toList.map TokenList.ofChar ≠ []
  rw [Dimen.toList_text hd]
  simp [componentChars_ne_nil]

theorem tokens_glue_ne_nil {g : Glue} (hg : g.IsProper) : (Value.glue g).tokens ≠ [] := by
  show g.text.toList.map TokenList.ofChar ≠ []
  rw [Glue.toList_text hg]
  simp [componentChars_ne_nil]

/-- Reading undoes writing: the text of an integer, a length or a glue that a register
    can hold is read as this value, and nothing of what follows it is read. -/
theorem scan_tokens_eq_value (x : Expander) (hfuel : 16 ≤ x.fuel) (m : Machine)
    (hm : m.marked = none) {t? : Option Token} {m₁ : Machine} (hrest : token? m = .ok t? m₁)
    (ht : ∀ t ∈ t?, t.isCs = true ∧ Unexpandable m.env t) :
    (∀ v : Int64, Count.InRange v → ReadsBack x.scanInteger (Value.int v).tokens v m) ∧
    (∀ d : Dimen, Dimen.InRange d → ReadsBack x.scanDimen (Value.dimen d).tokens d m) ∧
    (∀ g : Glue, g.IsProper → ReadsBack x.scanGlue (Value.glue g).tokens g m) := by
  have hend : x.Ends (m.ready.feed []) m.peek := ends_peek (by omega) hm hrest ht
  refine ⟨?_, ?_, ?_⟩
  · intro v hv
    exact readsBack_of_peek (tokens_int_ne_nil v) hm hrest (scanInteger_tokens hv hfuel hm hend)
  · intro d hd
    exact readsBack_of_peek (tokens_dimen_ne_nil hd) hm hrest (scanDimen_tokens hd hfuel hm hend)
  · intro g hg
    exact readsBack_of_peek (tokens_glue_ne_nil hg) hm hrest (scanGlue_tokens hg hfuel hm hend)

/-- A machine whose input is the control sequence \relax. -/
def relaxMachine : Machine :=
  Machine.feed { env := { codes := Std.TreeMap.ofList [("relax", Meaning.relax)] } } [.cs "relax"]

/-- The glue -0.00002pt plus 1.5fill -/
def smallGlue : Glue :=
  { width := -1, stretch := ⟨98304, 2⟩ }

theorem scan_tokens_eq_value_relax :
    (Value.glue smallGlue).tokens = TokenList.ofText "-0.00002pt plus 1.5fill" ∧
    ReadsBack (ofDepth 64 5000).scanInteger (Value.int (-2147483647)).tokens (-2147483647)
      relaxMachine ∧
    ReadsBack (ofDepth 64 5000).scanDimen (Value.dimen Dimen.max).tokens Dimen.max relaxMachine ∧
    ReadsBack (ofDepth 64 5000).scanGlue (Value.glue smallGlue).tokens smallGlue relaxMachine := by
  have hunexp : Unexpandable relaxMachine.env (.cs "relax") := by
    intro _ μ hμ
    have hmeaning : meaningIn relaxMachine.env (.cs "relax") = some Meaning.relax :=
      Std.TreeMap.getElem?_ofList_of_mem Std.ReflCmp.compare_self (by simp) List.mem_cons_self
    rw [hmeaning] at hμ
    injection hμ with hμ
    rw [← hμ]
    rfl
  obtain ⟨hint, hdimen, hglue⟩ := scan_tokens_eq_value (ofDepth 64 5000) (by decide) relaxMachine
    rfl (token?_feed_cons _ _ _ (by simp)) (by simpa using ⟨rfl, hunexp⟩)
  exact ⟨by decide, hint _ (by decide), hdimen _ (by decide),
    hglue _ ⟨by decide, ⟨by decide, by decide, by decide⟩, ⟨by decide, by decide, by decide⟩⟩⟩

end Expander

end TexEngine
