/-
  TexEngine.Proofs.Engine.Ending.Weights

  What the texts weigh that expansion can produce while only primitives are defined.
  Numbers weigh nothing, and the text of a token hardly more than the token.
-/
import TexEngine.Engine.Describe
import TexEngine.Engine.Scan.Tokens
import TexEngine.Proofs.Arith.Decimal
import TexEngine.Proofs.Engine.Ending.Basic
import TexEngine.Proofs.Engine.Storing.State

namespace TexEngine

open Eng Gauge

/-! ## Numbers -/

namespace Gauge

theorem weight_text_eq_zero {s : String}
    (h : ∀ c ∈ s.toList, (CharCode.ofChar c).weight = 0) : weight.text s = 0 := by
  refine List.sum_eq_zero_iff_forall_eq_nat.mpr fun w hw => ?_
  simp only [CharCode.ofText, List.map_map, List.mem_map, Function.comp_apply] at hw
  obtain ⟨c, hc, rfl⟩ := hw
  exact h c hc

theorem weight_of_isDigit {c : Char} (h : c.isDigit = true) : (CharCode.ofChar c).weight = 0 := by
  have hrange : 48 ≤ c.toNat ∧ c.toNat ≤ 57 := by
    simpa [Char.isDigit, UInt32.le_iff_toNat_le] using h
  have hne : ∀ k : Int, k < 48 ∨ 57 < k → CharCode.ofChar c ≠ k := by
    intro k hk heq
    have hnat : (c.toNat : Int) = k := heq
    omega
  rw [CharCode.weight, if_neg (hne 92 (by decide)), if_neg (hne 94 (by decide)),
    if_neg (not_or.mpr ⟨hne 10 (by decide), hne 13 (by decide)⟩), if_neg (hne 110 (by decide))]

/-- Numbers weigh nothing. -/
theorem weight_text_count (n : Int64) : weight.text (Count.text n) = 0 := by
  refine weight_text_eq_zero fun c hc => ?_
  rw [Count.toList_text, List.mem_append] at hc
  rcases hc with hsign | hdigit
  · unfold signChars at hsign
    split at hsign
    · rw [List.mem_singleton.mp hsign]
      rfl
    · contradiction
  · exact weight_of_isDigit (Nat.isDigit_of_mem_toDigits (by decide) (by decide) hdigit)

theorem weight_text_romanRepeat (value : Nat) {symbol : String} (h : weight.text symbol = 0)
    (n : Nat) : weight.text (Count.romanRepeat value symbol n).1 = 0 := by
  fun_induction Count.romanRepeat value symbol n with
  | case1 n hn text left heq ih =>
    rw [heq] at ih
    rw [text_append, h, ih]
  | case2 n hn => rfl

theorem weight_text_roman (n : Int64) : weight.text (Count.roman n) = 0 := by
  have hfrom : ∀ symbols : List (Nat × String), (∀ p ∈ symbols, weight.text p.2 = 0) →
      ∀ n, weight.text (Count.romanFrom symbols n) = 0 := by
    intro symbols
    induction symbols with
    | nil => exact fun _ _ => rfl
    | cons p symbols ih =>
      intro hsymbols n
      have hp := hsymbols p List.mem_cons_self
      rw [Count.romanFrom, text_append, weight_text_romanRepeat _ hp,
        ih (fun q hq => hsymbols q (List.mem_cons_of_mem p hq))]
  exact hfrom Count.romanSymbols (by decide) n.toInt.toNat

end Gauge

/-! ## Values -/

/-- The cell is not a font parameter; without definitions, there are no fonts that have
    parameters. -/
def Cell.HasNoFont : Cell → Prop
  | .fontDimen _ _ => False
  | _ => True

/-- The values that \the can show weigh nothing. -/
theorem Machine.Pristine.weight_tokens {m m' : Machine} (hm : m.Pristine) {cell : Cell}
    (hcell : cell.HasNoFont) {v : Value} (hread : cell.read m = .ok v m') :
    Gauge.weight.tokens v.tokens = 0 := by
  have hcount : ∀ n, Gauge.weight.tokens (Value.int n).tokens = 0 := fun n =>
    (weight_ofText _).trans (weight_text_count n)
  -- Registers have their first values here: no dimension, glue or list of tokens was assigned.
  cases cell with
  | register bank name =>
    cases bank with
    | count =>
      cases hread
      exact hcount _
    | dimen =>
      cases hread
      rw [hm.env.dimen]
      decide +kernel
    | skip =>
      cases hread
      rw [hm.env.glue]
      decide +kernel
    | toks =>
      cases hread
      rw [hm.env.toks]
      rfl
  | fontDimen f n => exact hcell.elim
  | _ =>
    cases hread
    exact hcount _

/-! ## Primitives -/

theorem Meaning.mem_primitives_of_primitive? {name : String} {μ : Meaning}
    (h : primitive? name = some μ) : μ ∈ primitives ∧ μ.name = name := by
  have hname : name ∈ primitiveTable := by
    rw [Std.TreeMap.mem_iff_isSome_getElem?]
    exact Option.isSome_of_eq_some h
  rw [primitiveTable, Std.TreeMap.mem_ofList] at hname
  simp only [List.map_map, List.contains_iff_mem, List.mem_map, Function.comp_apply] at hname
  obtain ⟨μ', hμ', rfl⟩ := hname
  have hsame := primitive?_name_of_mem hμ'
  rw [h] at hsame
  injection hsame with hsame
  rw [hsame]
  exact ⟨hμ', rfl⟩

namespace Env.Pristine

variable {env : Env Meaning} (h : env.Pristine)
include h

/-- Only control sequences have meanings. -/
theorem meaning?_cases {t : Token} {μ : Meaning} (hμ : env.meaning? t = some μ)
    (ht : t ≠ .frozenRelax) :
    (∃ name, t = .cs name) ∧ (t = .cs μ.name ∧ μ ∈ Meaning.primitives ∨ μ = Meaning.relax) := by
  cases t with
  | cs name =>
    refine ⟨⟨name, rfl⟩, ?_⟩
    rcases h.code name μ hμ with hprimitive | hrelax
    · obtain ⟨hmem, hname⟩ := Meaning.mem_primitives_of_primitive? hprimitive
      exact .inl ⟨by rw [hname], hmem⟩
    · exact .inr hrelax
  | frozenRelax => contradiction
  | char c k =>
    unfold Env.meaning? at hμ
    rw [if_neg (by simp [Token.isCs]), h.active] at hμ
    simp at hμ
  | param k => simp [Env.meaning?, Token.isCs, Token.isActive] at hμ

/-- A token that does not mean \relax is the name of its meaning. -/
theorem eq_cs_of_meaningIn {t : Token} {μ : Meaning} (hμ : meaningIn env t = some μ)
    (hrelax : μ ≠ Meaning.relax) : t = .cs μ.name ∧ μ ∈ Meaning.primitives := by
  obtain ⟨ht, hμ⟩ := meaning?_of_meaningIn hμ hrelax
  exact (h.meaning?_cases hμ ht).2.resolve_right hrelax

theorem eq_null_of_meaningIn {t : Token} {f : Font} (hf : meaningIn env t = some (.font f)) :
    f = Font.null := by
  obtain ⟨ht, hf⟩ := meaning?_of_meaningIn hf (by simp [Meaning.relax])
  obtain ⟨⟨name, rfl⟩, -⟩ := h.meaning?_cases hf ht
  rcases h.code name _ hf with hprimitive | hrelax
  · exact Meaning.eq_null_of_primitive? hprimitive
  · contradiction

end Env.Pristine

end TexEngine
