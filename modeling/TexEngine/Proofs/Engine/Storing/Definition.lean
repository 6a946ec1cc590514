/-
  TexEngine.Proofs.Engine.Storing.Definition

  Definitions give well-formed macros.  A parameter text numbers its parameters and ends
  with the first brace; in the body, a digit behind a parameter character has to be one
  of these numbers, and what is expanded on the way adds balanced lists without
  parameters.
-/
import TexEngine.Engine.Definition
import TexEngine.Proofs.Engine.Storing.Expand

namespace TexEngine

open Eng Discipline

/-! ## Parameter texts -/

namespace MacroDef

/-- The parameters of a pattern, if they are numbered in their order. -/
theorem IsPattern.of_numbered {p : TokenList} {k : Nat}
    (h : p.filter (·.isParam) = numberedParams k) (hk : k ≤ 9) (hbraces : PatternBraces p) :
    IsPattern p ∧ k = params p := by
  have hparams : params p = k := by
    rw [params, List.countP_eq_length_filter, h, length_numberedParams]
  exact ⟨⟨by rw [hparams, h], by rw [hparams]; exact hk, hbraces⟩, hparams.symm⟩

end MacroDef

namespace Expander

/-- What has been read of a parameter text: it has no braces, and its parameters are
    numbered in their order. -/
structure ParameterText.Partial (p : ParameterText) : Prop where
  braceless : p.Braceless
  numbered : p.pattern.reverse.filter (·.isParam) = MacroDef.numberedParams p.params
  params_le : p.params ≤ 9
  brace : p.brace = none

/-- A parameter text that has been read to its end: a pattern with its number of
    parameters and with its final brace. -/
structure ParameterText.Complete (p : ParameterText) : Prop where
  pattern : MacroDef.IsPattern p.pattern
  params : p.params = MacroDef.params p.pattern
  brace : p.brace = MacroDef.finalBrace? p.pattern

namespace ParameterText

variable {p : ParameterText}

theorem Partial.nil : Partial {} :=
  ⟨by simp [Braceless], rfl, by decide, rfl⟩

theorem Partial.token (h : p.Partial) {t : Token} (ht : t.isParam = false)
    (hopen : t.hasCat .beginGroup = false) (hclose : t.hasCat .endGroup = false) :
    Partial { p with pattern := t :: p.pattern } where
  braceless := List.forall_mem_cons.mpr ⟨⟨hopen, hclose⟩, h.braceless⟩
  numbered := by
    rw [List.reverse_cons, List.filter_append, h.numbered, List.filter_singleton, ht]
    exact List.append_nil _
  params_le := h.params_le
  brace := h.brace

theorem Partial.param (h : p.Partial) (hlt : p.params < 9) :
    Partial { p with pattern := .param (p.params + 1) :: p.pattern, params := p.params + 1 } where
  braceless := List.forall_mem_cons.mpr ⟨⟨rfl, rfl⟩, h.braceless⟩
  numbered := by
    rw [List.reverse_cons, List.filter_append, h.numbered, MacroDef.numberedParams_succ]
    rfl
  params_le := hlt
  brace := h.brace

theorem Partial.braceless_reverse (h : p.Partial) :
    ∀ t ∈ p.pattern.reverse, t.hasCat .beginGroup = false ∧ t.hasCat .endGroup = false :=
  fun t ht => h.braceless t (List.mem_reverse.mp ht)

/-- The text ends in front of a brace that is not part of it. -/
theorem Partial.complete (h : p.Partial) : Complete { p with pattern := p.pattern.reverse } := by
  obtain ⟨hpattern, hparams⟩ := MacroDef.IsPattern.of_numbered h.numbered h.params_le
    (patternBraces_of_not_brace h.braceless_reverse)
  refine ⟨hpattern, hparams, h.brace.trans ?_⟩
  exact (MacroDef.finalBrace?_of_not_brace h.braceless_reverse).symm

/-- The text ends with a brace that is part of it. -/
theorem Partial.complete_brace (h : p.Partial) {b : Token} (hb : b.hasCat .beginGroup = true) :
    Complete { p with pattern := (b :: p.pattern).reverse, brace := some b } := by
  have hparam : b.isParam = false := by
    cases b <;> simp_all [Token.hasCat, Token.isParam]
  have hnumbered : (b :: p.pattern).reverse.filter (·.isParam) =
      MacroDef.numberedParams p.params := by
    rw [List.reverse_cons, List.filter_append, h.numbered, List.filter_singleton, hparam]
    exact List.append_nil _
  rw [List.reverse_cons] at hnumbered
  obtain ⟨hpattern, hparams⟩ := MacroDef.IsPattern.of_numbered hnumbered h.params_le
    (patternBraces_append_brace h.braceless_reverse hb)
  rw [List.reverse_cons]
  exact ⟨hpattern, hparams, (MacroDef.finalBrace?_append_brace _ hb).symm⟩

end ParameterText

variable {n : Nat} {x : Expander} {P : Prop}

theorem scanParameterText_keeps :
    Spec (storing n) P x.scanParameterText ParameterText.Complete := by
  refine .iterate (I := ParameterText.Partial) (fun p => ?_) _ fun _ => .nil
  refine token?_keeps.required fun t => ?_
  split
  · exact .pure fun hP => hP.1.2.complete
  · rename_i hopen
    split
    · exact failAt_spec ..
    · rename_i hclose
      simp only [Bool.not_eq_true] at hopen hclose
      split
      · refine token?_keeps.required fun next => ?_
        split
        · rename_i hbrace
          exact .pure fun hP => hP.1.1.2.complete_brace hbrace
        · split
          · exact failAt_spec ..
          · rename_i hnumber
            refine .pure fun hP => hP.1.1.2.param ?_
            simp only [Bool.or_eq_true, decide_eq_true_eq, not_or, Nat.not_le] at hnumber
            exact hnumber.2
      · exact .pure fun hP => hP.1.2.token hP.2 hopen hclose

/-! ## Bodies -/

/-- A parameter in a body is one of the given number of parameters. -/
def InBody (params : Nat) (t : Token) : Prop :=
  ∀ k, t = .param k → 1 ≤ k ∧ k ≤ params

theorem inBody_of_not_isParam {params : Nat} {t : Token} (ht : t.isParam = false) :
    InBody params t := by
  rintro k rfl
  contradiction

/-- Behind a parameter character stands another one, or a digit that is the number of a
    parameter. -/
theorem scanParameter_keeps (params : Nat) :
    Spec (storing n) P (scanParameter params) fun t =>
      InBody params t ∧ t.hasCat .beginGroup = false ∧ t.hasCat .endGroup = false := by
  refine token?_keeps.required fun next => ?_
  split
  · rename_i hparameter
    refine .pure fun hP => ⟨inBody_of_not_isParam hP.2, ?_⟩
    cases next with
    | char c k => cases k <;> simp_all [Token.hasCat]
    | _ => exact ⟨rfl, rfl⟩
  · split
    · exact failAt_spec ..
    · rename_i hdigit
      dsimp only
      split
      · exact failAt_spec ..
      · rename_i hle
        refine .pure fun _ => ⟨?_, rfl, rfl⟩
        intro k hk
        injection hk with hk
        simp only [Bool.or_eq_true, decide_eq_true_eq, not_or] at hdigit
        have hlow : (49 : Int) ≤ next.code := Int.not_lt.mp hdigit.1.2
        rw [← hk]
        exact ⟨by show 1 ≤ Int.toNat (next.code - 48); omega, Nat.not_lt.mp hle⟩

variable (hx : x.Storing n)

include hx

theorem scanBody_keeps (params : Nat) (expand : Bool) :
    Spec (storing n) P (x.scanBody params expand) fun body =>
      (∀ t ∈ body, InBody params t) ∧ Balanced body := by
  refine .iterate (I := fun s => TextPart (InBody params) s.1 s.2) ?_ _ fun _ => .nil
  rintro ⟨depth, seen⟩
  refine token?_keeps.required fun t => ?_
  extract_lets next
  have hnext : ∀ item, Spec (storing n)
      (((P ∧ TextPart (InBody params) depth seen) ∧ t.isParam = false) ∧ item.Regular) (next item)
      (Spec.Round (fun s => TextPart (InBody params) s.1 s.2) fun body =>
        (∀ t ∈ body, InBody params t) ∧ Balanced body) := by
    intro item
    cases item with
    | final ts =>
      refine .pure fun hP => hP.1.1.2.append (fun t ht => ?_) hP.2.balanced
      exact inBody_of_not_isParam (hP.2.parameterFree t ht)
    | expanded => exact .pure fun hP => hP.1.1.2
    | plain =>
      dsimp only [next]
      split
      · refine (scanParameter_keeps params).bind fun t' => .pure fun hP => ?_
        exact hP.1.1.1.2.cons hP.2.1 (braceDepth?_of_not_brace hP.2.2.1 hP.2.2.2 depth)
      · split
        · rename_i hend
          exact .pure fun hP => hP.1.1.2.complete hend
        · rename_i hdepth
          exact .pure fun hP => hP.1.1.2.cons (inBody_of_not_isParam hP.1.2) hdepth
  split
  · exact (expandItem_keeps hx fun hP => hP.2).bind hnext
  · exact Spec.bind (.pure fun _ => True.intro) hnext

theorem scanDefinition_keeps (name : String) (expand : Bool) :
    Spec (storing n) P (x.scanDefinition name expand) MacroDef.WellFormed := by
  refine scanParameterText_keeps.bind fun p => ?_
  refine (scanBody_keeps hx p.params expand).bind fun body => ?_
  refine .pure fun hP => ?_
  obtain ⟨⟨-, hp⟩, hindices, hbalanced⟩ := hP
  refine ⟨hp.pattern, fun k hk => ?_, body, hbalanced, by rw [hp.brace]⟩
  rcases List.mem_append.mp hk with hbody | hbrace
  · rw [← hp.params]
    exact hindices _ hbody k rfl
  · -- The brace that ends the pattern is no parameter.
    rw [hp.brace, Option.mem_toList, MacroDef.finalBrace?, Option.filter_eq_some_iff] at hbrace
    exact absurd hbrace.2 Bool.false_ne_true

end Expander

end TexEngine
