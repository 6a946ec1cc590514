/-
  TexEngine.Proofs.Engine.Substitution

  Macro substitution is safe: in every state that an engine gets into, the body of a macro
  refers to arguments only that a call has read.  The reason is that parameters exist in
  macros only, and that registers hold balanced texts, so that what an expanded definition
  takes from a register neither has parameters nor ends the body.
-/
import TexEngine.Proofs.Engine.Jobs

namespace TexEngine.Setup

variable {s : Setup} {m : Machine}

/-- No parameter is in the input, in a register, waits behind a group or an assignment, or
    is what a token means.  Registers are balanced, macros are well formed, and when the
    arguments of a macro have been read, there is one for each reference in its body. -/
theorem Reaches.substitution_in_range (h : s.Reaches m) :
    m.input.ParameterFree ∧
      (∀ name, TokenList.ParameterFree (m.env.tokens name) ∧ Balanced (m.env.tokens name)) ∧
      (∀ g ∈ m.env.groups, TokenList.ParameterFree g.afterTokens) ∧
      (∀ t ∈ m.env.afterAssignment, t.isParam = false) ∧
      (∀ t, m.env.Binds (.charToken t) → t.isParam = false) ∧
      ∀ d, m.env.Binds (.defined d) → d.WellFormed ∧
        ∀ fuel call m₁ args m₂, d.readArguments fuel call d.pattern m₁ = .ok args m₂ →
          ∀ k, .param k ∈ d.body → 1 ≤ k ∧ k ≤ args.length := by
  have hm := h.wellFormed (Nat.le_refl m.env.fonts.next)
  have hbody : ∀ d, m.env.Binds (.defined d) → d.WellFormed := fun d hd => hm.env.of_binds hd
  refine ⟨hm.input, fun name => ?_, hm.env.holds.afterTokens, hm.env.holds.afterAssignment,
    fun t ht => hm.env.of_binds ht, fun d hd => ⟨hbody d hd, ?_⟩⟩
  · exact ⟨(hm.env.tokens name).parameterFree, (hm.env.tokens name).balanced⟩
  · intro fuel call m₁ args m₂ hread k hk
    rw [MacroDef.length_readArguments d.pattern hread]
    exact (hbody d hd).indices k hk

/-- An expanded definition whose body is taken from a register up to the last brace. -/
def splicing : String :=
  "\\toks1=\x7b\x7bx\x7d\x7d\\edef\\a#1.#2#\x7b\\the\\toks1#2#1\x7d"

/-- The macro that this defines. -/
def splicedMacro : MacroDef :=
  { name := "a",
    pattern := [.param 1, .other 46, .param 2, .char 123 .beginGroup],
    body := [.char 123 .beginGroup, .letter 120, .char 125 .endGroup, .param 2, .param 1,
      .char 123 .beginGroup] }

theorem Reaches.substitution_in_range_splicing :
    Reaches { options := { preset := .plain } } (afterText splicing) ∧
      (afterText splicing).env.code? "a" = some (.defined splicedMacro) ∧
      splicedMacro.WellFormed ∧
      ∀ fuel call m₁ args m₂,
        splicedMacro.readArguments fuel call splicedMacro.pattern m₁ = .ok args m₂ →
          ∀ k, .param k ∈ splicedMacro.body → 1 ≤ k ∧ k ≤ args.length := by
  have hbound : (afterText splicing).env.code? "a" = some (.defined splicedMacro) := by
    decide +kernel
  exact ⟨reaches_afterText splicing, hbound,
    (reaches_afterText splicing).substitution_in_range.2.2.2.2.2 _ (.inl ⟨"a", hbound⟩)⟩

end TexEngine.Setup
