/-
  TexEngine.Proofs.Engine.Storing.State

  Well-formed states: what an engine keeps has the shape that commands give it, whatever
  the input is.  Parameters occur in macros only, registers hold balanced texts, macros
  are as definitions make them, primitives are those of the table, fonts have been loaded,
  and what the tables of character codes hold may be assigned to them.
-/
import TexEngine.Proofs.Engine.MacroShape
import TexEngine.Proofs.Env.Contents

namespace TexEngine

/-! ## Fonts -/

/-- The null font, or one of the fonts with a serial number below `n`. -/
def Font.LoadedBefore (n : Nat) (f : Font) : Prop :=
  f = null ∨ (0 < f.serial ∧ f.serial < n ∧ 0 < f.size)

theorem Font.loadedBefore_null (n : Nat) : null.LoadedBefore n :=
  .inl rfl

/-- The numbers of the parameters that every loaded font has. -/
def FontParams.standard : List Int :=
  [1, 2, 3, 4, 5, 6, 7]

/-- All fonts that were loaded have the standard parameters, and the null font has no
    parameters. -/
structure FontBook.Complete (b : FontBook) : Prop where
  next_pos : 0 < b.next
  null_unset : b.params[0]? = none
  params : ∀ s, 0 < s → s < b.next →
    ∃ ps, b.params[s]? = some ps ∧ ∀ k ∈ FontParams.standard, (ps[k]?).isSome

namespace FontBook

variable {b : FontBook}

theorem complete_initial : Complete {} where
  next_pos := Nat.one_pos
  null_unset := Std.TreeMap.getElem?_emptyc
  params _ hpos hlt := absurd hlt (Nat.not_lt.mpr hpos)

theorem Complete.param_null (h : b.Complete) (n : Int) : b.param Font.null n = 0 := by
  have hunset : b.paramsOf Font.null = ∅ := by
    rw [paramsOf, Std.TreeMap.getD_eq_getD_getElem?]
    exact congrArg (Option.getD · ∅) h.null_unset
  rw [param, hunset, Std.TreeMap.getD_emptyc]

theorem isSome_getElem?_ofSize (size : Dimen) {k : Int} (hk : k ∈ FontParams.standard) :
    ((FontParams.ofSize size)[k]?).isSome := by
  simp only [FontParams.standard, List.mem_cons, List.not_mem_nil, or_false] at hk
  rcases hk with rfl | rfl | rfl | rfl | rfl | rfl | rfl <;> rfl

theorem loadSize_pos (size : Dimen) : 0 < loadSize size := by
  unfold loadSize
  split
  · decide
  · rename_i hpos
    rwa [Int64.not_le] at hpos

theorem Complete.load (h : b.Complete) (id name : String) (size : Dimen) :
    (b.load id name size).2.Complete where
  next_pos := Nat.succ_pos _
  null_unset := by
    have hne : b.next ≠ 0 := Nat.pos_iff_ne_zero.mp h.next_pos
    show (b.params.insert b.next _)[0]? = none
    rw [Std.TreeMap.getElem?_insert, if_neg (by simpa using hne)]
    exact h.null_unset
  params s hpos hlt := by
    show ∃ ps, (b.params.insert b.next (FontParams.ofSize (loadSize size)))[s]? = some ps ∧ _
    rw [Std.TreeMap.getElem?_insert]
    by_cases hs : b.next = s
    · rw [if_pos (by simpa using hs)]
      exact ⟨_, rfl, fun k hk => isSome_getElem?_ofSize _ hk⟩
    · rw [if_neg (by simpa using hs)]
      exact h.params s hpos (Nat.lt_of_le_of_ne (Nat.le_of_lt_succ hlt) (Ne.symm hs))

theorem Complete.setParam (h : b.Complete) {f : Font} (hf : 0 < f.serial) (n : Int) (d : Dimen) :
    (b.setParam f n d).Complete where
  next_pos := h.next_pos
  null_unset := by
    show (b.params.insert f.serial _)[0]? = none
    rw [Std.TreeMap.getElem?_insert, if_neg (by simpa using Nat.pos_iff_ne_zero.mp hf)]
    exact h.null_unset
  params s hpos hlt := by
    obtain ⟨ps, hps, hstandard⟩ := h.params s hpos hlt
    show ∃ ps, (b.params.insert f.serial ((b.paramsOf f).insert n d))[s]? = some ps ∧ _
    rw [Std.TreeMap.getElem?_insert]
    by_cases hs : f.serial = s
    · have hparams : b.paramsOf f = ps := by
        rw [paramsOf, hs, Std.TreeMap.getD_eq_getD_getElem?, hps]
        rfl
      refine ⟨_, by rw [if_pos (by simpa using hs)], fun k hk => ?_⟩
      rw [Std.TreeMap.getElem?_insert, hparams]
      split
      · rfl
      · exact hstandard k hk
    · exact ⟨ps, by rw [if_neg (by simpa using hs), hps], hstandard⟩

end FontBook

/-! ## Meanings and assignments -/

/-- The primitives have different names. -/
theorem Meaning.primitive?_name_of_mem {μ : Meaning} (h : μ ∈ primitives) :
    primitive? μ.name = some μ := by
  revert μ
  decide +kernel

/-- The meaning is one that commands give, with fonts loaded before the one with serial
    number `n`. -/
def Meaning.WellFormed (n : Nat) : Meaning → Prop
  | .defined d => d.WellFormed
  | .charToken t => t.isParam = false
  | .charDef c => c.InRange
  | .register _ _ => True
  | .font f => f.LoadedBefore n
  | μ => primitive? μ.name = some μ

theorem Meaning.wellFormed_of_primitive {n : Nat} {μ : Meaning} (h : μ ∈ primitives) :
    μ.WellFormed n := by
  have hname := primitive?_name_of_mem h
  simp only [primitives, List.mem_append, List.mem_map, List.mem_singleton] at h
  rcases h with (((((⟨p, -, rfl⟩ | ⟨p, -, rfl⟩) | ⟨q, -, rfl⟩) | ⟨a, -, rfl⟩) | ⟨f, -, rfl⟩) |
    ⟨c, -, rfl⟩) | rfl
  all_goals first | exact hname | exact Font.loadedBefore_null n

theorem Meaning.wellFormed_of_primitive? {n : Nat} {name : String} {μ : Meaning}
    (h : primitive? name = some μ) : μ.WellFormed n := by
  have hall : ∀ (name : String) μ, primitiveTable[name]? = some μ → μ.WellFormed n := by
    refine Env.Legal.forall_ofList fun e he => ?_
    obtain ⟨μ, hμ, rfl⟩ := List.mem_map.mp he
    exact wellFormed_of_primitive hμ
  exact hall name μ h

/-- A font that is a primitive is the null font. -/
theorem Meaning.eq_null_of_primitive? {name : String} {f : Font}
    (h : primitive? name = some (.font f)) : f = Font.null := by
  have hloaded : f.LoadedBefore 0 := wellFormed_of_primitive? h
  exact hloaded.resolve_right fun ⟨_, hlt, _⟩ => Nat.not_lt_zero _ hlt

theorem Meaning.wellFormed_relax (n : Nat) : Meaning.relax.WellFormed n :=
  wellFormed_of_primitive (by decide)

/-- The integer parameters that have a value from the beginning of a job. -/
def Env.presetCounts : List String :=
  ["mag", "tolerance", "maxdeadcycles", "hangafter", "escapechar", "endlinechar", "time", "day",
   "month", "year"]

/-- The assignment is one that commands make, or that restores what they made. -/
def Assignment.WellFormed (n : Nat) : Assignment Meaning → Prop
  | .count name v => name ∈ Env.presetCounts → v.isSome
  | .toks _ v => ∀ ts ∈ v, TokenList.Regular ts
  | .code _ v => ∀ μ ∈ v, μ.WellFormed n
  | .active _ v => ∀ μ ∈ v, μ.WellFormed n
  | .catcode _ v => ∀ k ∈ v, k ∈ Catcode.all
  | .charCode t _ v => ∀ c ∈ v, t.Allows c
  | .font f => f.LoadedBefore n
  | _ => True

/-! ## Environments -/

/-- The meaning belongs to a control sequence or to an active character. -/
def Env.Binds (env : Env Meaning) (μ : Meaning) : Prop :=
  (∃ name, env.code? name = some μ) ∨ ∃ c, env.active? c = some μ

/-- What is kept in the environment is well formed. -/
structure Env.WellFormed (n : Nat) (env : Env Meaning) : Prop where
  holds : env.Holds (Assignment.WellFormed n) (·.isParam = false)
  fonts : env.fonts.Complete

namespace Env.WellFormed

variable {n : Nat} {env : Env Meaning}

theorem code? (h : env.WellFormed n) (name : String) : ∀ μ ∈ env.code? name, μ.WellFormed n :=
  h.holds.current (.code name none)

theorem active? (h : env.WellFormed n) (c : CharCode) : ∀ μ ∈ env.active? c, μ.WellFormed n :=
  h.holds.current (.active c none)

theorem of_binds (h : env.WellFormed n) {μ : Meaning} (hμ : env.Binds μ) : μ.WellFormed n := by
  rcases hμ with ⟨name, hname⟩ | ⟨c, hc⟩
  · exact h.code? name μ hname
  · exact h.active? c μ hc

theorem font (h : env.WellFormed n) : env.font.LoadedBefore n :=
  h.holds.current (.font Font.null)

theorem tokens (h : env.WellFormed n) (name : String) : TokenList.Regular (env.tokens name) :=
  Legal.getD_of_forall (h.holds.current (.toks name none)) TokenList.regular_nil

theorem isSome_count (h : env.WellFormed n) {name : String} (hname : name ∈ presetCounts) :
    (env.counts[name]?).isSome :=
  h.holds.current (.count name none) hname

theorem meaning? (h : env.WellFormed n) (t : Token) :
    ∀ μ ∈ Eng.meaningIn env t, μ.WellFormed n := by
  unfold Eng.meaningIn Env.meaning?
  split
  · intro μ hμ
    rw [← Option.mem_some.mp hμ]
    exact Meaning.wellFormed_relax n
  · split
    · exact h.code? t.name
    · split
      · exact h.active? t.code
      · simp

/-- Changes of the conditional stack, or of parts that are not restored. -/
theorem withConditionals (h : env.WellFormed n) (conditionals : Array Conditional) :
    Env.WellFormed n { env with conditionals } :=
  ⟨h.holds.congr (by funext a; cases a <;> rfl) rfl rfl,
    h.fonts⟩

theorem withFonts (h : env.WellFormed n) {fonts : FontBook} (hfonts : fonts.Complete) :
    Env.WellFormed n { env with fonts } :=
  ⟨h.holds.congr (by funext a; cases a <;> rfl) rfl rfl,
    hfonts⟩

theorem withAfterAssignment (h : env.WellFormed n) {t? : Option Token}
    (ht : ∀ t ∈ t?, t.isParam = false) : Env.WellFormed n { env with afterAssignment := t? } := by
  have hcurrent : Env.current { env with afterAssignment := t? } = env.current := by
    funext a
    cases a <;> rfl
  exact ⟨⟨hcurrent ▸ h.holds.current, h.holds.undo, h.holds.afterTokens, ht⟩, h.fonts⟩

theorem assign (h : env.WellFormed n) {a : Assignment Meaning} (ha : a.WellFormed n)
    (global : Bool) : (env.assign a global).WellFormed n := by
  have hlasting := lasting_assign env a global
  simp only [lasting, Prod.mk.injEq] at hlasting
  exact ⟨h.holds.assign ha global, hlasting.2.1 ▸ h.fonts⟩

theorem setMeaning (h : env.WellFormed n) (t : Token) {μ? : Option Meaning}
    (hμ : ∀ μ ∈ μ?, μ.WellFormed n) (global : Bool) :
    (env.setMeaning t μ? global).WellFormed n := by
  unfold Env.setMeaning
  apply h.assign
  split
  · exact hμ
  · exact hμ

theorem openGroup (h : env.WellFormed n) (type : GroupType) (locator : Locator) (start : Token)
    (deliver : Option Delivery) : (env.openGroup type locator start deliver).1.WellFormed n :=
  ⟨h.holds.openGroup .., h.fonts⟩

theorem closeGroup (h : env.WellFormed n) {nameOf : Meaning → String} {recorder : Option Recorder}
    {c : Closing Meaning} (hclose : env.closeGroup nameOf recorder = .ok c) :
    c.env.WellFormed n ∧ TokenList.ParameterFree c.afterTokens := by
  have hlasting := lasting_closeGroup hclose
  simp only [lasting, Prod.mk.injEq] at hlasting
  obtain ⟨hholds, hafter⟩ := h.holds.closeGroup (fun _ _ => True.intro) hclose
  exact ⟨⟨hholds, hlasting.2.1 ▸ h.fonts⟩, hafter⟩

theorem afterGroup (h : env.WellFormed n) {t : Token} (ht : t.isParam = false) :
    (env.afterGroup t).WellFormed n := by
  have hlasting := lasting_afterGroup env t
  simp only [lasting, Prod.mk.injEq] at hlasting
  exact ⟨h.holds.afterGroup ht, hlasting.2.1 ▸ h.fonts⟩

end Env.WellFormed

/-! ## Machines -/

/-- What is kept in the environment and what is pushed back to the input is well
    formed. -/
structure Machine.WellFormed (n : Nat) (m : Machine) : Prop where
  env : m.env.WellFormed n
  input : m.input.ParameterFree

end TexEngine
