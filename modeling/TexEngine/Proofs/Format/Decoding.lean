/-
  TexEngine.Proofs.Format.Decoding

  Reading back stored meanings.  A meaning other than a font comes back as it is.  Fonts
  are stored with the name by which they were defined: the first font that is read back
  under a name stands for all fonts with this name, and it looks like the one that was
  stored.
-/
import TexEngine.Engine.Dump
import TexEngine.Proofs.Engine.Storing.State
import TexEngine.Proofs.Env.Tables

namespace TexEngine

/-! ## Fonts with given parameters -/

/-- The fonts look the same, each with the parameters of its own book. -/
structure Font.Resembles (b : FontBook) (f : Font) (b' : FontBook) (f' : Font) : Prop where
  name : f'.name = f.name
  size : f'.size = f.size
  params : ∀ n, b'.param f' n = b.param f n

namespace FontBook

variable {b : FontBook}

theorem paramsOf_setParam_self (b : FontBook) (f : Font) (n : Int) (d : Dimen) :
    (b.setParam f n d).paramsOf f = (b.paramsOf f).insert n d := by
  rw [paramsOf, setParam, Std.TreeMap.getD_insert_self]

theorem paramsOf_setParam_of_ne (b : FontBook) {f g : Font} (h : f.serial ≠ g.serial) (n : Int)
    (d : Dimen) : (b.setParam f n d).paramsOf g = b.paramsOf g := by
  rw [paramsOf, setParam, Std.TreeMap.getD_insert, if_neg (by simpa using h), paramsOf]

/-- Sets parameters of a font. -/
def setParams (b : FontBook) (f : Font) (ps : FontParams) : FontBook :=
  ps.foldl (fun b n d => b.setParam f n d) b

/-- Setting parameters concerns one font only, and adds them to those it has. -/
theorem setParams_spec (b : FontBook) (f : Font) (ps : FontParams) :
    (b.setParams f ps).next = b.next ∧
      (b.setParams f ps).paramsOf f = Env.merge (b.paramsOf f) ps ∧
      ∀ g : Font, f.serial ≠ g.serial → (b.setParams f ps).paramsOf g = b.paramsOf g := by
  have hlist : ∀ (l : List (Int × Dimen)) (b : FontBook),
      (l.foldl (fun b e => b.setParam f e.1 e.2) b).next = b.next ∧
        (l.foldl (fun b e => b.setParam f e.1 e.2) b).paramsOf f =
          l.foldl (fun ps e => ps.insert e.1 e.2) (b.paramsOf f) ∧
        ∀ g : Font, f.serial ≠ g.serial →
          (l.foldl (fun b e => b.setParam f e.1 e.2) b).paramsOf g = b.paramsOf g := by
    intro l
    induction l with
    | nil => exact fun b => ⟨rfl, rfl, fun _ _ => rfl⟩
    | cons e l ih =>
      intro b
      obtain ⟨hnext, hself, hothers⟩ := ih (b.setParam f e.1 e.2)
      refine ⟨hnext, ?_, fun g hg => ?_⟩
      · rw [List.foldl_cons, hself, paramsOf_setParam_self, List.foldl_cons]
      · rw [List.foldl_cons, hothers g hg, paramsOf_setParam_of_ne b hg]
  rw [setParams, Env.merge, Std.TreeMap.foldl_eq_foldl_toList, Std.TreeMap.foldl_eq_foldl_toList]
  exact hlist ps.toList b

/-- A font that is loaded with stored parameters. -/
def loadWith (b : FontBook) (id name : String) (size : Dimen) (ps : FontParams) :
    Font × FontBook :=
  ((b.load id name size).1, (b.load id name size).2.setParams (b.load id name size).1 ps)

theorem next_loadWith (b : FontBook) (id name : String) (size : Dimen) (ps : FontParams) :
    (b.loadWith id name size ps).2.next = b.next + 1 :=
  (setParams_spec ..).1

/-- Fonts that were loaded earlier stay as they are. -/
theorem param_loadWith_of_lt {g : Font} (hg : g.serial < b.next) (id name : String) (size : Dimen)
    (ps : FontParams) (n : Int) : (b.loadWith id name size ps).2.param g n = b.param g n := by
  have hne : b.next ≠ g.serial := Nat.ne_of_gt hg
  obtain ⟨-, -, hothers⟩ := setParams_spec (b.load id name size).2 (b.load id name size).1 ps
  have hparams : (b.loadWith id name size ps).2.paramsOf g = b.paramsOf g := by
    rw [loadWith, hothers g hne, paramsOf, load, Std.TreeMap.getD_insert,
      if_neg (by simpa using hne), paramsOf]
  rw [param, hparams, param]

/-- If all standard parameters are among those that are stored, nothing is left of the
    parameters with which a font is loaded. -/
theorem param_loadWith_self (b : FontBook) (id name : String) (size : Dimen) {ps : FontParams}
    (hps : ∀ k ∈ FontParams.standard, (ps[k]?).isSome) (n : Int) :
    (b.loadWith id name size ps).2.param (b.loadWith id name size ps).1 n = ps.getD n 0 := by
  obtain ⟨-, hself, -⟩ := setParams_spec (b.load id name size).2 (b.load id name size).1 ps
  have hloaded : (b.load id name size).2.paramsOf (b.load id name size).1 =
      FontParams.ofSize (loadSize size) := by
    rw [paramsOf, load, Std.TreeMap.getD_insert_self]
  rw [param, loadWith, hself, hloaded, Std.TreeMap.getD_eq_getD_getElem?, Env.getElem?_merge,
    Std.TreeMap.getD_eq_getD_getElem?]
  -- A parameter that the image does not have is none of the standard ones, and so is not set by
  -- loading, either.
  cases hn : ps[n]? with
  | some d => rfl
  | none =>
    have hstandard : n ∉ FontParams.standard := by
      intro hmem
      have hsome := hps n hmem
      rw [hn] at hsome
      contradiction
    have hunset : (FontParams.ofSize (loadSize size))[n]? = none := by
      simp only [FontParams.standard, List.mem_cons, List.not_mem_nil, or_false, not_or]
        at hstandard
      refine Std.TreeMap.getElem?_ofList_of_contains_eq_false ?_
      simp only [List.map_cons, List.map_nil, List.contains_eq_mem, List.mem_cons,
        List.not_mem_nil, or_false, decide_eq_false_iff_not, not_or]
      exact hstandard
    rw [Option.none_or, hunset]

/-- Loading a font with the parameters of another one, of the same name and size. -/
theorem resembles_loadWith {old : FontBook} (hold : old.Complete) {f : Font}
    (hf : f.LoadedBefore old.next) (hne : f ≠ Font.null) (b : FontBook) :
    Font.Resembles old f (b.loadWith f.id f.name f.size (old.paramsOf f)).2
      (b.loadWith f.id f.name f.size (old.paramsOf f)).1 where
  name := rfl
  size := by
    obtain ⟨-, -, hsize⟩ := hf.resolve_left hne
    show loadSize f.size = f.size
    exact if_neg (Int64.not_le.mpr hsize)
  params n := by
    obtain ⟨hpos, hlt, -⟩ := hf.resolve_left hne
    obtain ⟨ps, hps, hstandard⟩ := hold.params f.serial hpos hlt
    have hparams : old.paramsOf f = ps := by
      rw [paramsOf, Std.TreeMap.getD_eq_getD_getElem?, hps]
      rfl
    rw [hparams, param_loadWith_self b _ _ _ hstandard, param, hparams]

end FontBook

namespace Binding

/-! ## Meanings that are no fonts -/

theorem toMeaning_of_primitive {name : String} {μ : Meaning}
    (hname : Meaning.primitive? name = some μ) (fonts : FontBook) (known : FontNames) :
    toMeaning { kind := 0, name } fonts known = .ok (μ, fonts, known) := by
  -- The table of primitives is not looked into as long as the binding is a variable.
  generalize hb : ({ kind := 0, name } : Binding) = b
  have hkind : b.kind = 0 := by rw [← hb]
  have hbinding : b.name = name := by rw [← hb]
  rw [toMeaning, if_pos hkind, hbinding, hname]

/-- A meaning that refers to nothing else is read back as it is, whatever fonts there
    are. -/
theorem toMeaning_ofMeaning {n : Nat} {μ : Meaning} (hμ : μ.WellFormed n)
    (hfont : ∀ f, μ = .font f → f = Font.null) (old fonts : FontBook) (known : FontNames) :
    (ofMeaning old μ).toMeaning fonts known = .ok (μ, fonts, known) := by
  cases μ with
  | defined d => rfl
  | charToken t => rfl
  | charDef c =>
    have hcode : CharCode.ofWord (Int64.ofInt c) = c := by
      have hrange := CharCode.inRange_iff.mp hμ
      rw [CharCode.ofWord, CodeTable.toInt_ofInt_of_inRange hμ]
      exact Int.bmod_eq_of_le (by omega) (by omega)
    show Except.ok (Meaning.charDef (CharCode.ofWord (Int64.ofInt c)), fonts, known) = _
    rw [hcode]
  | register bank i => cases bank <;> rfl
  | font f =>
    obtain rfl := hfont f rfl
    have hmem : Meaning.font Font.null ∈ Meaning.primitives := by
      unfold Meaning.primitives
      exact List.mem_append_right _ (List.mem_singleton_self _)
    rw [ofMeaning, if_pos rfl]
    exact toMeaning_of_primitive (Meaning.primitive?_name_of_mem hmem) fonts known
  | _ => exact toMeaning_of_primitive hμ fonts known

/-! ## Fonts -/

/-- What has become of the fonts that were stored so far: under each name there is a font
    with this name, which looks like one of the fonts `S` that were stored under it. -/
structure Restores (old : FontBook) (S : Font → Prop) (fonts : FontBook) (known : FontNames) :
    Prop where
  next_pos : 0 < fonts.next
  null_unset : ∀ n, fonts.param Font.null n = 0
  loaded : ∀ (id : String) g, known[id]? = some g → 0 < g.serial ∧ g.serial < fonts.next
  id_eq : ∀ (id : String) g, known[id]? = some g → g.id = id
  source : ∀ (id : String) g, known[id]? = some g →
    ∃ f, S f ∧ f ≠ Font.null ∧ f.id = id ∧ f.Resembles old fonts g

/-- The font names that were known before are known still. -/
def Extends (known known' : FontNames) : Prop :=
  ∀ (id : String) g, known[id]? = some g → known'[id]? = some g

variable {old : FontBook} {S : Font → Prop} {fonts : FontBook} {known : FontNames}

theorem Extends.trans {known' known'' : FontNames} (h : Extends known known')
    (h' : Extends known' known'') : Extends known known'' :=
  fun id g hg => h' id g (h id g hg)

theorem restores_empty (hfonts : fonts.Complete) : Restores old S fonts ∅ where
  next_pos := hfonts.next_pos
  null_unset := hfonts.param_null
  loaded := by simp
  id_eq := by simp
  source := by simp

/-- When the first font under a name has been loaded, there is a font for this name, too. -/
theorem Restores.load (h : Restores old S fonts known) (hold : old.Complete) {f : Font} (hS : S f)
    (hf : f.LoadedBefore old.next) (hne : f ≠ Font.null) :
    Restores old S (fonts.loadWith f.id f.name f.size (old.paramsOf f)).2
      (known.insert f.id (fonts.loadWith f.id f.name f.size (old.paramsOf f)).1) := by
  -- Behind the new entry, a name denotes the font that was just loaded or what it denoted before.
  have hcases : ∀ {id : String} {g : Font},
      (known.insert f.id (fonts.loadWith f.id f.name f.size (old.paramsOf f)).1)[id]? = some g →
      f.id = id ∧ g = (fonts.loadWith f.id f.name f.size (old.paramsOf f)).1 ∨
        known[id]? = some g := by
    intro id g hg
    rw [Std.TreeMap.getElem?_insert] at hg
    split at hg
    · rename_i heq
      exact .inl ⟨by simpa using heq, (Option.some.inj hg).symm⟩
    · exact .inr hg
  refine ⟨?_, fun n => ?_, fun id g hg => ?_, fun id g hg => ?_, fun id g hg => ?_⟩
  · rw [FontBook.next_loadWith]
    exact Nat.succ_pos _
  · rw [FontBook.param_loadWith_of_lt h.next_pos]
    exact h.null_unset n
  · rw [FontBook.next_loadWith]
    rcases hcases hg with ⟨-, rfl⟩ | hg
    · exact ⟨h.next_pos, Nat.lt_succ_self _⟩
    · exact ⟨(h.loaded id g hg).1, Nat.lt_succ_of_lt (h.loaded id g hg).2⟩
  · rcases hcases hg with ⟨hid, rfl⟩ | hg
    · exact hid
    · exact h.id_eq id g hg
  · rcases hcases hg with ⟨hid, rfl⟩ | hg
    · exact ⟨f, hS, hne, hid, FontBook.resembles_loadWith hold hf hne fonts⟩
    · -- A font that was loaded earlier keeps its parameters.
      obtain ⟨f', hS', hne', hid', hsame⟩ := h.source id g hg
      refine ⟨f', hS', hne', hid', hsame.name, hsame.size, fun n => ?_⟩
      rw [FontBook.param_loadWith_of_lt (h.loaded id g hg).2, hsame.params n]

/-- What a meaning is read back as, once all fonts are known. -/
def restored? (known : FontNames) : Meaning → Option Meaning
  | .font f => if f = Font.null then some (.font f) else known[f.id]?.map .font
  | μ => some μ

/-- The font that stands for another one: the one with its name, if there is any. -/
def standIn (known : FontNames) (f : Font) : Font :=
  if f = Font.null then Font.null else (known[f.id]?).getD Font.null

theorem standIn_null (known : FontNames) : standIn known Font.null = Font.null :=
  if_pos rfl

theorem standIn_of_some {f g : Font} (hf : f ≠ Font.null) (hg : known[f.id]? = some g) :
    standIn known f = g := by
  rw [standIn, if_neg hf, hg, Option.getD_some]

/-- A font is read back as the one that stands for it, and this one is known. -/
theorem restored?_font {f : Font} {μ : Meaning} (h : restored? known (.font f) = some μ) :
    μ = .font (standIn known f) ∧ (f ≠ Font.null → known[f.id]? = some (standIn known f)) := by
  by_cases hnull : f = Font.null
  · subst hnull
    rw [standIn_null]
    rw [restored?, if_pos rfl] at h
    exact ⟨(Option.some.inj h).symm, fun hne => absurd rfl hne⟩
  · rw [restored?, if_neg hnull] at h
    obtain ⟨g, hg, rfl⟩ := Option.map_eq_some_iff.mp h
    rw [standIn_of_some hnull hg]
    exact ⟨rfl, fun _ => hg⟩

section StandIn

variable {f g : Font}

theorem Restores.standIn_eq_null_iff (h : Restores old S fonts known)
    (hf : f ≠ Font.null → known[f.id]? = some (standIn known f)) :
    standIn known f = Font.null ↔ f = Font.null := by
  refine ⟨fun hstand => ?_, fun hnull => hnull ▸ standIn_null known⟩
  by_contra hne
  have hserial := (h.loaded f.id _ (hf hne)).1
  rw [hstand] at hserial
  exact Nat.lt_irrefl 0 hserial

/-- Fonts become one font if they have the same name. -/
theorem Restores.standIn_eq_iff (h : Restores old S fonts known)
    (hf : f ≠ Font.null → known[f.id]? = some (standIn known f))
    (hg : g ≠ Font.null → known[g.id]? = some (standIn known g)) :
    standIn known f = standIn known g ↔ f.id = g.id ∧ (f = Font.null ↔ g = Font.null) := by
  have hnull : standIn known f = standIn known g → (f = Font.null ↔ g = Font.null) := by
    intro hstand
    rw [← h.standIn_eq_null_iff hf, ← h.standIn_eq_null_iff hg, hstand]
  by_cases hfnull : f = Font.null
  · refine ⟨fun hstand => ?_, fun ⟨_, hiff⟩ => by rw [hfnull, hiff.mp hfnull]⟩
    have hgnull := (hnull hstand).mp hfnull
    exact ⟨by rw [hfnull, hgnull], hnull hstand⟩
  · refine ⟨fun hstand => ⟨?_, hnull hstand⟩, fun ⟨hid, hiff⟩ => ?_⟩
    · have hgnull : g ≠ Font.null := fun hgnull => hfnull ((hnull hstand).mpr hgnull)
      rw [← h.id_eq _ _ (hf hfnull), ← h.id_eq _ _ (hg hgnull), hstand]
    · have hgnull : g ≠ Font.null := fun hgnull => hfnull (hiff.mpr hgnull)
      rw [standIn, standIn, if_neg hfnull, if_neg hgnull, hid]

/-- The font that stands for a stored font looks like a stored font of the same name. -/
theorem Restores.exists_resembles (h : Restores old S fonts known) (hold : old.Complete) (hS : S f)
    (hf : f ≠ Font.null → known[f.id]? = some (standIn known f)) :
    ∃ f₀, S f₀ ∧ f₀.id = f.id ∧ (f₀ = Font.null ↔ f = Font.null) ∧
      f₀.Resembles old fonts (standIn known f) := by
  by_cases hnull : f = Font.null
  · subst hnull
    rw [standIn_null]
    exact ⟨Font.null, hS, rfl, Iff.rfl, rfl, rfl, fun n => by rw [h.null_unset, hold.param_null]⟩
  · obtain ⟨f₀, hS₀, hne, hid, hsame⟩ := h.source f.id _ (hf hnull)
    exact ⟨f₀, hS₀, hid, iff_of_false hne hnull, hsame⟩

/-- Nothing stands for a font if no stored font has its name. -/
theorem Restores.standIn_of_lost (h : Restores old S fonts known)
    (hlost : ∀ f₀, S f₀ → f₀.id = f.id → f₀ = Font.null) : standIn known f = Font.null := by
  cases hknown : known[f.id]? with
  | none => rw [standIn, hknown, Option.getD_none, ite_self]
  | some g =>
    obtain ⟨f₀, hS, hne, hid, -⟩ := h.source f.id g hknown
    exact absurd (hlost f₀ hS hid) hne

end StandIn

theorem restored?_of_not_font {μ : Meaning} (h : ∀ f, μ ≠ .font f) (known : FontNames) :
    restored? known μ = some μ := by
  cases μ with
  | font f => exact absurd rfl (h f)
  | _ => rfl

theorem Extends.restored? {known' : FontNames} (h : Extends known known') {μ μ' : Meaning}
    (hμ : restored? known μ = some μ') : Binding.restored? known' μ = some μ' := by
  cases μ with
  | font f =>
    rw [Binding.restored?] at hμ ⊢
    split
    · rename_i hnull
      rwa [if_pos hnull] at hμ
    · rename_i hnull
      rw [if_neg hnull] at hμ
      obtain ⟨g, hg, rfl⟩ := Option.map_eq_some_iff.mp hμ
      rw [h f.id g hg]
      rfl
  | _ => exact hμ

/-- The binding stores the meaning, and if this is a font, `S` holds of it. -/
structure Stores (old : FontBook) (S : Font → Prop) (b : Binding) (μ : Meaning) : Prop where
  eq : b = ofMeaning old μ
  wellFormed : μ.WellFormed old.next
  font : ∀ f, μ = .font f → S f

/-- A font is read back as the one that is known under its name. -/
theorem toMeaning_font_of_some {f g : Font} (hne : f ≠ Font.null) (hg : known[f.id]? = some g)
    (old fonts : FontBook) :
    (ofMeaning old (.font f)).toMeaning fonts known = .ok (.font g, fonts, known) := by
  rw [ofMeaning, if_neg hne]
  simp [toMeaning, hg]

/-- The first font under a name is loaded. -/
theorem toMeaning_font_of_none {f : Font} (hne : f ≠ Font.null) (hnone : known[f.id]? = none)
    (old fonts : FontBook) :
    (ofMeaning old (.font f)).toMeaning fonts known =
      .ok (.font (fonts.loadWith f.id f.name f.size (old.paramsOf f)).1,
        (fonts.loadWith f.id f.name f.size (old.paramsOf f)).2,
        known.insert f.id (fonts.loadWith f.id f.name f.size (old.paramsOf f)).1) := by
  rw [ofMeaning, if_neg hne]
  simp [toMeaning, hnone, FontBook.loadWith, FontBook.setParams]

/-- One binding is read back. -/
theorem Restores.toMeaning (h : Restores old S fonts known) (hold : old.Complete) {b : Binding}
    {μ : Meaning} (hb : Stores old S b μ) :
    ∃ μ' fonts' known', b.toMeaning fonts known = .ok (μ', fonts', known') ∧
      Restores old S fonts' known' ∧ Extends known known' ∧ restored? known' μ = some μ' := by
  -- Only fonts other than the null font depend on what has been decoded so far: such a font is
  -- loaded when its name is seen first.
  by_cases hplain : ∀ f, μ = .font f → f = Font.null
  · refine ⟨μ, fonts, known, ?_, h, fun _ _ => id, ?_⟩
    · rw [hb.eq]
      exact toMeaning_ofMeaning hb.wellFormed hplain old fonts known
    · cases μ with
      | font f => exact if_pos (hplain f rfl)
      | _ => rfl
  · obtain ⟨f, hne, rfl⟩ : ∃ f, f ≠ Font.null ∧ μ = .font f := by
      push Not at hplain
      obtain ⟨f, hμ, hne⟩ := hplain
      exact ⟨f, hne, hμ⟩
    cases hknown : known[f.id]? with
    | some g =>
      have hread := toMeaning_font_of_some hne hknown old fonts
      rw [← hb.eq] at hread
      refine ⟨.font g, fonts, known, hread, h, fun _ _ => id, ?_⟩
      rw [restored?, if_neg hne, hknown]
      rfl
    | none =>
      have hread := toMeaning_font_of_none hne hknown old fonts
      rw [← hb.eq] at hread
      refine ⟨_, _, _, hread, h.load hold (hb.font f rfl) hb.wellFormed hne, ?_, ?_⟩
      · intro id g hg
        have hid : f.id ≠ id := by
          rintro rfl
          rw [hknown] at hg
          contradiction
        rwa [Std.TreeMap.getElem?_insert, if_neg (by simpa using hid)]
      · rw [restored?, if_neg hne, Std.TreeMap.getElem?_insert_self]
        rfl

end Binding

namespace Image

open Binding

/-! ## Tables of bindings -/

variable {κ : Type} {cmp : κ → κ → Ordering} [Std.TransCmp cmp] [Std.LawfulEqCmp cmp]
  {old : FontBook} {S : Font → Prop}

/-- Bindings that are read back one after the other.  `meaning?` is what was stored under
    a key. -/
theorem exists_decode_list (hold : old.Complete) (label : κ → String)
    (meaning? : κ → Option Meaning) {l : List (κ × Binding)} (hl : l.Pairwise fun a b => a.1 ≠ b.1)
    (hstores : ∀ e ∈ l, ∃ μ, meaning? e.1 = some μ ∧ Stores old S e.2 μ) (d : Decoding κ cmp)
    (hd : Restores old S d.fonts d.known) :
    ∃ d' : Decoding κ cmp, l.foldlM (fun d e => match e.2.toMeaning d.fonts d.known with
        | .ok (m, fonts, known) => .ok { meanings := d.meanings.insert e.1 m, fonts, known }
        | .error reason => .error (.failure (label e.1 ++ ": " ++ reason.text))) d =
          (.ok d' : Except Fault (Decoding κ cmp)) ∧
      Restores old S d'.fonts d'.known ∧ Extends d.known d'.known ∧
      (∀ e ∈ l, ∀ μ, meaning? e.1 = some μ →
        ∃ μ', restored? d'.known μ = some μ' ∧ d'.meanings[e.1]? = some μ') ∧
      ∀ k, (∀ b, (k, b) ∉ l) → d'.meanings[k]? = d.meanings[k]? := by
  induction l generalizing d with
  | nil => exact ⟨d, rfl, hd, fun _ _ => id, by simp, fun _ _ => rfl⟩
  | cons e l ih =>
    obtain ⟨hhead, htail⟩ := List.pairwise_cons.mp hl
    rw [List.forall_mem_cons] at hstores
    obtain ⟨⟨μ, hμ, hb⟩, hrest⟩ := hstores
    obtain ⟨μ', fonts', known', hread, hrestores, hextends, hrestored⟩ := hd.toMeaning hold hb
    obtain ⟨d', hfold, hrestores', hextends', hmem, hnot⟩ :=
      ih htail hrest { meanings := d.meanings.insert e.1 μ', fonts := fonts', known := known' }
        hrestores
    refine ⟨d', ?_, hrestores', hextends.trans hextends', ?_, fun k hk => ?_⟩
    · rw [List.foldlM_cons, hread]
      exact hfold
    · refine List.forall_mem_cons.mpr ⟨fun μ₁ hμ₁ => ?_, hmem⟩
      obtain rfl : μ = μ₁ := Option.some.inj (hμ.symm.trans hμ₁)
      -- The key does not occur again, and what was known stays known.
      refine ⟨μ', hextends'.restored? hrestored, ?_⟩
      rw [hnot e.1 fun b hb => hhead _ hb rfl, Std.TreeMap.getElem?_insert_self]
    · have hne : e.1 ≠ k := fun heq => hk e.2 (by rw [← heq]; exact List.mem_cons_self)
      rw [hnot k fun b hb => hk b (List.mem_cons_of_mem e hb), Std.TreeMap.getElem?_insert,
        if_neg (by simpa using hne)]

/-- A table of bindings is read back as a whole. -/
theorem exists_decodeBindings (hold : old.Complete) (label : κ → String)
    (meaning? : κ → Option Meaning) {bs : Std.TreeMap κ Binding cmp}
    (hbs : ∀ (k : κ) b, bs[k]? = some b → ∃ μ, meaning? k = some μ ∧ Stores old S b μ)
    {fonts : FontBook} {known : FontNames} (h : Restores old S fonts known) :
    ∃ d : Decoding κ cmp, decodeBindings label fonts known bs = .ok d ∧
      Restores old S d.fonts d.known ∧ Extends known d.known ∧
      (∀ (k : κ) b μ, bs[k]? = some b → meaning? k = some μ →
        ∃ μ', restored? d.known μ = some μ' ∧ d.meanings[k]? = some μ') ∧
      ∀ k : κ, bs[k]? = none → d.meanings[k]? = none := by
  obtain ⟨d, hfold, hrestores, hextends, hmem, hnot⟩ :=
    exists_decode_list hold label meaning? (Env.pairwise_toList bs)
      (fun e he => hbs e.1 e.2 (Std.TreeMap.mem_toList_iff_getElem?_eq_some.mp he))
      ({ fonts, known } : Decoding κ cmp) h
  refine ⟨d, ?_, hrestores, hextends, fun k b μ hk hμ => ?_, fun k hk => ?_⟩
  · rw [decodeBindings, Std.TreeMap.foldlM_eq_foldlM_toList]
    exact hfold
  · exact hmem (k, b) (Std.TreeMap.mem_toList_iff_getElem?_eq_some.mpr hk) μ hμ
  · refine (hnot k fun b hb => ?_).trans Std.TreeMap.getElem?_emptyc
    rw [Std.TreeMap.mem_toList_iff_getElem?_eq_some, hk] at hb
    contradiction

end Image

end TexEngine
