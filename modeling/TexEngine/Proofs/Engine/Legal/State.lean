/-
  TexEngine.Proofs.Engine.Legal.State

  Legal states: every number, length and glue is in range, every category is one of
  the sixteen, every entry of a table is one that may be assigned, and all tokens have
  codes that can be written.  The entries by which groups undo assignments are of the
  same kind, so that the end of a group leads to a legal state again.

  What is looked up in a legal state is in range also where nothing was assigned.
-/
import TexEngine.Engine.Machine
import TexEngine.Proofs.Arith.Range
import TexEngine.Proofs.Env.Valuation
import TexEngine.Proofs.Input.LegalTokens

namespace TexEngine

/-! ## Tables -/

/-- The number may be assigned to an entry of the table. -/
def CodeTable.Allows (t : CodeTable) (n : Int64) : Prop :=
  t.range.1 ≤ n ∧ n ≤ t.range.2

namespace CodeTable

/-- What passes the check of an assignment may be assigned. -/
theorem allows_iff {t : CodeTable} {n : Int64} :
    t.Allows n ↔ ¬(n < t.range.1 ∨ n > t.range.2) := by
  rw [Allows, not_or, Int64.not_lt, gt_iff_lt, Int64.not_lt]

theorem count_inRange_of_allows {t : CodeTable} {n : Int64} (h : t.Allows n) :
    Count.InRange n := by
  have hrange : Count.InRange t.range.1 ∧ Count.InRange t.range.2 := by
    cases t <;> decide
  exact ⟨Int64.le_trans hrange.1.1 h.1, Int64.le_trans h.2 hrange.2.2⟩

/-- The entry is a character code: it belongs to one of the tables for changing
    case. -/
def IsCase : CodeTable → Prop
  | lccode => True
  | uccode => True
  | _ => False

theorem charCode_inRange_of_allows {t : CodeTable} (ht : t.IsCase) {n : Int64}
    (h : t.Allows n) : CharCode.InRange n.toInt := by
  have hrange : t.range.1.toInt = 0 ∧ t.range.2.toInt = 0x10FFFF := by
    cases t <;> first | exact False.elim ht | decide
  unfold Allows at h
  rw [Int64.le_iff_toInt_le, Int64.le_iff_toInt_le, hrange.1, hrange.2] at h
  exact h

/-! ### Changing case -/

/-- Codes of the table are not moved out of the range of codes. -/
def StaysInRange (table : Array Text.CaseShift) : Bool :=
  table.toList.all fun s =>
    0 ≤ (s.range.first : Int) + s.shift && (s.range.last : Int) + s.shift ≤ 0x10FFFF

theorem inRange_shiftBy {table : Array Text.CaseShift} (htable : StaysInRange table = true)
    {c : Int} (hc : CharCode.InRange c) : CharCode.InRange (Text.shiftBy table c) := by
  unfold Text.shiftBy
  cases hfind : table.find? (·.range.contains c) with
  | none => exact hc
  | some s =>
    have hcontains : (s.range.first : Int) ≤ c ∧ c ≤ (s.range.last : Int) := by
      have hsome := Array.find?_some hfind
      simp only [Text.CodeRange.contains, Bool.and_eq_true, decide_eq_true_eq] at hsome
      exact hsome.1
    have hshift : 0 ≤ (s.range.first : Int) + s.shift ∧
        (s.range.last : Int) + s.shift ≤ 0x10FFFF := by
      have hmem : s ∈ table.toList := Array.mem_toList_iff.mpr (Array.mem_of_find?_eq_some hfind)
      simpa using List.all_eq_true.mp htable s hmem
    dsimp only
    rw [CharCode.inRange_iff]
    exact ⟨by omega, by omega⟩

theorem inRange_toSmall {c : Int} (hc : CharCode.InRange c) :
    CharCode.InRange (Text.toSmall c) := by
  have htable : StaysInRange Text.smallShifts = true := by decide +kernel
  have hshift := inRange_shiftBy htable hc
  have hcapital : c < 128 → CharCode.InRange (c + 32) := by
    rw [CharCode.inRange_iff] at hc ⊢
    omega
  unfold Text.toSmall
  split
  · split
    · exact hcapital (by assumption)
    · exact hc
  · exact hshift

theorem inRange_toCapital {c : Int} (hc : CharCode.InRange c) :
    CharCode.InRange (Text.toCapital c) := by
  have htable : StaysInRange Text.capitalShifts = true := by decide +kernel
  have hshift := inRange_shiftBy htable hc
  have hsmall : 97 ≤ c ∧ c ≤ 122 → CharCode.InRange (c - 32) := by
    rw [CharCode.inRange_iff]
    omega
  unfold Text.toCapital
  split
  · split
    · exact hsmall (by assumption)
    · exact hc
  · exact hshift

/-! ### Entries without an assignment -/

theorem toInt_ofInt_of_inRange {c : Int} (hc : CharCode.InRange c) : (Int64.ofInt c).toInt = c := by
  rw [CharCode.inRange_iff] at hc
  exact Int64.toInt_ofInt_of_le (by omega) (by omega)

/-- A character code is in range as a number. -/
theorem count_inRange_ofInt {c : Int} (hc : CharCode.InRange c) :
    Count.InRange (Int64.ofInt c) := by
  rw [Count.inRange_iff, toInt_ofInt_of_inRange hc]
  rw [CharCode.inRange_iff] at hc
  omega

theorem charCode_inRange_default {t : CodeTable} (ht : t.IsCase) (unicode : Bool) {c : Int}
    (hc : CharCode.InRange c) : CharCode.InRange (t.default unicode c).toInt := by
  have hzero : CharCode.InRange (0 : Int64).toInt := by decide
  cases t with
  | lccode =>
    unfold default
    dsimp only
    split
    · have hsmall := inRange_toSmall hc
      rwa [toInt_ofInt_of_inRange hsmall]
    · exact hzero
  | uccode =>
    unfold default
    dsimp only
    split
    · have hcapital := inRange_toCapital hc
      rwa [toInt_ofInt_of_inRange hcapital]
    · exact hzero
  | mathcode => exact False.elim ht
  | sfcode => exact False.elim ht
  | delcode => exact False.elim ht

theorem count_inRange_default (t : CodeTable) (unicode : Bool) {c : Int}
    (hc : CharCode.InRange c) : Count.InRange (t.default unicode c) := by
  have hcase : t.IsCase → Count.InRange (t.default unicode c) := by
    intro ht
    have hcode := charCode_inRange_default ht unicode hc
    rw [CharCode.inRange_iff] at hcode
    rw [Count.inRange_iff]
    omega
  -- Where nothing was assigned, the number of the character or an offset of it is the default.
  have hofInt : ∀ n : Int, 0 ≤ n → n ≤ 0x7FFFFFFF → Count.InRange (Int64.ofInt n) := by
    intro n hlow hhigh
    rw [Count.inRange_iff, Int64.toInt_ofInt_of_le (by omega) (by omega)]
    omega
  have hcode := CharCode.inRange_iff.mp hc
  cases t with
  | lccode => exact hcase True.intro
  | uccode => exact hcase True.intro
  | mathcode =>
    unfold default
    dsimp only
    split
    · exact hofInt (0x7100 + c) (by omega) (by omega)
    · split
      · exact hofInt (0x7000 + c) (by omega) (by omega)
      · exact hofInt c (by omega) (by omega)
  | sfcode =>
    unfold default
    dsimp only
    split <;> decide
  | delcode =>
    unfold default
    dsimp only
    split <;> decide

end CodeTable

namespace Catcode

theorem mem_all_of_isValid {k : Catcode} (hk : k.isValid = true)
    (hassigned : ∀ n, k = .unassigned n → False) : k ∈ all := by
  cases k with
  | unassigned n => exact (hassigned n rfl).elim
  | _ => decide

/-- The category with a number from 0 to 15 is one of the sixteen. -/
theorem ofInt_mem_all {n : Int} (h : (ofInt n).isValid = true) : ofInt n ∈ all := by
  apply mem_all_of_isValid h
  intro k hk
  rw [hk] at h
  have hbounds : 0 ≤ k ∧ k ≤ 15 := by
    obtain ⟨hlow, hhigh⟩ := Bool.and_eq_true_iff.mp h
    exact ⟨of_decide_eq_true hlow, of_decide_eq_true hhigh⟩
  unfold ofInt at hk
  split at hk
  · rename_i hn
    by_cases hlt : n.toNat < all.length
    · have hmem : all[n.toNat]? = some (.unassigned k) := by
        rw [List.getD_eq_getElem?_getD, List.getElem?_eq_getElem hlt] at hk
        rw [List.getElem?_eq_getElem hlt, ← hk]
        rfl
      have habsent : Catcode.unassigned k ∉ all := by simp [all]
      exact habsent (List.mem_of_getElem? hmem)
    · rw [List.getD_eq_getElem?_getD, List.getElem?_eq_none (by omega)] at hk
      injection hk with hk
      have hlength : all.length = 16 := by decide
      omega
  · injection hk with hk
    omega

theorem default_mem_all (preset : Preset) (unicode : Bool) (c : CharCode) :
    default preset unicode c ∈ all := by
  have hinitex : initexDefault unicode c ∈ all := by
    unfold initexDefault
    repeat' split
    all_goals decide
  cases preset with
  | initex => exact hinitex
  | plain =>
    show plainDefault unicode c ∈ all
    unfold plainDefault
    repeat' split
    all_goals first | exact hinitex | decide

theorem toInt_bounds {k : Catcode} (hk : k ∈ all) : 0 ≤ k.toInt ∧ k.toInt ≤ 15 := by
  have hall : ∀ k ∈ all, 0 ≤ k.toInt ∧ k.toInt ≤ 15 := by decide
  exact hall k hk

end Catcode

/-! ## Meanings and assignments -/

/-- The tokens that the meaning can give are legal. -/
def Meaning.Legal : Meaning → Prop
  | .defined d => TokenList.Legal d.body
  | .charToken t => t.Legal
  | .charDef c => c.InRange
  | _ => True

@[simp] theorem Meaning.legal_relax : Meaning.relax.Legal :=
  True.intro

/-- The value that is assigned is legal; no value is legal as well. -/
def Assignment.Legal : Assignment Meaning → Prop
  | .count _ v => ∀ n ∈ v, Count.InRange n
  | .dimen _ v => ∀ d ∈ v, Dimen.InRange d
  | .glue _ v => ∀ g ∈ v, g.IsProper
  | .toks _ v => ∀ ts ∈ v, TokenList.Legal ts
  | .code _ v => ∀ μ ∈ v, μ.Legal
  | .active _ v => ∀ μ ∈ v, μ.Legal
  | .catcode _ v => ∀ k ∈ v, k ∈ Catcode.all
  | .charCode t _ v => ∀ n ∈ v, t.Allows n
  | _ => True

theorem Assignment.legal_box (name : String) (b : Option (Option Box)) :
    Assignment.Legal (.box name b) :=
  True.intro

theorem Assignment.legal_font (f : Font) : Assignment.Legal (.font f) :=
  True.intro

theorem Assignment.legal_color (c : Color) : Assignment.Legal (.color c) :=
  True.intro

theorem Assignment.legal_direction (d : Direction) : Assignment.Legal (.direction d) :=
  True.intro

/-- What happens at the end of the group is legal. -/
structure Group.Legal (g : Group Meaning) : Prop where
  undo : ∀ a ∈ g.undo, a.Legal
  afterTokens : TokenList.Legal g.afterTokens

/-! ## Environments -/

/-- Everything that was assigned is legal. -/
structure Env.Legal (env : Env Meaning) : Prop where
  counts : ∀ (name : String) n, env.counts[name]? = some n → Count.InRange n
  dimens : ∀ (name : String) d, env.dimens[name]? = some d → Dimen.InRange d
  glues : ∀ (name : String) g, env.glues[name]? = some g → g.IsProper
  toks : ∀ (name : String) ts, env.toks[name]? = some ts → TokenList.Legal ts
  codes : ∀ (name : String) μ, env.codes[name]? = some μ → μ.Legal
  active : ∀ (c : Int) μ, env.active[c]? = some μ → μ.Legal
  catcodes : ∀ (c : Int) k, env.catcodes[c]? = some k → k ∈ Catcode.all
  tables : ∀ t (c : Int) n, (env.table t)[c]? = some n → t.Allows n
  fonts : ∀ f n, Dimen.InRange (env.fonts.param f n)
  groups : ∀ g ∈ env.groups, g.Legal
  afterAssignment : ∀ t ∈ env.afterAssignment, t.Legal

namespace Env.Legal

variable {env : Env Meaning}

/-! ### Look-ups -/

/-- An entry of a table, or the value without one, has a property that both have. -/
theorem getD_of_forall {κ α : Type} {cmp : κ → κ → Ordering} [Std.TransCmp cmp]
    {m : Std.TreeMap κ α cmp} {k : κ} {default : α} {p : α → Prop}
    (h : ∀ v, m[k]? = some v → p v) (hdefault : p default) : p (m.getD k default) := by
  rw [Std.TreeMap.getD_eq_getD_getElem?]
  cases hget : m[k]? with
  | none => exact hdefault
  | some v => exact h v hget

/-- The entries of a table that was made from a list are those of the list. -/
theorem forall_ofList {κ α : Type} {cmp : κ → κ → Ordering} [Std.TransCmp cmp]
    {l : List (κ × α)} {p : α → Prop} (h : ∀ e ∈ l, p e.2) (k : κ) (a : α)
    (ha : (Std.TreeMap.ofList l cmp)[k]? = some a) : p a := by
  have hinsert : ∀ (l : List (κ × α)) (m : Std.TreeMap κ α cmp), (∀ e ∈ l, p e.2) →
      (∀ b, m[k]? = some b → p b) → ∀ b, (m.insertMany l)[k]? = some b → p b := by
    intro l
    induction l with
    | nil => exact fun m _ hm => hm
    | cons e l ih =>
      intro m hl hm
      rw [List.forall_mem_cons] at hl
      rw [Std.TreeMap.insertMany_cons]
      refine ih _ hl.2 fun b hb => ?_
      rw [Std.TreeMap.getElem?_insert] at hb
      split at hb
      · injection hb with hb
        exact hb ▸ hl.1
      · exact hm b hb
  rw [Std.TreeMap.ofList_eq_insertMany_empty] at ha
  refine hinsert l ∅ h (fun b hb => ?_) a ha
  rw [Std.TreeMap.getElem?_emptyc] at hb
  contradiction

theorem count (h : env.Legal) (name : String) : Count.InRange (env.count name) :=
  getD_of_forall (h.counts name) (by decide)

theorem dimen (h : env.Legal) (name : String) : Dimen.InRange (env.dimen name) :=
  getD_of_forall (h.dimens name) (by decide)

theorem glue (h : env.Legal) (name : String) : (env.glue name).IsProper :=
  getD_of_forall (h.glues name) Glue.isProper_zero

theorem tokens (h : env.Legal) (name : String) : TokenList.Legal (env.tokens name) :=
  getD_of_forall (h.toks name) TokenList.legal_nil

theorem catcode (h : env.Legal) (c : CharCode) : env.catcode c ∈ Catcode.all :=
  getD_of_forall (h.catcodes c) (Catcode.default_mem_all ..)

theorem count_inRange_charCode (h : env.Legal) (t : CodeTable) {c : CharCode} (hc : c.InRange) :
    Count.InRange (env.charCode t c) :=
  getD_of_forall (fun n hn => CodeTable.count_inRange_of_allows (h.tables t c n hn))
    (CodeTable.count_inRange_default t _ hc)

theorem charCode_inRange_charCode (h : env.Legal) {t : CodeTable} (ht : t.IsCase) {c : CharCode}
    (hc : c.InRange) : CharCode.InRange (env.charCode t c).toInt :=
  getD_of_forall (p := fun n => CharCode.InRange n.toInt)
    (fun n hn => CodeTable.charCode_inRange_of_allows ht (h.tables t c n hn))
    (CodeTable.charCode_inRange_default ht _ hc)

theorem meaning? (h : env.Legal) (t : Token) : ∀ μ ∈ env.meaning? t, μ.Legal := by
  intro μ hμ
  unfold Env.meaning? at hμ
  split at hμ
  · exact h.codes _ _ hμ
  · split at hμ
    · exact h.active _ _ hμ
    · contradiction

theorem endLineChar (env : Env Meaning) : ∀ c ∈ env.lexicon.endLineChar (), c.InRange := by
  intro c hc
  have hparameter : env.charParameter "endlinechar" = some c := hc
  unfold charParameter at hparameter
  dsimp only at hparameter
  split at hparameter
  · contradiction
  · rename_i hbounds
    injection hparameter with hparameter
    rw [← hparameter]
    rw [not_or, Int.not_lt] at hbounds
    exact ⟨hbounds.1, Int.not_lt.mp hbounds.2⟩

/-! ### Assignments -/

/-- Setting or removing an entry keeps what holds of all entries. -/
theorem forall_alterEntry {κ α : Type} {cmp : κ → κ → Ordering} [Std.TransCmp cmp]
    [Std.LawfulEqCmp cmp] [DecidableEq κ] {m : Std.TreeMap κ α cmp} {k : κ} {v : Option α}
    {p : α → Prop} (h : ∀ (k' : κ) a, m[k']? = some a → p a) (hv : ∀ a ∈ v, p a) :
    ∀ (k' : κ) a, (alterEntry m k v)[k']? = some a → p a := by
  intro k' a ha
  rw [getElem?_alterEntry] at ha
  split at ha
  · exact hv a ha
  · exact h k' a ha

theorem table_setTable (env : Env Meaning) (t u : CodeTable) (m : Std.TreeMap Int Int64) :
    (env.setTable t m).table u = if t = u then m else env.table u := by
  cases t <;> cases u <;> rfl

/-- The other parts of an environment do not depend on the tables. -/
theorem setTable (h : env.Legal) (t : CodeTable) {m : Std.TreeMap Int Int64}
    (hm : ∀ (c : Int) n, m[c]? = some n → t.Allows n) : (env.setTable t m).Legal := by
  have htables : ∀ u (c : Int) n, ((env.setTable t m).table u)[c]? = some n → u.Allows n := by
    intro u c n hn
    rw [table_setTable] at hn
    by_cases htu : t = u
    · subst htu
      rw [if_pos rfl] at hn
      exact hm c n hn
    · rw [if_neg htu] at hn
      exact h.tables u c n hn
  cases t <;> exact { h with tables := htables }

theorem write (h : env.Legal) {a : Assignment Meaning} (ha : a.Legal) : (env.write a).Legal := by
  cases a with
  | count name v => exact { h with counts := forall_alterEntry h.counts ha }
  | dimen name v => exact { h with dimens := forall_alterEntry h.dimens ha }
  | glue name v => exact { h with glues := forall_alterEntry h.glues ha }
  | toks name v => exact { h with toks := forall_alterEntry h.toks ha }
  | box name v => exact { h with }
  | code name v => exact { h with codes := forall_alterEntry h.codes ha }
  | active c v => exact { h with active := forall_alterEntry h.active ha }
  | catcode c v => exact { h with catcodes := forall_alterEntry h.catcodes ha }
  | charCode t c v => exact h.setTable t (forall_alterEntry (h.tables t) ha)
  | font v => exact { h with }
  | color v => exact { h with }
  | direction v => exact { h with }

/-- The assignment that leaves a place as it is. -/
theorem current (h : env.Legal) (a : Assignment Meaning) : (env.current a).Legal := by
  cases a with
  | count name v => exact h.counts name
  | dimen name v => exact h.dimens name
  | glue name v => exact h.glues name
  | toks name v => exact h.toks name
  | code name v => exact h.codes name
  | active c v => exact h.active c
  | catcode c v => exact h.catcodes c
  | charCode t c v => exact h.tables t c
  | _ => exact True.intro

theorem save (h : env.Legal) {old : Assignment Meaning} (hold : old.Legal) :
    (env.save old).Legal := by
  unfold Env.save
  split
  · exact h
  · rename_i g gs hgroups
    have hall := h.groups
    rw [hgroups, List.forall_mem_cons] at hall
    refine { h with groups := List.forall_mem_cons.mpr ⟨?_, hall.2⟩ }
    unfold Group.save
    split
    · exact hall.1
    · exact ⟨List.forall_mem_cons.mpr ⟨hold, hall.1.undo⟩, hall.1.afterTokens⟩

theorem purge (h : env.Legal) (key : UndoKey) : (env.purge key).Legal := by
  refine { h with groups := ?_ }
  intro g hg
  obtain ⟨g', hg', rfl⟩ := List.mem_map.mp hg
  have hlegal := h.groups g' hg'
  exact ⟨fun a ha => hlegal.undo a (List.mem_filter.mp ha).1, hlegal.afterTokens⟩

/-- A legal assignment leads to a legal environment. -/
theorem assign (h : env.Legal) {a : Assignment Meaning} (ha : a.Legal) (global : Bool) :
    (env.assign a global).Legal := by
  unfold Env.assign
  -- What is noted down for the end of the group is the old value, which is legal too.
  apply write _ ha
  split
  · exact h.purge _
  · exact h.save (h.current a)

theorem setMeaning (h : env.Legal) (t : Token) {μ? : Option Meaning} (hμ : ∀ μ ∈ μ?, μ.Legal)
    (global : Bool) : (env.setMeaning t μ? global).Legal := by
  unfold Env.setMeaning
  apply h.assign
  split
  · exact hμ
  · exact hμ

theorem setConditionals (h : env.Legal) (conditionals : Array Conditional) :
    Env.Legal { env with conditionals } :=
  { h with }

/-! ### Groups -/

theorem openGroup (h : env.Legal) (type : GroupType) (locator : Locator) (start : Token)
    (deliver : Option Delivery) : (env.openGroup type locator start deliver).1.Legal :=
  { h with groups := List.forall_mem_cons.mpr ⟨⟨by simp, TokenList.legal_nil⟩, h.groups⟩ }

theorem restore (h : env.Legal) {undo : List (Assignment Meaning)} (hundo : ∀ a ∈ undo, a.Legal) :
    (env.restore undo).Legal := by
  unfold Env.restore
  induction undo generalizing env with
  | nil => exact h
  | cons a undo ih =>
    rw [List.forall_mem_cons] at hundo
    exact ih (h.write hundo.1) hundo.2

theorem withGroups (h : env.Legal) {groups : List (Group Meaning)}
    (hgroups : ∀ g ∈ groups, g.Legal) :
    Env.Legal { env with groups } :=
  { h with groups := hgroups }

/-- What the end of a group does: it restores what the group changed, and may then put
    a box into a register. -/
theorem closeGroup_eq_ok {nameOf : Meaning → String} {recorder : Option Recorder}
    {c : Closing Meaning} (hclose : env.closeGroup nameOf recorder = .ok c) :
    ∃ g gs, env.groups = g :: gs ∧ c.afterTokens = g.afterTokens.reverse ∧
      (c.env = { env.restore g.undo with groups := gs } ∨
        ∃ name b global, c.env =
          Env.assign { env.restore g.undo with groups := gs } (.box name b) global) := by
  unfold Env.closeGroup at hclose
  cases hgroups : env.groups with
  | nil =>
    rw [hgroups] at hclose
    contradiction
  | cons g gs =>
    refine ⟨g, gs, rfl, ?_⟩
    rw [hgroups] at hclose
    dsimp -zeta only at hclose
    extract_lets restored undone outer left finish at hclose
    -- `finish` is what happens when the box, if there is one, has been closed.
    have hfinish : ∀ p, finish p = .ok c → c.afterTokens = g.afterTokens.reverse ∧
        (c.env = { env.restore g.undo with groups := gs } ∨
          ∃ name b global, c.env =
            Env.assign { env.restore g.undo with groups := gs } (.box name b) global) := by
      intro p hp
      injection hp with hp
      rw [← hp]
      refine ⟨rfl, ?_⟩
      dsimp only
      split
      · exact .inl rfl
      · exact .inl rfl
      · exact .inr ⟨_, _, _, rfl⟩
    split at hclose
    · split at hclose
      · exact hfinish _ hclose
      · split at hclose
        · exact hfinish _ hclose
        · contradiction
    · exact hfinish _ hclose

/-- The end of a group leads to a legal environment, and gives legal tokens. -/
theorem closeGroup (h : env.Legal) {nameOf : Meaning → String} {recorder : Option Recorder}
    {c : Closing Meaning} (hclose : env.closeGroup nameOf recorder = .ok c) :
    c.env.Legal ∧ TokenList.Legal c.afterTokens := by
  obtain ⟨g, gs, hgroups, hafter, henv⟩ := closeGroup_eq_ok hclose
  have hall := h.groups
  rw [hgroups, List.forall_mem_cons] at hall
  have hrestored : Env.Legal { env.restore g.undo with groups := gs } :=
    (h.restore hall.1.undo).withGroups hall.2
  rw [hafter]
  refine ⟨?_, TokenList.legal_reverse.mpr hall.1.afterTokens⟩
  rcases henv with henv | ⟨name, b, global, henv⟩
  · rw [henv]
    exact hrestored
  · rw [henv]
    exact hrestored.assign (Assignment.legal_box name b) global

theorem afterGroup (h : env.Legal) {t : Token} (ht : t.Legal) : (env.afterGroup t).Legal := by
  unfold Env.afterGroup
  split
  · exact h
  · rename_i g gs hgroups
    have hall := h.groups
    rw [hgroups, List.forall_mem_cons] at hall
    refine h.withGroups (List.forall_mem_cons.mpr ⟨⟨hall.1.undo, ?_⟩, hall.2⟩)
    exact TokenList.legal_cons.mpr ⟨ht, hall.1.afterTokens⟩

end Env.Legal

/-! ## Machines -/

/-- The environment and the input are legal, and nothing has wrapped around. -/
structure Machine.Legal (m : Machine) : Prop where
  env : m.env.Legal
  input : m.input.Legal
  exact : m.observed.wrapped = false

/-- The line numbers and nesting levels that were read are in range as numbers. -/
def Machine.LevelsInRange (m : Machine) : Prop :=
  m.observed.highest < 2 ^ 31

end TexEngine
