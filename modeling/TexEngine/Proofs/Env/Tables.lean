/-
  TexEngine.Proofs.Env.Tables

  Tables that are made by walking through other tables.  The keys of a table differ, so
  what is found under a key depends on the entry with this key only.
-/
import Std.Data.TreeMap.Lemmas
import TexEngine.Env.Snapshot

namespace TexEngine.Env

variable {κ α β : Type} {cmp : κ → κ → Ordering} [Std.TransCmp cmp] [Std.LawfulEqCmp cmp]

/-- The entries of a table have different keys. -/
theorem pairwise_toList (m : Std.TreeMap κ α cmp) :
    m.toList.Pairwise fun a b => a.1 ≠ b.1 := by
  refine m.distinct_keys_toList.imp fun h heq => h ?_
  rw [heq]
  exact Std.ReflCmp.compare_self

/-- Inserting what some of the entries give. -/
def insertSome (g : κ → α → Option β) (acc : Std.TreeMap κ β cmp) (k : κ) (a : α) :
    Std.TreeMap κ β cmp :=
  match g k a with
  | some b => acc.insert k b
  | none => acc

theorem getElem?_insertSome_of_ne (g : κ → α → Option β) (acc : Std.TreeMap κ β cmp) {k k' : κ}
    (a : α) (h : k ≠ k') : (insertSome g acc k a)[k']? = acc[k']? := by
  unfold insertSome
  split
  · rw [Std.TreeMap.getElem?_insert, if_neg (by simpa using h)]
  · rfl

omit [Std.LawfulEqCmp cmp] in
theorem getElem?_insertSome_self (g : κ → α → Option β) (acc : Std.TreeMap κ β cmp) (k : κ)
    (a : α) : (insertSome g acc k a)[k]? = (g k a).or acc[k]? := by
  unfold insertSome
  split
  · rename_i b hb
    rw [Std.TreeMap.getElem?_insert_self, hb]
    rfl
  · rename_i hnone
    rw [hnone, Option.none_or]

theorem getElem?_foldl_of_not_mem (g : κ → α → Option β) {l : List (κ × α)} {k : κ}
    (hk : ∀ a, (k, a) ∉ l) (acc : Std.TreeMap κ β cmp) :
    (l.foldl (fun acc e => insertSome g acc e.1 e.2) acc)[k]? = acc[k]? := by
  induction l generalizing acc with
  | nil => rfl
  | cons e l ih =>
    have hne : e.1 ≠ k := fun heq => hk e.2 (by rw [← heq]; exact List.mem_cons_self)
    rw [List.foldl_cons, ih fun a ha => hk a (List.mem_cons_of_mem e ha),
      getElem?_insertSome_of_ne g acc e.2 hne]

theorem getElem?_foldl_of_mem (g : κ → α → Option β) {l : List (κ × α)}
    (hl : l.Pairwise fun a b => a.1 ≠ b.1) {k : κ} {a : α} (hk : (k, a) ∈ l)
    (acc : Std.TreeMap κ β cmp) :
    (l.foldl (fun acc e => insertSome g acc e.1 e.2) acc)[k]? = (g k a).or acc[k]? := by
  induction l generalizing acc with
  | nil => contradiction
  | cons e l ih =>
    obtain ⟨hhead, htail⟩ := List.pairwise_cons.mp hl
    rw [List.foldl_cons]
    rcases List.mem_cons.mp hk with rfl | hmem
    · -- The other entries have other keys.
      rw [getElem?_foldl_of_not_mem g (fun a' ha' => hhead _ ha' rfl)]
      exact getElem?_insertSome_self g acc k a
    · rw [ih htail hmem, getElem?_insertSome_of_ne g acc e.2 (hhead _ hmem)]

/-- A table with what some entries of another table give. -/
theorem getElem?_foldl_insertSome (g : κ → α → Option β) (m : Std.TreeMap κ α cmp)
    (acc : Std.TreeMap κ β cmp) (k : κ) :
    (m.foldl (insertSome g) acc)[k]? = (m[k]?.bind (g k)).or acc[k]? := by
  rw [Std.TreeMap.foldl_eq_foldl_toList]
  cases hk : m[k]? with
  | some a =>
    exact getElem?_foldl_of_mem g (pairwise_toList m)
      (Std.TreeMap.mem_toList_iff_getElem?_eq_some.mpr hk) acc
  | none =>
    refine getElem?_foldl_of_not_mem g (fun a ha => ?_) acc
    rw [Std.TreeMap.mem_toList_iff_getElem?_eq_some, hk] at ha
    contradiction

/-- A table with what all entries of another table but some become. -/
theorem getElem?_foldl_unless (p : κ → α → Bool) (f : α → β) (m : Std.TreeMap κ α cmp) (k : κ) :
    (m.foldl (fun acc k a => if p k a then acc else acc.insert k (f a))
      (∅ : Std.TreeMap κ β cmp))[k]? =
      m[k]?.bind fun a => if p k a then none else some (f a) := by
  have hstep : (fun (acc : Std.TreeMap κ β cmp) k a => if p k a then acc else acc.insert k (f a)) =
      insertSome fun k a => if p k a then none else some (f a) := by
    funext acc k a
    by_cases hp : p k a
    · rw [insertSome, if_pos hp, if_pos hp]
    · rw [insertSome, if_neg hp, if_neg hp]
  rw [hstep, getElem?_foldl_insertSome, Std.TreeMap.getElem?_emptyc, Option.or_none]

/-- Of two tables that are merged, the second one wins. -/
theorem getElem?_merge (old new : Std.TreeMap κ α cmp) (k : κ) :
    (merge old new)[k]? = new[k]?.or old[k]? := by
  have hmerge : merge old new = new.foldl (insertSome fun _ a => some a) old := rfl
  rw [hmerge, getElem?_foldl_insertSome, Option.bind_fun_some]

omit [Std.LawfulEqCmp cmp] in
/-- Tables with the same entry under a key give the same value, also if there is none. -/
theorem getD_congr {m m' : Std.TreeMap κ α cmp} {k : κ} (h : m[k]? = m'[k]?) (a : α) :
    m.getD k a = m'.getD k a := by
  rw [Std.TreeMap.getD_eq_getD_getElem?, Std.TreeMap.getD_eq_getD_getElem?, h]

/-! ## Copies -/

/-- The copy of an environment. -/
def copy {μ : Type} (env : Env μ) : Snapshot μ :=
  { preset := env.preset.text, catcodes := env.catcodes, tables := env.table, counts := env.counts,
    dimens := env.dimens, glues := env.glues, toks := env.toks, codes := env.codes,
    active := env.active, font := some env.font }

theorem snapshot_eq_copy {μ : Type} {env : Env μ} (h : env.atBottom = true) :
    env.snapshot = .ok env.copy :=
  if_pos h

/-- What is found in an environment after a copy was restored: what the copy has, and
    otherwise what was there before. -/
structure Overlaid {μ : Type} (env : Env μ) (s : Snapshot μ) (env' : Env μ) : Prop where
  unicodeLetters : env'.unicodeLetters = env.unicodeLetters
  preset : env'.preset = if s.preset.isEmpty then env.preset else Preset.ofName s.preset
  catcodes : ∀ c : Int, env'.catcodes[c]? = s.catcodes[c]?.or env.catcodes[c]?
  table : ∀ t (c : Int), (env'.table t)[c]? = (s.tables t)[c]?.or (env.table t)[c]?
  counts : ∀ name : String, env'.counts[name]? = s.counts[name]?.or env.counts[name]?
  dimens : ∀ name : String, env'.dimens[name]? = s.dimens[name]?.or env.dimens[name]?
  glues : ∀ name : String, env'.glues[name]? = s.glues[name]?.or env.glues[name]?
  toks : ∀ name : String, env'.toks[name]? = s.toks[name]?.or env.toks[name]?
  codes : ∀ name : String, env'.codes[name]? = s.codes[name]?.or env.codes[name]?
  active : ∀ c : Int, env'.active[c]? = s.active[c]?.or env.active[c]?
  font : env'.font = s.font.getD env.font

theorem exists_restoreSnapshot {μ : Type} {env : Env μ} (h : env.atBottom = true)
    (s : Snapshot μ) : ∃ env', env.restoreSnapshot s = .ok env' ∧ env.Overlaid s env' := by
  refine ⟨_, if_pos h, ?_⟩
  exact
    { unicodeLetters := rfl
      preset := rfl
      catcodes := getElem?_merge _ _
      table := fun t => by cases t <;> exact getElem?_merge _ _
      counts := getElem?_merge _ _
      dimens := getElem?_merge _ _
      glues := getElem?_merge _ _
      toks := getElem?_merge _ _
      codes := getElem?_merge _ _
      active := getElem?_merge _ _
      font := rfl }

/-- A copy is only ever restored outside of all groups, and opens none. -/
theorem of_restoreSnapshot {μ : Type} {env env' : Env μ} {s : Snapshot μ}
    (h : env.restoreSnapshot s = .ok env') :
    env.groups = [] ∧ env'.groups = [] ∧ env.Overlaid s env' := by
  by_cases hbottom : env.atBottom = true
  · obtain ⟨env'', hrestore, hover⟩ := exists_restoreSnapshot hbottom s
    obtain rfl : env'' = env' := Except.ok.inj (hrestore.symm.trans h)
    have hempty : env.groups = [] := List.isEmpty_iff.mp hbottom
    have hgroups : env''.groups = env.groups := by
      rw [restoreSnapshot, if_pos hbottom] at h
      injection h with h
      rw [← h]
    exact ⟨hempty, hgroups.trans hempty, hover⟩
  · rw [restoreSnapshot, if_neg hbottom] at h
    contradiction

end TexEngine.Env
