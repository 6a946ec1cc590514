/-
  TexEngine.Proofs.Env.Characters

  Groups and the tables of characters.  A group remembers the entry of a character
  under the text of this character, and codes without a character share the text
  U+FFFD.  Two codes therefore do not disturb each other's entries unless both of them
  lack a text of their own: what is changed locally is restored at the end of the
  group, and a global change of one entry leaves alone what the open groups restore for
  the other.

  A place is followed through its history, the contents that it has now and after
  closing one, two, ... of the open groups.
-/
import TexEngine.Proofs.Env.Scopes
import TexEngine.Proofs.Input.LegalTokens

namespace TexEngine

/-! ## Codes and their texts -/

/-- The code is a surrogate, which has no text, or U+FFFD, which stands for those. -/
def CharCode.LacksText (c : CharCode) : Prop :=
  (0xD800 ≤ c ∧ c ≤ 0xDFFF) ∨ c = 0xFFFD

instance (c : CharCode) : Decidable c.LacksText :=
  inferInstanceAs (Decidable (_ ∨ _))

namespace CharCode

/-- The codes without a text of their own as bounds on an integer. -/
theorem lacksText_iff (c : Int) :
    CharCode.LacksText c ↔ (0xD800 ≤ c ∧ c ≤ 0xDFFF) ∨ c = 0xFFFD :=
  Iff.rfl

/-- A code in range that is no scalar value is a surrogate. -/
theorem lacksText_of_not_isScalar {c : Int} (hc : InRange c) (h : ¬ IsScalar c) :
    LacksText c := by
  rw [inRange_iff] at hc
  rw [isScalar_iff] at h
  rw [lacksText_iff]
  omega

/-- Only U+FFFD is shown in the way of the codes without a character. -/
theorem lacksText_of_toChar_eq {c : Int} (hc : IsScalar c)
    (h : CharCode.toChar c = replacement) : LacksText c := by
  have hreplacement : CharCode.toChar 0xFFFD = replacement := by decide
  exact Or.inr (eq_of_toChar_eq hc (by decide) (h.trans hreplacement.symm))

/-- Two codes have one text only if they are equal or lack a text of their own. -/
theorem eq_or_lacksText {c d : CharCode} (hc : c.InRange) (hd : d.InRange)
    (h : c.toChar = d.toChar) : c = d ∨ (c.LacksText ∧ d.LacksText) := by
  have hnone : ∀ e : CharCode, ¬ e.IsScalar → e.toChar = replacement :=
    fun e he => if_neg he
  by_cases hcs : c.IsScalar <;> by_cases hds : d.IsScalar
  · exact Or.inl (eq_of_toChar_eq hcs hds h)
  · exact Or.inr ⟨lacksText_of_toChar_eq hcs (h.trans (hnone d hds)),
      lacksText_of_not_isScalar hd hds⟩
  · exact Or.inr ⟨lacksText_of_not_isScalar hc hcs,
      lacksText_of_toChar_eq hds (h.symm.trans (hnone c hcs))⟩
  · exact Or.inr ⟨lacksText_of_not_isScalar hc hcs, lacksText_of_not_isScalar hd hds⟩

end CharCode

/-- A table with an entry for every character. -/
inductive CharTable where
  | catcode
  | codes (table : CodeTable)
  | active
  deriving DecidableEq, Repr

namespace CharTable

/-- Where the entry of a character is found. -/
def place : CharTable → CharCode → Place
  | catcode, c => .catcode c
  | codes table, c => .charCode table c
  | active, c => .active c

/-- Entries of one table with the same key belong to characters with the same text. -/
theorem toChar_eq_of_key_eq {t : CharTable} {c d : CharCode}
    (h : (t.place c).key = (t.place d).key) : c.toChar = d.toChar := by
  cases t with
  | catcode => exact UndoKey.catcode.inj h
  | codes table => exact (UndoKey.charCode.inj h).2
  | active => exact UndoKey.active.inj h

/-- Two codes of which one has a text of its own have different keys in each table. -/
theorem key_place_ne {t : CharTable} {c d : CharCode} (hc : c.InRange) (hd : d.InRange)
    (hne : c ≠ d) (htext : ¬ (c.LacksText ∧ d.LacksText)) :
    (t.place c).key ≠ (t.place d).key := by
  intro hkey
  rcases CharCode.eq_or_lacksText hc hd (toChar_eq_of_key_eq hkey) with heq | hboth
  · exact hne heq
  · exact htext hboth

end CharTable

/-- Only box registers have the key of a box register. -/
def Place.IsBox : Place → Prop
  | box _ => True
  | _ => False

theorem CharTable.not_isBox (t : CharTable) (c : CharCode) : ¬ (t.place c).IsBox := by
  cases t <;> exact id

theorem Place.key_ne_of_not_isBox {p : Place} (hp : ¬ p.IsBox) (name : String) :
    UndoKey.box name ≠ p.key := by
  intro h
  cases p with
  | box name' => exact hp trivial
  | _ => cases h

/-! ## Histories -/

section History

variable {μ : Type}

namespace Valuation

/-- What assignments leave at a place depends on the start at this place only. -/
theorem writeAll_congr (blank : Valuation μ) (as : List (Assignment μ)) {p : Place}
    {v w : Valuation μ} (h : v p = w p) :
    writeAll blank v as p = writeAll blank w as p := by
  induction as generalizing v w with
  | nil => exact h
  | cons a as ih =>
    rw [writeAll_cons, writeAll_cons]
    apply ih
    by_cases ha : p = a.place
    · subst ha
      rw [Function.update_self, Function.update_self]
    · rw [Function.update_of_ne ha, Function.update_of_ne ha, h]

/-- The assignments to other places can be left out. -/
theorem writeAll_filter (blank v : Valuation μ) (as : List (Assignment μ)) (p : Place) :
    writeAll blank v (as.filter (·.place = p)) p = writeAll blank v as p := by
  induction as generalizing v with
  | nil => rfl
  | cons a as ih =>
    by_cases ha : a.place = p
    · rw [List.filter_cons_of_pos (by simpa using ha), writeAll_cons, writeAll_cons, ih]
    · rw [List.filter_cons_of_neg (by simpa using ha), writeAll_cons, ih]
      exact writeAll_congr blank as (Function.update_of_ne (Ne.symm ha) _ _).symm

/-- What is found at a place now and after closing one, two, ... of the groups. -/
def history (p : Place) (blank : Valuation μ) : Valuation μ → List (Group μ) → List (p.Content μ)
  | v, [] => [v p]
  | v, g :: gs => v p :: history p blank (writeAll blank v g.undo) gs

/-- The history of a place depends on the content of the place and on what the groups
    remember of it. -/
theorem history_congr {p : Place} {blank v w : Valuation μ} {gs hs : List (Group μ)}
    (hv : v p = w p)
    (h : gs.map (fun g => g.undo.filter (·.place = p)) =
      hs.map (fun g => g.undo.filter (·.place = p))) :
    history p blank v gs = history p blank w hs := by
  induction gs generalizing v w hs with
  | nil =>
    cases hs with
    | nil => simp only [history, hv]
    | cons k ks => simp at h
  | cons g gs ih =>
    cases hs with
    | nil => simp at h
    | cons k ks =>
      simp only [List.map_cons, List.cons.injEq] at h
      have hend : writeAll blank v g.undo p = writeAll blank w k.undo p := by
        rw [← writeAll_filter, h.1, writeAll_filter, writeAll_congr blank k.undo hv]
      simp only [history, hv, ih hend h.2]

end Valuation

/-- What is found at a place now and after closing one, two, ... of the open groups. -/
def Env.history (env : Env μ) (p : Place) : List (p.Content μ) :=
  Valuation.history p env.blank env.lookup env.groups

/-- The group restores the place under the key of this place, and no other place. -/
def Group.Knows (g : Group μ) (p : Place) : Prop :=
  ∀ a ∈ g.undo, a.key = p.key → a.place = p

namespace Group

theorem Knows.save {g : Group μ} {p : Place} (hg : g.Knows p) {old : Assignment μ}
    (hold : old.key = p.key → old.place = p) : (g.save old).Knows p := by
  intro a ha hkey
  unfold Group.save at ha
  split at ha
  · exact hg a ha hkey
  · rcases List.mem_cons.mp ha with rfl | ha
    · exact hold hkey
    · exact hg a ha hkey

theorem Knows.purge {g : Group μ} {p : Place} (hg : g.Knows p) (key : UndoKey) :
    (g.purge key).Knows p :=
  fun a ha => hg a (List.mem_filter.mp ha).1

/-- Remembering another place changes nothing about this one. -/
theorem filter_undo_save {g : Group μ} {p : Place} {old : Assignment μ} (h : old.place ≠ p) :
    (g.save old).undo.filter (·.place = p) = g.undo.filter (·.place = p) := by
  unfold save
  split
  · rfl
  · exact List.filter_cons_of_neg (by simpa using h)

/-- Forgetting another key changes nothing about this place. -/
theorem filter_undo_purge {g : Group μ} {p : Place} {key : UndoKey} (h : key ≠ p.key) :
    (g.purge key).undo.filter (·.place = p) = g.undo.filter (·.place = p) := by
  show (g.undo.filter (·.key ≠ key)).filter (·.place = p) = _
  rw [List.filter_filter]
  apply List.filter_congr
  intro a _
  by_cases ha : a.place = p
  · have hkey : a.key ≠ key := by
      rw [Assignment.key_eq_key_place, ha]
      exact Ne.symm h
    simp [ha, hkey]
  · simp [ha]

end Group

namespace Env

variable {env : Env μ} {p : Place}

theorem head_history (env : Env μ) (p : Place) :
    (env.history p).head? = some (env.lookup p) := by
  unfold history
  cases env.groups with
  | nil => rfl
  | cons g gs => rfl

/-- The content of a place is the beginning of its history. -/
theorem lookup_eq_of_history_eq {env env' : Env μ} (h : env.history p = env'.history p) :
    env.lookup p = env'.lookup p := by
  apply Option.some.inj
  rw [← head_history, ← head_history, h]

/-- A new group remembers nothing: it ends with what is found at the place now. -/
theorem history_openGroup (env : Env μ) (p : Place) (type : GroupType) (locator : Locator)
    (start : Token) (deliver : Option Delivery) :
    ((env.openGroup type locator start deliver).1).history p = env.lookup p :: env.history p := by
  show Valuation.history p env.blank _ (_ :: env.groups) = _
  rw [openGroup, lookup_withGroups]
  rfl

/-- An assignment under another key does not change the history. -/
theorem history_assign_of_ne (env : Env μ) (a : Assignment μ) (global : Bool)
    (h : a.key ≠ p.key) : (env.assign a global).history p = env.history p := by
  have hplace : a.place ≠ p := by
    rintro rfl
    exact h a.key_eq_key_place
  -- The history of a place is what it holds now and what the groups remember of it; an assignment
  -- under another key touches neither.
  unfold history
  cases global with
  | true =>
    show Valuation.history p ((env.purge a.key).write a).blank
      ((env.purge a.key).write a).lookup ((env.purge a.key).write a).groups = _
    rw [blank_write, groups_write, lookup_write]
    apply Valuation.history_congr
    · rw [Function.update_of_ne (Ne.symm hplace)]
      exact congrFun (lookup_withGroups env _) p
    · show ((env.groups.map (·.purge a.key)).map _) = _
      rw [List.map_map]
      apply List.map_congr_left
      intro g _
      exact Group.filter_undo_purge h
  | false =>
    show Valuation.history p ((env.save (env.current a)).write a).blank
      ((env.save (env.current a)).write a).lookup ((env.save (env.current a)).write a).groups = _
    rw [blank_write, groups_write, lookup_write, blank_save, lookup_save, groups_save]
    apply Valuation.history_congr
    · rw [Function.update_of_ne (Ne.symm hplace)]
    · have hold : (env.current a).place ≠ p := by rwa [place_current]
      cases env.groups with
      | nil => rfl
      | cons g gs => simp only [List.map_cons, Group.filter_undo_save hold]

/-- A local assignment to the place changes what is found there now, and nothing about
    what is found there after the group. -/
theorem tail_history_assign (env : Env μ) (a : Assignment μ) (hp : a.place = p)
    (h : ∀ g ∈ env.groups.head?, g.Knows p) :
    ((env.assign a false).history p).tail = (env.history p).tail := by
  unfold history
  show (Valuation.history p ((env.save (env.current a)).write a).blank
    ((env.save (env.current a)).write a).lookup
    ((env.save (env.current a)).write a).groups).tail = _
  rw [blank_write, groups_write, lookup_write, blank_save, lookup_save, groups_save]
  cases hgs : env.groups with
  | nil => rfl
  | cons g gs =>
    have hknows : ∀ b ∈ g.undo, b.key = (env.current a).key → b.place = (env.current a).place := by
      intro b hb hkey
      rw [Assignment.key_eq_key_place (env.current a), place_current, hp] at hkey
      rw [place_current, hp]
      exact h g (by rw [hgs]; rfl) b hb hkey
    have hend := Group.writeAll_save g (env.current a) env.blank env.lookup a.place
      (a.content env.blank) (place_current env a) hknows (content_current env a)
    simp only [Valuation.history, List.tail_cons, hend]

/-- Assignments keep what the innermost groups know about a place, unless they assign
    to another place under its key. -/
theorem knows_assign (env : Env μ) (a : Assignment μ) (global : Bool) (n : Nat)
    (ha : a.key = p.key → a.place = p) (h : ∀ g ∈ env.groups.take n, g.Knows p) :
    ∀ g ∈ (env.assign a global).groups.take n, g.Knows p := by
  cases global with
  | true =>
    show ∀ g ∈ ((env.purge a.key).write a).groups.take n, g.Knows p
    rw [groups_write]
    show ∀ g ∈ (env.groups.map (·.purge a.key)).take n, g.Knows p
    rw [← List.map_take, List.forall_mem_map]
    exact fun g hg => (h g hg).purge a.key
  | false =>
    show ∀ g ∈ ((env.save (env.current a)).write a).groups.take n, g.Knows p
    rw [groups_write, groups_save]
    have hold : (env.current a).key = p.key → (env.current a).place = p := by
      rw [Assignment.key_eq_key_place, place_current, ← Assignment.key_eq_key_place]
      exact ha
    -- Only the innermost group gets an entry.
    cases hgs : env.groups with
    | nil => simp
    | cons g gs =>
      rw [hgs] at h
      cases n with
      | zero => simp
      | succ n =>
        rw [List.take_succ_cons, List.forall_mem_cons] at h ⊢
        exact ⟨h.1.save hold, h.2⟩

/-! ## Closing groups -/

/-- A group that can be closed ends by restoring what it changed; its box, if there is
    one, is then assigned to a register. -/
theorem closeGroup_of_closesWith (nameOf : μ → String) (ts : Option Recorder) {g : Group μ}
    {gs : List (Group μ)} (h : env.groups = g :: gs) (hts : g.type.ClosesWith ts) :
    ∃ c, env.closeGroup nameOf ts = .ok c ∧
      (c.env = { env.restore g.undo with groups := gs } ∨
        ∃ name box global,
          c.env = Env.assign { env.restore g.undo with groups := gs } (.box name box) global) := by
  unfold closeGroup
  rw [h]
  dsimp -zeta only
  extract_lets restored undone outer left finish
  -- `finish` is what happens when the box, if there is one, has been closed.
  have hfinish : ∀ closed, ∃ c, finish closed = .ok c ∧
      (c.env = { env.restore g.undo with groups := gs } ∨
        ∃ name box global,
          c.env = Env.assign { env.restore g.undo with groups := gs } (.box name box) global) := by
    intro closed
    refine ⟨_, rfl, ?_⟩
    dsimp only
    split
    · exact Or.inl rfl
    · exact Or.inl rfl
    · exact Or.inr ⟨_, _, _, rfl⟩
  cases hisBox : g.type.isBox with
  | false => exact hfinish _
  | true =>
    cases ts with
    | none => exact hfinish _
    | some r =>
      obtain ⟨closed, hr⟩ := Option.isSome_iff_exists.mp (hts hisBox r rfl)
      simp only [if_true, hr]
      exact hfinish _

/-- A box group cannot be closed if the typesetter has no box to close. -/
theorem closeGroup_of_not_closesWith (nameOf : μ → String) (ts : Option Recorder) {g : Group μ}
    {gs : List (Group μ)} (h : env.groups = g :: gs) (hts : ¬ g.type.ClosesWith ts) :
    env.closeGroup nameOf ts = .error (.failure Recorder.noOpenBox) := by
  unfold GroupType.ClosesWith at hts
  push Not at hts
  obtain ⟨hbox, r, rfl, hr⟩ := hts
  have hnone : r.closeBox? = none := by simpa using hr
  unfold closeGroup
  rw [h]
  simp [hbox, hnone, bind, Except.bind, throw, throwThe, MonadExceptOf.throw]

/-- What is known about a place that is not a box register when a group has been
    closed. -/
theorem exists_closeGroup (nameOf : μ → String) (ts : Option Recorder) (hp : ¬ p.IsBox)
    {g : Group μ} {gs : List (Group μ)} (h : env.groups = g :: gs)
    (hts : g.type.ClosesWith ts) (n : Nat) (hknows : ∀ k ∈ gs.take n, k.Knows p) :
    ∃ c, env.closeGroup nameOf ts = .ok c ∧
      c.env.groups.map (·.type) = gs.map (·.type) ∧
      (∀ k ∈ c.env.groups.take n, k.Knows p) ∧
      c.env.history p = (env.history p).tail := by
  obtain ⟨c, hc, henv⟩ := closeGroup_of_closesWith nameOf ts h hts
  have hrestored : Env.history { env.restore g.undo with groups := gs } p =
      (env.history p).tail := by
    show Valuation.history p (env.restore g.undo).blank _ gs =
      (Valuation.history p _ _ env.groups).tail
    rw [lookup_withGroups, blank_restore, lookup_restore, h]
    rfl
  rcases henv with henv | ⟨name, box, global, henv⟩
  · exact ⟨c, hc, by rw [henv], by rwa [henv], by rw [henv, hrestored]⟩
  · -- The box goes to a register, which is another place with another key.
    have hkey : (Assignment.box name box : Assignment μ).key ≠ p.key :=
      Place.key_ne_of_not_isBox hp name
    refine ⟨c, hc, ?_, ?_, ?_⟩
    · rw [henv, types_assign]
    · rw [henv]
      exact knows_assign _ _ _ _ (fun hbox => absurd hbox hkey) hknows
    · rw [henv, history_assign_of_ne _ _ _ hkey, hrestored]

/-- Environments with the same history of a place and the same kinds of groups: closing
    groups fails at the same times and leaves the same at the place. -/
theorem run_closings (nameOf : μ → String) (hp : ¬ p.IsBox) {env env' : Env μ}
    (htypes : env.groups.map (·.type) = env'.groups.map (·.type))
    (hhistory : env.history p = env'.history p) (closings : List (Option Recorder)) :
    let result := ScopeOp.run (Env.perform nameOf) env (closings.map .closeGroup)
    let result' := ScopeOp.run (Env.perform nameOf) env' (closings.map .closeGroup)
    result.2 = result'.2 ∧ result.1.lookup p = result'.1.lookup p := by
  -- A closing fails in both environments or in neither; one that fails changes nothing.
  induction closings generalizing env env' with
  | nil => exact ⟨rfl, lookup_eq_of_history_eq hhistory⟩
  | cons ts closings ih =>
    cases hgs : env.groups with
    | nil =>
      have hgs' : env'.groups = [] := by
        rw [hgs] at htypes
        exact List.map_eq_nil_iff.mp htypes.symm
      obtain ⟨hfailures, hlookup⟩ := ih htypes hhistory
      simp only [List.map_cons, ScopeOp.run, perform, closeGroup_of_nil nameOf ts hgs,
        closeGroup_of_nil nameOf ts hgs', Except.map]
      exact ⟨by rw [hfailures], hlookup⟩
    | cons g gs =>
      obtain ⟨g', gs', hgs', htype, hrest⟩ : ∃ g' gs', env'.groups = g' :: gs' ∧
          g'.type = g.type ∧ gs'.map (·.type) = gs.map (·.type) := by
        rw [hgs, List.map_cons] at htypes
        exact List.map_eq_cons_iff.mp htypes.symm
      by_cases hts : g.type.ClosesWith ts
      · obtain ⟨c, hc, hctypes, -, hchistory⟩ :=
          exists_closeGroup nameOf ts hp hgs hts 0 (by simp)
        obtain ⟨c', hc', hctypes', -, hchistory'⟩ :=
          exists_closeGroup nameOf ts hp hgs' (htype ▸ hts) 0 (by simp)
        have htypes' : c.env.groups.map (·.type) = c'.env.groups.map (·.type) := by
          rw [hctypes, hctypes', hrest]
        have hhistory' : c.env.history p = c'.env.history p := by
          rw [hchistory, hchistory', hhistory]
        obtain ⟨hfailures, hlookup⟩ := ih htypes' hhistory'
        simp only [List.map_cons, ScopeOp.run, perform, hc, hc', Except.map]
        exact ⟨by rw [hfailures], hlookup⟩
      · obtain ⟨hfailures, hlookup⟩ := ih htypes hhistory
        simp only [List.map_cons, ScopeOp.run, perform,
          closeGroup_of_not_closesWith nameOf ts hgs hts,
          closeGroup_of_not_closesWith nameOf ts hgs' (htype ▸ hts), Except.map]
        exact ⟨by rw [hfailures], hlookup⟩

end Env

/-! ## The body of a group -/

namespace ScopeOp

/-- The operations stay inside of the group that is open when they begin, and close
    every group that they open; groups of the given types are open in it already,
    innermost first.  Boxes can be closed where box groups end. -/
def Inside : List GroupType → List (ScopeOp μ) → Prop
  | types, [] => types = []
  | types, .openGroup type _ _ :: ops => Inside (type :: types) ops
  | [], .closeGroup _ :: _ => False
  | type :: types, .closeGroup ts :: ops => type.ClosesWith ts ∧ Inside types ops
  | types, .set _ _ :: ops => Inside types ops

/-- An assignment under the key of one of the two places is a local assignment to one
    of them. -/
def LocalAt (p q : Place) : ScopeOp μ → Prop
  | .set s global =>
    (s.place.key = p.key ∨ s.place.key = q.key) →
      global = false ∧ (s.place = p ∨ s.place = q)
  | _ => True

theorem LocalAt.symm {p q : Place} {op : ScopeOp μ} (h : op.LocalAt p q) : op.LocalAt q p := by
  cases op with
  | set s global => exact fun hkey => (h hkey.symm).imp_right Or.symm
  | _ => trivial

end ScopeOp

/-- The environment is inside of a group of the given type that began where the place
    had a certain history.  Further groups are open in it, innermost first. -/
structure Within (p : Place) (before : List (p.Content μ)) (type : GroupType)
    (types : List GroupType) (env : Env μ) : Prop where
  opened : (env.groups.map (·.type)).take (types.length + 1) = types ++ [type]
  knows : ∀ g ∈ env.groups.take (types.length + 1), g.Knows p
  history : (env.history p).drop (types.length + 1) = before

namespace Within

variable {p q : Place} {before : List (p.Content μ)} {type : GroupType}
  {types : List GroupType} {env : Env μ}

/-- The beginning of a group. -/
theorem start (env : Env μ) (p : Place) (type : GroupType) (locator : Locator) (start : Token)
    (deliver : Option Delivery) :
    Within p (env.history p) type [] (env.openGroup type locator start deliver).1 where
  opened := rfl
  knows := by
    intro g hg
    obtain rfl := List.mem_singleton.mp hg
    simp [Group.Knows]
  history := by
    rw [Env.history_openGroup]
    rfl

theorem openGroup (h : Within p before type types env) (type' : GroupType) (locator : Locator)
    (start : Token) :
    Within p before type (type' :: types) (env.openGroup type' locator start none).1 where
  opened := congrArg (type' :: ·) h.opened
  knows := by
    show ∀ g ∈ (_ :: env.groups).take (types.length + 1 + 1), g.Knows p
    rw [List.take_succ_cons, List.forall_mem_cons]
    exact ⟨by simp [Group.Knows], h.knows⟩
  history := by
    rw [Env.history_openGroup]
    exact h.history

theorem assign (h : Within p before type types env) (a : Assignment μ) (global : Bool)
    (ha : a.key = p.key → global = false ∧ a.place = p) :
    Within p before type types (env.assign a global) where
  opened := by
    rw [Env.types_assign]
    exact h.opened
  knows := Env.knows_assign env a global _ (fun hkey => (ha hkey).2) h.knows
  history := by
    by_cases hkey : a.key = p.key
    · obtain ⟨rfl, hplace⟩ := ha hkey
      have hhead : ∀ g ∈ env.groups.head?, g.Knows p := by
        intro g hg
        have hknows := h.knows
        cases hgs : env.groups with
        | nil => simp [hgs] at hg
        | cons k ks =>
          rw [hgs, List.head?_cons, Option.mem_some_iff] at hg
          rw [hgs, List.take_succ_cons] at hknows
          exact hg ▸ hknows k List.mem_cons_self
      rw [← List.drop_tail, Env.tail_history_assign env a hplace hhead, List.drop_tail]
      exact h.history
    · rw [Env.history_assign_of_ne env a global hkey]
      exact h.history

/-- The innermost group can be closed. -/
theorem closeGroup {type' : GroupType} (h : Within p before type (type' :: types) env)
    (hp : ¬ p.IsBox) (nameOf : μ → String) {ts : Option Recorder} (hts : type'.ClosesWith ts) :
    ∃ c, env.closeGroup nameOf ts = .ok c ∧ Within p before type types c.env := by
  have htypes := h.opened
  have hknows := h.knows
  cases hgs : env.groups with
  | nil => simp [hgs] at htypes
  | cons g gs =>
    rw [hgs, List.map_cons, List.length_cons, List.take_succ_cons, List.cons_append,
      List.cons.injEq] at htypes
    rw [hgs, List.length_cons, List.take_succ_cons, List.forall_mem_cons] at hknows
    obtain ⟨rfl, hrest⟩ := htypes
    obtain ⟨c, hc, hctypes, hcknows, hchistory⟩ :=
      Env.exists_closeGroup nameOf ts hp hgs hts _ hknows.2
    refine ⟨c, hc, by rwa [hctypes], hcknows, ?_⟩
    rw [hchistory, List.drop_tail]
    exact h.history

/-- Closing the group itself brings the place back to what it was before the group. -/
theorem close (h : Within p before type [] env) (hp : ¬ p.IsBox) (nameOf : μ → String)
    {ts : Option Recorder} (hts : type.ClosesWith ts) :
    ∃ c, env.closeGroup nameOf ts = .ok c ∧ c.env.history p = before := by
  have htypes := h.opened
  cases hgs : env.groups with
  | nil => simp [hgs] at htypes
  | cons g gs =>
    obtain rfl : g.type = type := by simpa [hgs] using htypes
    obtain ⟨c, hc, -, -, hchistory⟩ := Env.exists_closeGroup nameOf ts hp hgs hts 0 (by simp)
    refine ⟨c, hc, ?_⟩
    rw [hchistory, ← List.drop_one]
    exact h.history

/-- A body that assigns to the place only locally does not leave the group. -/
theorem run (h : Within p before type types env) (hp : ¬ p.IsBox) (hpq : p.key ≠ q.key)
    (nameOf : μ → String) (body : List (ScopeOp μ)) (hinside : ScopeOp.Inside types body)
    (hlocal : ∀ op ∈ body, op.LocalAt p q) :
    Within p before type [] (ScopeOp.run (Env.perform nameOf) env body).1 := by
  induction body generalizing env types with
  | nil =>
    obtain rfl : types = [] := hinside
    exact h
  | cons op body ih =>
    rw [List.forall_mem_cons] at hlocal
    obtain ⟨hop, hlocal⟩ := hlocal
    -- Nested groups are closed within the body, and what is assigned in them to the two places is
    -- local as well, so the account of the outer group goes on.
    cases op with
    | openGroup type' locator start => exact ih (h.openGroup type' locator start) hinside hlocal
    | set s global =>
      refine ih (h.assign s.assignment global ?_) hinside hlocal
      intro hkey
      rw [Assignment.key_eq_key_place, Setting.place_assignment] at hkey
      obtain ⟨hglobal, hplace⟩ := hop (Or.inl hkey)
      refine ⟨hglobal, (Setting.place_assignment s).trans ?_⟩
      rcases hplace with hplace | hplace
      · exact hplace
      · exact absurd (by rw [← hkey, hplace]) hpq
    | closeGroup ts =>
      cases types with
      | nil => exact hinside.elim
      | cons type' types =>
        obtain ⟨hts, hinside⟩ := hinside
        obtain ⟨c, hc, hwithin⟩ := h.closeGroup hp nameOf hts
        simp only [ScopeOp.run, Env.perform, hc, Except.map]
        exact ih hwithin hinside hlocal

end Within

/-! ## Two characters of one table -/

/-- Two different codes, at most one of which lacks a text of its own, in one table.
    Whatever happens in a group, if the entries of the two codes are assigned to locally,
    then closing the group brings both of them back to what they were before the group.
    A global assignment to the one changes neither what closing the open groups restores
    for the other nor which attempts to close a group fail. -/
theorem restores_both_characters (nameOf : μ → String) (env : Env μ) (t : CharTable)
    {r₁ r₂ : CharCode} (h₁ : r₁.InRange) (h₂ : r₂.InRange) (hne : r₁ ≠ r₂)
    (htext : ¬ (r₁.LacksText ∧ r₂.LacksText)) :
    (∀ (type : GroupType) (locator : Locator) (start : Token) (deliver : Option Delivery)
        (body : List (ScopeOp μ)) (ts : Option Recorder),
      ScopeOp.Inside [] body → (∀ op ∈ body, op.LocalAt (t.place r₁) (t.place r₂)) →
      type.ClosesWith ts →
      ∃ c, (ScopeOp.run (Env.perform nameOf) (env.openGroup type locator start deliver).1
          body).1.closeGroup nameOf ts = .ok c ∧
        c.env.lookup (t.place r₁) = env.lookup (t.place r₁) ∧
        c.env.lookup (t.place r₂) = env.lookup (t.place r₂)) ∧
    (∀ (v : (t.place r₁).Content μ) (closings : List (Option Recorder)),
      let before := ScopeOp.run (Env.perform nameOf) env (closings.map .closeGroup)
      let after := ScopeOp.run (Env.perform nameOf)
        (env.assign (Setting.assignment ⟨t.place r₁, v⟩) true) (closings.map .closeGroup)
      after.2 = before.2 ∧ after.1.lookup (t.place r₂) = before.1.lookup (t.place r₂)) := by
  have hkey : (t.place r₁).key ≠ (t.place r₂).key := CharTable.key_place_ne h₁ h₂ hne htext
  constructor
  · intro type locator start deliver body ts hinside hlocal hts
    have hbox₁ := t.not_isBox r₁
    have hbox₂ := t.not_isBox r₂
    have hwithin₁ := (Within.start env (t.place r₁) type locator start deliver).run hbox₁ hkey
      nameOf body hinside hlocal
    have hwithin₂ := (Within.start env (t.place r₂) type locator start deliver).run hbox₂ hkey.symm
      nameOf body hinside (fun op hop => (hlocal op hop).symm)
    obtain ⟨c, hc, hhistory₁⟩ := hwithin₁.close hbox₁ nameOf hts
    obtain ⟨c', hc', hhistory₂⟩ := hwithin₂.close hbox₂ nameOf hts
    obtain rfl : c = c' := Except.ok.inj (hc.symm.trans hc')
    exact ⟨c, hc, Env.lookup_eq_of_history_eq hhistory₁, Env.lookup_eq_of_history_eq hhistory₂⟩
  · intro v closings
    apply Env.run_closings nameOf (t.not_isBox r₂) (Env.types_assign env _ true)
    apply Env.history_assign_of_ne
    rwa [Assignment.key_eq_key_place, Setting.place_assignment]

/-- In a group, the category code of A is changed twice and that of the surrogate D800
    once, inside of a box group in it. -/
def codesInGroup : List (ScopeOp String) :=
  [.set ⟨.catcode 65, Catcode.other⟩ false,
   .openGroup .hbox {} (.char 123 .beginGroup),
   .set ⟨.catcode 0xD800, Catcode.letter⟩ false,
   .set ⟨.charCode .lccode 65, (97 : Int64)⟩ true,
   .closeGroup none,
   .set ⟨.catcode 65, Catcode.active⟩ false]

theorem restores_both_characters_nested :
    CharCode.InRange 65 ∧ CharCode.InRange 0xD800 ∧ (65 : CharCode) ≠ 0xD800 ∧
      ¬ (CharCode.LacksText 65 ∧ CharCode.LacksText 0xD800) ∧
      ScopeOp.Inside [] codesInGroup ∧
      (∀ op ∈ codesInGroup,
        op.LocalAt (CharTable.catcode.place 65) (CharTable.catcode.place 0xD800)) ∧
      GroupType.simple.ClosesWith none ∧
      (∃ c, (ScopeOp.run (Env.perform id) ((Env.initial .plain false).openGroup .simple {}
          (.char 123 .beginGroup) none).1 codesInGroup).1.closeGroup id none = .ok c ∧
        c.env.lookup (.catcode 65) = Catcode.letter ∧
        c.env.lookup (.catcode 0xD800) = Catcode.other) := by
  have hinside : ScopeOp.Inside [] codesInGroup := by
    simp [codesInGroup, ScopeOp.Inside, GroupType.ClosesWith]
  have hlocal : ∀ op ∈ codesInGroup,
      op.LocalAt (CharTable.catcode.place 65) (CharTable.catcode.place 0xD800) := by
    simp [codesInGroup, ScopeOp.LocalAt, CharTable.place, Place.key]
  have hcloses : GroupType.simple.ClosesWith none := by
    simp [GroupType.ClosesWith]
  have hletter : CharCode.InRange 65 := by decide
  have hsurrogate : CharCode.InRange 0xD800 := by decide
  have hne : (65 : CharCode) ≠ 0xD800 := by decide
  have htext : ¬ (CharCode.LacksText 65 ∧ CharCode.LacksText 0xD800) := by decide
  refine ⟨hletter, hsurrogate, hne, htext, hinside, hlocal, hcloses, ?_⟩
  have hboth := restores_both_characters id (Env.initial .plain false) .catcode hletter hsurrogate
    hne htext
  exact hboth.1 .simple {} (.char 123 .beginGroup) none codesInGroup none hinside hlocal hcloses

/-! ## Characters without a text of their own -/

/-- A place that the innermost group does not remember keeps its content. -/
theorem Env.lookup_closeGroup_of_forall_ne {env : Env μ} (nameOf : μ → String) {g : Group μ}
    {gs : List (Group μ)} (hgs : env.groups = g :: gs) (hdeliver : g.deliver = none)
    {ts : Option Recorder} (hts : g.type.ClosesWith ts) {q : Place}
    (hq : ∀ a ∈ g.undo, a.place ≠ q) :
    ∃ c, env.closeGroup nameOf ts = .ok c ∧ c.env.lookup q = env.lookup q := by
  obtain ⟨c, hc, henv⟩ := closeGroup_of_cons nameOf ts hgs hdeliver hts
  have hnone : g.undo.filter (·.place = q) = [] := by
    rw [List.filter_eq_nil_iff]
    simpa using hq
  refine ⟨c, hc, ?_⟩
  rw [henv, lookup_withGroups, lookup_restore, ← Valuation.writeAll_filter, hnone]
  rfl

section SharedKey

variable {p q : Place}

/-- Where two places have one key, the group takes the change of the second one for
    another change of the first: the second one keeps its value when the group ends. -/
theorem Env.lookup_closeGroup_of_key_eq (nameOf : μ → String) (env : Env μ) (hpq : p ≠ q)
    (hkey : p.key = q.key) (v : p.Content μ) (w : q.Content μ) (type : GroupType)
    (locator : Locator) (start : Token) {ts : Option Recorder} (hts : type.ClosesWith ts) :
    let opened := (env.openGroup type locator start none).1
    let changed := (opened.assign (Setting.assignment ⟨p, v⟩) false).assign
      (Setting.assignment ⟨q, w⟩) false
    ∃ c, changed.closeGroup nameOf ts = .ok c ∧ c.env.lookup q = w := by
  intro opened changed
  let old := opened.current (Setting.assignment ⟨p, v⟩)
  have hold : old.place = p := by simp [old]
  have hgroups : changed.groups = { type, locator, start, undo := [old] } :: env.groups := by
    show (Env.write (Env.save _ (Env.current _ (Setting.assignment ⟨q, w⟩))) _).groups = _
    -- Both places have the same key: the second one seems to be saved already.
    have hseen : old.key = (Env.current (opened.assign (Setting.assignment ⟨p, v⟩) false)
        (Setting.assignment ⟨q, w⟩)).key := by
      rw [Assignment.key_eq_key_place, hold, Assignment.key_eq_key_place, place_current,
        Setting.place_assignment, hkey]
    have hfirst : (opened.assign (Setting.assignment ⟨p, v⟩) false).groups =
        { type, locator, start, undo := [old] } :: env.groups := by
      show (Env.write (Env.save opened old) _).groups = _
      rw [groups_write]
      rfl
    rw [groups_write, groups_save, hfirst]
    simp [Group.save, hseen]
  have hlookup : changed.lookup q = w := by
    rw [lookup_assign_setting, Function.update_self]
  rw [← hlookup]
  apply lookup_closeGroup_of_forall_ne nameOf hgroups rfl hts
  intro a ha
  rw [List.mem_singleton.mp ha, hold]
  exact hpq

/-- A global change of the first place makes the group forget a local change of the
    second one. -/
theorem Env.lookup_closeGroup_of_key_eq_global (nameOf : μ → String) (env : Env μ) (hpq : p ≠ q)
    (hkey : p.key = q.key) (v : p.Content μ) (w : q.Content μ) (type : GroupType)
    (locator : Locator) (start : Token) {ts : Option Recorder} (hts : type.ClosesWith ts) :
    let opened := (env.openGroup type locator start none).1
    let changed := (opened.assign (Setting.assignment ⟨q, w⟩) false).assign
      (Setting.assignment ⟨p, v⟩) true
    ∃ c, changed.closeGroup nameOf ts = .ok c ∧ c.env.lookup q = w := by
  intro opened changed
  let old := opened.current (Setting.assignment ⟨q, w⟩)
  have hgroups : changed.groups =
      Group.purge { type, locator, start, undo := [old] } p.key ::
        env.groups.map (·.purge p.key) := by
    show (Env.write (Env.purge (Env.write (Env.save opened old) _) _) _).groups = _
    rw [groups_write, Assignment.key_eq_key_place, Setting.place_assignment]
    show (Env.write (Env.save opened old) _).groups.map (·.purge p.key) = _
    rw [groups_write]
    rfl
  have hlookup : changed.lookup q = w := by
    rw [lookup_assign_setting, Function.update_of_ne hpq.symm, lookup_assign_setting,
      Function.update_self]
  rw [← hlookup]
  apply lookup_closeGroup_of_forall_ne nameOf hgroups rfl hts
  intro a ha
  obtain ⟨hmem, hforgotten⟩ := List.mem_filter.mp ha
  -- The entry has the key of the global assignment, and so is purged.
  have hold : a.key = p.key := by
    rw [List.mem_singleton.mp hmem, Assignment.key_eq_key_place, place_current,
      Setting.place_assignment, hkey]
  exact absurd hold (by simpa using hforgotten)

end SharedKey

end History

/-- The surrogates D800 and D801 are made letters in a group: the second one is still a
    letter behind it.  If only the second one is changed, it is restored, but not if the
    first one is made a letter globally afterwards. -/
theorem surrogate_not_restored :
    let env : Env String := Env.initial .plain false
    let opened := (env.openGroup .simple {} (.char 123 .beginGroup) none).1
    let first : Assignment String := .catcode 0xD800 (some .letter)
    let second : Assignment String := .catcode 0xD801 (some .letter)
    CharCode.InRange 0xD800 ∧ CharCode.InRange 0xD801 ∧ env.catcode 0xD801 = .other ∧
      (∃ c, ((opened.assign first false).assign second false).closeGroup id none = .ok c ∧
        c.env.catcode 0xD801 = .letter) ∧
      (∃ c, (opened.assign second false).closeGroup id none = .ok c ∧
        c.env.catcode 0xD801 = .other) ∧
      (∃ c, ((opened.assign second false).assign first true).closeGroup id none = .ok c ∧
        c.env.catcode 0xD801 = .letter) := by
  intro env opened first second
  have hkey : (Place.catcode 0xD800).key = (Place.catcode 0xD801).key := by decide
  have hcloses : GroupType.simple.ClosesWith none := by
    simp [GroupType.ClosesWith]
  refine ⟨by decide, by decide, by decide, ?_, ?_, ?_⟩
  · exact env.lookup_closeGroup_of_key_eq id (by decide) hkey Catcode.letter Catcode.letter
      .simple {} (.char 123 .beginGroup) hcloses
  · obtain ⟨c, hc, hhistory⟩ :=
      ((Within.start env (.catcode 0xD801) .simple {} (.char 123 .beginGroup) none).assign second
        false fun _ => ⟨rfl, rfl⟩).close id id hcloses
    exact ⟨c, hc, Env.lookup_eq_of_history_eq hhistory⟩
  · exact env.lookup_closeGroup_of_key_eq_global id (by decide) hkey Catcode.letter Catcode.letter
      .simple {} (.char 123 .beginGroup) hcloses

end TexEngine
