/-
  TexEngine.Proofs.Engine.TableEntries

  Entries of the tables for characters, saved and restored: what is read from a table is
  assigned to the same entry again.

  Assigned entries have passed the check of an assignment, so that they pass it again.
  Entries without an assignment are given by rules of their own, and these agree with the
  checks over all characters, except for the \mathcode: it is the number of the character,
  also where this is larger than any \mathcode that may be assigned.
-/
import TexEngine.Proofs.Engine.Jobs
import TexEngine.Proofs.Env.Scopes

namespace TexEngine

open Eng

/-! ## Entries without an assignment -/

namespace CodeTable

theorem allows_ofInt_iff (t : CodeTable) {n : Int} (hn : -(2 ^ 63) ≤ n ∧ n < 2 ^ 63) :
    t.Allows (Int64.ofInt n) ↔ t.range.1.toInt ≤ n ∧ n ≤ t.range.2.toInt := by
  rw [Allows, Int64.le_iff_toInt_le, Int64.le_iff_toInt_le,
    Int64.toInt_ofInt_of_le (by omega) (by omega)]

theorem allows_default_mathcode_iff (unicode : Bool) {c : Int} (hc : CharCode.InRange c) :
    mathcode.Allows (mathcode.default unicode c) ↔ c ≤ 0x8000 := by
  have hcode := CharCode.inRange_iff.mp hc
  have hrange : mathcode.range.1.toInt = 0 ∧ mathcode.range.2.toInt = 0x8000 := by decide
  have hallows : ∀ n : Int, 0 ≤ n → n ≤ 0x110000 →
      (mathcode.Allows (Int64.ofInt n) ↔ n ≤ 0x8000) := by
    intro n hlow hhigh
    rw [allows_ofInt_iff _ (by omega), hrange.1, hrange.2]
    omega
  unfold default
  dsimp only
  split
  · -- ASCII letters and digits belong to classes of their own, far below the bound.
    rename_i hletter
    have hascii : c < 128 := by simpa using (Bool.and_eq_true_iff.mp hletter).2
    rw [hallows _ (by omega) (by omega)]
    omega
  · split
    · rename_i hdigit
      have hbounds : 48 ≤ c ∧ c ≤ 57 := by simpa using hdigit
      rw [hallows _ (by omega) (by omega)]
      omega
    · exact hallows c (by omega) (by omega)

/-- The default entries are those that may be assigned, with one exception. -/
theorem allows_default_iff (t : CodeTable) (unicode : Bool) {c : Int} (hc : CharCode.InRange c) :
    t.Allows (t.default unicode c) ↔ ¬(t = mathcode ∧ 0x8000 < c) := by
  have hcase : t.IsCase → t.Allows (t.default unicode c) := by
    intro ht
    have hrange : t.range.1.toInt = 0 ∧ t.range.2.toInt = 0x10FFFF := by
      cases t <;> first | exact False.elim ht | decide
    rw [Allows, Int64.le_iff_toInt_le, Int64.le_iff_toInt_le, hrange.1, hrange.2]
    exact charCode_inRange_default ht unicode hc
  cases t with
  | mathcode =>
    rw [allows_default_mathcode_iff unicode hc]
    simp
  | lccode => simpa using hcase True.intro
  | uccode => simpa using hcase True.intro
  | sfcode =>
    refine iff_of_true ?_ (by simp)
    unfold default Allows
    dsimp only
    split <;> decide
  | delcode =>
    refine iff_of_true ?_ (by simp)
    unfold default Allows
    dsimp only
    split <;> decide

end CodeTable

/-- The number of a category is the number of no other one. -/
theorem Catcode.ofInt_toInt {k : Catcode} (hk : k ∈ all) :
    ofInt (Int64.ofInt k.toInt).toInt = k ∧ k.isValid = true := by
  have hall : ∀ k ∈ all, ofInt (Int64.ofInt k.toInt).toInt = k ∧ k.isValid = true := by decide
  exact hall k hk

namespace Env

variable {env : Env Meaning} {n : Nat} {c : CharCode}

/-- No entry of the table was assigned, and the one that the character has without an
    assignment may not be assigned. -/
def ExceedsRange (env : Env Meaning) (t : CodeTable) (c : CharCode) : Prop :=
  t = .mathcode ∧ 0x8000 < c ∧ (env.table t)[c]? = none

theorem WellFormed.catcode_mem (h : env.WellFormed n) (c : CharCode) :
    env.catcode c ∈ Catcode.all :=
  Legal.getD_of_forall (h.holds.current (.catcode c none)) (Catcode.default_mem_all ..)

theorem WellFormed.allows_charCode_iff (h : env.WellFormed n) (t : CodeTable)
    (hc : CharCode.InRange c) : t.Allows (env.charCode t c) ↔ ¬env.ExceedsRange t c := by
  have hassigned : ∀ v ∈ (env.table t)[c]?, t.Allows v := h.holds.current (.charCode t c none)
  unfold charCode ExceedsRange
  rw [Std.TreeMap.getD_eq_getD_getElem?]
  cases hentry : (env.table t)[c]? with
  | some v =>
    refine iff_of_true (hassigned v hentry) ?_
    rintro ⟨-, -, hnone⟩
    contradiction
  | none =>
    rw [Option.getD_none, CodeTable.allows_default_iff t _ hc]
    simp

/-- Assigning what is at a place changes nothing that can be looked up. -/
theorem lookup_assign_same (env : Env Meaning) {a : Assignment Meaning}
    (h : a.content env.blank = env.lookup a.place) (global : Bool) :
    (env.assign a global).lookup = env.lookup := by
  rw [lookup_assign, h, Function.update_eq_self]

end Env

/-! ## Saving and restoring -/

namespace Cell

/-- Assigns to a cell the value that it has. -/
def renew (cell : Cell) (global : Bool) : Eng Unit := do
  cell.write (← cell.read) global

variable {m : Machine} {n : Nat}

theorem renew_catcode (hm : m.env.WellFormed n) (c : CharCode) (global : Bool) :
    (catcode c).renew global m =
      .ok () { m with env := m.env.assign (.catcode c (some (m.env.catcode c))) global } := by
  obtain ⟨hnumber, hvalid⟩ := Catcode.ofInt_toInt (hm.catcode_mem c)
  have hread : (catcode c).read m = .ok (.int (Int64.ofInt (m.env.catcode c).toInt)) m := rfl
  rw [renew, bind_of_ok hread]
  dsimp only [write]
  rw [hnumber, if_pos hvalid]
  rfl

theorem renew_charCode (t : CodeTable) (c : CharCode) (global : Bool) (m : Machine) :
    (charCode t c).renew global m =
      (if m.env.charCode t c < t.range.1 ∨ m.env.charCode t c > t.range.2 then
        fail .badCatcode [Count.text (m.env.charCode t c)]
      else assign (.charCode t c (some (m.env.charCode t c))) global : Eng Unit) m := by
  have hread : (charCode t c).read m = .ok (.int (m.env.charCode t c)) m := rfl
  rw [renew, bind_of_ok hread]
  rfl

end Cell

namespace Setup

variable {s : Setup} {m : Machine}

/-- In every state that an engine gets into, an entry of a table may be assigned what is read
    from it, and nothing that can be looked up changes.  The exception is the \mathcode of a
    character above hexadecimal 8000 to which none was assigned: there the assignment is
    refused, and the state stays as it is. -/
theorem Reaches.renew_entries (h : s.Reaches m) {c : CharCode} (hc : CharCode.InRange c)
    (global : Bool) :
    (∃ env, (Cell.catcode c).renew global m = .ok () { m with env } ∧ env.lookup = m.env.lookup) ∧
    ∀ t,
      (¬m.env.ExceedsRange t c → ∃ env,
        (Cell.charCode t c).renew global m = .ok () { m with env } ∧ env.lookup = m.env.lookup) ∧
      (m.env.ExceedsRange t c → (Cell.charCode t c).renew global m =
        .error (.tex { kind := .badCatcode, details := [Count.text (m.env.charCode t c)] }) m) := by
  have hm : m.env.WellFormed m.env.fonts.next := (h.wellFormed (Nat.le_refl _)).env
  refine ⟨⟨_, Cell.renew_catcode hm c global, m.env.lookup_assign_same rfl global⟩, fun t => ?_⟩
  have hallows := hm.allows_charCode_iff t hc
  rw [Cell.renew_charCode]
  constructor
  · intro hrange
    rw [if_neg (CodeTable.allows_iff.mp (hallows.mpr hrange))]
    exact ⟨_, rfl, m.env.lookup_assign_same rfl global⟩
  · intro hexceeds
    have hrefused := mt hallows.mp (not_not_intro hexceeds)
    rw [CodeTable.allows_iff, not_not] at hrefused
    rw [if_pos hrefused]
    rfl

/-- In a fresh engine, all entries of a letter may be saved and restored. -/
theorem Reaches.renew_entries_fresh :
    let m := ({} : Setup).machine
    Reaches {} m ∧ CharCode.InRange 97 ∧ ∀ t, ∃ env,
      (Cell.charCode t 97).renew false m = .ok () { m with env } ∧ env.lookup = m.env.lookup := by
  intro m
  have hc : CharCode.InRange 97 := by decide
  have hrange : ∀ t, ¬m.env.ExceedsRange t 97 := by
    rintro t ⟨-, hlarge, -⟩
    exact absurd hlarge (by decide)
  obtain ⟨-, htables⟩ := Reaches.start.renew_entries (s := {}) hc false
  exact ⟨.start, hc, fun t => (htables t).1 (hrange t)⟩

/-- In a fresh engine, the \mathcode of the character with number 8001 (hexadecimal) is this
    number, and may not be assigned. -/
theorem renew_mathcode_refused :
    let m := ({} : Setup).machine
    Reaches {} m ∧ CharCode.InRange 0x8001 ∧ m.env.charCode .mathcode 0x8001 = 0x8001 ∧
      ∃ f, (Cell.charCode .mathcode 0x8001).renew false m = .error f m := by
  intro m
  have hentry : m.env.charCode .mathcode 0x8001 = 0x8001 := by
    show Env.charCode (Setup.machine {}).env .mathcode 0x8001 = 0x8001
    rw [env_machine]
    rfl
  refine ⟨.start, by decide, hentry, ?_⟩
  rw [Cell.renew_charCode, hentry, if_pos (by decide)]
  exact ⟨_, rfl⟩

end Setup

end TexEngine
