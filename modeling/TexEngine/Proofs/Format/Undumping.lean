/-
  TexEngine.Proofs.Format.Undumping

  Loading a format is all or nothing.  All bindings are decoded before anything changes, and
  the only other check, that no group is open, is made before anything changes, too.

  Whether a binding can be decoded depends on the binding alone: the fonts that were found in
  front of it decide which font it denotes, but not whether it denotes anything.  Therefore
  the order does not matter in which the bindings are decoded.
-/
import TexEngine.Proofs.Format.Dumping

namespace TexEngine

open Eng

/-! ## Bindings that have a meaning -/

namespace Binding

/-- The binding is a primitive with a known name, a register of a known class, a macro, a
    character token, a character code or a font. -/
def IsDecodable (b : Binding) : Prop :=
  (b.kind = 0 ∧ (Meaning.primitive? b.name).isSome) ∨
    (b.kind = 4 ∧ ∃ bank ∈ Bank.all, bank.name = b.name) ∨ b.kind ∈ ([1, 2, 3, 5] : List Int)

instance (b : Binding) : Decidable b.IsDecodable :=
  inferInstanceAs (Decidable (_ ∨ _ ∨ _))

example : IsDecodable { kind := 4, name := "dimen" } ∧ ¬IsDecodable { kind := 6 } := by decide

/-- The meaning is one that the binding may be given, depending on the fonts that are there. -/
def Denotes (b : Binding) (μ : Meaning) : Prop :=
  ∃ fonts known fonts' known', b.toMeaning fonts known = .ok (μ, fonts', known')

variable {b : Binding} {fonts : FontBook} {known : FontNames}

theorem exists_toMeaning_of_primitive (hkind : b.kind = 0) :
    (∃ r, b.toMeaning fonts known = .ok r) ↔ (Meaning.primitive? b.name).isSome := by
  rw [toMeaning, if_pos hkind]
  cases Meaning.primitive? b.name with
  | some μ => exact iff_of_true ⟨_, rfl⟩ rfl
  | none =>
    refine iff_of_false ?_ Bool.false_ne_true
    rintro ⟨r, hr⟩
    contradiction

theorem exists_toMeaning_of_register (hkind : b.kind = 4) :
    (∃ r, b.toMeaning fonts known = .ok r) ↔ ∃ bank ∈ Bank.all, bank.name = b.name := by
  cases hfind : Bank.all.find? (·.name == b.name) with
  | some bank =>
    have hread : b.toMeaning fonts known = .ok (.register bank b.value, fonts, known) := by
      simp [toMeaning, hkind, hfind]
    have hname := List.find?_some hfind
    exact iff_of_true ⟨_, hread⟩ ⟨bank, List.mem_of_find?_eq_some hfind, by simpa using hname⟩
  | none =>
    have hread : b.toMeaning fonts known = .error (.unknownRegister b.name) := by
      simp [toMeaning, hkind, hfind]
    rw [List.find?_eq_none] at hfind
    refine iff_of_false ?_ ?_
    · rintro ⟨r, hr⟩
      rw [hread] at hr
      contradiction
    · rintro ⟨bank, hbank, hname⟩
      exact hfind bank hbank (by simpa using hname)

/-- Macros, characters and fonts always have a meaning, and no other kinds are known. -/
theorem exists_toMeaning_of_kind (hprimitive : b.kind ≠ 0) (hregister : b.kind ≠ 4) :
    (∃ r, b.toMeaning fonts known = .ok r) ↔ b.kind ∈ ([1, 2, 3, 5] : List Int) := by
  unfold toMeaning
  by_cases hdefined : b.kind = 1
  · simp [hdefined]
  by_cases htoken : b.kind = 2
  · simp [htoken]
  by_cases hcode : b.kind = 3
  · simp [hcode]
  by_cases hfont : b.kind = 5
  · simp only [hfont]
    cases known[b.fontId]? <;> simp
  · simp [*]

theorem exists_toMeaning_iff : (∃ r, b.toMeaning fonts known = .ok r) ↔ b.IsDecodable := by
  unfold IsDecodable
  by_cases hprimitive : b.kind = 0
  · rw [exists_toMeaning_of_primitive hprimitive]
    simp [hprimitive]
  by_cases hregister : b.kind = 4
  · rw [exists_toMeaning_of_register hregister]
    simp [hregister]
  · rw [exists_toMeaning_of_kind hprimitive hregister]
    simp [hprimitive, hregister]

end Binding

namespace Image

/-! ## Tables of bindings -/

/-- A walk succeeds if all its steps do, when it does not matter to a step what came before. -/
theorem exists_foldlM_iff {α β ε : Type} {step : β → α → Except ε β} {P : α → Prop}
    (hstep : ∀ b a, (∃ b', step b a = .ok b') ↔ P a) (l : List α) (b : β) :
    (∃ b', l.foldlM step b = .ok b') ↔ ∀ a ∈ l, P a := by
  induction l generalizing b with
  | nil => exact iff_of_true ⟨b, rfl⟩ (List.forall_mem_nil P)
  | cons a l ih =>
    rw [List.forall_mem_cons, ← hstep b a]
    cases hread : step b a with
    | ok b₁ =>
      have hrest : (a :: l).foldlM step b = l.foldlM step b₁ := by
        rw [List.foldlM_cons, hread]
        rfl
      rw [hrest, ih b₁]
      exact (and_iff_right ⟨b₁, rfl⟩).symm
    | error e =>
      have hfail : (a :: l).foldlM step b = .error e := by
        rw [List.foldlM_cons, hread]
        rfl
      rw [hfail]
      refine iff_of_false ?_ ?_
      · rintro ⟨b', hb'⟩
        contradiction
      · rintro ⟨⟨b', hb'⟩, -⟩
        contradiction

variable {κ : Type} {cmp : κ → κ → Ordering} [Std.TransCmp cmp] [Std.LawfulEqCmp cmp]
  {label : κ → String} {fonts : FontBook} {known : Binding.FontNames}
  {bs : Std.TreeMap κ Binding cmp}

/-- A table can be decoded if all its bindings can. -/
theorem exists_decodeBindings_iff : (∃ d, decodeBindings label fonts known bs = .ok d) ↔
    ∀ (k : κ) b, bs[k]? = some b → b.IsDecodable := by
  have hmem : (∀ e ∈ bs.toList, e.2.IsDecodable) ↔
      ∀ (k : κ) b, bs[k]? = some b → b.IsDecodable :=
    ⟨fun h k b hb => h (k, b) (Std.TreeMap.mem_toList_iff_getElem?_eq_some.mpr hb),
      fun h e he => h e.1 e.2 (Std.TreeMap.mem_toList_iff_getElem?_eq_some.mp he)⟩
  rw [decodeBindings, Std.TreeMap.foldlM_eq_foldlM_toList, ← hmem]
  refine exists_foldlM_iff (fun d e => ?_) _ _
  rw [← @Binding.exists_toMeaning_iff e.2 d.fonts d.known]
  cases e.2.toMeaning d.fonts d.known with
  | ok r => exact iff_of_true ⟨_, rfl⟩ ⟨_, rfl⟩
  | error reason =>
    refine iff_of_false ?_ ?_
    · rintro ⟨d', hd'⟩
      contradiction
    · rintro ⟨r, hr⟩
      contradiction

/-- Bindings that are decoded one after the other: each gives the meaning under its key, if
    no key occurs twice. -/
theorem decoded_of_foldlM {l : List (κ × Binding)} (hl : l.Pairwise fun a b => a.1 ≠ b.1)
    {d d' : Decoding κ cmp}
    (h : l.foldlM (fun d e => match e.2.toMeaning d.fonts d.known with
        | .ok (m, fonts, known) => .ok { meanings := d.meanings.insert e.1 m, fonts, known }
        | .error reason => .error (.failure (label e.1 ++ ": " ++ reason.text))) d =
          (.ok d' : Except Fault (Decoding κ cmp))) :
    (∀ e ∈ l, ∃ μ, e.2.Denotes μ ∧ d'.meanings[e.1]? = some μ) ∧
      ∀ k, (∀ e ∈ l, e.1 ≠ k) → d'.meanings[k]? = d.meanings[k]? := by
  -- The entries are inserted from the first one on, so a later one could replace an earlier one.
  induction l generalizing d with
  | nil =>
    injection h with h
    exact ⟨List.forall_mem_nil _, fun k _ => by rw [h]⟩
  | cons e l ih =>
    obtain ⟨hhead, htail⟩ := List.pairwise_cons.mp hl
    rw [List.foldlM_cons] at h
    cases hread : e.2.toMeaning d.fonts d.known with
    | error reason =>
      rw [hread] at h
      contradiction
    | ok r =>
      obtain ⟨μ, fonts, known⟩ := r
      rw [hread] at h
      obtain ⟨hmem, hnot⟩ := ih htail h
      refine ⟨List.forall_mem_cons.mpr ⟨⟨μ, ⟨_, _, _, _, hread⟩, ?_⟩, hmem⟩, fun k hk => ?_⟩
      · -- The key does not occur again.
        rw [hnot e.1 fun e' he' => (hhead e' he').symm, Std.TreeMap.getElem?_insert_self]
      · obtain ⟨hne, hk⟩ := List.forall_mem_cons.mp hk
        rw [hnot k hk, Std.TreeMap.getElem?_insert, if_neg (by simpa using hne)]

/-- What is decoded is under the keys of the table, and each meaning is that of the binding
    there. -/
structure Decodes (bs : Std.TreeMap κ Binding cmp) (meanings : Std.TreeMap κ Meaning cmp) :
    Prop where
  bound : ∀ (k : κ) b, bs[k]? = some b → ∃ μ, b.Denotes μ ∧ meanings[k]? = some μ
  unbound : ∀ k : κ, bs[k]? = none → meanings[k]? = none

theorem decodes_of_decodeBindings {d : Decoding κ cmp}
    (h : decodeBindings label fonts known bs = .ok d) : Decodes bs d.meanings := by
  rw [decodeBindings, Std.TreeMap.foldlM_eq_foldlM_toList] at h
  obtain ⟨hmem, hnot⟩ := decoded_of_foldlM (Env.pairwise_toList bs) h
  refine ⟨fun k b hb => ?_, fun k hk => ?_⟩
  · exact hmem (k, b) (Std.TreeMap.mem_toList_iff_getElem?_eq_some.mpr hb)
  · refine (hnot k fun e he hek => ?_).trans Std.TreeMap.getElem?_emptyc
    rw [← hek, Std.TreeMap.mem_toList_iff_getElem?_eq_some.mp he] at hk
    contradiction

end Image

/-! ## Loading -/

namespace Eng

variable {m m' : Machine} {img : Image}

/-- Loading fails only before it changes anything. -/
theorem eq_of_undump_eq_error {f : Fault} (h : undump img m = .error f m') : m' = m := by
  simp only [undump, bind_of_ok (get_apply m)] at h
  cases hload : m.load img with
  | error f' =>
    rw [hload] at h
    injection h with _ hm
    exact hm.symm
  | ok m₁ =>
    rw [hload] at h
    have hset : (set m₁ : Eng Unit) m = .ok () m₁ := rfl
    dsimp only at h
    rw [bind_of_ok hset, trace_apply] at h
    contradiction

theorem exists_undump_iff : (∃ m', undump img m = .ok () m') ↔
    m.env.groups = [] ∧
      (∀ (name : String) b, img.codes[name]? = some b → b.IsDecodable) ∧
      ∀ (c : Int) b, img.active[c]? = some b → b.IsDecodable := by
  constructor
  · rintro ⟨m', hundump⟩
    obtain ⟨m₁, hload, -⟩ := load_of_undump hundump
    obtain ⟨codes, active, env', hgroups, hcodes, hactive, -⟩ := Machine.load_eq_ok hload
    exact ⟨hgroups, Image.exists_decodeBindings_iff.mp ⟨codes, hcodes⟩,
      Image.exists_decodeBindings_iff.mp ⟨active, hactive⟩⟩
  · rintro ⟨hgroups, hcodes, hactive⟩
    obtain ⟨codes, hcodes⟩ := Image.exists_decodeBindings_iff.mpr hcodes
    obtain ⟨active, hactive⟩ := Image.exists_decodeBindings_iff.mpr hactive
    obtain ⟨env', m', hundump, -⟩ :=
      exists_undump (List.isEmpty_iff.mpr hgroups) hcodes hactive
    exact ⟨m', hundump⟩

/-- Loading a format is all or nothing, whatever the state and the format are.  It succeeds
    exactly if no group is open and all bindings of the format can be decoded.  If it fails,
    the state is what it was; if it succeeds, all of the format is in front of what was
    there, and each binding has been given a meaning that it denotes. -/
theorem undump_all_or_nothing (m : Machine) (img : Image) :
    ((∃ m', undump img m = .ok () m') ↔
      m.env.groups = [] ∧
        (∀ (name : String) b, img.codes[name]? = some b → b.IsDecodable) ∧
        ∀ (c : Int) b, img.active[c]? = some b → b.IsDecodable) ∧
    (∀ f m', undump img m = .error f m' → m' = m) ∧
    ∀ m', undump img m = .ok () m' → ∃ codes active env',
      Image.Decodes img.codes codes.meanings ∧ Image.Decodes img.active active.meanings ∧
        m.env.Overlaid (img.copy codes active) env' ∧
        m'.env = { env' with fonts := active.fonts } := by
  refine ⟨exists_undump_iff, fun f m' => eq_of_undump_eq_error, fun m' hundump => ?_⟩
  obtain ⟨m₁, hload, henv⟩ := load_of_undump hundump
  obtain ⟨codes, active, env', -, hcodes, hactive, hover, -, henv'⟩ := Machine.load_eq_ok hload
  exact ⟨codes, active, env', Image.decodes_of_decodeBindings hcodes,
    Image.decodes_of_decodeBindings hactive, hover, henv.trans henv'⟩

end Eng

end TexEngine
