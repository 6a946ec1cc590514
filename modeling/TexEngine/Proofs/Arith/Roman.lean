/-
  TexEngine.Proofs.Arith.Roman

  Roman numerals can be read back.  Behind the thousands, every decimal digit of a number is
  written with three symbols of its own, for one, five and ten units of its place: `decade`
  has the ten ways to do this.  So a numeral consists of four parts, and no symbol of a part
  is smaller than one of a later part; what is read in one part does not depend on the others.
-/
import Mathlib.Data.List.Basic
import Mathlib.Tactic.IntervalCases
import TexEngine.Arith.Count

namespace TexEngine.Count

variable {x y z c : Char} {d n : Nat} {s t : List Char}

/-! ## Reading numerals -/

/-- The value of a symbol. -/
def symbolValue : Char → Int
  | 'm' => 1000
  | 'd' => 500
  | 'c' => 100
  | 'l' => 50
  | 'x' => 10
  | 'v' => 5
  | 'i' => 1
  | _ => 0

/-- The value of a numeral.  A symbol in front of a larger one is subtracted, and all others
    are added. -/
def romanValue : List Char → Int
  | [] => 0
  | c :: cs =>
    if cs.head?.any (symbolValue c < symbolValue ·) then romanValue cs - symbolValue c
    else romanValue cs + symbolValue c

/-- Nothing is subtracted where two parts meet, if the first part has the larger symbols. -/
theorem romanValue_append {b : Int} (hs : ∀ c ∈ s, b ≤ symbolValue c)
    (ht : ∀ e ∈ t, symbolValue e ≤ b) : romanValue (s ++ t) = romanValue s + romanValue t := by
  induction s with
  | nil => simp [romanValue]
  | cons c s ih =>
    obtain ⟨hc, hs⟩ := List.forall_mem_cons.mp hs
    have hnext : (s ++ t).head?.any (symbolValue c < symbolValue ·) =
        s.head?.any (symbolValue c < symbolValue ·) := by
      cases s with
      | nil =>
        cases t with
        | nil => rfl
        | cons e t => simpa using (ht e List.mem_cons_self).trans hc
      | cons e s => rfl
    rw [List.cons_append, romanValue, romanValue, hnext, ih hs]
    split <;> omega

theorem romanValue_replicate (n : Nat) (c : Char) :
    romanValue (List.replicate n c) = n * symbolValue c := by
  induction n with
  | zero => simp [romanValue]
  | succ n ih =>
    have hnext : ¬(List.replicate n c).head?.any (symbolValue c < symbolValue ·) := by
      cases n <;> simp [List.replicate_succ]
    rw [List.replicate_succ, romanValue, if_neg hnext, ih, Nat.cast_succ, Int.add_mul, Int.one_mul]

/-! ## One digit -/

/-- The digit `d`, written with the symbols for one, five and ten. -/
def decade (x y z : Char) (d : Nat) : List Char :=
  if d = 9 then [x, z]
  else if 5 ≤ d then y :: List.replicate (d - 5) x
  else if d = 4 then [x, y]
  else List.replicate d x

/-- The rows of the table for the place with the value `a`. -/
def place (x y z : Char) (a : Nat) : List (Nat × String) :=
  [(a * 9, String.ofList [x, z]), (a * 5, String.ofList [y]), (a * 4, String.ofList [x, y]),
    (a, String.ofList [x])]

theorem romanSymbols_eq :
    romanSymbols =
      (1000, "m") :: (place 'c' 'd' 'm' 100 ++ (place 'x' 'l' 'c' 10 ++ place 'i' 'v' 'x' 1)) := by
  decide

/-- Taking a value away as long as it fits is division with remainder. -/
theorem romanRepeat_eq {a : Nat} (ha : 0 < a) (symbol : String) (n : Nat) :
    romanRepeat a symbol n = (String.join (List.replicate (n / a) symbol), n % a) := by
  fun_induction romanRepeat a symbol n with
  | case1 n h text left heq ih =>
    obtain ⟨htext, hleft⟩ := Prod.mk.inj (heq.symm.trans ih)
    rw [htext, hleft, ← Nat.mod_eq_sub_mod h.2, Nat.div_eq_sub_div ha h.2, List.replicate_succ,
      String.join_cons]
  | case2 n h =>
    have hsmall : n < a := Nat.lt_of_not_le fun hle => h ⟨ha, hle⟩
    rw [Nat.div_eq_of_lt hsmall, Nat.mod_eq_of_lt hsmall]
    rfl

theorem toList_romanFrom_cons {a : Nat} (ha : 0 < a) (symbol : String)
    (rest : List (Nat × String)) (n : Nat) :
    (romanFrom ((a, symbol) :: rest) n).toList =
      (List.replicate (n / a) symbol.toList).flatten ++ (romanFrom rest (n % a)).toList := by
  rw [romanFrom, romanRepeat_eq ha, String.toList_append, String.toList_join, List.flatMap_def,
    List.map_replicate]

/-- The rows for one place write its digit, and leave what is behind it. -/
theorem toList_romanFrom_place {a : Nat} (rest : List (Nat × String)) (ha : 0 < a)
    (hn : n / a < 10) :
    (romanFrom (place x y z a ++ rest) n).toList =
      decade x y z (n / a) ++ (romanFrom rest (n % a)).toList := by
  have hdiv (k r : Nat) : r / (a * k) = r / a / k := (Nat.div_div_eq_div_mul r a k).symm
  have hdigit (k r : Nat) : (r % (a * k)) / a = r / a % k := by
    rw [Nat.mod_mul, Nat.add_mul_div_left _ _ ha, Nat.div_eq_of_lt (Nat.mod_lt _ ha), Nat.zero_add]
  have hrest (k r : Nat) : r % (a * k) % a = r % a := Nat.mod_mul_right_mod r a k
  have hrow (k : Nat) (hk : 0 < k) := @toList_romanFrom_cons (a * k) (Nat.mul_pos ha hk)
  simp only [place, List.cons_append, List.nil_append, hrow 9 (by decide), hrow 5 (by decide),
    hrow 4 (by decide), toList_romanFrom_cons ha, hdiv, hdigit, hrest, String.toList_ofList]
  generalize n / a = d at hn ⊢
  interval_cases d <;> rfl

theorem mem_decade (h : c ∈ decade x y z d) : c = x ∨ c = y ∨ c = z := by
  unfold decade at h
  grind

/-- A digit is worth as many units as it says. -/
theorem romanValue_decade (hpos : 0 < symbolValue x) (hfive : symbolValue y = 5 * symbolValue x)
    (hten : symbolValue z = 10 * symbolValue x) (hd : d < 10) :
    romanValue (decade x y z d) = d * symbolValue x := by
  interval_cases d <;> simp [decade, romanValue, List.replicate_succ, hfive, hten] <;> omega

/-- The symbols for one, five and ten have values between those of one and ten. -/
theorem symbolValue_of_mem_decade (hfive : symbolValue y = 5 * symbolValue x)
    (hten : symbolValue z = 10 * symbolValue x) (hpos : 0 < symbolValue x)
    (h : c ∈ decade x y z d) :
    symbolValue x ≤ symbolValue c ∧ symbolValue c ≤ 10 * symbolValue x := by
  obtain rfl | rfl | rfl := mem_decade h <;> omega

theorem count_decade_le (hxy : x ≠ y) (hxz : x ≠ z) (hd : d < 10) :
    (decade x y z d).count x ≤ 3 := by
  interval_cases d <;> simp [decade, List.replicate_succ, hxy.symm, hxz.symm]

theorem count_five_decade_le (hxy : x ≠ y) (hyz : y ≠ z) (hd : d < 10) :
    (decade x y z d).count y ≤ 1 := by
  interval_cases d <;> simp [decade, List.replicate_succ, hxy, hyz.symm]

theorem count_decade_of_ne (hx : c ≠ x) (hy : c ≠ y) (hz : c ≠ z) :
    (decade x y z d).count c = 0 := by
  refine List.count_eq_zero.mpr fun hc => ?_
  obtain h | h | h := mem_decade hc <;> contradiction

/-! ## Repeated symbols -/

/-- A symbol that is written at most three times is not written four times in a row. -/
theorem not_infix_of_count_le (h : s.count c ≤ 3) : ¬List.replicate 4 c <:+: s := by
  intro hrun
  have hcount := hrun.sublist.count_le c
  rw [List.count_replicate_self] at hcount
  omega

/-- A run of one symbol does not reach across another one. -/
theorem infix_of_infix_append_cons (hne : x ≠ c) {k : Nat}
    (h : List.replicate k c <:+: s ++ x :: t) :
    List.replicate k c <:+: s ∨ List.replicate k c <:+: t := by
  have hx : x ∉ List.replicate k c := fun hmem => hne (List.eq_of_mem_replicate hmem)
  obtain hs | ht | ⟨run, more, hrun, hend, hstart⟩ := List.infix_append_iff.mp h
  · exact .inl hs
  · obtain hprefix | ht := List.infix_cons_iff.mp ht
    · obtain hnil | ⟨more, hmore, -⟩ := List.prefix_cons_iff.mp hprefix
      · exact .inl (hnil ▸ List.nil_infix)
      · exact absurd (hmore ▸ List.mem_cons_self) hx
    · exact .inr ht
  · obtain hnil | ⟨more', hmore, -⟩ := List.prefix_cons_iff.mp hstart
    · rw [hrun, hnil, List.append_nil]
      exact .inl hend.isInfix
    · exact absurd (hrun ▸ List.mem_append_right _ (hmore ▸ List.mem_cons_self)) hx

/-- The symbol for one of a place is in the digit of this place, and perhaps in the next one,
    where it stands behind another symbol. -/
theorem not_infix_of_decades {u v : Char} {e : Nat} (hs : x ∉ s) (ht : x ∉ t) (hxy : x ≠ y)
    (hxz : x ≠ z) (hu : x ≠ u) (hv : x ≠ v) (hd : d < 10) :
    ¬List.replicate 4 x <:+: s ++ (decade x y z d ++ (decade u v x e ++ t)) := by
  have hdigit : (s ++ decade x y z d).count x ≤ 3 := by
    rw [List.count_append, List.count_eq_zero.mpr hs, Nat.zero_add]
    exact count_decade_le hxy hxz hd
  by_cases hnine : e = 9
  · have hnext : (x :: t).count x ≤ 3 := by
      rw [List.count_cons_self, List.count_eq_zero.mpr ht]
      decide
    have hpair : decade u v x e = [u, x] := if_pos hnine
    rw [hpair, ← List.append_assoc, List.cons_append]
    intro hrun
    obtain hbefore | hbehind := infix_of_infix_append_cons hu.symm hrun
    · exact not_infix_of_count_le hdigit hbefore
    · exact not_infix_of_count_le hnext hbehind
  · have hnext : (decade u v x e).count x = 0 := by
      refine List.count_eq_zero.mpr fun hmem => ?_
      rw [decade, if_neg hnine] at hmem
      grind
    apply not_infix_of_count_le
    have hend : t.count x = 0 := List.count_eq_zero.mpr ht
    simp only [List.count_append] at hdigit ⊢
    omega

/-! ## Whole numerals -/

/-- The four parts of a numeral. -/
theorem toList_romanFrom (n : Nat) :
    (romanFrom romanSymbols n).toList =
      List.replicate (n / 1000) 'm' ++ (decade 'c' 'd' 'm' (n % 1000 / 100) ++
        (decade 'x' 'l' 'c' (n % 100 / 10) ++ decade 'i' 'v' 'x' (n % 10))) := by
  have hthousands : (List.replicate (n / 1000) "m".toList).flatten =
      List.replicate (n / 1000) 'm' := List.flatten_replicate_singleton
  have hend := toList_romanFrom_place (x := 'i') (y := 'v') (z := 'x') (n := n % 10) (a := 1) []
    (by omega) (by omega)
  rw [List.append_nil, Nat.div_one] at hend
  rw [romanSymbols_eq, toList_romanFrom_cons (by decide), hthousands,
    toList_romanFrom_place _ (by omega) (by omega), Nat.mod_mod_of_dvd n (by decide),
    toList_romanFrom_place _ (by omega) (by omega), Nat.mod_mod_of_dvd n (by decide), hend]
  simp [romanFrom]

/-- A numeral of any length is read back. -/
theorem romanValue_romanFrom (n : Nat) : romanValue (romanFrom romanSymbols n).toList = n := by
  -- Each place is a block of its own: none of its symbols is worth more than those before.
  have hhundreds : ∀ c ∈ decade 'c' 'd' 'm' (n % 1000 / 100), 100 ≤ symbolValue c ∧
      symbolValue c ≤ 1000 := fun c => symbolValue_of_mem_decade rfl rfl (by decide)
  have htens : ∀ c ∈ decade 'x' 'l' 'c' (n % 100 / 10), 10 ≤ symbolValue c ∧
      symbolValue c ≤ 100 := fun c => symbolValue_of_mem_decade rfl rfl (by decide)
  have hunits : ∀ c ∈ decade 'i' 'v' 'x' (n % 10), 1 ≤ symbolValue c ∧
      symbolValue c ≤ 10 := fun c => symbolValue_of_mem_decade rfl rfl (by decide)
  have hthousands : ∀ c ∈ List.replicate (n / 1000) 'm', 1000 ≤ symbolValue c := fun c hc => by
    rw [List.eq_of_mem_replicate hc]
    rfl
  rw [toList_romanFrom, romanValue_append hthousands,
    romanValue_append fun c hc => (hhundreds c hc).1,
    romanValue_append fun c hc => (htens c hc).1, romanValue_replicate,
    romanValue_decade (by decide) rfl rfl (by omega),
    romanValue_decade (by decide) rfl rfl (by omega),
    romanValue_decade (by decide) rfl rfl (by omega)]
  · simp only [symbolValue]
    omega
  · exact fun c hc => (hunits c hc).2
  · exact List.forall_mem_append.mpr ⟨fun c hc => (htens c hc).2,
      fun c hc => (hunits c hc).2.trans (by decide)⟩
  · exact List.forall_mem_append.mpr ⟨fun c hc => (hhundreds c hc).2,
      List.forall_mem_append.mpr ⟨fun c hc => (htens c hc).2.trans (by decide),
        fun c hc => (hunits c hc).2.trans (by decide)⟩⟩

/-- The symbols for five are not repeated. -/
theorem count_five_romanFrom_le (n : Nat) (hc : c ∈ ['d', 'l', 'v']) :
    (romanFrom romanSymbols n).toList.count c ≤ 1 := by
  have hhundreds := count_five_decade_le (x := 'c') (y := 'd') (z := 'm') (d := n % 1000 / 100)
    (by decide) (by decide) (by omega)
  have htens := count_five_decade_le (x := 'x') (y := 'l') (z := 'c') (d := n % 100 / 10)
    (by decide) (by decide) (by omega)
  have hunits := count_five_decade_le (x := 'i') (y := 'v') (z := 'x') (d := n % 10)
    (by decide) (by decide) (by omega)
  rw [toList_romanFrom]
  simp only [List.mem_cons, List.not_mem_nil, or_false] at hc
  -- Each of them is used in one place only.
  obtain rfl | rfl | rfl := hc <;>
    simpa [List.count_append, List.count_replicate, count_decade_of_ne]

/-- The symbols for one are not written more than three times in a row. -/
theorem not_infix_romanFrom (n : Nat) (hc : c ∈ ['c', 'x', 'i']) :
    ¬List.replicate 4 c <:+: (romanFrom romanSymbols n).toList := by
  have hm {k : Nat} (hne : c ≠ 'm') : c ∉ List.replicate k 'm' := fun h =>
    hne (List.eq_of_mem_replicate h)
  have hother {x y z : Char} {d : Nat} (hne : ¬(c = x ∨ c = y ∨ c = z)) : c ∉ decade x y z d :=
    fun h => hne (mem_decade h)
  rw [toList_romanFrom]
  simp only [List.mem_cons, List.not_mem_nil, or_false] at hc
  obtain rfl | rfl | rfl := hc
  · exact not_infix_of_decades (hm (by decide)) (hother (by decide)) (by decide) (by decide)
      (by decide) (by decide) (by omega)
  · rw [← List.append_assoc, ← List.append_nil (decade 'i' 'v' 'x' (n % 10))]
    exact not_infix_of_decades
      (List.not_mem_append (hm (by decide)) (hother (by decide))) List.not_mem_nil (by decide)
      (by decide) (by decide) (by decide) (by omega)
  · -- Units are written last.
    have hunits := count_decade_le (x := 'i') (y := 'v') (z := 'x') (d := n % 10) (by decide)
      (by decide) (by omega)
    apply not_infix_of_count_le
    simpa [List.count_append, List.count_replicate, count_decade_of_ne]

/-! ## Numbers in registers -/

/-- Reading the numeral of a number that is not negative gives the number, so different numbers
    have different numerals.  Numerals are canonical, and numbers below 1 have none. -/
theorem roman_canonical :
    (∀ n : Int64, 0 ≤ n → romanValue (roman n).toList = n.toInt) ∧
    (∀ n k : Int64, 0 ≤ n → 0 ≤ k → roman n = roman k → n = k) ∧
    (∀ n : Int64, (∀ c ∈ ['d', 'l', 'v'], (roman n).toList.count c ≤ 1) ∧
      ∀ c ∈ ['c', 'x', 'i'], ¬List.replicate 4 c <:+: (roman n).toList) ∧
    ∀ n : Int64, n ≤ 0 → roman n = "" := by
  have hread (n : Int64) (hn : 0 ≤ n) : romanValue (roman n).toList = n.toInt := by
    rw [roman, romanValue_romanFrom, Int.toNat_of_nonneg (Int64.le_iff_toInt_le.mp hn)]
  refine ⟨hread, fun n k hn hk h => ?_, fun n => ⟨?_, ?_⟩, fun n hn => ?_⟩
  · rw [← Int64.toInt_inj, ← hread n hn, ← hread k hk, h]
  · exact fun c hc => count_five_romanFrom_le _ hc
  · exact fun c hc => not_infix_romanFrom _ hc
  · rw [roman, Int.toNat_of_nonpos (Int64.le_iff_toInt_le.mp hn), ← String.toList_inj,
      toList_romanFrom]
    rfl

theorem roman_canonical_subtractive :
    (0 : Int64) ≤ 3999 ∧ (0 : Int64) ≤ 4949 ∧ (-7 : Int64) ≤ 0 ∧ 'c' ∈ ['c', 'x', 'i'] ∧
      roman 4949 = "mmmmcmxlix" ∧ romanValue "mmmmcmxlix".toList = 4949 ∧
      (roman 3999 = roman 4949 → (3999 : Int64) = 4949) ∧
      ¬List.replicate 4 'c' <:+: (roman 3999).toList ∧ roman (-7) = "" := by
  obtain ⟨hread, hinj, hform, hempty⟩ := roman_canonical
  have hnumeral : roman 4949 = "mmmmcmxlix" := by decide +kernel
  refine ⟨by decide, by decide, by decide, by decide, hnumeral, ?_, ?_, ?_, ?_⟩
  · exact hnumeral ▸ hread 4949 (by decide)
  · exact hinj 3999 4949 (by decide) (by decide)
  · exact (hform 3999).2 'c' (by decide)
  · exact hempty (-7) (by decide)

end TexEngine.Count
