/-
  TexEngine.Proofs.Text.Decoding

  Bytes below 0x80 in a text that is decoded.  Such a byte stands for itself: no sequence of
  several bytes contains one, and no such sequence gives a character below 0x80, since overlong
  forms are not decoded.  Therefore what stands in front of the byte and what stands behind it
  are decoded apart from each other (`decodeFrom_append`), and a character below 0x80 is found
  in the text only where its byte is (`exists_of_decodeFrom_eq`).

  This holds of all bytes, also of those that are no UTF-8 at all.  Bytes that are UTF-8 give
  the characters that were encoded (`decodeFrom_utf8Encode`).
-/
import TexEngine.Text.Utf8

namespace TexEngine.Text.Utf8

variable {a b c : UInt8} {ch : Char} {n skip : Nat} {bs : List UInt8}

/-! ## Sequences of several bytes -/

theorem isTail_iff : isTail b = true ↔ 128 ≤ b.toNat ∧ b.toNat ≤ 191 := by
  simp [isTail, UInt8.le_iff_toNat_le]

/-- The byte can be the second one of three or four bytes that begin with `a`. -/
def isSecond (a b : UInt8) : Bool :=
  let low : UInt8 := if a == 0xE0 then 0xA0 else if a == 0xF0 then 0x90 else 0x80
  let high : UInt8 := if a == 0xED then 0x9F else if a == 0xF4 then 0x8F else 0xBF
  low ≤ b && b ≤ high

theorem isSecond_iff : isSecond a b = true ↔
    128 ≤ b.toNat ∧ b.toNat ≤ 191 ∧ (a.toNat = 224 → 160 ≤ b.toNat) ∧
      (a.toNat = 237 → b.toNat ≤ 159) ∧ (a.toNat = 240 → 144 ≤ b.toNat) ∧
      (a.toNat = 244 → b.toNat ≤ 143) := by
  simp only [isSecond, Bool.and_eq_true, decide_eq_true_eq, UInt8.le_iff_toNat_le, beq_iff_eq,
    ← UInt8.toNat_inj, apply_ite UInt8.toNat, UInt8.reduceToNat]
  grind

/-- The sequence of three or four bytes that begins with `a` and `b`. -/
def long? (a b : UInt8) : List UInt8 → Option (Char × Nat)
  | c :: rest =>
    if !(isSecond a b && isTail c) then none
    else if 0xE0 ≤ a && a ≤ 0xEF then
      some (Char.ofNat (a.toNat % 16 * 4096 + tailBits b * 64 + tailBits c), 3)
    else match rest with
    | d :: _ =>
      if 0xF0 ≤ a && a ≤ 0xF4 && isTail d then
        some (Char.ofNat
          (a.toNat % 8 * 262144 + tailBits b * 4096 + tailBits c * 64 + tailBits d), 4)
      else none
    | [] => none
  | [] => none

theorem sequence?_of_lt (h : a < 0x80) (bs : List UInt8) :
    sequence? (a :: bs) = some (Char.ofNat a.toNat, 1) :=
  if_pos h

theorem sequence?_singleton (h : ¬a < 0x80) : sequence? [a] = none :=
  if_neg h

theorem sequence?_of_not_lt (h : ¬a < 0x80) (b : UInt8) (bs : List UInt8) :
    sequence? (a :: b :: bs) =
      if 0xC2 ≤ a && a ≤ 0xDF then
        if isTail b then some (Char.ofNat (a.toNat % 32 * 64 + tailBits b), 2) else none
      else long? a b bs :=
  (if_neg h).trans (by cases bs <;> rfl)

/-! ## Their characters -/

theorem toNat_ofNat_of_isValidChar (h : n.isValidChar) : (Char.ofNat n).toNat = n := by
  rw [Char.ofNat, dif_pos h]
  rfl

theorem le_toNat_ofNat (h : 128 ≤ n) (hvalid : n.isValidChar) : 128 ≤ (Char.ofNat n).toNat := by
  rwa [toNat_ofNat_of_isValidChar hvalid]

/-- The ranges of the second byte exclude the numbers that another sequence has, or that no
    character has. -/
theorem le_of_long? (h : long? a b bs = some (ch, n)) : 128 ≤ ch.toNat ∧ n ≤ bs.length + 2 := by
  unfold long? at h
  split at h
  · rename_i c rest
    split at h
    · contradiction
    · rename_i hbytes
      obtain ⟨hb, hc⟩ : isSecond a b = true ∧ isTail c = true := by simpa using hbytes
      rw [isSecond_iff] at hb
      rw [isTail_iff] at hc
      split at h
      · rename_i hthree
        simp only [Bool.and_eq_true, decide_eq_true_eq, UInt8.le_iff_toNat_le,
          UInt8.reduceToNat] at hthree
        obtain ⟨rfl, rfl⟩ := Prod.mk.inj (Option.some.inj h)
        refine ⟨le_toNat_ofNat ?_ ?_, by simp⟩
        · unfold tailBits
          omega
        · unfold tailBits Nat.isValidChar
          omega
      · split at h
        · split at h
          · rename_i hfour
            simp only [Bool.and_eq_true, decide_eq_true_eq, UInt8.le_iff_toNat_le,
              UInt8.reduceToNat, isTail_iff] at hfour
            obtain ⟨rfl, rfl⟩ := Prod.mk.inj (Option.some.inj h)
            refine ⟨le_toNat_ofNat ?_ ?_, by simp⟩
            · unfold tailBits
              omega
            · unfold tailBits Nat.isValidChar
              omega
          · contradiction
        · contradiction
  · contradiction

/-- A sequence is a byte below 0x80, or it gives a character that is not below 0x80. -/
theorem sequence?_eq_some (h : sequence? (a :: bs) = some (ch, n)) :
    (a < 0x80 ∧ ch = Char.ofNat a.toNat ∧ n = 1) ∨ 128 ≤ ch.toNat ∧ n ≤ bs.length + 1 := by
  by_cases ha : a < 0x80
  · rw [sequence?_of_lt ha] at h
    obtain ⟨rfl, rfl⟩ := Prod.mk.inj (Option.some.inj h)
    exact .inl ⟨ha, rfl, rfl⟩
  · cases bs with
    | nil =>
      rw [sequence?_singleton ha] at h
      contradiction
    | cons b bs =>
      rw [sequence?_of_not_lt ha] at h
      split at h
      · rename_i htwo
        split at h
        · rename_i hb
          simp only [Bool.and_eq_true, decide_eq_true_eq, UInt8.le_iff_toNat_le,
            UInt8.reduceToNat] at htwo
          rw [isTail_iff] at hb
          obtain ⟨rfl, rfl⟩ := Prod.mk.inj (Option.some.inj h)
          refine .inr ⟨le_toNat_ofNat ?_ ?_, by simp⟩
          · unfold tailBits
            omega
          · unfold tailBits Nat.isValidChar
            omega
        · contradiction
      · exact .inr (le_of_long? h)

/-! ## Bytes that stand for themselves -/

theorem isTail_of_lt (h : c < 0x80) : isTail c = false := by
  rw [UInt8.lt_iff_toNat_lt] at h
  rw [Bool.eq_false_iff, ne_eq, isTail_iff]
  exact fun htail => absurd h (Nat.not_lt.mpr htail.1)

theorem isSecond_of_lt (h : c < 0x80) (a : UInt8) : isSecond a c = false := by
  rw [UInt8.lt_iff_toNat_lt] at h
  rw [Bool.eq_false_iff]
  exact fun hsecond => absurd h (Nat.not_lt.mpr (isSecond_iff.mp hsecond).1)

theorem long?_append (hc : c < 0x80) (a b : UInt8) (bs cs : List UInt8) :
    long? a b (bs ++ c :: cs) = long? a b bs := by
  match bs with
  | [] => simp [long?, isTail_of_lt hc]
  | [_] => simp [long?, isTail_of_lt hc]
  | _ :: _ :: _ => rfl

/-- No sequence reaches a byte below 0x80 that stands behind its first one. -/
theorem sequence?_append (hc : c < 0x80) (a : UInt8) (bs cs : List UInt8) :
    sequence? (a :: (bs ++ c :: cs)) = sequence? (a :: bs) := by
  by_cases ha : a < 0x80
  · rw [sequence?_of_lt ha, sequence?_of_lt ha]
  · cases bs with
    | nil =>
      have hlong : long? a c cs = none := by
        cases cs <;> simp [long?, isSecond_of_lt hc]
      rw [List.nil_append, sequence?_of_not_lt ha, sequence?_singleton ha, isTail_of_lt hc, hlong,
        if_neg Bool.false_ne_true, ite_self]
    | cons b bs =>
      rw [List.cons_append, sequence?_of_not_lt ha, sequence?_of_not_lt ha, long?_append hc]

/-! ## Decoding -/

theorem decodeFrom_of_some (h : sequence? (b :: bs) = some (ch, n)) :
    decodeFrom 0 (b :: bs) = ch :: decodeFrom (n - 1) bs := by
  rw [decodeFrom, h]

theorem decodeFrom_of_none (h : sequence? (b :: bs) = none) :
    decodeFrom 0 (b :: bs) = CharCode.replacement :: decodeFrom 0 bs := by
  rw [decodeFrom, h]

theorem decodeFrom_cons_of_lt (hc : c < 0x80) (cs : List UInt8) :
    decodeFrom 0 (c :: cs) = Char.ofNat c.toNat :: decodeFrom 0 cs :=
  decodeFrom_of_some (sequence?_of_lt hc cs)

theorem decodeFrom_zero_eq_nil_iff : decodeFrom 0 bs = [] ↔ bs = [] := by
  constructor
  · intro h
    cases bs with
    | nil => rfl
    | cons b bs =>
      cases hfirst : sequence? (b :: bs) with
      | none =>
        rw [decodeFrom_of_none hfirst] at h
        contradiction
      | some found =>
        rw [decodeFrom_of_some hfirst] at h
        contradiction
  · rintro rfl
    rfl

/-- A byte below 0x80 is decoded by itself, and so is what stands in front of it and behind it.
    The bytes that are left over from a sequence stand in front of it. -/
theorem decodeFrom_append (hc : c < 0x80) (hskip : skip ≤ bs.length) (cs : List UInt8) :
    decodeFrom skip (bs ++ c :: cs) =
      decodeFrom skip bs ++ Char.ofNat c.toNat :: decodeFrom 0 cs := by
  -- No sequence skips more bytes than stand in front of `c`; this is what `hskip` keeps.
  induction bs generalizing skip with
  | nil =>
    obtain rfl : skip = 0 := Nat.le_zero.mp hskip
    exact decodeFrom_cons_of_lt hc cs
  | cons b bs ih =>
    cases skip with
    | succ skip => exact ih (Nat.le_of_succ_le_succ hskip)
    | zero =>
      have hsame := sequence?_append hc b bs cs
      rw [List.cons_append]
      cases hfirst : sequence? (b :: bs) with
      | none =>
        rw [decodeFrom_of_none (hsame.trans hfirst), decodeFrom_of_none hfirst, ih (Nat.zero_le _),
          List.cons_append]
      | some found =>
        obtain ⟨ch, n⟩ := found
        have hleft : n - 1 ≤ bs.length := by
          obtain ⟨-, -, rfl⟩ | ⟨-, hn⟩ := sequence?_eq_some hfirst
          · exact Nat.zero_le _
          · -- The sequence ends in front of `c`.
            omega
        rw [decodeFrom_of_some (hsame.trans hfirst), decodeFrom_of_some hfirst, ih hleft,
          List.cons_append]

/-- A character below 0x80 stands where its byte stands: what follows it is what the bytes
    behind this one give. -/
theorem exists_of_decodeFrom_eq {us vs : List Char} (hch : ch.toNat < 128)
    (h : decodeFrom skip bs = us ++ ch :: vs) :
    ∃ xs c ys, bs = xs ++ c :: ys ∧ c.toNat = ch.toNat ∧ decodeFrom 0 ys = vs := by
  induction bs generalizing skip us with
  | nil => simp [decodeFrom] at h
  | cons b bs ih =>
    have hlater : ∀ {skip us}, decodeFrom skip bs = us ++ ch :: vs →
        ∃ xs c ys, b :: bs = xs ++ c :: ys ∧ c.toNat = ch.toNat ∧ decodeFrom 0 ys = vs := by
      intro skip us h
      obtain ⟨xs, c, ys, rfl, hc, hys⟩ := ih h
      exact ⟨b :: xs, c, ys, rfl, hc, hys⟩
    cases skip with
    | succ skip => exact hlater h
    | zero =>
      cases hfirst : sequence? (b :: bs) with
      | none =>
        rw [decodeFrom_of_none hfirst] at h
        cases us with
        | nil =>
          -- The replacement character is not below 0x80.
          obtain ⟨rfl, -⟩ := List.cons.inj h
          contradiction
        | cons u us => exact hlater (List.cons.inj h).2
      | some found =>
        obtain ⟨d, n⟩ := found
        rw [decodeFrom_of_some hfirst] at h
        cases us with
        | nil =>
          obtain ⟨rfl, hrest⟩ := List.cons.inj h
          obtain ⟨hb, rfl, rfl⟩ | ⟨hlong, -⟩ := sequence?_eq_some hfirst
          · -- The character is a byte of its own.
            have hvalid : b.toNat.isValidChar := .inl (Nat.lt_trans b.toNat_lt (by decide))
            exact ⟨[], b, bs, rfl, (toNat_ofNat_of_isValidChar hvalid).symm, hrest⟩
          · -- A sequence of several bytes gives no such character.
            omega
        | cons u us => exact hlater (List.cons.inj h).2

/-! ## Encoded characters -/

/-- The encoded character with the number `n` is read as a whole, where it takes two bytes. -/
theorem sequence?_two (ha : a.toNat = n / 64 + 192) (hb : b.toNat = n % 64 + 128)
    (hlow : 128 ≤ n) (hhigh : n < 2048) (bs : List UInt8) :
    sequence? (a :: b :: bs) = some (Char.ofNat n, 2) := by
  have hfirst : ¬a < 0x80 := by
    simp only [UInt8.lt_iff_toNat_lt, UInt8.reduceToNat]
    omega
  have htwo : (0xC2 ≤ a && a ≤ 0xDF) = true := by
    simp only [Bool.and_eq_true, decide_eq_true_eq, UInt8.le_iff_toNat_le, UInt8.reduceToNat]
    omega
  have htail : isTail b = true := isTail_iff.mpr (by omega)
  have hnumber : a.toNat % 32 * 64 + tailBits b = n := by
    unfold tailBits
    omega
  rw [sequence?_of_not_lt hfirst, if_pos htwo, if_pos htail, hnumber]

theorem sequence?_of_le (h : 224 ≤ a.toNat) (b : UInt8) (bs : List UInt8) :
    sequence? (a :: b :: bs) = long? a b bs := by
  have hfirst : ¬a < 0x80 := by
    simp only [UInt8.lt_iff_toNat_lt, UInt8.reduceToNat]
    omega
  have htwo : (0xC2 ≤ a && a ≤ 0xDF) = false := by
    simp only [Bool.and_eq_false_iff, decide_eq_false_iff_not, UInt8.le_iff_toNat_le,
      UInt8.reduceToNat]
    omega
  rw [sequence?_of_not_lt hfirst, htwo, if_neg Bool.false_ne_true]

/-- With three bytes, it must be no surrogate. -/
theorem sequence?_three (ha : a.toNat = n / 4096 + 224) (hb : b.toNat = n / 64 % 64 + 128)
    (hc : c.toNat = n % 64 + 128) (hlow : 2048 ≤ n) (hhigh : n < 65536) (hvalid : n.isValidChar)
    (bs : List UInt8) : sequence? (a :: b :: c :: bs) = some (Char.ofNat n, 3) := by
  have hthree : (0xE0 ≤ a && a ≤ 0xEF) = true := by
    simp only [Bool.and_eq_true, decide_eq_true_eq, UInt8.le_iff_toNat_le, UInt8.reduceToNat]
    omega
  have hsecond : isSecond a b = true := by
    unfold Nat.isValidChar at hvalid
    exact isSecond_iff.mpr (by omega)
  have htail : isTail c = true := isTail_iff.mpr (by omega)
  have hnumber : a.toNat % 16 * 4096 + tailBits b * 64 + tailBits c = n := by
    unfold tailBits
    omega
  rw [sequence?_of_le (by omega)]
  unfold long?
  dsimp only
  rw [hsecond, htail, hthree, hnumber]
  rfl

theorem sequence?_four {d : UInt8} (ha : a.toNat = n / 262144 + 240)
    (hb : b.toNat = n / 4096 % 64 + 128) (hc : c.toNat = n / 64 % 64 + 128)
    (hd : d.toNat = n % 64 + 128) (hlow : 65536 ≤ n) (hhigh : n < 1114112) (bs : List UInt8) :
    sequence? (a :: b :: c :: d :: bs) = some (Char.ofNat n, 4) := by
  have hthree : (0xE0 ≤ a && a ≤ 0xEF) = false := by
    simp only [Bool.and_eq_false_iff, decide_eq_false_iff_not, UInt8.le_iff_toNat_le,
      UInt8.reduceToNat]
    omega
  have hfour : (0xF0 ≤ a && a ≤ 0xF4) = true := by
    simp only [Bool.and_eq_true, decide_eq_true_eq, UInt8.le_iff_toNat_le, UInt8.reduceToNat]
    omega
  have hsecond : isSecond a b = true := isSecond_iff.mpr (by omega)
  have htail : isTail c = true ∧ isTail d = true :=
    ⟨isTail_iff.mpr (by omega), isTail_iff.mpr (by omega)⟩
  have hnumber : a.toNat % 8 * 262144 + tailBits b * 4096 + tailBits c * 64 + tailBits d = n := by
    unfold tailBits
    omega
  rw [sequence?_of_le (by omega)]
  unfold long?
  dsimp only
  rw [hsecond, htail.1, hthree, hfour, htail.2, hnumber]
  rfl

theorem sequence?_utf8EncodeChar (ch : Char) (bs : List UInt8) :
    sequence? (String.utf8EncodeChar ch ++ bs) =
      some (ch, (String.utf8EncodeChar ch).length) := by
  have hbyte : ∀ {k : Nat}, k < 256 → (UInt8.ofNat k).toNat = k := UInt8.toNat_ofNat_of_lt
  have hchar : Char.ofNat ch.val.toNat = ch := Char.ofNat_toNat ch
  have hvalid : ch.val.toNat.isValidChar := ch.valid
  unfold String.utf8EncodeChar
  generalize ch.val.toNat = n at *
  subst hchar
  dsimp only
  have hrange : n < 1114112 := by
    unfold Nat.isValidChar at hvalid
    omega
  split
  · have hfirst : UInt8.ofNat n < 0x80 := by
      simp only [UInt8.lt_iff_toNat_lt, hbyte (show n < 256 by omega), UInt8.reduceToNat]
      omega
    rw [List.singleton_append, sequence?_of_lt hfirst, hbyte (by omega)]
    rfl
  · split
    · exact sequence?_two ((hbyte (by omega)).trans (by omega)) (hbyte (by omega)) (by omega)
        (by omega) bs
    · split
      · exact sequence?_three ((hbyte (by omega)).trans (by omega)) (hbyte (by omega))
          (hbyte (by omega)) (by omega) (by omega) hvalid bs
      · exact sequence?_four ((hbyte (by omega)).trans (by omega)) (hbyte (by omega))
          (hbyte (by omega)) (hbyte (by omega)) (by omega) hrange bs

theorem decodeFrom_length_append (bs cs : List UInt8) :
    decodeFrom bs.length (bs ++ cs) = decodeFrom 0 cs := by
  induction bs with
  | nil => rfl
  | cons b bs ih => exact ih

theorem decodeFrom_utf8EncodeChar (ch : Char) (bs : List UInt8) :
    decodeFrom 0 (String.utf8EncodeChar ch ++ bs) = ch :: decodeFrom 0 bs := by
  have hfirst := sequence?_utf8EncodeChar ch bs
  cases hbytes : String.utf8EncodeChar ch with
  | nil => exact absurd hbytes String.utf8EncodeChar_ne_nil
  | cons b cs =>
    rw [hbytes, List.cons_append] at hfirst
    rw [List.cons_append, decodeFrom_of_some hfirst, List.length_cons, Nat.add_sub_cancel,
      decodeFrom_length_append]

/-- Decoding gives back what was encoded. -/
theorem decodeFrom_utf8Encode (cs : List Char) :
    decodeFrom 0 (cs.flatMap String.utf8EncodeChar) = cs := by
  induction cs with
  | nil => rfl
  | cons ch cs ih => rw [List.flatMap_cons, decodeFrom_utf8EncodeChar, ih]

end TexEngine.Text.Utf8
