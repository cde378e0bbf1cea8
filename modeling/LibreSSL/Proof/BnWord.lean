import LibreSSL.Spec.BnInternal

/-!
# The carry, borrow and zero-test formulas of `bn_internal.h`

The word primitives recover a carry, a borrow or a zero test from the top bit of a bitwise
formula. Each formula is proved once, from the top bits of its operands (`carry_toNat`,
`borrow_toNat`, `neZero_toNat`), and each primitive's value is read from it as a double word
(`bnAddw_toNat`, `bnSubw_toNat`).

* `bnAddw_bnAddwAddw_exact`: `bn_addw` and `bn_addw_addw` return their sums exactly, with
  carries of at most 1 and 2, and the `BN_LLONG` `bn_addw` agrees with the bitwise one.
* `bnSubw_bnSubwSubw_exact`: `bn_subw` and `bn_subw_subw` return their differences modulo `2^W`
  with borrows of at most 1 and 2.
* `bnCt_exact`: the constant-time zero tests and their masks.
-/

namespace BnInternal

variable {W : ℕ}

/-! ## Top bits -/

theorem toNat_lt_two_mul {k : ℕ} (x : BitVec (k + 1)) : x.toNat < 2 * 2 ^ k :=
  Nat.pow_succ' ▸ x.isLt

/-- Shifting a word right by `BN_BITS2 - 1` leaves its top bit. -/
theorem toNat_ushiftRight_pred (x : BitVec W) : (x >>> (W - 1)).toNat = x.msb.toNat := by
  rw [BitVec.toNat_ushiftRight, Nat.shiftRight_eq_div_pow, BitVec.msb_eq_decide]
  rcases W with _ | k
  · simp [BitVec.toNat_of_zero_length rfl x]
  · have hx := toNat_lt_two_mul x
    simp only [Nat.add_sub_cancel]
    by_cases h : 2 ^ k ≤ x.toNat
    · simp only [h, decide_True, Bool.toNat_true]
      exact Nat.div_eq_of_lt_le (by omega) (by omega)
    · simp only [h, decide_False, Bool.toNat_false]
      exact Nat.div_eq_of_lt (by omega)

/-- The sum of two words below `2 * 2^k`, as a quotient and a remainder. -/
theorem add_div_mod_two_mul {a b h : ℕ} (ha : a < 2 * h) (hb : b < 2 * h) :
    ((a + b) / (2 * h) = 0 ∧ (a + b) % (2 * h) = a + b ∧ a + b < 2 * h) ∨
      ((a + b) / (2 * h) = 1 ∧ (a + b) % (2 * h) = a + b - 2 * h ∧ 2 * h ≤ a + b) := by
  by_cases hs : a + b < 2 * h
  · exact .inl ⟨Nat.div_eq_of_lt hs, Nat.mod_eq_of_lt hs, hs⟩
  · refine .inr ⟨Nat.div_eq_of_lt_le (by omega) (by omega), ?_, by omega⟩
    rw [Nat.mod_eq_sub_mod (by omega), Nat.mod_eq_of_lt (by omega)]

/-- **The carry formula of `bn_addw` and `bn_umul_hilo`**: the top bit of
`((x | y) & ~(x + y)) | (x & y)` is the carry out of `x + y`. -/
theorem carry_toNat (x y : BitVec W) :
    ((((x ||| y) &&& ~~~(x + y)) ||| (x &&& y)) >>> (W - 1)).toNat =
      (x.toNat + y.toNat) / 2 ^ W := by
  rw [toNat_ushiftRight_pred, BitVec.msb_or, BitVec.msb_and, BitVec.msb_not, BitVec.msb_or,
    BitVec.msb_and]
  simp only [BitVec.msb_eq_decide, BitVec.toNat_add]
  rcases W with _ | k
  · simp [BitVec.toNat_of_zero_length rfl x, BitVec.toNat_of_zero_length rfl y]
  · simp only [Nat.pow_succ', Nat.add_sub_cancel, Nat.zero_lt_succ, decide_True, Bool.true_and]
    rcases add_div_mod_two_mul (toNat_lt_two_mul x) (toNat_lt_two_mul y) with
      ⟨hd, hm, hs⟩ | ⟨hd, hm, hs⟩ <;> rw [hd, hm] <;>
      by_cases ha : 2 ^ k ≤ x.toNat <;> by_cases hb : 2 ^ k ≤ y.toNat <;>
      simp [ha, hb] <;> omega

/-- The difference of two words modulo `2 * h`, by cases on the borrow. -/
theorem sub_mod_two_mul {a b h : ℕ} (ha : a < 2 * h) (hb : b < 2 * h) :
    (b ≤ a ∧ (2 * h - b + a) % (2 * h) = a - b) ∨
      (a < b ∧ (2 * h - b + a) % (2 * h) = 2 * h - b + a) := by
  by_cases hab : b ≤ a
  · refine .inl ⟨hab, ?_⟩
    rw [Nat.mod_eq_sub_mod (by omega), Nat.mod_eq_of_lt (by omega)]
    omega
  · exact .inr ⟨by omega, Nat.mod_eq_of_lt (by omega)⟩

/-- **The borrow formula of `bn_subw`**: the top bit of
`((a - b) | (b & ~a)) & (b | ~a)` is the borrow of `a - b`. -/
theorem borrow_toNat (a b : BitVec W) :
    (((((a - b) ||| (b &&& ~~~a)) &&& (b ||| ~~~a))) >>> (W - 1)).toNat =
      if a.toNat < b.toNat then 1 else 0 := by
  rw [toNat_ushiftRight_pred, BitVec.msb_and, BitVec.msb_or, BitVec.msb_or, BitVec.msb_and,
    BitVec.msb_not]
  simp only [BitVec.msb_eq_decide, BitVec.toNat_sub]
  rcases W with _ | k
  · simp [BitVec.toNat_of_zero_length rfl a, BitVec.toNat_of_zero_length rfl b]
  · simp only [Nat.pow_succ', Nat.add_sub_cancel, Nat.zero_lt_succ, decide_True, Bool.true_and]
    rcases sub_mod_two_mul (toNat_lt_two_mul a) (toNat_lt_two_mul b) with ⟨hab, hm⟩ | ⟨hab, hm⟩
    · rw [hm, if_neg (Nat.not_lt.2 hab)]
      by_cases hx : 2 ^ k ≤ a.toNat <;> by_cases hy : 2 ^ k ≤ b.toNat <;>
        by_cases hr : 2 ^ k ≤ a.toNat - b.toNat <;> simp [hx, hy, hr] <;> omega
    · rw [hm, if_pos hab]
      by_cases hx : 2 ^ k ≤ a.toNat <;> by_cases hy : 2 ^ k ≤ b.toNat <;>
        by_cases hr : 2 ^ k ≤ 2 * 2 ^ k - b.toNat + a.toNat <;> simp [hx, hy, hr] <;> omega

/-- **The zero test of `bn_ct_ne_zero`**: the top bit of `w | ~(w - 1)` is set exactly when
`w` is not zero. -/
theorem neZero_toNat (w : BitVec W) :
    ((w ||| ~~~(w - 1)) >>> (W - 1)).toNat = if w = 0 then 0 else 1 := by
  rw [toNat_ushiftRight_pred, BitVec.msb_or, BitVec.msb_not]
  simp only [BitVec.msb_eq_decide, BitVec.toNat_sub, BitVec.toNat_eq, BitVec.ofNat_eq_ofNat,
    BitVec.toNat_ofNat, Nat.zero_mod]
  rcases W with _ | k
  · simp [BitVec.toNat_of_zero_length rfl w]
  · have hone : 1 < 2 * 2 ^ k := by have := Nat.one_le_two_pow (n := k); omega
    simp only [Nat.pow_succ', Nat.mod_eq_of_lt hone, Nat.add_sub_cancel, Nat.zero_lt_succ,
      decide_True, Bool.true_and]
    rcases sub_mod_two_mul (toNat_lt_two_mul w) hone with ⟨hab, hm⟩ | ⟨hab, hm⟩
    · rw [hm, if_neg (by omega)]
      by_cases hx : 2 ^ k ≤ w.toNat
      · simp [hx]
      · have hr : ¬2 ^ k ≤ w.toNat - 1 := by omega
        simp [hx, hr]
    · rw [hm, if_pos (by omega)]
      have hx : ¬2 ^ k ≤ w.toNat := by omega
      have hr : 2 ^ k ≤ 2 * 2 ^ k - 1 + w.toNat := by omega
      simp [hx, hr]

/-! ## Addition and subtraction -/

/-- The double-word value of `bn_addw`: its carry and its sum word. -/
theorem bnAddw_toNat (a b : BitVec W) :
    (bnAddw a b).1.toNat * 2 ^ W + (bnAddw a b).2.toNat = a.toNat + b.toNat ∧
      (bnAddw a b).1.toNat ≤ 1 := by
  simp only [bnAddw, carry_toNat, BitVec.toNat_add, Nat.div_add_mod', true_and]
  exact Nat.le_of_lt_succ ((Nat.div_lt_iff_lt_mul (Nat.two_pow_pos W)).2 (by
    have := a.isLt; have := b.isLt; omega))

/-- The double-word value of `bn_subw`: the borrow, and the difference word. -/
theorem bnSubw_toNat (a b : BitVec W) :
    (bnSubw a b).2.toNat + b.toNat = (bnSubw a b).1.toNat * 2 ^ W + a.toNat ∧
      (bnSubw a b).1.toNat = if a.toNat < b.toNat then 1 else 0 := by
  simp only [bnSubw, borrow_toNat, BitVec.toNat_sub, and_true]
  have ha := a.isLt
  have hb := b.isLt
  split
  · rw [Nat.mod_eq_of_lt (by omega)]; omega
  · rw [Nat.mod_eq_sub_mod (by omega), Nat.mod_eq_of_lt (by omega)]; omega

/-- The two halves of a `BN_ULLONG`, as `BN_LLONG` code takes them: `r >> BN_BITS2` and
`r & BN_MASK2`, each stored in a word. -/
theorem splitWords_toNat (r : BitVec (2 * W)) :
    ((r >>> W).setWidth W).toNat = r.toNat / 2 ^ W ∧
      ((r &&& (BN_MASK2 W).setWidth (2 * W)).setWidth W).toNat = r.toNat % 2 ^ W := by
  have h2 : 2 ^ (2 * W) = 2 ^ W * 2 ^ W := by rw [Nat.two_mul, Nat.pow_add]
  have hr : r.toNat < 2 ^ W * 2 ^ W := h2 ▸ r.isLt
  have hm : 2 ^ W - 1 < 2 ^ (2 * W) := by
    rw [h2]; have := Nat.one_le_two_pow (n := W); exact Nat.lt_of_lt_of_le (by omega)
      (Nat.le_mul_of_pos_right _ this)
  refine ⟨?_, ?_⟩
  · rw [BitVec.toNat_setWidth, BitVec.toNat_ushiftRight, Nat.shiftRight_eq_div_pow,
      Nat.mod_eq_of_lt ((Nat.div_lt_iff_lt_mul (Nat.two_pow_pos W)).2 hr)]
  · rw [BitVec.toNat_setWidth, BitVec.toNat_and, BitVec.toNat_setWidth, BN_MASK2,
      BitVec.toNat_allOnes, Nat.mod_eq_of_lt hm, Nat.and_pow_two_sub_one_eq_mod, Nat.mod_mod]

/-- Two words widened to a `BN_ULLONG` and added there do not wrap. -/
theorem toNat_setWidth_add (a b : BitVec W) :
    (a.setWidth (2 * W) + b.setWidth (2 * W)).toNat = a.toNat + b.toNat := by
  have ha := a.isLt
  have hb := b.isLt
  have hw : 2 ^ W ≤ 2 ^ (2 * W) := Nat.pow_le_pow_right (by decide) (by omega)
  have hsum : a.toNat + b.toNat < 2 ^ (2 * W) := by
    rw [Nat.two_mul, Nat.pow_add]
    rcases W with _ | k
    · omega
    · calc a.toNat + b.toNat < 2 * 2 ^ (k + 1) := by omega
        _ ≤ 2 ^ (k + 1) * 2 ^ (k + 1) :=
          Nat.mul_le_mul_right _ (Nat.le_self_pow (Nat.succ_ne_zero k) 2)
  rw [BitVec.toNat_add, BitVec.toNat_setWidth, BitVec.toNat_setWidth,
    Nat.mod_eq_of_lt (ha.trans_le hw), Nat.mod_eq_of_lt (hb.trans_le hw), Nat.mod_eq_of_lt hsum]

/-- `bn_addw` with `BN_LLONG` computes what the bitwise one does. -/
theorem bnAddwLlong_eq (a b : BitVec W) : bnAddwLlong a b = bnAddw a b := by
  obtain ⟨h1, h0⟩ := splitWords_toNat (a.setWidth (2 * W) + b.setWidth (2 * W))
  rw [toNat_setWidth_add] at h1 h0
  refine Prod.ext (BitVec.eq_of_toNat_eq ?_) (BitVec.eq_of_toNat_eq ?_)
  · rw [bnAddwLlong, h1, bnAddw, carry_toNat]
  · rw [bnAddwLlong, h0, bnAddw, BitVec.toNat_add]

/-- Two carries into a double word: the value, and how large the top word gets. -/
theorem carry_chain {P a b c r1 r0 k s : ℕ} (ha : a < P)
    (hb : b < P) (hc : c < P) (e1 : r1 * P + r0 = a + b) (h1 : r1 ≤ 1)
    (e2 : k * P + s = r0 + c) (hk : k ≤ 1) :
    r1 + k < P ∧ (r1 + k) * P + s = a + b + c ∧ r1 + k ≤ 2 ∧ (c ≤ 1 → r1 + k ≤ 1) := by
  rcases Nat.le_one_iff_eq_zero_or_eq_one.1 h1 with rfl | rfl <;>
    rcases Nat.le_one_iff_eq_zero_or_eq_one.1 hk with rfl | rfl <;> omega

/-- Two borrows out of a word: the value, and how large the borrow gets. -/
theorem borrow_chain {P a b c b1 r0 b2 s : ℕ} (ha : a < P)
    (hb : b < P) (hc : c < P) (hr : r0 < P) (hs : s < P) (e1 : r0 + b = b1 * P + a)
    (h1 : b1 ≤ 1) (e2 : s + c = b2 * P + r0) (h2 : b2 ≤ 1) :
    b1 + b2 < P ∧ s + b + c = (b1 + b2) * P + a ∧ b1 + b2 ≤ 2 ∧ (c ≤ 1 → b1 + b2 ≤ 1) := by
  rcases Nat.le_one_iff_eq_zero_or_eq_one.1 h1 with rfl | rfl <;>
    rcases Nat.le_one_iff_eq_zero_or_eq_one.1 h2 with rfl | rfl <;> omega

theorem bnAddwAddw_toNat (a b c : BitVec W) :
    (bnAddwAddw a b c).1.toNat * 2 ^ W + (bnAddwAddw a b c).2.toNat =
        a.toNat + b.toNat + c.toNat ∧
      (bnAddwAddw a b c).1.toNat ≤ 2 ∧ (c.toNat ≤ 1 → (bnAddwAddw a b c).1.toNat ≤ 1) := by
  obtain ⟨e1, h1⟩ := bnAddw_toNat a b
  obtain ⟨e2, h2⟩ := bnAddw_toNat (bnAddw a b).2 c
  obtain ⟨hlt, e, hle, hle1⟩ := carry_chain a.isLt b.isLt c.isLt e1 h1 e2 h2
  simp only [bnAddwAddw, BitVec.toNat_add, Nat.mod_eq_of_lt hlt]
  exact ⟨e, hle, hle1⟩

/-- **`bn_addw` and `bn_addw_addw` are exact.** `bn_addw` returns the carry (0 or 1) and the sum
word of `a + b`, in both of its definitions; `bn_addw_addw` returns `a + b + c` as a double
word whose top word is at most 2, and at most 1 when `c` is a carry. -/
theorem bnAddw_bnAddwAddw_exact (a b c : BitVec W) :
    bnAddwLlong a b = bnAddw a b ∧ (bnAddw a b).1.toNat ≤ 1 ∧
      (bnAddw a b).1.toNat * 2 ^ W + (bnAddw a b).2.toNat = a.toNat + b.toNat ∧
      (bnAddwAddw a b c).1.toNat * 2 ^ W + (bnAddwAddw a b c).2.toNat =
        a.toNat + b.toNat + c.toNat ∧
      (bnAddwAddw a b c).1.toNat ≤ 2 ∧ (c.toNat ≤ 1 → (bnAddwAddw a b c).1.toNat ≤ 1) :=
  ⟨bnAddwLlong_eq a b, (bnAddw_toNat a b).2, (bnAddw_toNat a b).1, bnAddwAddw_toNat a b c⟩

theorem bnSubwSubw_toNat (a b c : BitVec W) :
    (bnSubwSubw a b c).2.toNat + b.toNat + c.toNat = (bnSubwSubw a b c).1.toNat * 2 ^ W + a.toNat ∧
      (bnSubwSubw a b c).1.toNat ≤ 2 ∧ (c.toNat ≤ 1 → (bnSubwSubw a b c).1.toNat ≤ 1) := by
  obtain ⟨e1, h1⟩ := bnSubw_toNat a b
  obtain ⟨e2, h2⟩ := bnSubw_toNat (bnSubw a b).2 c
  obtain ⟨hlt, e, hle, hle1⟩ := borrow_chain a.isLt b.isLt c.isLt
    (bnSubw a b).2.isLt (bnSubw (bnSubw a b).2 c).2.isLt e1 (by rw [h1]; split <;> omega) e2
    (by rw [h2]; split <;> omega)
  simp only [bnSubwSubw, BitVec.toNat_add, Nat.mod_eq_of_lt hlt]
  exact ⟨e, hle, hle1⟩

/-- **`bn_subw` and `bn_subw_subw` are exact.** `bn_subw` returns `a - b` modulo `2^W` and the
borrow `[a < b]`; `bn_subw_subw` returns `a - b - c` as a word and a borrow of at most 2, and
at most 1 when `c` is a borrow. -/
theorem bnSubw_bnSubwSubw_exact (a b c : BitVec W) :
    ((bnSubw a b).2.toNat : ℤ) = ((a.toNat : ℤ) - b.toNat) % 2 ^ W ∧
      (bnSubw a b).1.toNat = (if a.toNat < b.toNat then 1 else 0) ∧
      (a.toNat : ℤ) - b.toNat = (bnSubw a b).2.toNat - (bnSubw a b).1.toNat * 2 ^ W ∧
      (a.toNat : ℤ) - b.toNat - c.toNat =
        (bnSubwSubw a b c).2.toNat - (bnSubwSubw a b c).1.toNat * 2 ^ W ∧
      (bnSubwSubw a b c).1.toNat ≤ 2 ∧ (c.toNat ≤ 1 → (bnSubwSubw a b c).1.toNat ≤ 1) := by
  obtain ⟨e1, h1⟩ := bnSubw_toNat a b
  obtain ⟨e2, hle, hle1⟩ := bnSubwSubw_toNat a b c
  have hP : ((2 ^ W : ℕ) : ℤ) = 2 ^ W := by push_cast; rfl
  have hz1 : (a.toNat : ℤ) - b.toNat = (bnSubw a b).2.toNat - (bnSubw a b).1.toNat * 2 ^ W := by
    rw [← hP]; omega
  refine ⟨?_, h1, hz1, by rw [← hP]; omega, hle, hle1⟩
  rw [hz1, sub_eq_add_neg, ← neg_mul, Int.add_mul_emod_self,
    Int.emod_eq_of_lt (by omega) (by rw [← hP]; exact_mod_cast (bnSubw a b).2.isLt)]

/-! ## Constant-time tests -/

theorem ofInt_neg_one : BitVec.ofInt W (-1) = BitVec.allOnes W := by
  refine BitVec.eq_of_toNat_eq ?_
  rw [BitVec.toNat_ofInt, BitVec.toNat_allOnes]
  have hP : (0 : ℤ) < ((2 ^ W : ℕ) : ℤ) := by exact_mod_cast Nat.two_pow_pos W
  rw [show (-1 : ℤ) = (((2 ^ W : ℕ) : ℤ) - 1) + (-1) * ((2 ^ W : ℕ) : ℤ) by omega,
    Int.add_mul_emod_self, Int.emod_eq_of_lt (by omega) (by omega)]
  omega

/-- **The constant-time zero tests.** `bn_ct_ne_zero` is 1 exactly on a nonzero word and
`bn_ct_eq_zero` is its negation; their masks are all ones or zero accordingly. -/
theorem bnCt_exact (w : BitVec W) :
    bnCtNeZero w = (if w = 0 then 0 else 1) ∧ bnCtEqZero w = 1 - bnCtNeZero w ∧
      bnCtNeZeroMask w = (if w = 0 then 0 else BitVec.allOnes W) ∧
      bnCtEqZeroMask w = ~~~(bnCtNeZeroMask w) := by
  have hne : bnCtNeZero w = if w = 0 then 0 else 1 := by
    rw [bnCtNeZero, neZero_toNat]; split <;> rfl
  have h0 : BitVec.ofInt W 0 = 0 := BitVec.eq_of_toNat_eq (by simp)
  refine ⟨hne, rfl, ?_, ?_⟩ <;> simp only [bnCtNeZeroMask, bnCtEqZeroMask, bnCtEqZero, hne] <;>
    split <;> simp [h0, ofInt_neg_one]

end BnInternal
