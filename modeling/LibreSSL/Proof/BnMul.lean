import LibreSSL.Proof.BnWord
import Mathlib.Tactic.LinearCombination

/-!
# The double-word multiplication of `bn_internal.h`

`bn_umul_hilo` has three definitions: the `BN_LLONG` one multiplies in a `BN_ULLONG`; the
compiled one multiplies half words and adds the two cross products across `h:l`, recovering
each carry from top bits (`hiloPartition_toNat`); the disabled one keeps four half-word
accumulators (`hiloAccumulate_toNat`). Each returns `a * b` as a double word
(`bnUmulHiloLlong_toNat`, `bnUmulHilo_toNat`, `bnUmulHiloAcc_toNat`), and a double word is
fixed by its value (`hilo_eq_of_toNat`), so the three agree. The multiply-and-accumulate
primitives fold one carry into a high word at a time; `fold_carry` says when that cannot wrap.

A word splits into two half words only when `BN_BITS2` is even, as it is (32 or 64): the
results on half words take `W % 2 = 0`.

* `bnUmulHilo_exact`: the three `bn_umul_hilo` are exact and agree; `bn_umul_hi` and
  `bn_umul_lo` are the quotient and the remainder of `a * b` by `2^W`.
* `bnUmulHilo_comm`: each `bn_umul_hilo` is commutative.
* `bnMulwAddw_bnMulwAddtw_exact`: `bn_mulw_addw`, `bn_mulw_addw_addw` and `bn_mulw_addtw` are
  exact and none of their carry folds wraps.
* `bnMulwAddtw_mod`: past its precondition `bn_mulw_addtw` wraps modulo three words.
-/

namespace BnInternal

variable {W : ℕ}

/-! ## Half words -/

theorem two_pow_eq_mul (hW : W % 2 = 0) : 2 ^ W = 2 ^ BN_BITS4 W * 2 ^ BN_BITS4 W := by
  rw [← Nat.pow_add, BN_BITS4]; congr 1; omega

theorem hi_toNat (x : BitVec W) : (x >>> BN_BITS4 W).toNat = x.toNat / 2 ^ BN_BITS4 W := by
  rw [BitVec.toNat_ushiftRight, Nat.shiftRight_eq_div_pow]

theorem lo_toNat (x : BitVec W) : (x &&& BN_MASK2l W).toNat = x.toNat % 2 ^ BN_BITS4 W := by
  have hk : 2 ^ BN_BITS4 W ≤ 2 ^ W := Nat.pow_le_pow_right (by decide) (by unfold BN_BITS4; omega)
  rw [BitVec.toNat_and, BN_MASK2l, BitVec.toNat_ofNat,
    Nat.mod_eq_of_lt (by have := Nat.one_le_two_pow (n := BN_BITS4 W); omega),
    Nat.and_pow_two_sub_one_eq_mod]

theorem hi_lt (hW : W % 2 = 0) (x : BitVec W) : x.toNat / 2 ^ BN_BITS4 W < 2 ^ BN_BITS4 W :=
  (Nat.div_lt_iff_lt_mul (Nat.two_pow_pos _)).2 (two_pow_eq_mul hW ▸ x.isLt)

/-- A product of two half words does not wrap. -/
theorem mul_toNat_of_lt (hW : W % 2 = 0) {x y : BitVec W} (hx : x.toNat < 2 ^ BN_BITS4 W)
    (hy : y.toNat < 2 ^ BN_BITS4 W) : (x * y).toNat = x.toNat * y.toNat := by
  rw [BitVec.toNat_mul, Nat.mod_eq_of_lt (two_pow_eq_mul hW ▸ Nat.mul_lt_mul'' hx hy)]

theorem shiftLeft_toNat (hW : W % 2 = 0) (x : BitVec W) :
    (x <<< BN_BITS4 W).toNat = x.toNat % 2 ^ BN_BITS4 W * 2 ^ BN_BITS4 W := by
  rw [BitVec.toNat_shiftLeft, Nat.shiftLeft_eq, two_pow_eq_mul hW, Nat.mul_mod_mul_right]

/-! ## The half-word decomposition -/

/-- One partition adds `x << BN_BITS4` to the double word `h:l`, modulo `2^W` in each word. -/
theorem hiloPartition_toNat (hW : W % 2 = 0) (x h l : BitVec W) :
    (hiloPartition x h l).1.toNat =
        ((h.toNat + x.toNat / 2 ^ BN_BITS4 W) % 2 ^ W +
          (l.toNat + x.toNat % 2 ^ BN_BITS4 W * 2 ^ BN_BITS4 W) / 2 ^ W) % 2 ^ W ∧
      (hiloPartition x h l).2.toNat =
        (l.toNat + x.toNat % 2 ^ BN_BITS4 W * 2 ^ BN_BITS4 W) % 2 ^ W := by
  simp only [hiloPartition, BitVec.toNat_add, carry_toNat, hi_toNat, shiftLeft_toNat hW,
    and_self]

/-- The arithmetic of the two partitions: with `a = ah:al` and `b = bh:bl` in half words, adding
`ah * bl` and then `bh * al`, shifted by a half word, to `(ah * bh):(al * bl)` gives `a * b`, and
no addition to the high word wraps. -/
theorem partitions_value {P A B h1 l1 : ℕ} (hA : A < P * P) (hB : B < P * P)
    (e1h : h1 = ((A / P * (B / P) + A / P * (B % P) / P) % (P * P) +
      (A % P * (B % P) + A / P * (B % P) % P * P) / (P * P)) % (P * P))
    (e1l : l1 = (A % P * (B % P) + A / P * (B % P) % P * P) % (P * P)) :
    ((h1 + B / P * (A % P) / P) % (P * P) + (l1 + B / P * (A % P) % P * P) / (P * P)) % (P * P) *
        (P * P) + (l1 + B / P * (A % P) % P * P) % (P * P) = A * B := by
  set h0 := A / P * (B / P)
  set q1 := A / P * (B % P) / P
  set r1 := A / P * (B % P) % P
  set q2 := B / P * (A % P) / P
  set r2 := B / P * (A % P) % P
  set c1 := (A % P * (B % P) + r1 * P) / (P * P)
  set c2 := (l1 + r2 * P) / (P * P)
  set l2 := (l1 + r2 * P) % (P * P)
  have e3 : A / P * (B % P) = q1 * P + r1 := (Nat.div_add_mod' _ _).symm
  have e4 : B / P * (A % P) = q2 * P + r2 := (Nat.div_add_mod' _ _).symm
  have e5 : c1 * (P * P) + l1 = A % P * (B % P) + r1 * P := e1l ▸ Nat.div_add_mod' _ _
  have e6 : c2 * (P * P) + l2 = l1 + r2 * P := Nat.div_add_mod' _ _
  have hid : (h0 + q1 + c1 + q2 + c2) * (P * P) + l2 = A * B := by
    conv_rhs => rw [← Nat.div_add_mod' A P, ← Nat.div_add_mod' B P]
    linear_combination e5 + e6 + P * e3.symm + P * e4.symm
  have hH : h0 + q1 + c1 + q2 + c2 < P * P := by
    refine Nat.lt_of_mul_lt_mul_right (a := P * P) ?_
    calc _ ≤ A * B := hid ▸ Nat.le_add_right _ _
      _ < P * P * (P * P) := Nat.mul_lt_mul'' hA hB
  rw [e1h]
  clear_value h0 q1 r1 q2 r2 c1 c2 l2
  generalize P * P = Q at *
  rwa [Nat.mod_eq_of_lt (by omega : h0 + q1 < Q), Nat.mod_eq_of_lt (by omega : h0 + q1 + c1 < Q),
    Nat.mod_eq_of_lt (by omega : h0 + q1 + c1 + q2 < Q), Nat.mod_eq_of_lt hH]

theorem bnUmulHilo_toNat (hW : W % 2 = 0) (a b : BitVec W) :
    (bnUmulHilo a b).1.toNat * 2 ^ W + (bnUmulHilo a b).2.toNat = a.toNat * b.toNat := by
  set P := 2 ^ BN_BITS4 W with hPdef
  have hWP : 2 ^ W = P * P := two_pow_eq_mul hW
  have ha := hi_lt hW a
  have hb := hi_lt hW b
  have hal : a.toNat % P < P := Nat.mod_lt _ (Nat.two_pow_pos _)
  have hbl : b.toNat % P < P := Nat.mod_lt _ (Nat.two_pow_pos _)
  obtain ⟨e1h, e1l⟩ := hiloPartition_toNat hW ((a >>> BN_BITS4 W) * (b &&& BN_MASK2l W))
    ((a >>> BN_BITS4 W) * (b >>> BN_BITS4 W)) ((a &&& BN_MASK2l W) * (b &&& BN_MASK2l W))
  rcases hp : hiloPartition ((a >>> BN_BITS4 W) * (b &&& BN_MASK2l W))
    ((a >>> BN_BITS4 W) * (b >>> BN_BITS4 W)) ((a &&& BN_MASK2l W) * (b &&& BN_MASK2l W))
    with ⟨h1, l1⟩
  obtain ⟨e2h, e2l⟩ := hiloPartition_toNat hW ((b >>> BN_BITS4 W) * (a &&& BN_MASK2l W)) h1 l1
  simp only [bnUmulHilo, hp]
  rw [hp] at e1h e1l
  simp only [mul_toNat_of_lt hW, hi_toNat, lo_toNat, ← hPdef, ha, hb, hal, hbl] at e1h e1l e2h e2l
  rw [e2h, e2l, hWP]
  exact partitions_value (hWP ▸ a.isLt) (hWP ▸ b.isLt) (hWP ▸ e1h) (hWP ▸ e1l)

/-! ## The accumulator-based version -/

/-- `(x << BN_BITS4) | y` for half words `x` and `y` is the double half word `x:y`. -/
theorem shiftLeft_or_toNat (hW : W % 2 = 0) {x y : BitVec W} (hx : x.toNat < 2 ^ BN_BITS4 W)
    (hy : y.toNat < 2 ^ BN_BITS4 W) :
    ((x <<< BN_BITS4 W) ||| y).toNat = x.toNat * 2 ^ BN_BITS4 W + y.toNat := by
  rw [BitVec.toNat_or, shiftLeft_toNat hW, Nat.mod_eq_of_lt hx, Nat.mul_comm,
    Nat.mul_add_lt_is_or hy]

/-- The arithmetic of one accumulation: `x` times a half word added to the half-word digits
`a3:a2:a1`, the carries moved up, leaves each of the two low digits a half word. -/
theorem accumulate_value (P a1 a2 a3 x : ℕ) :
    (a3 + (a2 + ((a1 + x % P) / P + x / P)) / P) * (P * P * P) +
        (a2 + ((a1 + x % P) / P + x / P)) % P * (P * P) + (a1 + x % P) % P * P =
      a3 * (P * P * P) + a2 * (P * P) + a1 * P + x * P := by
  have eu := Nat.div_add_mod' (a1 + x % P) P
  have ev := Nat.div_add_mod' (a2 + ((a1 + x % P) / P + x / P)) P
  have ex := Nat.div_add_mod' x P
  linear_combination (P * P) * ev + P * eu + P * ex

/-- One accumulation on words: the digits it leaves, before any reduction of `acc3`. -/
theorem hiloAccumulate_toNat (hW : W % 2 = 0) (hk : 2 ≤ 2 ^ BN_BITS4 W)
    {x acc1 acc2 acc3 : BitVec W} {s : BitVec W × BitVec W × BitVec W}
    (hs : hiloAccumulate x acc1 acc2 acc3 = s)
    (h1 : acc1.toNat < 2 ^ BN_BITS4 W) (h2 : acc2.toNat < 2 ^ BN_BITS4 W) :
    let P := 2 ^ BN_BITS4 W
    let u := acc1.toNat + x.toNat % P
    let v := acc2.toNat + (u / P + x.toNat / P)
    s.1.toNat = u % P ∧ s.2.1.toNat = v % P ∧ s.2.2.toNat = (acc3.toNat + v / P) % 2 ^ W := by
  intro P u v
  subst hs
  have hWP : 2 ^ W = P * P := two_pow_eq_mul hW
  have hxP : x.toNat / P < P := hi_lt hW x
  have hxm : x.toNat % P < P := Nat.mod_lt _ (Nat.two_pow_pos _)
  have hu : u / P ≤ 1 :=
    Nat.le_of_lt_succ ((Nat.div_lt_iff_lt_mul (Nat.two_pow_pos _)).2 (by omega))
  have hPP : 2 * P ≤ P * P := Nat.mul_le_mul_right P hk
  simp only [hiloAccumulate, BitVec.toNat_add, lo_toNat, hi_toNat]
  have hu' : u < 2 ^ W := by omega
  have hv : v < 2 ^ W := by omega
  have hs : u / P + x.toNat / P < 2 ^ W := by omega
  simp only [← hWP] at hPP
  rw [Nat.mod_eq_of_lt hu', Nat.mod_eq_of_lt hs, Nat.mod_eq_of_lt hv]
  exact ⟨rfl, rfl, rfl⟩

/-- The arithmetic of the two accumulations: with `a = ah:al` and `b = bh:bl` in half words,
`ah * bl` and then `bh * al` accumulated into the digits of `(ah * bh):(al * bl)` leave the
half-word digits `T:v2:u2:l0` of `a * b`, the top one `T` a half word too. -/
theorem accumulations_value {P A B : ℕ} (hA : A < P * P) (hB : B < P * P) :
    let u1 := A % P * (B % P) / P + A / P * (B % P) % P
    let v1 := A / P * (B / P) % P + (u1 / P + A / P * (B % P) / P)
    let u2 := u1 % P + B / P * (A % P) % P
    let v2 := v1 % P + (u2 / P + B / P * (A % P) / P)
    let T := A / P * (B / P) / P + v1 / P + v2 / P
    T < P ∧ T * (P * P * P) + v2 % P * (P * P) + u2 % P * P + A % P * (B % P) % P = A * B := by
  intro u1 v1 u2 v2 T
  have q1 := accumulate_value P (A % P * (B % P) / P) (A / P * (B / P) % P)
    (A / P * (B / P) / P) (A / P * (B % P))
  have q2 := accumulate_value P (u1 % P) (v1 % P) (A / P * (B / P) / P + v1 / P)
    (B / P * (A % P))
  have hid : T * (P * P * P) + v2 % P * (P * P) + u2 % P * P + A % P * (B % P) % P = A * B := by
    have eh := Nat.div_add_mod' (A / P * (B / P)) P
    have el := Nat.div_add_mod' (A % P * (B % P)) P
    conv_rhs => rw [← Nat.div_add_mod' A P, ← Nat.div_add_mod' B P]
    linear_combination q1 + q2 + (P * P) * eh + el
  refine ⟨Nat.lt_of_mul_lt_mul_right (a := P * P * P) ?_, hid⟩
  calc _ ≤ A * B := hid ▸ by omega
    _ < P * P * (P * P) := Nat.mul_lt_mul'' hA hB
    _ = P * (P * P * P) := by ring

theorem bnUmulHiloAcc_toNat (hW : W % 2 = 0) (a b : BitVec W) :
    (bnUmulHiloAcc a b).1.toNat * 2 ^ W + (bnUmulHiloAcc a b).2.toNat = a.toNat * b.toNat := by
  rcases Nat.eq_zero_or_pos W with rfl | hW0
  · simp only [BitVec.toNat_of_zero_length rfl, Nat.zero_mul, Nat.zero_add]
  have hk : 2 ^ 1 ≤ 2 ^ BN_BITS4 W :=
    Nat.pow_le_pow_right (by decide) (show 1 ≤ W / 2 by omega)
  set P := 2 ^ BN_BITS4 W with hPdef
  have hWP : 2 ^ W = P * P := two_pow_eq_mul hW
  have hP : 0 < P := Nat.two_pow_pos _
  have ha := hi_lt hW a
  have hb := hi_lt hW b
  have hal : a.toNat % P < P := Nat.mod_lt _ hP
  have hbl : b.toNat % P < P := Nat.mod_lt _ hP
  have hl0 : a.toNat % P * (b.toNat % P) / P < P :=
    (Nat.div_lt_iff_lt_mul hP).2 (Nat.mul_lt_mul'' hal hbl)
  unfold bnUmulHiloAcc
  dsimp only
  -- the first accumulation, of `ah * bl`, then the second, of `bh * al`
  generalize hs1 : hiloAccumulate ((a >>> BN_BITS4 W) * (b &&& BN_MASK2l W))
    (((a &&& BN_MASK2l W) * (b &&& BN_MASK2l W)) >>> BN_BITS4 W)
    ((a >>> BN_BITS4 W) * (b >>> BN_BITS4 W) &&& BN_MASK2l W)
    (((a >>> BN_BITS4 W) * (b >>> BN_BITS4 W)) >>> BN_BITS4 W) = s1
  generalize hs2 : hiloAccumulate ((b >>> BN_BITS4 W) * (a &&& BN_MASK2l W)) s1.1 s1.2.1 s1.2.2 = s2
  have e1 := hiloAccumulate_toNat hW hk hs1
  have e2 := hiloAccumulate_toNat hW hk hs2
  simp only [hi_toNat, lo_toNat, mul_toNat_of_lt hW, ha, hb, hal, hbl, ← hPdef] at e1 e2
  obtain ⟨e11, e12, e13⟩ := e1 hl0 (Nat.mod_lt _ hP)
  obtain ⟨e21, e22, e23⟩ := e2 (e11 ▸ Nat.mod_lt _ hP) (e12 ▸ Nat.mod_lt _ hP)
  simp only [e11, e12] at e21 e22 e23
  obtain ⟨hT, hid⟩ := accumulations_value (hWP ▸ a.isLt) (hWP ▸ b.isLt)
  set A := a.toNat
  set B := b.toNat
  set v1 := A / P * (B / P) % P + ((A % P * (B % P) / P + A / P * (B % P) % P) / P +
    A / P * (B % P) / P)
  set u2 := (A % P * (B % P) / P + A / P * (B % P) % P) % P + B / P * (A % P) % P
  set T := A / P * (B / P) / P + v1 / P + (v1 % P + (u2 / P + B / P * (A % P) / P)) / P
  -- neither top digit wraps
  have hPP : P ≤ P * P := Nat.le_mul_of_pos_left P hP
  have hT1 : A / P * (B / P) / P + v1 / P ≤ T := Nat.le_add_right _ _
  have e3 : s1.2.2.toNat = A / P * (B / P) / P + v1 / P := by
    rw [e13, hWP, Nat.mod_eq_of_lt (by omega)]
  have e4 : s2.2.2.toNat = T := by rw [e23, e3, hWP, Nat.mod_eq_of_lt (by omega)]
  rw [shiftLeft_or_toNat hW (e4 ▸ hT) (e22 ▸ Nat.mod_lt _ hP),
    shiftLeft_or_toNat hW (e21 ▸ Nat.mod_lt _ hP) (lo_toNat _ ▸ Nat.mod_lt _ hP), lo_toNat,
    mul_toNat_of_lt hW (lo_toNat a ▸ hal) (lo_toNat b ▸ hbl), lo_toNat, lo_toNat, e4, e21, e22,
    hWP, ← hid]
  ring

/-! ## The double-word product -/

/-- Two words widened to a `BN_ULLONG` and multiplied there do not wrap. -/
theorem toNat_setWidth_mul (a b : BitVec W) :
    (a.setWidth (2 * W) * b.setWidth (2 * W)).toNat = a.toNat * b.toNat := by
  have hw : 2 ^ W ≤ 2 ^ (2 * W) := Nat.pow_le_pow_right (by decide) (by omega)
  have hab : a.toNat * b.toNat < 2 ^ (2 * W) := by
    rw [Nat.two_mul, Nat.pow_add]; exact Nat.mul_lt_mul'' a.isLt b.isLt
  rw [BitVec.toNat_mul, BitVec.toNat_setWidth, BitVec.toNat_setWidth,
    Nat.mod_eq_of_lt (a.isLt.trans_le hw), Nat.mod_eq_of_lt (b.isLt.trans_le hw),
    Nat.mod_eq_of_lt hab]

theorem bnUmulHiloLlong_toNat (a b : BitVec W) :
    (bnUmulHiloLlong a b).1.toNat * 2 ^ W + (bnUmulHiloLlong a b).2.toNat = a.toNat * b.toNat := by
  obtain ⟨h1, h0⟩ := splitWords_toNat (a.setWidth (2 * W) * b.setWidth (2 * W))
  rw [toNat_setWidth_mul] at h1 h0
  rw [bnUmulHiloLlong, h1, h0, Nat.div_add_mod']

/-- The words of a double word are its quotient and remainder by `2^W`. -/
theorem hilo_toNat_eq {p : BitVec W × BitVec W} {n : ℕ} (e : p.1.toNat * 2 ^ W + p.2.toNat = n) :
    p.1.toNat = n / 2 ^ W ∧ p.2.toNat = n % 2 ^ W := by
  have hv : p.2.toNat + 2 ^ W * p.1.toNat = n := by rw [← e]; ring
  obtain ⟨h1, h2⟩ := (Nat.div_mod_unique (Nat.two_pow_pos W)).2 ⟨hv, p.2.isLt⟩
  exact ⟨h1.symm, h2.symm⟩

/-- Two double words of the same value are equal. -/
theorem hilo_eq_of_toNat {p q : BitVec W × BitVec W} {n : ℕ}
    (hp : p.1.toNat * 2 ^ W + p.2.toNat = n) (hq : q.1.toNat * 2 ^ W + q.2.toNat = n) : p = q := by
  obtain ⟨hp1, hp2⟩ := hilo_toNat_eq hp
  obtain ⟨hq1, hq2⟩ := hilo_toNat_eq hq
  exact Prod.ext (BitVec.eq_of_toNat_eq (hp1.trans hq1.symm))
    (BitVec.eq_of_toNat_eq (hp2.trans hq2.symm))

/-- **`bn_umul_hilo` is exact.** Each of its three definitions returns the double word of
`a * b`, so the three agree, and `bn_umul_hi` and `bn_umul_lo` are the quotient and the
remainder of `a * b` by `2^W`. `BN_BITS2` is 32 or 64, so a word splits into two half words. -/
theorem bnUmulHilo_exact (hW : W % 2 = 0) (a b : BitVec W) :
    (bnUmulHiloLlong a b).1.toNat * 2 ^ W + (bnUmulHiloLlong a b).2.toNat = a.toNat * b.toNat ∧
      (bnUmulHilo a b).1.toNat * 2 ^ W + (bnUmulHilo a b).2.toNat = a.toNat * b.toNat ∧
      (bnUmulHiloAcc a b).1.toNat * 2 ^ W + (bnUmulHiloAcc a b).2.toNat = a.toNat * b.toNat ∧
      bnUmulHiloLlong a b = bnUmulHilo a b ∧ bnUmulHiloAcc a b = bnUmulHilo a b ∧
      (bnUmulHi a b).toNat = a.toNat * b.toNat / 2 ^ W ∧
      (bnUmulLo a b).toNat = a.toNat * b.toNat % 2 ^ W :=
  have e := bnUmulHilo_toNat hW a b
  ⟨bnUmulHiloLlong_toNat a b, e, bnUmulHiloAcc_toNat hW a b,
    hilo_eq_of_toNat (bnUmulHiloLlong_toNat a b) e, hilo_eq_of_toNat (bnUmulHiloAcc_toNat hW a b) e,
    (hilo_toNat_eq e).1, BitVec.toNat_mul a b⟩

theorem bnUmulHilo_exact_max : 64 % 2 = 0 ∧
    bnUmulHiloAcc (BitVec.allOnes 64) (BitVec.allOnes 64) =
      bnUmulHilo (BitVec.allOnes 64) (BitVec.allOnes 64) :=
  ⟨by decide, (bnUmulHilo_exact (by decide) _ _).2.2.2.2.1⟩

/-- **`bn_umul_hilo` is commutative**, in each of its three definitions, although the
half-word ones add the cross products `ah * bl` and `bh * al` in a fixed order. -/
theorem bnUmulHilo_comm (hW : W % 2 = 0) (a b : BitVec W) :
    bnUmulHiloLlong a b = bnUmulHiloLlong b a ∧ bnUmulHilo a b = bnUmulHilo b a ∧
      bnUmulHiloAcc a b = bnUmulHiloAcc b a :=
  ⟨hilo_eq_of_toNat (bnUmulHiloLlong_toNat a b)
      ((bnUmulHiloLlong_toNat b a).trans (Nat.mul_comm _ _)),
    hilo_eq_of_toNat (bnUmulHilo_toNat hW a b) ((bnUmulHilo_toNat hW b a).trans (Nat.mul_comm _ _)),
    hilo_eq_of_toNat (bnUmulHiloAcc_toNat hW a b)
      ((bnUmulHiloAcc_toNat hW b a).trans (Nat.mul_comm _ _))⟩

theorem bnUmulHilo_comm_max_three : 64 % 2 = 0 ∧
    bnUmulHilo (BitVec.allOnes 64) 3 = bnUmulHilo 3 (BitVec.allOnes 64) :=
  ⟨by decide, (bnUmulHilo_comm (by decide) _ _).2.1⟩

/-! ## Multiply and accumulate -/

/-- A word added into the low word of a double word `h:l`, the carry folded into `h`: when the
sum fits a double word, `h + carry` does not wrap. -/
theorem fold_carry {P h l c k r n : ℕ} (e : h * P + l = n) (ek : k * P + r = l + c)
    (hn : n + c < P * P) : h + k < P ∧ (h + k) * P + r = n + c := by
  have hv : (h + k) * P + r = n + c := by rw [← e, add_assoc, ← ek]; ring
  exact ⟨Nat.lt_of_mul_lt_mul_right ((Nat.le_add_right _ r).trans_lt (hv ▸ hn)), hv⟩

/-- The product of two words plus two more words fits a double word. -/
theorem mul_add_add_lt {P a b c d : ℕ} (ha : a < P) (hb : b < P) (hc : c < P) (hd : d < P) :
    a * b + c + d < P * P := by
  obtain ⟨p, rfl⟩ : ∃ p, P = p + 1 := ⟨P - 1, by omega⟩
  have hab : a * b ≤ p * p := Nat.mul_le_mul (by omega) (by omega)
  have hP : (p + 1) * (p + 1) = p * p + 2 * p + 1 := by ring
  omega

theorem bnMulwAddw_toNat (hW : W % 2 = 0) (a b c : BitVec W) :
    (bnMulwAddw a b c).1.toNat * 2 ^ W + (bnMulwAddw a b c).2.toNat =
        a.toNat * b.toNat + c.toNat ∧
      (bnUmulHilo a b).1.toNat + (bnAddw (bnUmulHilo a b).2 c).1.toNat < 2 ^ W := by
  obtain ⟨hlt, hv⟩ := fold_carry (bnUmulHilo_toNat hW a b) (bnAddw_toNat _ c).1
    (Nat.lt_of_le_of_lt (Nat.le_add_right _ 0) (mul_add_add_lt a.isLt b.isLt c.isLt
      (Nat.two_pow_pos W)))
  simp only [bnMulwAddw, BitVec.toNat_add_of_lt hlt]
  exact ⟨hv, hlt⟩

theorem bnMulwAddwAddw_toNat (hW : W % 2 = 0) (a b c d : BitVec W) :
    (bnMulwAddwAddw a b c d).1.toNat * 2 ^ W + (bnMulwAddwAddw a b c d).2.toNat =
        a.toNat * b.toNat + c.toNat + d.toNat ∧
      (bnMulwAddw a b c).1.toNat + (bnAddw (bnMulwAddw a b c).2 d).1.toNat < 2 ^ W := by
  obtain ⟨hlt, hv⟩ := fold_carry (bnMulwAddw_toNat hW a b c).1 (bnAddw_toNat _ d).1
    (mul_add_add_lt a.isLt b.isLt c.isLt d.isLt)
  simp only [bnMulwAddwAddw, BitVec.toNat_add_of_lt hlt]
  exact ⟨hv, hlt⟩

/-- A top digit `q` over a double word `L`, taken modulo three words, keeps only `q % P`. -/
theorem mul_add_mod_of_lt {P q L : ℕ} (hL : L < P * P) :
    (q * (P * P) + L) % (P * (P * P)) = q % P * (P * P) + L := by
  have hq : q % P < P := Nat.mod_lt _ (Nat.pos_of_ne_zero (by rintro rfl; simp at hL))
  conv_lhs => rw [← Nat.mod_add_div q P]
  rw [show (q % P + P * (q / P)) * (P * P) + L = q % P * (P * P) + L + P * (P * P) * (q / P) by
    ring, Nat.add_mul_mod_self_left, Nat.mod_eq_of_lt]
  calc q % P * (P * P) + L < q % P * (P * P) + P * P := by omega
    _ = (q % P + 1) * (P * P) := by ring
    _ ≤ P * (P * P) := Nat.mul_le_mul_right _ hq

theorem bnMulwAddtw_toNat (hW : W % 2 = 0) (a b c2 c1 c0 : BitVec W) :
    (bnUmulHilo a b).1.toNat + (bnAddw c0 (bnUmulHilo a b).2).1.toNat < 2 ^ W ∧
      (bnMulwAddtw a b c2 c1 c0).1.toNat * 2 ^ (2 * W) +
          (bnMulwAddtw a b c2 c1 c0).2.1.toNat * 2 ^ W + (bnMulwAddtw a b c2 c1 c0).2.2.toNat =
        (a.toNat * b.toNat + c2.toNat * 2 ^ (2 * W) + c1.toNat * 2 ^ W + c0.toNat) %
          2 ^ (3 * W) := by
  obtain ⟨e0, -⟩ := bnAddw_toNat c0 (bnUmulHilo a b).2
  obtain ⟨hlt, hv⟩ := fold_carry (bnUmulHilo_toNat hW a b) (e0.trans (Nat.add_comm _ _))
    (Nat.lt_of_le_of_lt (Nat.le_add_right _ 0) (mul_add_add_lt a.isLt b.isLt c0.isLt
      (Nat.two_pow_pos W)))
  refine ⟨hlt, ?_⟩
  obtain ⟨e1, -⟩ := bnAddw_toNat c1 ((bnUmulHilo a b).1 + (bnAddw c0 (bnUmulHilo a b).2).1)
  rw [BitVec.toNat_add_of_lt hlt] at e1
  have hr0 := (bnAddw c0 (bnUmulHilo a b).2).2.isLt
  simp only [bnMulwAddtw]
  generalize bnAddw c1 ((bnUmulHilo a b).1 + (bnAddw c0 (bnUmulHilo a b).2).1) = s at e1 ⊢
  generalize (bnAddw c0 (bnUmulHilo a b).2).2.toNat = r0 at hv hr0 ⊢
  have h2 : 2 ^ (2 * W) = 2 ^ W * 2 ^ W := by rw [Nat.two_mul, Nat.pow_add]
  have h3 : 2 ^ (3 * W) = 2 ^ W * (2 ^ W * 2 ^ W) := by
    rw [show 3 * W = W + (W + W) by omega, Nat.pow_add, Nat.pow_add]
  have hv2 : (c2.toNat + s.1.toNat) * (2 ^ W * 2 ^ W) + (s.2.toNat * 2 ^ W + r0) =
      a.toNat * b.toNat + c2.toNat * (2 ^ W * 2 ^ W) + c1.toNat * 2 ^ W + c0.toNat := by
    linear_combination 2 ^ W * e1 + hv
  have hL : s.2.toNat * 2 ^ W + r0 < 2 ^ W * 2 ^ W := by
    calc s.2.toNat * 2 ^ W + r0 < s.2.toNat * 2 ^ W + 2 ^ W := by omega
      _ = (s.2.toNat + 1) * 2 ^ W := by ring
      _ ≤ 2 ^ W * 2 ^ W := Nat.mul_le_mul_right _ s.2.isLt
  rw [h2, h3, ← hv2, mul_add_mod_of_lt hL, BitVec.toNat_add, Nat.add_assoc]

/-- **The multiply-and-accumulate primitives are exact.** `bn_mulw_addw` and
`bn_mulw_addw_addw` return the double word of `a * b + c` and `a * b + c + d`, their last
`r1 += carry` never wrapping; `bn_mulw_addtw` never wraps `x1 += carry`, and returns the triple
word of `a * b + c2:c1:c0` whenever that sum fits three words. -/
theorem bnMulwAddw_bnMulwAddtw_exact (hW : W % 2 = 0) (a b c d c2 c1 c0 : BitVec W) :
    (bnMulwAddw a b c).1.toNat * 2 ^ W + (bnMulwAddw a b c).2.toNat =
        a.toNat * b.toNat + c.toNat ∧
      (bnMulwAddwAddw a b c d).1.toNat * 2 ^ W + (bnMulwAddwAddw a b c d).2.toNat =
        a.toNat * b.toNat + c.toNat + d.toNat ∧
      (bnMulwAddw a b c).1.toNat + (bnAddw (bnMulwAddw a b c).2 d).1.toNat < 2 ^ W ∧
      (bnUmulHilo a b).1.toNat + (bnAddw c0 (bnUmulHilo a b).2).1.toNat < 2 ^ W ∧
      (a.toNat * b.toNat + c2.toNat * 2 ^ (2 * W) + c1.toNat * 2 ^ W + c0.toNat < 2 ^ (3 * W) →
        (bnMulwAddtw a b c2 c1 c0).1.toNat * 2 ^ (2 * W) +
            (bnMulwAddtw a b c2 c1 c0).2.1.toNat * 2 ^ W + (bnMulwAddtw a b c2 c1 c0).2.2.toNat =
          a.toNat * b.toNat + c2.toNat * 2 ^ (2 * W) + c1.toNat * 2 ^ W + c0.toNat) :=
  ⟨(bnMulwAddw_toNat hW a b c).1, (bnMulwAddwAddw_toNat hW a b c d).1,
    (bnMulwAddwAddw_toNat hW a b c d).2, (bnMulwAddtw_toNat hW a b c2 c1 c0).1,
    fun h => (bnMulwAddtw_toNat hW a b c2 c1 c0).2.trans (Nat.mod_eq_of_lt h)⟩

theorem bnMulwAddw_bnMulwAddtw_exact_max :
    let m := BitVec.allOnes 64
    64 % 2 = 0 ∧
      m.toNat * m.toNat + (0 : BitVec 64).toNat * 2 ^ (2 * 64) + m.toNat * 2 ^ 64 + m.toNat <
        2 ^ (3 * 64) ∧
      (bnMulwAddtw m m 0 m m).1.toNat * 2 ^ (2 * 64) + (bnMulwAddtw m m 0 m m).2.1.toNat * 2 ^ 64 +
          (bnMulwAddtw m m 0 m m).2.2.toNat =
        m.toNat * m.toNat + (0 : BitVec 64).toNat * 2 ^ (2 * 64) + m.toNat * 2 ^ 64 + m.toNat := by
  intro m
  have hpre : m.toNat * m.toNat + (0 : BitVec 64).toNat * 2 ^ (2 * 64) + m.toNat * 2 ^ 64 +
      m.toNat < 2 ^ (3 * 64) := by decide
  exact ⟨by decide, hpre, (bnMulwAddw_bnMulwAddtw_exact (by decide) m m m m 0 m m).2.2.2.2 hpre⟩

/-- **`bn_mulw_addtw` wraps only in its top word.** Whatever the inputs, it returns the triple
word of `a * b + c2:c1:c0` modulo `2^(3W)`: past the caller's precondition, only `r2 = c2 + carry`
wraps. -/
theorem bnMulwAddtw_mod (hW : W % 2 = 0) (a b c2 c1 c0 : BitVec W) :
    (bnMulwAddtw a b c2 c1 c0).1.toNat * 2 ^ (2 * W) +
        (bnMulwAddtw a b c2 c1 c0).2.1.toNat * 2 ^ W + (bnMulwAddtw a b c2 c1 c0).2.2.toNat =
      (a.toNat * b.toNat + c2.toNat * 2 ^ (2 * W) + c1.toNat * 2 ^ W + c0.toNat) % 2 ^ (3 * W) :=
  (bnMulwAddtw_toNat hW a b c2 c1 c0).2

theorem bnMulwAddtw_mod_max :
    let m := BitVec.allOnes 64
    64 % 2 = 0 ∧
      (bnMulwAddtw m m m m m).1.toNat * 2 ^ (2 * 64) + (bnMulwAddtw m m m m m).2.1.toNat * 2 ^ 64 +
          (bnMulwAddtw m m m m m).2.2.toNat =
        (m.toNat * m.toNat + m.toNat * 2 ^ (2 * 64) + m.toNat * 2 ^ 64 + m.toNat) % 2 ^ (3 * 64) :=
  ⟨by decide, bnMulwAddtw_mod (by decide) _ _ _ _ _⟩

end BnInternal
