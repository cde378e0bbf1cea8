import Mathlib.Data.BitVec

/-!
# Word primitives of `bn_internal.h`

A `BN_ULONG` is a word of `BN_BITS2 = W` bits, `BitVec W`; `BN_BITS4` is half of it, and a
`BN_ULLONG`, when the platform has one (`BN_LLONG`), is `BitVec (2 * W)`. A function with
output pointers returns the tuple of its outputs, in the order of the pointers. Where the
header has two definitions of a function, both are here: `bnAddwLlong` and
`bnUmulHiloLlong` under `BN_LLONG`, `bnUmulHiloAcc` the disabled `#else` branch. The composite
primitives call `bnAddw` and `bnUmulHilo`, the definitions compiled without `BN_LLONG`.
-/

namespace BnInternal

variable {W : ℕ}

/-- `BN_BITS4` -/
def BN_BITS4 (W : ℕ) : ℕ := W / 2

/-- `BN_MASK2`: all the bits of a word. -/
def BN_MASK2 (W : ℕ) : BitVec W := BitVec.allOnes W

/-- `BN_MASK2l`: the low half of a word. -/
def BN_MASK2l (W : ℕ) : BitVec W := BitVec.ofNat W (2 ^ BN_BITS4 W - 1)

/-! ## Constant-time tests -/

/-- `bn_ct_ne_zero(w)` -/
def bnCtNeZero (w : BitVec W) : ℤ := ((w ||| ~~~(w - 1)) >>> (W - 1)).toNat

/-- `bn_ct_ne_zero_mask(w)`: the `int` `0 - bn_ct_ne_zero(w)` returned as a `BN_ULONG`. -/
def bnCtNeZeroMask (w : BitVec W) : BitVec W := BitVec.ofInt W (0 - bnCtNeZero w)

/-- `bn_ct_eq_zero(w)` -/
def bnCtEqZero (w : BitVec W) : ℤ := 1 - bnCtNeZero w

/-- `bn_ct_eq_zero_mask(w)` -/
def bnCtEqZeroMask (w : BitVec W) : BitVec W := BitVec.ofInt W (0 - bnCtEqZero w)

/-! ## Addition and subtraction -/

/-- `bn_addw(a, b, &r1, &r0)` with `BN_LLONG` -/
def bnAddwLlong (a b : BitVec W) : BitVec W × BitVec W :=
  let r : BitVec (2 * W) := a.setWidth (2 * W) + b.setWidth (2 * W)
  ((r >>> W).setWidth W, (r &&& (BN_MASK2 W).setWidth (2 * W)).setWidth W)

/-- `bn_addw(a, b, &r1, &r0)` -/
def bnAddw (a b : BitVec W) : BitVec W × BitVec W :=
  let c1 := a ||| b
  let c2 := a &&& b
  let r0 := a + b
  let r1 := ((c1 &&& ~~~r0) ||| c2) >>> (W - 1) -- carry
  (r1, r0)

/-- `bn_addw_addw(a, b, c, &r1, &r0)` -/
def bnAddwAddw (a b c : BitVec W) : BitVec W × BitVec W :=
  let (r1, r0) := bnAddw a b
  let (carry, r0) := bnAddw r0 c
  (r1 + carry, r0)

/-- `bn_subw(a, b, &borrow, &r0)` -/
def bnSubw (a b : BitVec W) : BitVec W × BitVec W :=
  let r0 := a - b
  let borrow := ((r0 ||| (b &&& ~~~a)) &&& (b ||| ~~~a)) >>> (W - 1)
  (borrow, r0)

/-- `bn_subw_subw(a, b, c, &borrow, &r0)` -/
def bnSubwSubw (a b c : BitVec W) : BitVec W × BitVec W :=
  let (b1, r0) := bnSubw a b
  let (b2, r0) := bnSubw r0 c
  (b1 + b2, r0)

/-! ## Multiplication -/

/-- `bn_umul_hilo(a, b, &h, &l)` with `BN_LLONG` -/
def bnUmulHiloLlong (a b : BitVec W) : BitVec W × BitVec W :=
  let r : BitVec (2 * W) := a.setWidth (2 * W) * b.setWidth (2 * W)
  ((r >>> W).setWidth W, (r &&& (BN_MASK2 W).setWidth (2 * W)).setWidth W)

/-- One of the two partitions of `bn_umul_hilo`: `x << BN_BITS4` added across `h:l`, the
carry out of `l` recovered from the top bits. -/
def hiloPartition (x h l : BitVec W) : BitVec W × BitVec W :=
  let h := h + (x >>> BN_BITS4 W)
  let x := x <<< BN_BITS4 W
  let c1 := l ||| x
  let c2 := l &&& x
  let l := l + x
  let h := h + (((c1 &&& ~~~l) ||| c2) >>> (W - 1)) -- carry
  (h, l)

/-- `bn_umul_hilo(a, b, &h, &l)`, the half-word decomposition. -/
def bnUmulHilo (a b : BitVec W) : BitVec W × BitVec W :=
  let ah := a >>> BN_BITS4 W
  let al := a &&& BN_MASK2l W
  let bh := b >>> BN_BITS4 W
  let bl := b &&& BN_MASK2l W
  let h := ah * bh
  let l := al * bl
  -- (ah * bl) << BN_BITS4, partition the result across h:l with carry.
  let (h, l) := hiloPartition (ah * bl) h l
  -- (bh * al) << BN_BITS4, partition the result across h:l with carry.
  hiloPartition (bh * al) h l

/-- One of the two partitions of the accumulator-based `bn_umul_hilo`: `x << BN_BITS4` added
to the half-word accumulators `acc1`, `acc2`, `acc3`. -/
def hiloAccumulate (x acc1 acc2 acc3 : BitVec W) : BitVec W × BitVec W × BitVec W :=
  let acc1 := acc1 + (x &&& BN_MASK2l W)
  let acc2 := acc2 + ((acc1 >>> BN_BITS4 W) + (x >>> BN_BITS4 W))
  let acc1 := acc1 &&& BN_MASK2l W
  let acc3 := acc3 + (acc2 >>> BN_BITS4 W)
  let acc2 := acc2 &&& BN_MASK2l W
  (acc1, acc2, acc3)

/-- `bn_umul_hilo(a, b, &h, &l)`, the accumulator-based version. -/
def bnUmulHiloAcc (a b : BitVec W) : BitVec W × BitVec W :=
  let ah := a >>> BN_BITS4 W
  let bh := b >>> BN_BITS4 W
  let al := a &&& BN_MASK2l W
  let bl := b &&& BN_MASK2l W
  let h := ah * bh
  let l := al * bl
  let acc0 := l &&& BN_MASK2l W
  let acc1 := l >>> BN_BITS4 W
  let acc2 := h &&& BN_MASK2l W
  let acc3 := h >>> BN_BITS4 W
  -- (ah * bl) << BN_BITS4, partition the result across h:l.
  let (acc1, acc2, acc3) := hiloAccumulate (ah * bl) acc1 acc2 acc3
  -- (bh * al) << BN_BITS4, partition the result across h:l.
  let (acc1, acc2, acc3) := hiloAccumulate (bh * al) acc1 acc2 acc3
  ((acc3 <<< BN_BITS4 W) ||| acc2, (acc1 <<< BN_BITS4 W) ||| acc0)

/-- `bn_umul_lo(a, b)` -/
def bnUmulLo (a b : BitVec W) : BitVec W := a * b

/-- `bn_umul_hi(a, b)` -/
def bnUmulHi (a b : BitVec W) : BitVec W := (bnUmulHilo a b).1

/-- `bn_mulw_addw(a, b, c, &r1, &r0)` -/
def bnMulwAddw (a b c : BitVec W) : BitVec W × BitVec W :=
  let (r1, r0) := bnUmulHilo a b
  let (carry, r0) := bnAddw r0 c
  (r1 + carry, r0)

/-- `bn_mulw_addw_addw(a, b, c, d, &r1, &r0)` -/
def bnMulwAddwAddw (a b c d : BitVec W) : BitVec W × BitVec W :=
  let (r1, r0) := bnMulwAddw a b c
  let (carry, r0) := bnAddw r0 d
  (r1 + carry, r0)

/-- `bn_mulw_addtw(a, b, c2, c1, c0, &r2, &r1, &r0)` -/
def bnMulwAddtw (a b c2 c1 c0 : BitVec W) : BitVec W × BitVec W × BitVec W :=
  let (x1, x0) := bnUmulHilo a b
  let (carry, r0) := bnAddw c0 x0
  let x1 := x1 + carry
  let (carry, r1) := bnAddw c1 x1
  let r2 := c2 + carry
  (r2, r1, r0)

example : bnUmulHilo (W := 8) 0xff 0xff = (0xfe, 0x01) := by decide
example : bnAddw (W := 8) 0xff 0x01 = (1, 0) := by decide

end BnInternal
