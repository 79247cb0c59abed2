/-
Bits of words: masks, shifts and changes of width.

A mask of ones is a remainder (`toNat_and_mask`). The low bits of a word
do not depend on how it was widened, nor on what a shift has brought in
from above (`setWidth_signExtend`, `setWidth_sshiftRight`).
-/
import Mathlib.Data.BitVec

namespace CorrectGps.Lib

variable {v w k : Nat}

/-- The lowest `k` bits. -/
theorem toNat_and_mask (hk : k ≤ w) (x : BitVec w) :
    (x &&& BitVec.ofNat w (2 ^ k - 1)).toNat = x.toNat % 2 ^ k := by
  have hpow : 2 ^ k ≤ 2 ^ w := Nat.pow_le_pow_right (by omega) hk
  have hpos : 0 < 2 ^ k := Nat.two_pow_pos k
  rw [BitVec.toNat_and, BitVec.toNat_ofNat, Nat.mod_eq_of_lt (by omega),
    Nat.and_two_pow_sub_one_eq_mod]

/-- A mask that keeps the bits that are kept anyway. -/
theorem setWidth_and_mask (hv : v ≤ w) (x : BitVec w) :
    (x &&& BitVec.ofNat w (2 ^ v - 1)).setWidth v = x.setWidth v := by
  apply BitVec.eq_of_toNat_eq
  rw [BitVec.toNat_setWidth, BitVec.toNat_setWidth, toNat_and_mask hv,
    Nat.mod_mod]

theorem setWidth_signExtend (hvw : v ≤ w) {u : Nat} (huw : w ≤ u)
    (x : BitVec w) : (x.signExtend u).setWidth v = x.setWidth v := by
  apply BitVec.eq_of_getLsbD_eq
  intro i hi
  rw [BitVec.getLsbD_setWidth, BitVec.getLsbD_setWidth,
    BitVec.getLsbD_signExtend, if_pos (by omega)]
  simp only [show i < u by omega, decide_true, Bool.true_and]

/-- The bits that a signed shift fills in are above. -/
theorem setWidth_sshiftRight (h : k + v ≤ w) (x : BitVec w) :
    (x.sshiftRight k).setWidth v = (x >>> k).setWidth v := by
  apply BitVec.eq_of_getLsbD_eq
  intro i hi
  rw [BitVec.getLsbD_setWidth, BitVec.getLsbD_setWidth,
    BitVec.getLsbD_sshiftRight, BitVec.getLsbD_ushiftRight,
    if_pos (by omega)]
  have hin : ¬ w ≤ i := by omega
  simp [hin]

/-- A piece of a word as a number. -/
theorem toNat_setWidth_ushiftRight (x : BitVec w) :
    ((x >>> k).setWidth v).toNat = x.toNat / 2 ^ k % 2 ^ v := by
  rw [BitVec.toNat_setWidth, BitVec.toNat_ushiftRight,
    Nat.shiftRight_eq_div_pow]

/-- Byte `i` of a word, the lowest one being byte 0. -/
def byteAt (n : BitVec w) (i : Nat) : BitVec 8 :=
  (n >>> (8 * i)).setWidth 8

theorem byteAt_toNat (n : BitVec w) (i : Nat) :
    (byteAt n i).toNat = n.toNat / 2 ^ (8 * i) % 2 ^ 8 :=
  toNat_setWidth_ushiftRight n

end CorrectGps.Lib
