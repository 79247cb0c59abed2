/-
`checksum` verifies itself.

The fold is an end-around sum in base `2 ^ 16` (`foldSum_settles`): it
ends, and what it leaves is settled by the sum alone. A checksum is what
that digit lacks, so that with it the sum settles at the highest digit,
whose complement is 0 (`checksum_verifies`).
-/
import CorrectGps.Encoding
import CorrectGps.Lib.EndAround
import Mathlib.Data.List.Perm.Basic

namespace CorrectGps

open Lib

-- ============================================================= the loop

theorem above_toNat (n : UInt64) : (n >>> 16).toNat = n.toNat / 65536 := by
  rw [UInt64.toNat_shiftRight, Nat.shiftRight_eq_div_pow]
  rfl

/-- A round of the loop is a carry. -/
theorem foldSum_round (n : UInt64) :
    ((n >>> 16) + (n &&& 0xffff)).toNat = carry 65536 n.toNat := by
  have hlt := n.toNat_lt
  have hlow : (n &&& 0xffff).toNat = n.toNat % 65536 := by
    rw [UInt64.toNat_and]
    exact Nat.and_two_pow_sub_one_eq_mod n.toNat 16
  rw [UInt64.toNat_add, above_toNat, hlow]
  unfold carry
  omega

/-- The loop ends. -/
theorem foldSum_settles {fuel : Nat} {n : UInt64} (hfuel : n.toNat < fuel) :
    ∃ r, foldSum fuel n = some r ∧ Settles 65536 n.toNat r.toNat := by
  induction fuel generalizing n with
  | zero => omega
  | succ fuel ih =>
      have hhigh := above_toNat n
      rw [foldSum]
      split
      · next hz =>
          rw [hz] at hhigh
          exact ⟨n, rfl, Settles.self (by
            rw [UInt64.toNat_zero] at hhigh
            omega)⟩
      · next hnz =>
          have hbase : 65536 ≤ n.toNat := by
            apply Nat.le_of_not_lt
            intro hlt
            apply hnz
            apply UInt64.toNat_inj.mp
            rw [hhigh, UInt64.toNat_zero]
            omega
          have hround := foldSum_round n
          have hless := carry_lt (by decide) hbase
          obtain ⟨r, hrun, hr⟩ := ih (n := (n >>> 16) + (n &&& 0xffff))
            (by omega)
          rw [hround] at hr
          exact ⟨r, hrun, hr.of_carry (by decide)⟩

-- ============================================================== the sum

/-- As long as they are too few to reach the width of the sum. -/
theorem sum_toNat (words : List UInt16) {n : UInt64}
    (h : n.toNat + words.length * 65535 < 2 ^ 64) :
    (words.foldl (fun cksum w => cksum + w.toUInt64) n).toNat
      = n.toNat + (words.map UInt16.toNat).sum := by
  induction words generalizing n with
  | nil => simp
  | cons w words ih =>
      have hw := w.toNat_lt
      rw [List.length_cons] at h
      have hadd : (n + w.toUInt64).toNat = n.toNat + w.toNat := by
        rw [UInt64.toNat_add, UInt16.toNat_toUInt64]
        omega
      rw [List.foldl_cons, ih (by omega), hadd, List.map_cons,
        List.sum_cons, Nat.add_assoc]

/-- What the checksum is: the complement of the digit of the sum. -/
theorem checksum_eq (words : List UInt16) (h : words.length < 2 ^ 48) :
    ∃ c, checksum words none = some c
      ∧ Settles 65536 (words.map UInt16.toNat).sum (65535 - c.toNat) := by
  have hsum := sum_toNat words (n := 0) (by
    rw [UInt64.toNat_zero]
    omega)
  rw [UInt64.toNat_zero, Nat.zero_add] at hsum
  obtain ⟨r, hrun, hr⟩ := foldSum_settles (Nat.lt_succ_self (UInt64.toNat
    (words.foldl (fun cksum w => cksum + w.toUInt64) 0)))
  have hdigit := hr.digit
  have hcompl : ((~~~r).toUInt16).toNat = 65535 - r.toNat := by
    rw [UInt64.toNat_toUInt16, UInt64.toNat_not]
    show (2 ^ 64 - 1 - r.toNat) % 65536 = _
    omega
  refine ⟨(~~~r).toUInt16, ?_, ?_⟩
  · exact congrArg (Option.map fun cksum => (~~~cksum).toUInt16) hrun
  · rw [hcompl, show 65535 - (65535 - r.toNat) = r.toNat by omega, ← hsum]
    exact hr

/-- The order of the words does not matter. -/
theorem checksum_perm {words words' : List UInt16}
    (h : words.Perm words') : checksum words' none = checksum words none := by
  have hfold : words'.foldl (fun cksum w => cksum + w.toUInt64) (0 : UInt64)
      = words.foldl (fun cksum w => cksum + w.toUInt64) 0 := by
    apply h.symm.foldl_eq'
    intro w _ v _ n
    rw [UInt64.add_assoc, UInt64.add_assoc, UInt64.add_comm w.toUInt64]
  unfold checksum
  rw [hfold]

-- ============================================================== the check

/-- A buffer of words has a checksum, whatever their order; and with it
as one more word its checksum is 0. The size is an `int`, so that there
are far fewer words than the sum can take. -/
theorem checksum_verifies (words : List UInt16)
    (hsize : words.length < 2 ^ 31) :
    ∃ c, checksum words none = some c
      ∧ (∀ words', words.Perm words' → checksum words' none = some c)
      ∧ checksum (words ++ [c]) none = some 0 := by
  obtain ⟨c, hc, hsettles⟩ := checksum_eq words (by omega)
  obtain ⟨d, hd, hzero⟩ := checksum_eq (words ++ [c]) (by
    rw [List.length_append, List.length_singleton]
    omega)
  have hc_lt := c.toNat_lt
  have hd_lt := d.toNat_lt
  have hall := hsettles.complement (by decide)
  rw [show 65536 - 1 - (65535 - c.toNat) = c.toNat by omega] at hall
  rw [List.map_append, List.sum_append, List.map_singleton,
    List.sum_singleton] at hzero
  have hlast := hzero.unique hall
  have hd_zero : d = 0 := by
    apply UInt16.toNat_inj.mp
    rw [UInt16.toNat_zero]
    omega
  refine ⟨c, hc, fun words' hperm => ?_, ?_⟩
  · rw [checksum_perm hperm, hc]
  · rw [hd, hd_zero]

/-- A buffer whose sum is carried twice. -/
theorem checksum_verifies_ones :
    ∃ c, checksum [0xffff, 0xffff, 1] none = some c
      ∧ (∀ words', [0xffff, 0xffff, 1].Perm words' →
        checksum words' none = some c)
      ∧ checksum ([0xffff, 0xffff, 1] ++ [c]) none = some 0 :=
  checksum_verifies [0xffff, 0xffff, 1] (by decide)

end CorrectGps
