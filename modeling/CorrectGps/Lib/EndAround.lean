/-
End-around sums: a number is cut at base `B` and what is above the cut is
added to what is below it, until nothing is above.

`Settles B n r` says what such a loop must leave: one digit, congruent to
`n` modulo `B - 1`, which is zero for zero only. That determines it
(`Settles.unique`): the digits `0` and `B - 1` are congruent, but `0`
stands for zero alone. One cut keeps it and makes the number smaller
(`Settles.of_carry`, `carry_lt`).
-/
import Mathlib.Data.Nat.ModEq

namespace CorrectGps.Lib

/-- What is above the cut, added to what is below. -/
def carry (B n : Nat) : Nat := n / B + n % B

/-- The digit that the number `n` settles at. -/
structure Settles (B n r : Nat) : Prop where
  digit : r < B
  cong : r ≡ n [MOD B - 1]
  pos_iff : 0 < r ↔ 0 < n

variable {B n r s : Nat}

/-- A number above the base gets smaller. -/
theorem carry_lt (hB : 1 < B) (h : B ≤ n) : carry B n < n := by
  have hdm := Nat.div_add_mod n B
  have hq : 0 < n / B := Nat.div_pos h (by omega)
  have hmul : 2 * (n / B) ≤ B * (n / B) := Nat.mul_le_mul_right _ hB
  unfold carry
  omega

theorem carry_modEq (hB : 0 < B) : carry B n ≡ n [MOD B - 1] := by
  obtain ⟨m, rfl⟩ := Nat.exists_eq_add_of_le' hB
  have hdm : m * (n / (m + 1)) + carry (m + 1) n = n := by
    have h := Nat.div_add_mod n (m + 1)
    rw [Nat.add_mul] at h
    unfold carry
    omega
  calc carry (m + 1) n
      ≡ m * (n / (m + 1)) + carry (m + 1) n [MOD m] :=
        Nat.right_modEq_add_iff.mpr (Nat.dvd_mul_right m _)
    _ = n := hdm

theorem carry_pos_iff : 0 < carry B n ↔ 0 < n := by
  unfold carry
  constructor
  · intro h
    apply Nat.pos_of_ne_zero
    intro hn
    rw [hn] at h
    simp at h
  · intro h
    have hdm := Nat.div_add_mod n B
    apply Nat.pos_of_ne_zero
    intro hz
    obtain ⟨hq, hr⟩ := Nat.add_eq_zero_iff.mp hz
    rw [hq, hr, Nat.mul_zero] at hdm
    omega

/-- A digit is settled. -/
theorem Settles.self (h : n < B) : Settles B n n :=
  ⟨h, rfl, Iff.rfl⟩

/-- One round leaves what the number settles at. -/
theorem Settles.of_carry (hB : 0 < B) (h : Settles B (carry B n) r) :
    Settles B n r :=
  ⟨h.digit, h.cong.trans (carry_modEq hB),
    h.pos_iff.trans carry_pos_iff⟩

/-- Two positive digits that are congruent are one. -/
theorem Settles.unique (hr : Settles B n r) (hs : Settles B n s) :
    r = s := by
  have hcong := hr.cong.trans hs.cong.symm
  have hr_lt := hr.digit
  have hs_lt := hs.digit
  by_cases hn : 0 < n
  · have hr_pos := hr.pos_iff.mpr hn
    have hs_pos := hs.pos_iff.mpr hn
    have hpred : r - 1 ≡ s - 1 [MOD B - 1] := by
      apply Nat.ModEq.add_right_cancel' 1
      rw [Nat.sub_add_cancel hr_pos, Nat.sub_add_cancel hs_pos]
      exact hcong
    have heq := hpred.eq_of_lt_of_lt (by omega) (by omega)
    omega
  · have hr_zero : ¬ 0 < r := fun h => hn (hr.pos_iff.mp h)
    have hs_zero : ¬ 0 < s := fun h => hn (hs.pos_iff.mp h)
    omega

/-- A number and what its digit lacks settle at the highest digit. -/
theorem Settles.complement (hB : 1 < B) (h : Settles B n r) :
    Settles B (n + (B - 1 - r)) (B - 1) := by
  have hr_lt := h.digit
  refine ⟨by omega, ?_, ?_⟩
  · calc B - 1 = r + (B - 1 - r) := by omega
      _ ≡ n + (B - 1 - r) [MOD B - 1] := h.cong.add_right _
  · have hpos := h.pos_iff
    omega

end CorrectGps.Lib
