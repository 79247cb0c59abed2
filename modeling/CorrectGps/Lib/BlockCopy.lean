/-
Copies of a block inside one object, and when `memcpy` may make them.

A `BlockCopy` is given in bytes. `memcpy` asks for two ranges without a
common byte (`Legal`); `legal_iff` says it with their ends. Entries moved
up by one place overlap as soon as there are two of them
(`entries_up_legal`), a block moved to the front if it is longer than
what is in front of it (`front_legal`).
-/
import Mathlib.Data.Nat.Basic

namespace CorrectGps.Lib

/-- `len` bytes from `src` on go to `dst`. -/
structure BlockCopy where
  dst : Nat
  src : Nat
  len : Nat
  deriving DecidableEq, Repr

namespace BlockCopy

/-- No byte is in both ranges. -/
def Legal (m : BlockCopy) : Prop :=
  ∀ b, m.dst ≤ b → b < m.dst + m.len →
    ¬ (m.src ≤ b ∧ b < m.src + m.len)

/-- `n` entries of an array. -/
def entries (size dst src n : Nat) : BlockCopy where
  dst := size * dst
  src := size * src
  len := size * n

theorem legal_iff (m : BlockCopy) :
    m.Legal ↔ m.len = 0 ∨ m.dst + m.len ≤ m.src
      ∨ m.src + m.len ≤ m.dst := by
  constructor
  · intro h
    by_contra hover
    -- the greater one of the two starts is in both ranges
    have hdst := h (max m.dst m.src) (by omega) (by omega)
    omega
  · intro h b hlow hhigh
    omega

/-- One place up. -/
theorem entries_up_legal {size : Nat} (hsize : 0 < size) (i n : Nat) :
    (entries size (i + 1) i n).Legal ↔ n ≤ 1 := by
  rw [legal_iff]
  show size * n = 0 ∨ size * (i + 1) + size * n ≤ size * i
    ∨ size * i + size * n ≤ size * (i + 1) ↔ n ≤ 1
  rw [Nat.mul_add, Nat.mul_one]
  constructor
  · intro h
    have hmul : size * n ≤ size * 1 := by omega
    exact Nat.le_of_mul_le_mul_left hmul hsize
  · intro h
    have hmul : size * n ≤ size * 1 := Nat.mul_le_mul_left size h
    omega

/-- To the front. -/
theorem front_legal {i n : Nat} (hn : 0 < n) :
    (BlockCopy.mk 0 i n).Legal ↔ n ≤ i := by
  rw [legal_iff]
  show n = 0 ∨ 0 + n ≤ i ∨ i + n ≤ 0 ↔ n ≤ i
  omega

end BlockCopy

end CorrectGps.Lib
