/-
Rows whose key is there already.

# One call

The test for an equal key stands inside the case in which a place has to
be made, and looks at the slot the backward scan has stopped at. So a
row with a used key is dropped where the last used slot whose key is not
above it has this very key and is not the last one in use; on top of the
table the same row is stored again, unless there is no slot left
(`ignores_iff`).

# A sequence

Neither case depends on how the table was built, so a sequence ignores
its repeated rows exactly if each of them meets this
(`duplicates_iff`).
-/
import CorrectGps.Proofs.Capacity

namespace CorrectGps.CXArray

open Lib

variable {a : CXArray} {t : Coffsetdata}

/-- A used slot has the key. -/
def Held (a : CXArray) (t : Coffsetdata) : Prop :=
  ∃ i < a.index, (a.slot i).x = t.x

/-- The call changes neither `index` nor a slot. -/
def Ignores (a : CXArray) (t : Coffsetdata) : Prop :=
  a.append t = some a

/-- A used slot other than the last one has the key and those behind it
have greater ones, or the array is full and the last slot's key is not
greater. -/
def Passes (a : CXArray) (t : Coffsetdata) : Prop :=
  a.index ≤ ARRAY_COUNT ∧ (∃ i, i + 1 < a.index ∧ (a.slot i).x = t.x
      ∧ ∀ z, i < z → z < a.index → t.x < (a.slot z).x)
    ∨ a.index = ARRAY_COUNT ∧ (a.slot (ARRAY_COUNT - 1)).x ≤ t.x

-- =============================================================== one call

/-- With a used key the scan ends where the key is not greater. -/
theorem Held.above_stop (h : a.Held t) : a.above t (a.stop t) = false := by
  obtain ⟨i, hi, hkey⟩ := h
  by_cases hzero : a.stop t = 0
  · -- at the bottom: only there can the used key be
    rw [hzero, above_eq_false_iff]
    rcases Nat.eq_zero_or_pos i with h0 | hpos
    · rw [← h0, hkey]
      exact UInt32.lt_irrefl _
    · have habove : a.above t i = true := by
        apply scanDown_hit (x := a.index - 1)
        · show a.stop t < i
          omega
        · omega
      have hlt := of_decide_eq_true habove
      rw [hkey] at hlt
      exact absurd hlt (UInt32.lt_irrefl _)
  · exact scanDown_miss hzero

/-- Behind the place where it ends the keys are greater. -/
theorem stop_lt {z : Nat} (hz : a.stop t < z) (hzx : z < a.index) :
    t.x < (a.slot z).x :=
  of_decide_eq_true (scanDown_hit hz (by omega))

/-- It ends at a given place. -/
theorem stop_eq {i : Nat} (hi : i < a.index) (hat : a.above t i = false)
    (hz : ∀ z, i < z → z < a.index → t.x < (a.slot z).x) :
    a.stop t = i := by
  apply scanDown_eq
  · omega
  · intro z hlt hle
    exact decide_eq_true (hz z hlt (by omega))
  · exact Or.inr hat

/-- A stored row is counted. -/
theorem storeAfter_ne (a : CXArray) {i : Nat} (hi : i < ARRAY_COUNT - 1)
    (t : Coffsetdata) : (a.storeAfter i t).index = a.index + 1 := by
  unfold storeAfter
  rw [if_pos hi]

/-- What a call with a used key does, by where the scan ends. -/
theorem Held.append (h : a.Held t) (hle : a.index ≤ ARRAY_COUNT) :
    a.append t = if a.stop t ≠ a.index - 1 then
        if (a.slot (a.stop t)).x = t.x then some a
        else (a.move (a.stop t + 2) (a.stop t + 1)
          (a.index - a.stop t - 1)).map fun b => b.storeAfter (a.stop t) t
      else some (a.storeAfter (a.stop t) t) := by
  have hmiss := above_eq_false_iff.mp h.above_stop
  obtain ⟨i, hi, -⟩ := h
  rw [append_place (by omega) hle]
  unfold placeAt
  rw [if_neg fun hc => hmiss hc.2]

/-- A row a place was made for is counted. -/
theorem moved_index {b : CXArray}
    (h : ((a.move (a.stop t + 2) (a.stop t + 1)
      (a.index - a.stop t - 1)).map fun b => b.storeAfter (a.stop t) t)
        = some b) : b.index = a.index + 1 := by
  obtain ⟨m, hm, rfl⟩ := Option.map_eq_some_iff.mp h
  have hin : a.stop t + 2 + (a.index - a.stop t - 1) ≤ ARRAY_COUNT := by
    by_contra hout
    unfold move at hm
    rw [if_neg fun hc => hout hc.1] at hm
    cases hm
  obtain ⟨m', hm', hindex⟩ := a.move_some (a.stop t + 2) (a.stop t + 1)
    (a.index - a.stop t - 1) hin (by omega)
  rw [hm] at hm'
  cases hm'
  rw [storeAfter_ne m (by omega), hindex]

/-- A row with a used key is ignored exactly in these two places. -/
theorem ignores_iff (h : a.Held t) : a.Ignores t ↔ a.Passes t := by
  have hcount : ARRAY_COUNT = 6600 := rfl
  have hmiss := h.above_stop
  have hstop : a.stop t ≤ a.index - 1 := scanDown_le _
  obtain ⟨j, hj, -⟩ := id h
  unfold Ignores
  by_cases hle : a.index ≤ ARRAY_COUNT
  case neg =>
    -- one row too many: the scan would start outside the array
    have hnone : a.append t = none := by
      unfold CXArray.append
      rw [if_neg (by omega), if_neg (by omega)]
    rw [hnone]
    refine iff_of_false (by simp) ?_
    intro hfits
    rcases hfits with ⟨hin, -⟩ | ⟨hfull, -⟩
    · omega
    · omega
  rw [h.append hle]
  constructor
  · intro happ
    split at happ
    · split at happ
      · next hne hkey =>
        refine Or.inl ⟨hle, a.stop t, by omega, hkey, ?_⟩
        exact fun z hz hzx => stop_lt hz hzx
      · -- a place was made
        have hmore := moved_index happ
        omega
    · next htop =>
      have htop' : a.stop t = a.index - 1 := by omega
      by_cases hfull : a.index = ARRAY_COUNT
      · refine Or.inr ⟨hfull, ?_⟩
        rw [← hfull, ← htop']
        exact UInt32.not_lt.mp (above_eq_false_iff.mp hmiss)
      · have hmore := storeAfter_ne a (i := a.stop t) (by omega) t
        rw [Option.some.inj happ] at hmore
        omega
  · intro hpasses
    rcases hpasses with ⟨-, i, hi, hkey, hz⟩ | ⟨hfull, hlast⟩
    · have hat : a.above t i = false := by
        rw [above_eq_false_iff, hkey]
        exact UInt32.lt_irrefl _
      have hi' : a.stop t = i := stop_eq (by omega) hat hz
      rw [hi', if_pos (by omega), if_pos hkey]
    · have hat : a.above t (ARRAY_COUNT - 1) = false :=
        above_eq_false_iff.mpr (UInt32.not_lt.mpr hlast)
      have htop : a.stop t = ARRAY_COUNT - 1 :=
        stop_eq (by omega) hat fun z hz hzx => by omega
      rw [htop, if_neg (by omega)]
      unfold storeAfter
      rw [if_neg (by omega)]

-- ============================================================= a sequence

/-- A row with a used key is ignored. -/
def DuplicateIgnored (a : CXArray) (t : Coffsetdata) : Prop :=
  a.Held t → a.Ignores t

/-- A row with a used key is in one of the two places. -/
def DuplicatePasses (a : CXArray) (t : Coffsetdata) : Prop :=
  a.Held t → a.Passes t

/-- In every state a sequence of calls leads to, a row with a used key
is ignored exactly if it is in one of the two places; so a sequence
ignores all its repeated rows exactly if all of them are. -/
theorem duplicates_iff (ts : List Coffsetdata) :
    (∀ a, run append new ts = some a → ∀ t, a.Held t →
      (a.Ignores t ↔ a.Passes t))
    ∧ (Meets append DuplicateIgnored new ts
      ↔ Meets append DuplicatePasses new ts) := by
  refine ⟨fun a _ t h => ignores_iff h, ?_⟩
  apply meets_iff (I := fun _ => True)
  · intro a t _
    exact forall_congr' fun h => ignores_iff h
  · exact fun _ _ _ => trivial
  · trivial

/-- The same row twice: it is stored twice. -/
theorem not_duplicates :
    ¬ ∀ (ts : List Coffsetdata) (a : CXArray), run append new ts = some a →
      ∀ t, a.Held t → a.Ignores t := by
  intro hall
  obtain ⟨a, ha, hholds⟩ := append_empty holds_new ⟨5, 1, 2⟩
  have hrun : run append new [⟨5, 1, 2⟩] = some a := by
    rw [run, ha]
    rfl
  have hindex : a.index = 1 := hholds.index
  have hslot : a.slot 0 = ⟨5, 1, 2⟩ := by
    rw [hholds.slot]
    rfl
  have hheld : a.Held ⟨5, 3, 4⟩ := ⟨0, by omega, by rw [hslot]⟩
  have hcount : ARRAY_COUNT = 6600 := rfl
  rcases (ignores_iff hheld).mp (hall _ a hrun _ hheld) with
    ⟨-, i, hi, -⟩ | ⟨hfull, -⟩
  · omega
  · omega

end CorrectGps.CXArray
