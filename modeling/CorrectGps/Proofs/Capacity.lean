/-
What `append` does at the end of the array.

# The full array

Below capacity every call keeps to the array (`append_room`). In a full
one nothing stops the first two of the three write paths: a row below
every key is put in front and counted (`index` becomes one more than
there are slots, and the next call starts by reading behind the array),
and a row in the middle moves the block above it over the end before the
position is tested. Only a row on top, or one with the key the scan stops
at, leaves the table as it is (`append_full`).

# A sequence

So a sequence of calls respects the capacity exactly if no call on a
full array is of the first two kinds (`respects_iff`); the state before
a call is all one has to look at.
-/
import CorrectGps.Lib.Trans
import CorrectGps.Proofs.Append

namespace CorrectGps.CXArray

open Lib

variable {a b : CXArray} {t : Coffsetdata} {i : Nat}

/-- One call keeps to the array: it touches no slot outside, does not
count more than there are, and leaves a full array alone if the key is
new. -/
def RespectsCapacity (a : CXArray) (t : Coffsetdata) : Prop :=
  a.index ≤ ARRAY_COUNT ∧ ∃ b, a.append t = some b
    ∧ b.index ≤ ARRAY_COUNT
    ∧ (a.index = ARRAY_COUNT → (∀ i < ARRAY_COUNT, (a.slot i).x ≠ t.x) →
      b = a)

/-- The array is not full, or the key is not below the last slot's, or
the last slot whose key is not above it has this very key. -/
def Fits (a : CXArray) (t : Coffsetdata) : Prop :=
  a.index = ARRAY_COUNT →
    (a.slot (ARRAY_COUNT - 1)).x ≤ t.x
      ∨ ∃ i < ARRAY_COUNT, (a.slot i).x = t.x
        ∧ ∀ z, i < z → z < ARRAY_COUNT → t.x < (a.slot z).x

/-- The test of the backward scan. -/
def above (a : CXArray) (t : Coffsetdata) (i : Nat) : Bool :=
  decide (t.x < (a.slot i).x)

/-- Where the scan stops. -/
def stop (a : CXArray) (t : Coffsetdata) : Nat :=
  scanDown (a.above t) (a.index - 1)

theorem above_eq_false_iff :
    a.above t i = false ↔ ¬ t.x < (a.slot i).x := by
  unfold above
  rw [decide_eq_false_iff_not]

-- =============================================================== one call

theorem append_place (hpos : a.index ≠ 0) (hle : a.index ≤ ARRAY_COUNT)
    (t : Coffsetdata) : a.append t = a.placeAt (a.stop t) t := by
  unfold append
  rw [if_neg hpos, if_pos (by omega)]
  rfl

theorem storeAfter_index (a : CXArray) (i : Nat) (t : Coffsetdata) :
    (a.storeAfter i t).index ≤ a.index + 1 := by
  unfold storeAfter
  split
  · exact Nat.le_refl _
  · exact Nat.le_succ _

/-- A move is all inside the array or none. -/
theorem move_some (a : CXArray) (dst src count : Nat)
    (hdst : dst + count ≤ ARRAY_COUNT)
    (hsrc : src + count ≤ ARRAY_COUNT) :
    ∃ b, a.move dst src count = some b ∧ b.index = a.index :=
  ⟨_, if_pos ⟨hdst, hsrc⟩, rfl⟩

/-- With a slot left, no call leaves the array. -/
theorem append_room (hroom : a.index < ARRAY_COUNT) (t : Coffsetdata) :
    ∃ b, a.append t = some b ∧ b.index ≤ a.index + 1 := by
  by_cases hzero : a.index = 0
  · refine ⟨{ a.store 0 t with index := 1 }, ?_, ?_⟩
    · unfold append
      rw [if_pos hzero]
    · rw [hzero]
  · have hstop : a.stop t ≤ a.index - 1 := scanDown_le _
    rw [append_place hzero (Nat.le_of_lt hroom)]
    unfold placeAt
    split
    · -- the head
      next hhead =>
      obtain ⟨b, hb, hindex⟩ := a.move_some (a.stop t + 1)
        (a.stop t) (a.index - a.stop t - 1) (by omega) (by omega)
      rw [hb]
      refine ⟨_, rfl, ?_⟩
      show b.index + 1 ≤ _
      rw [hindex]
    · split
      · split
        · exact ⟨a, rfl, Nat.le_succ _⟩
        · -- the middle
          obtain ⟨b, hb, hindex⟩ := a.move_some
            (a.stop t + 2) (a.stop t + 1) (a.index - a.stop t - 1)
            (by omega) (by omega)
          rw [hb]
          refine ⟨_, rfl, ?_⟩
          have hle := storeAfter_index b (a.stop t) t
          rw [hindex] at hle
          exact hle
      · exact ⟨_, rfl, storeAfter_index a (a.stop t) t⟩

/-- In a full array the two rows that fit are the ones the scan stops at
in one of two ways. -/
theorem fits_iff_stop (hfull : a.index = ARRAY_COUNT) :
    a.Fits t ↔ a.above t (a.stop t) = false
        ∧ a.stop t = ARRAY_COUNT - 1
      ∨ (a.slot (a.stop t)).x = t.x := by
  have hle : a.stop t ≤ ARRAY_COUNT - 1 := by
    rw [← hfull]
    exact scanDown_le _
  unfold Fits
  constructor
  · intro h
    rcases h hfull with hlast | ⟨i, hi, hkey, hz⟩
    · have hmiss : a.above t (ARRAY_COUNT - 1) = false :=
        above_eq_false_iff.mpr (UInt32.not_lt.mpr hlast)
      have hstop : a.stop t = ARRAY_COUNT - 1 := by
        unfold stop
        rw [hfull]
        exact scanDown_eq (Nat.le_refl _) (fun z hz hzx => by omega)
          (Or.inr hmiss)
      rw [hstop]
      exact Or.inl ⟨hmiss, rfl⟩
    · have hstop : a.stop t = i := by
        unfold stop
        rw [hfull]
        refine scanDown_eq (by omega) (fun z hlt hzx => ?_) (Or.inr ?_)
        · exact decide_eq_true (hz z hlt (by omega))
        · rw [above_eq_false_iff, hkey]
          exact UInt32.lt_irrefl _
      rw [hstop]
      exact Or.inr hkey
  · rintro (⟨hmiss, hstop⟩ | hkey) -
    · left
      rw [hstop, above_eq_false_iff] at hmiss
      exact UInt32.not_lt.mp hmiss
    · have hcount : ARRAY_COUNT = 6600 := rfl
      refine Or.inr ⟨a.stop t, by omega, hkey, fun z hz hzx => ?_⟩
      exact of_decide_eq_true (scanDown_hit hz (by omega))

/-- On a full array a row that fits changes nothing. -/
theorem append_full_fits (hfull : a.index = ARRAY_COUNT)
    (hfits : a.Fits t) : a.append t = some a := by
  have hcount : ARRAY_COUNT = 6600 := rfl
  rw [append_place (by omega) (by omega)]
  unfold placeAt
  rcases (fits_iff_stop hfull).mp hfits with ⟨hmiss, hstop⟩ | hkey
  · -- on top: there is no slot behind the last one
    rw [if_neg (by omega), if_neg (by omega)]
    unfold storeAfter
    rw [if_neg (by omega)]
  · have hnot : ¬ t.x < (a.slot (a.stop t)).x := by
      rw [hkey]
      exact UInt32.lt_irrefl _
    rw [if_neg fun hc => hnot hc.2]
    split
    · rfl
    · unfold storeAfter
      rw [if_neg (by omega)]

/-- One that does not is counted without a slot, or moves a block over
the end. -/
theorem append_full (hfull : a.index = ARRAY_COUNT) (hfits : ¬ a.Fits t)
    (hb : a.append t = some b) : b.index = ARRAY_COUNT + 1 := by
  have hcount : ARRAY_COUNT = 6600 := rfl
  have hle : a.stop t ≤ ARRAY_COUNT - 1 := by
    rw [← hfull]
    exact scanDown_le _
  rw [fits_iff_stop hfull, not_or, not_and] at hfits
  obtain ⟨htop, hkey⟩ := hfits
  rw [append_place (by omega) (by omega)] at hb
  unfold placeAt at hb
  split at hb
  · -- the head
    next hhead =>
    obtain ⟨b', hb', hindex⟩ := a.move_some (a.stop t + 1)
      (a.stop t) (a.index - a.stop t - 1) (by omega) (by omega)
    rw [hb'] at hb
    cases hb
    show b'.index + 1 = _
    rw [hindex, hfull]
  · next hhead =>
    by_cases hlast : a.stop t = ARRAY_COUNT - 1
    · -- the scan would not have stopped on top
      have hmiss : a.above t (a.stop t) = false :=
        scanDown_miss (x := a.index - 1) (by
          show a.stop t ≠ 0
          omega)
      exact absurd hlast (htop hmiss)
    · -- the middle: one entry too many for the array
      rw [if_pos (by omega)] at hb
      unfold move at hb
      rw [if_neg (by omega)] at hb
      cases hb

/-- What one call does, from a state the type has room for. -/
theorem respectsCapacity_iff_fits (hle : a.index ≤ ARRAY_COUNT) :
    a.RespectsCapacity t ↔ a.Fits t := by
  constructor
  · rintro ⟨-, b, hb, hindex, -⟩ hfull
    by_contra hnot
    have hover := append_full hfull (fun h => hnot (h hfull)) hb
    omega
  · intro hfits
    rcases Nat.eq_or_lt_of_le hle with hfull | hroom
    · exact ⟨hle, a, append_full_fits hfull hfits, hle, fun _ _ => rfl⟩
    · obtain ⟨b, hb, hindex⟩ := append_room hroom t
      exact ⟨hle, b, hb, by omega, fun hfull => by omega⟩

-- ============================================================ a sequence

/-- The calls of a sequence respect the capacity exactly if each of them
finds a slot left, or a key that is not below the last slot's or is the
key of the last slot not above it. -/
theorem respects_iff (ts : List Coffsetdata) :
    Meets append RespectsCapacity new ts ↔ Meets append Fits new ts := by
  apply meets_iff (I := fun a => a.index ≤ ARRAY_COUNT)
  · exact fun hle => respectsCapacity_iff_fits hle
  · rintro a t b - ⟨-, b', hb', hindex, -⟩ hb
    rw [hb'] at hb
    cases hb
    exact hindex
  · exact Nat.zero_le _

/-- As many rows as there are slots, the keys 1, 2, 3 and so on. -/
def fullRows : List Coffsetdata :=
  (List.range ARRAY_COUNT).map fun i => ⟨UInt32.ofNat (i + 1), 0, 0⟩

theorem fullRows_length : fullRows.length = ARRAY_COUNT := by
  unfold fullRows
  rw [List.length_map, List.length_range]

theorem fullRows_key {i : Nat} (hi : i < ARRAY_COUNT) :
    Coffsetdata.key ⟨UInt32.ofNat (i + 1), 0, 0⟩ = i + 1 := by
  have hcount : ARRAY_COUNT = 6600 := rfl
  unfold Coffsetdata.key
  rw [UInt32.toNat_ofNat_of_lt' (by
    show i + 1 < 4294967296
    omega)]

theorem fullRows_ascend :
    fullRows.Pairwise fun s t => s.key < t.key := by
  unfold fullRows
  rw [List.pairwise_map]
  refine List.pairwise_lt_range.imp_of_mem ?_
  intro i j hi hj hlt
  rw [fullRows_key (List.mem_range.mp hi),
    fullRows_key (List.mem_range.mp hj)]
  omega

/-- They fill the array. -/
theorem fullRows_holds :
    ∃ a, run append new fullRows = some a ∧ a.Holds fullRows := by
  have hleast : FirstIsLeast fullRows := by
    intro f hf t ht
    obtain ⟨rest, hrows⟩ : ∃ rest, fullRows = f :: rest :=
      List.head?_eq_some_iff.mp hf
    have hascend := fullRows_ascend
    rw [hrows] at hascend ht
    refine decide_eq_true ?_
    rcases List.mem_cons.mp ht with rfl | ht
    · exact Nat.le_refl _
    · exact Nat.le_of_lt ((List.pairwise_cons.mp hascend).1 t ht)
  obtain ⟨a, ha, hholds⟩ := appendAll_holds
    (Nat.le_of_eq fullRows_length)
  rw [layout_of_firstIsLeast hleast, shelf_of_strict fullRows_ascend]
    at hholds
  exact ⟨a, by rw [run_eq_foldlM]; exact ha, hholds⟩

/-- One row more, below the others: it is put in front of a full
array. -/
theorem not_respects :
    ¬ ∀ ts : List Coffsetdata, Meets append RespectsCapacity new ts := by
  intro hall
  obtain ⟨a, ha, hholds⟩ := fullRows_holds
  have hfull : a.index = ARRAY_COUNT := by rw [hholds.index, fullRows_length]
  have hcount : ARRAY_COUNT = 6600 := rfl
  have hlow := (meets_append (hall (fullRows ++ [.zeroed])) ha).1
  rw [respectsCapacity_iff_fits (by omega)] at hlow
  -- every key in the array is above 0
  have habove : ∀ i < ARRAY_COUNT, (a.slot i).key = i + 1 := by
    intro i hi
    rw [hholds.slot, List.getD_eq_getElem?_getD]
    unfold fullRows
    rw [List.getElem?_map, List.getElem?_range hi]
    exact fullRows_key hi
  rcases hlow hfull with hlast | ⟨i, hi, hkey, -⟩
  · have hlt : (a.slot (ARRAY_COUNT - 1)).key ≤ 0 :=
      UInt32.le_iff_toNat_le.mp hlast
    rw [habove _ (by omega)] at hlt
    omega
  · have heq := Coffsetdata.key_eq_iff.mpr hkey
    rw [habove i hi] at heq
    exact Nat.succ_ne_zero i heq

end CorrectGps.CXArray
