/-
The direct probe of `getGpsxy`.

# Where it lands

The probe is the distance, modulo 2^32, from the key in front of the
table, and nothing tests it before the slot is read. The row in front is
`base`: the first row below the first one, or the first one. So the read
is inside the array exactly for the keys of a window of `ARRAY_COUNT`
keys that begins there (`probeInside_iff`).

# What it finds

Inside the array the probe is only a short cut. In a table whose used
keys strictly increase, a used slot that has the key is the only used
one that has it, and the first with it; an unused slot has key 0 and no
offsets, as has the one the scan finds instead (`search_agrees`).
-/
import CorrectGps.Proofs.Capacity
import CorrectGps.Tools

namespace CorrectGps.CXArray

open Lib

variable {a : CXArray} {ts : List Coffsetdata} {key : UInt32}

-- ======================================================= where it lands

/-- The row in front of the table of a sequence: the first row below the
first one, the first one if there is none. -/
def base : List Coffsetdata → Coffsetdata
  | [] => .zeroed
  | f :: ts => (ts.find? fun t => !notBelow f t).getD f

/-- The `ARRAY_COUNT` keys from `b` on, after the greatest one 0. -/
def InWindow (b k : UInt32) : Prop :=
  b.toNat ≤ k.toNat ∧ k.toNat < b.toNat + ARRAY_COUNT
    ∨ k.toNat + 2 ^ 32 < b.toNat + ARRAY_COUNT

instance (b k : UInt32) : Decidable (InWindow b k) :=
  inferInstanceAs (Decidable (_ ∨ _))

/-- The distance from `b`, without wrapping and with it. -/
theorem sub_lt_iff (b k : UInt32) :
    (k - b).toNat < ARRAY_COUNT ↔ InWindow b k := by
  have hcount : ARRAY_COUNT = 6600 := rfl
  have hb := b.toNat_lt
  have hk := k.toNat_lt
  unfold InWindow
  rw [UInt32.toNat_sub]
  rcases Nat.lt_or_ge k.toNat b.toNat with hlt | hge
  · rw [Nat.mod_eq_of_lt (by omega)]
    omega
  · have hwrap : 2 ^ 32 - b.toNat + k.toNat
        = (k.toNat - b.toNat) + 2 ^ 32 := by omega
    rw [hwrap, Nat.add_mod_right, Nat.mod_eq_of_lt (by omega)]
    omega

/-- The front of the layout. -/
theorem layout_front (hne : ts ≠ []) :
    ∃ rest, layout ts = base ts :: rest := by
  rcases firstIsLeast_or_split ts with
    hleast | ⟨f, early, t, later, rfl, hearly, ht⟩
  · obtain ⟨f, ts, rfl⟩ := List.exists_cons_of_ne_nil hne
    have hall : ∀ s ∈ ts, notBelow f s = true :=
      fun s hs => hleast f rfl s (List.mem_cons_of_mem f hs)
    have hbase : base (f :: ts) = f := by
      rw [base, List.find?_eq_none.mpr]
      · rfl
      · intro s hs
        rw [hall s hs]
        simp
    rw [layout_of_firstIsLeast hleast, hbase]
    exact shelf_front fun s hs => of_decide_eq_true (hall s hs)
  · have hbase : base (f :: (early ++ t :: later)) = t := by
      have hnone : early.find? (fun s => !notBelow f s) = none := by
        rw [List.find?_eq_none]
        intro s hs
        rw [hearly s hs]
        simp
      rw [base, List.find?_append, hnone, Option.none_or,
        List.find?_cons_of_pos (by simpa using ht)]
      rfl
    rw [layout_of_below hearly ht, hbase]
    exact ⟨_, rfl⟩

/-- The rows `ts` have built a table in which the slot `getGpsxy` looks
at first, for `key`, is one of the array. -/
def ProbeInside (ts : List Coffsetdata) (key : UInt32) : Prop :=
  ∃ a, appendAll ts = some a ∧ (key - (a.slot 0).x).toNat < ARRAY_COUNT

/-- It is one exactly for the keys of the window that begins at the
front of the table. -/
theorem probeInside_iff (ts : List Coffsetdata) (hne : ts ≠ [])
    (hroom : ts.length ≤ ARRAY_COUNT) (key : UInt32) :
    ProbeInside ts key ↔ InWindow (base ts).x key := by
  obtain ⟨a, ha, hholds⟩ := appendAll_holds hroom
  obtain ⟨rest, hrest⟩ := layout_front hne
  have hslot : a.slot 0 = base ts := by
    rw [hholds.slot, hrest]
    rfl
  rw [← sub_lt_iff, ← hslot]
  unfold ProbeInside
  rw [ha]
  simp

theorem oneRow_probeInside :
    ProbeInside [⟨11405, 1, 2⟩] 11407 :=
  (probeInside_iff [⟨11405, 1, 2⟩] (by simp) (by decide) 11407).mpr
    (by decide)

/-- A longitude 0.01 west of the first one in the table. -/
theorem not_probeInside_west :
    ¬ ∀ (ts : List Coffsetdata) (str : List UInt8) (key : UInt32),
      ts ≠ [] → ts.length ≤ ARRAY_COUNT → chang2uint str = some key →
      ProbeInside ts key := by
  intro hall
  have hkey : chang2uint [49, 49, 52, 46, 48, 52] = some 11404 := by decide
  obtain ⟨a, ha, hlt⟩ := hall [⟨11405, 1, 2⟩] _ 11404 (by simp)
    (by decide) hkey
  obtain ⟨b, hb, hholds⟩ := append_empty holds_new ⟨11405, 1, 2⟩
  have hab : a = b := by
    have hone : appendAll [⟨11405, 1, 2⟩] = new.append ⟨11405, 1, 2⟩ := by
      unfold appendAll
      simp
    rw [hone, hb] at ha
    exact (Option.some.inj ha).symm
  rw [sub_lt_iff, hab, hholds.slot] at hlt
  exact absurd hlt (by decide)

-- ========================================================= what it finds

/-- The used slots are in strictly increasing order and the others as
the constructor left them. -/
structure InOrder (a : CXArray) : Prop where
  pos : 1 ≤ a.index
  le : a.index ≤ ARRAY_COUNT
  strict : ∀ i j, i < j → j < a.index → (a.slot i).x < (a.slot j).x
  unused : ∀ i, a.index ≤ i → i < ARRAY_COUNT → a.slot i = .zeroed

/-- Where the linear scan alone ends. -/
def scanFor (a : CXArray) (key : UInt32) : Nat :=
  scan (fun i => decide (key = (a.slot i).x)) ARRAY_COUNT 0

/-- What is returned for an end at `i`. -/
def pointAt (a : CXArray) (gpsxy baiduxy : CPOI) (i : Nat) : CPOI :=
  if i < ARRAY_COUNT then
    { dx := baiduxy.dx - (a.slot i).dx, dy := baiduxy.dy - (a.slot i).dy }
  else gpsxy

theorem scanFor_hit (h : a.scanFor key < ARRAY_COUNT) :
    key = (a.slot (a.scanFor key)).x := by
  have hlt : a.scanFor key < 0 + ARRAY_COUNT := by omega
  exact of_decide_eq_true (scan_hit hlt)

theorem scanFor_miss {i : Nat} (h : i < a.scanFor key) :
    key ≠ (a.slot i).x :=
  of_decide_eq_false (scan_miss (Nat.zero_le i) h)

/-- The scan stops at a slot with the key, or before it. -/
theorem scanFor_le_of {i : Nat} (h : key = (a.slot i).x) :
    a.scanFor key ≤ i := by
  by_contra hlt
  exact scanFor_miss (Nat.lt_of_not_le hlt) h

/-- Used slots with one key are one slot. -/
theorem InOrder.unique (h : a.InOrder) {i j : Nat} (hi : i < a.index)
    (hj : j < a.index) (heq : (a.slot i).x = (a.slot j).x) : i = j := by
  rcases Nat.lt_trichotomy i j with hlt | rfl | hlt
  · have hx := h.strict i j hlt hj
    rw [heq] at hx
    exact absurd hx (UInt32.lt_irrefl _)
  · rfl
  · have hx := h.strict j i hlt hi
    rw [heq] at hx
    exact absurd hx (UInt32.lt_irrefl _)

/-- A key other than 0 is only in used slots. -/
theorem InOrder.used (h : a.InOrder) {i : Nat} (hi : i < ARRAY_COUNT)
    (hkey : (a.slot i).x ≠ 0) : i < a.index := by
  by_contra hge
  rw [h.unused i (by omega) hi] at hkey
  exact hkey rfl

/-- The scan ends at a row like the one at the probe. -/
theorem InOrder.scanFor_probe (h : a.InOrder) {i : Nat}
    (hprobe : (key - (a.slot 0).x).toNat = i) (hi : i < ARRAY_COUNT)
    (hat : key = (a.slot i).x) :
    a.slot (a.scanFor key) = a.slot i := by
  have hle := scanFor_le_of hat
  have hfound : key = (a.slot (a.scanFor key)).x := scanFor_hit (by omega)
  have hpos := h.pos
  rcases Nat.lt_or_ge i a.index with hused | hunused
  · rw [h.unique (by omega) hused (hfound.symm.trans hat)]
  · -- an unused slot at the probe: the key is 0, and not in front
    have hzero : key = 0 := by
      rw [hat, h.unused i hunused hi]
      rfl
    have hfront : (a.slot 0).x ≠ 0 := by
      intro hc
      rw [hzero, hc] at hprobe
      have : (0 - 0 : UInt32).toNat = 0 := rfl
      omega
    have hnot : ¬ a.scanFor key < a.index := by
      intro hlt
      rcases Nat.eq_zero_or_pos (a.scanFor key) with h0 | hgt
      · rw [h0, hzero] at hfound
        exact hfront hfound.symm
      · have hless := h.strict 0 _ hgt hlt
        rw [← hfound, hzero] at hless
        exact absurd hless (UInt32.not_lt_zero)
    rw [h.unused i hunused hi, h.unused _ (by omega) (by omega)]

/-- So the lookup ends, found or not, at a row like the scan's. -/
theorem InOrder.search (h : a.InOrder)
    (hprobe : (key - (a.slot 0).x).toNat < ARRAY_COUNT) :
    ∃ i, a.search key = some i
      ∧ (i < ARRAY_COUNT ↔ a.scanFor key < ARRAY_COUNT)
      ∧ a.slot (a.scanFor key) = a.slot i := by
  unfold CXArray.search
  rw [if_pos hprobe]
  by_cases hat : key = (a.slot (key - (a.slot 0).x).toNat).x
  · have hle := scanFor_le_of hat
    rw [if_pos hat]
    refine ⟨_, rfl, ?_, h.scanFor_probe rfl hprobe hat⟩
    exact iff_of_true hprobe (by omega)
  · rw [if_neg hat]
    exact ⟨_, rfl, Iff.rfl, rfl⟩

/-- The scan finds a key other than 0 exactly if it is used. -/
theorem InOrder.scanFor_lt_iff (h : a.InOrder) (hkey : key ≠ 0) :
    a.scanFor key < ARRAY_COUNT ↔ ∃ j < a.index, (a.slot j).x = key := by
  have hle := h.le
  constructor
  · intro hlt
    have hfound := scanFor_hit hlt
    refine ⟨a.scanFor key, h.used hlt ?_, hfound.symm⟩
    rw [← hfound]
    exact hkey
  · intro hused
    obtain ⟨j, hj, hjkey⟩ := hused
    have := scanFor_le_of (a := a) hjkey.symm
    omega

/-- In such a table, for a probe inside the array, the lookup finds the
key exactly if the linear scan alone does, and corrects by the row the
scan would end at; a key other than 0 is found exactly if a used slot
has it, with the offsets of this slot. -/
theorem search_agrees (a : CXArray) (key : UInt32) (h : a.InOrder)
    (hprobe : (key - (a.slot 0).x).toNat < ARRAY_COUNT) :
    (∃ i, a.search key = some i
      ∧ (i < ARRAY_COUNT ↔ a.scanFor key < ARRAY_COUNT))
    ∧ (∀ gpsxy baiduxy, a.getGpsxy gpsxy baiduxy key
      = some (a.pointAt gpsxy baiduxy (a.scanFor key)))
    ∧ (key ≠ 0 →
      (a.scanFor key < ARRAY_COUNT ↔ ∃ j < a.index, (a.slot j).x = key)
      ∧ ∀ j < a.index, (a.slot j).x = key → ∀ gpsxy baiduxy,
        a.getGpsxy gpsxy baiduxy key = some
          ⟨baiduxy.dx - (a.slot j).dx, baiduxy.dy - (a.slot j).dy⟩) := by
  obtain ⟨i, hi, hfound, hslot⟩ := h.search hprobe
  have hpoint : ∀ gpsxy baiduxy, a.getGpsxy gpsxy baiduxy key
      = some (a.pointAt gpsxy baiduxy (a.scanFor key)) := by
    intro gpsxy baiduxy
    unfold getGpsxy pointAt
    rw [hi, hslot, Option.map_some]
    by_cases hlt : i < ARRAY_COUNT
    · rw [if_pos hlt, if_pos (hfound.mp hlt)]
    · rw [if_neg hlt, if_neg (mt hfound.mpr hlt)]
  refine ⟨⟨i, hi, hfound⟩, hpoint, ?_⟩
  intro hkey
  have hused := h.scanFor_lt_iff hkey
  refine ⟨hused, ?_⟩
  intro j hj hjkey gpsxy baiduxy
  have hlt : a.scanFor key < ARRAY_COUNT := hused.mpr ⟨j, hj, hjkey⟩
  have hat := scanFor_hit hlt
  have hsame : a.scanFor key = j := by
    apply h.unique _ hj
    · rw [← hat, hjkey]
    · apply h.used hlt
      rw [← hat]
      exact hkey
  rw [hpoint, hsame]
  unfold pointAt
  rw [if_pos (by omega)]

/-- A table of two rows that are not consecutive. -/
def gapRows : List Coffsetdata := [⟨11405, 1, 2⟩, ⟨11408, 3, 4⟩]

/-- What two calls make of them. -/
theorem gapRows_holds : ∃ a, appendAll gapRows = some a ∧ a.Holds gapRows := by
  have hroom : gapRows.length ≤ ARRAY_COUNT := by decide
  obtain ⟨a, ha, hholds⟩ := appendAll_holds hroom
  have hlayout : layout gapRows = gapRows := by decide
  rw [hlayout] at hholds
  exact ⟨a, ha, hholds⟩

theorem gapRows_agree :
    ∃ a, appendAll gapRows = some a ∧ a.InOrder
      ∧ (11408 - (a.slot 0).x).toNat < ARRAY_COUNT
      ∧ (∀ gpsxy baiduxy, a.getGpsxy gpsxy baiduxy 11408
        = some (a.pointAt gpsxy baiduxy (a.scanFor 11408))) := by
  obtain ⟨a, ha, hholds⟩ := gapRows_holds
  have hslot := hholds.slot
  have hindex : a.index = 2 := hholds.index
  have hcount : ARRAY_COUNT = 6600 := rfl
  have horder : a.InOrder := by
    refine ⟨by omega, by omega, ?_, ?_⟩
    · intro i j hij hj
      obtain ⟨rfl, rfl⟩ : i = 0 ∧ j = 1 := by omega
      rw [hslot, hslot]
      decide
    · intro i hi _
      rw [hslot, List.getD_eq_default _ _ (by
        show 2 ≤ i
        omega)]
  have hprobe : (11408 - (a.slot 0).x).toNat < ARRAY_COUNT := by
    rw [hslot]
    decide
  exact ⟨a, ha, horder, hprobe, (search_agrees a 11408 horder hprobe).2.1⟩

end CorrectGps.CXArray
