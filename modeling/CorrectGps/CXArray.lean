/-
`CXArray`: the longitudes of one latitude with their offsets, a fixed
array kept in order by hand.

# The model

`arraylng` keeps its `ARRAY_COUNT` slots in the type. An operation that
would read, write or move outside them is `none`. The constructor zeroes
the slots, so an unused slot is a row with key 0 and no offsets
(`Coffsetdata.zeroed`) and cannot be told from a row that says so.
Offsets are exact rationals; `memcpy` moves the old contents.

`append` has the source's three cases. The head case moves
`index - tindex - 1` entries, one fewer than it should, as the middle
case does where that is the right number.

`getGpsxy` returns a local `CPOI` it only assigns when it finds the key,
so what an unassigned one contains is an argument.
-/
import CorrectGps.Lib.Buf
import CorrectGps.Lib.Scan
import Mathlib.Data.Rat.Defs

namespace CorrectGps

open Lib

/-- `USE_ARRAY`: the slots of one latitude. -/
def ARRAY_COUNT : Nat := 6600

/-- A point, or a pair of offsets: longitude part, latitude part. -/
structure CPOI where
  dx : Rat
  dy : Rat
  deriving DecidableEq

/-- One row: the longitude times 100 and its offsets. -/
structure Coffsetdata where
  x : UInt32
  dx : Rat
  dy : Rat
  deriving DecidableEq

/-- What `memset` leaves in a slot. -/
def Coffsetdata.zeroed : Coffsetdata := { x := 0, dx := 0, dy := 0 }

/-- The table of one latitude. -/
structure CXArray where
  arraylng : List.Vector Coffsetdata ARRAY_COUNT
  index : Nat

namespace CXArray

/-- The constructor. -/
def new : CXArray where
  arraylng := List.Vector.replicate ARRAY_COUNT .zeroed
  index := 0

/-- `arraylng[i]`, for `i` in range. -/
def slot (a : CXArray) (i : Nat) : Coffsetdata :=
  a.arraylng.val.getD i .zeroed

/-- Assign the three members of `arraylng[i]`. -/
def store (a : CXArray) (i : Nat) (t : Coffsetdata) : CXArray :=
  { a with arraylng := blit a.arraylng i [t] }

/-- `memcpy(arraylng + dst, arraylng + src, count entries)`, in range or
not at all. -/
def move (a : CXArray) (dst src count : Nat) : Option CXArray :=
  if dst + count ≤ ARRAY_COUNT ∧ src + count ≤ ARRAY_COUNT then
    some { a with
      arraylng := blit a.arraylng dst (slice a.arraylng.val src count) }
  else none

/-- The end of `append`: the row goes behind `tindex`, unless that is
the last slot. -/
def storeAfter (a : CXArray) (tindex : Nat) (t : Coffsetdata) : CXArray :=
  if tindex < ARRAY_COUNT - 1 then
    { a.store (tindex + 1) t with index := a.index + 1 }
  else a

/-- `append` once the scan has stopped at `tindex`. -/
def placeAt (a : CXArray) (tindex : Nat) (t : Coffsetdata) :
    Option CXArray :=
  -- the head of the array
  if tindex = 0 ∧ t.x < (a.slot tindex).x then
    (a.move (tindex + 1) tindex (a.index - tindex - 1)).map fun a =>
      { a.store tindex t with index := a.index + 1 }
  -- a place has to be made
  else if tindex ≠ a.index - 1 then
    if (a.slot tindex).x = t.x then some a
    else
      (a.move (tindex + 2) (tindex + 1) (a.index - tindex - 1)).map
        fun a => a.storeAfter tindex t
  else some (a.storeAfter tindex t)

/-- `append(x, dx, dy)`. -/
def append (a : CXArray) (t : Coffsetdata) : Option CXArray :=
  if a.index = 0 then some { a.store 0 t with index := 1 }
  -- the scan starts by reading slot `index - 1`
  else if a.index - 1 < ARRAY_COUNT then
    a.placeAt
      (scanDown (fun i => decide (t.x < (a.slot i).x)) (a.index - 1)) t
  else none

/-- `getcount()`. -/
def getcount (a : CXArray) : Nat := a.index

/-- The slot `getGpsxy` ends at: the probe's if it has the key, else
where the scan stops. `none` if the probe is outside the array. -/
def search (a : CXArray) (key : UInt32) : Option Nat :=
  let i := (key - (a.slot 0).x).toNat
  if i < ARRAY_COUNT then
    if key = (a.slot i).x then some i
    -- the data are not consecutive
    else some (scan (fun i => decide (key = (a.slot i).x)) ARRAY_COUNT 0)
  else none

/-- `getGpsxy(baiduxy, key)`; `gpsxy` is what the local holds before it
is assigned. -/
def getGpsxy (a : CXArray) (gpsxy baiduxy : CPOI) (key : UInt32) :
    Option CPOI :=
  (a.search key).map fun i =>
    if i < ARRAY_COUNT then
      { dx := baiduxy.dx - (a.slot i).dx, dy := baiduxy.dy - (a.slot i).dy }
    else gpsxy

-- ======================================================= what is in it

/-- The slots in use hold `l` and the others are untouched. -/
structure Holds (a : CXArray) (l : List Coffsetdata) : Prop where
  index : a.index = l.length
  slots : a.arraylng.val
    = l ++ List.replicate (ARRAY_COUNT - l.length) .zeroed

theorem holds_new : new.Holds [] where
  index := rfl
  slots := rfl

variable {a : CXArray} {l : List Coffsetdata} {t : Coffsetdata}

theorem Holds.length_le (h : a.Holds l) : l.length ≤ ARRAY_COUNT := by
  have hlen := a.arraylng.property
  rw [h.slots, List.length_append] at hlen
  omega

/-- Slot `i` of a table with known contents. -/
theorem Holds.slot (h : a.Holds l) (i : Nat) :
    a.slot i = l.getD i .zeroed := by
  unfold CXArray.slot
  rw [h.slots, List.getD_eq_getElem?_getD, List.getD_eq_getElem?_getD]
  rcases Nat.lt_or_ge i l.length with hlt | hge
  · rw [List.getElem?_append_left hlt]
  · -- past the used slots the default is what `memset` left
    rw [List.getElem?_append_right hge, List.getElem?_eq_none hge,
      List.getElem?_replicate]
    split <;> rfl

/-- The slots in use determine the table. -/
theorem Holds.unique {b : CXArray} (ha : a.Holds l) (hb : b.Holds l) :
    a = b := by
  have hindex : a.index = b.index := by rw [ha.index, hb.index]
  have hslots : a.arraylng = b.arraylng :=
    Subtype.ext (by rw [ha.slots, hb.slots])
  cases a
  cases b
  simp_all

/-- Taking the used slots out again. -/
theorem Holds.take (h : a.Holds l) : a.arraylng.val.take a.index = l := by
  rw [h.slots, h.index, List.take_left]

end CXArray

end CorrectGps
