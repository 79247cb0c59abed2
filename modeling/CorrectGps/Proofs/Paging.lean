/-
The pages of `getdb`: three windows of one table.

# Windows

Page `i` is what `LIMIT` gives from row `i * COUNT_PER_READ` on. The
windows of a list, one behind the other, are its front (`windows_cons`),
and rows without a NULL can be loaded in two goes or in one
(`loadRows_append`). So the pages together are the front of the table,
whatever its length: no row is skipped or loaded twice at a border, and
none comes from behind `MAX_RECORD`.

# A fetch that fails

It ends the load and the program. What is in the map by then are the
rows of the pages before it.
-/
import CorrectGps.Proofs.Load

namespace CorrectGps.Cdbdo

open Lib

variable {atof : List UInt8 → Rat} {rows : List Row} {info : INFO_MAP}

-- =============================================================== windows

/-- The `j` windows of size `c` from window `i` on. -/
def window (c : Nat) (rows : List Row) (i j : Nat) : List Row :=
  (rows.drop (i * c)).take (j * c)

theorem window_cons (c : Nat) (rows : List Row) (i j : Nat) :
    window c rows i (j + 1)
      = (rows.drop (i * c)).take c ++ window c rows (i + 1) j := by
  unfold window
  have hsize : (j + 1) * c = c + j * c := by rw [Nat.succ_mul]; omega
  have hnext : (i + 1) * c = i * c + c := Nat.succ_mul i c
  rw [hsize, hnext, List.take_add, List.drop_drop]

-- =========================================================== the database

/-- The server gives the first `k` pages of a table, `c` rows each. -/
def select (c : Nat) (rows : List Row) (k m : Nat) :
    Option (List DbRow) :=
  if m < k * c then some (((rows.drop m).take c).map Row.fetched)
  else none

theorem select_page {c k i : Nat} (hc : 0 < c) (hi : i < k) :
    select c rows k (i * c)
      = some (((rows.drop (i * c)).take c).map Row.fetched) :=
  if_pos (Nat.mul_lt_mul_of_pos_right hi hc)

theorem select_behind {c k i : Nat} (hi : k ≤ i) :
    select c rows k (i * c) = none :=
  if_neg (Nat.not_lt.mpr (Nat.mul_le_mul_right c hi))

-- ============================================================== the pages

/-- A row without a NULL is inserted, or stops the load. -/
theorem loadRow_complete_ne (info : INFO_MAP) (r : Row) :
    loadRow atof info r.fetched ≠ some none := by
  by_cases hr : (chang2uint r.lat).isSome ∧ (chang2uint r.lng).isSome
  · obtain ⟨y, hy⟩ := Option.isSome_iff_exists.mp hr.1
    obtain ⟨k, hk⟩ := Option.isSome_iff_exists.mp hr.2
    rw [loadRow_fetched info r hy hk]
    cases insertRow info y (r.entry atof k) with
    | none => exact fun h => by cases h
    | some info' => exact fun h => by cases h
  · rw [loadRow_none info hr]
    exact fun h => by cases h

/-- Rows without a NULL, in two goes. -/
theorem loadRows_append (info : INFO_MAP) (front back : List Row) :
    loadRows atof info ((front ++ back).map Row.fetched)
      = (loadRows atof info (front.map Row.fetched)).bind fun info' =>
          loadRows atof info' (back.map Row.fetched) := by
  induction front generalizing info with
  | nil => rfl
  | cons r front ih =>
      rw [List.cons_append, List.map_cons, List.map_cons, loadRows,
        loadRows]
      cases hr : loadRow atof info r.fetched with
      | none => rfl
      | some next =>
          cases next with
          | none => exact absurd hr (loadRow_complete_ne info r)
          | some info' => exact ih info'

/-- The pages from page `i` on, of which the first `k` can be had. -/
theorem loadPages_window {c : Nat} (hc : 0 < c) (rows : List Row)
    (k : Nat) {j : Nat} :
    ∀ {i : Nat} {info : INFO_MAP}, i ≤ k →
      loadPages atof (select c rows k) info
          ((List.range' i j).map (· * c))
        = (loadRows atof info ((window c rows i
            (min j (k - i))).map Row.fetched)).map
          fun info' => (info', decide (k < i + j)) := by
  induction j with
  | zero =>
      intro i info hi
      rw [Nat.zero_min, window, Nat.zero_mul, List.take_zero]
      simp [loadPages, loadRows, hi]
  | succ j ih =>
      intro i info hi
      rw [List.range'_succ, List.map_cons, loadPages]
      rcases Nat.lt_or_eq_of_le hi with hlt | heq
      · have hmin : min (j + 1) (k - i) = min j (k - (i + 1)) + 1 := by
          omega
        have hlast : i + 1 + j = i + (j + 1) := by omega
        rw [select_page hc hlt, hmin, window_cons, loadRows_append]
        simp only
        cases loadRows atof info _ with
        | none => rfl
        | some info' =>
            rw [Option.bind_some, ← hlast]
            exact ih hlt
      · -- the page that cannot be fetched
        have hmin : min (j + 1) (k - i) = 0 := by omega
        have hlast : k < i + (j + 1) := by omega
        rw [select_behind (Nat.le_of_eq heq.symm), hmin, window,
          Nat.zero_mul, List.take_zero]
        simp [loadRows, hlast]

/-- Loading page by page, of which the first `k` can be fetched, is
loading the front of the table in one go, and setting the flag to exit if
a page is missing. -/
theorem getdb_paged (atof : List UInt8 → Rat) (rows : List Row) (k : Nat)
    (info : INFO_MAP) :
    getdb atof true (select COUNT_PER_READ rows k) info
      = (loadRows atof info ((rows.take
          (min MAX_RECORD (k * COUNT_PER_READ))).map Row.fetched)).map
        fun info' => (info', decide (k * COUNT_PER_READ < MAX_RECORD)) := by
  have hstarts : pageStarts
      = (List.range' 0 3).map (· * COUNT_PER_READ) := rfl
  have hpos : 0 < COUNT_PER_READ := by
    unfold COUNT_PER_READ
    omega
  have hpages : loadPages atof (select COUNT_PER_READ rows k) info
      ((List.range' 0 3).map (· * COUNT_PER_READ)) = _ :=
    loadPages_window hpos rows k (Nat.zero_le k)
  have hsize : min 3 (k - 0) * COUNT_PER_READ
      = min MAX_RECORD (k * COUNT_PER_READ) := by
    rw [Nat.sub_zero, ← Nat.mul_min_mul_right]
    rfl
  have hmissing : decide (k < 0 + 3)
      = decide (k * COUNT_PER_READ < MAX_RECORD) := by
    unfold MAX_RECORD COUNT_PER_READ
    rw [decide_eq_decide]
    omega
  unfold getdb
  rw [if_pos rfl, hstarts, hpages, window, hsize, hmissing, Nat.zero_mul,
    List.drop_zero]

end CorrectGps.Cdbdo
