/-
What `getdb` loads.

After it the table of a latitude is what `append` builds of the rows of
that latitude, in load order (`getdb_tables`), unless a key text of some
row is too long, which stops the load (`getdb_none`). The rows come in
pages and row by row, so the invariant is `Tables`, of the rows loaded
so far, and the induction is over the pages and then over one page.
-/
import CorrectGps.Cdbdo
import CorrectGps.Proofs.Append

namespace CorrectGps

open Lib

variable (atof : List UInt8 → Rat)

-- ============================================================== the rows

/-- A row without a NULL. -/
structure Row where
  lat : List UInt8
  lng : List UInt8
  offsetlng : List UInt8
  offsetlat : List UInt8

/-- As it is fetched. -/
def Row.fetched (r : Row) : DbRow where
  lat := some r.lat
  lng := some r.lng
  offsetlng := some r.offsetlng
  offsetlat := some r.offsetlat

/-- As it is appended, under longitude key `k`. -/
def Row.entry (r : Row) (k : UInt32) : Coffsetdata :=
  ⟨k, atof r.offsetlng, atof r.offsetlat⟩

/-- The rows of one latitude, as they are appended. -/
def rowsAt (y : UInt32) (rows : List Row) : List Coffsetdata :=
  rows.filterMap fun r =>
    if chang2uint r.lat = some y then (chang2uint r.lng).map (r.entry atof)
    else none

/-- The key texts of all rows fit. -/
def Convertible (rows : List Row) : Prop :=
  ∀ r ∈ rows, (chang2uint r.lat).isSome ∧ (chang2uint r.lng).isSome

instance (rows : List Row) : Decidable (Convertible rows) := by
  unfold Convertible
  infer_instance

/-- At most `ARRAY_COUNT` rows for each latitude key. -/
def FewPerLatitude (rows : List Row) : Prop :=
  ∀ y : UInt32,
    (rows.countP fun r => chang2uint r.lat = some y) ≤ ARRAY_COUNT

variable {atof} {rows done : List Row} {info : INFO_MAP}

theorem rowsAt_append (y : UInt32) (rows rows' : List Row) :
    rowsAt atof y (rows ++ rows')
      = rowsAt atof y rows ++ rowsAt atof y rows' :=
  List.filterMap_append

theorem rowsAt_length_le (y : UInt32) (rows : List Row) :
    (rowsAt atof y rows).length
      ≤ rows.countP fun r => chang2uint r.lat = some y := by
  induction rows with
  | nil => exact Nat.le_refl 0
  | cons r rows ih =>
      rw [← List.singleton_append, rowsAt_append, List.length_append,
        List.countP_append]
      have hone : (rowsAt atof y [r]).length
          ≤ [r].countP fun r => chang2uint r.lat = some y := by
        unfold rowsAt
        by_cases hy : chang2uint r.lat = some y
        · cases hk : chang2uint r.lng with
          | none => simp [hy, hk]
          | some k => simp [hy, hk]
        · simp [hy]
      omega

/-- A latitude has a table exactly if some row has its key. -/
theorem rowsAt_eq_nil_iff (hconv : Convertible rows) (y : UInt32) :
    rowsAt atof y rows = [] ↔ ∀ r ∈ rows, chang2uint r.lat ≠ some y := by
  unfold rowsAt
  rw [List.filterMap_eq_nil_iff]
  constructor
  · intro h r hr hy
    obtain ⟨k, hk⟩ := Option.isSome_iff_exists.mp (hconv r hr).2
    have hnone := h r hr
    rw [if_pos hy, hk] at hnone
    cases hnone
  · intro h r hr
    rw [if_neg (h r hr)]

-- ============================================================ the loading

/-- The map holds, for every latitude with rows, what `append` builds of
them. -/
def Tables (atof : List UInt8 → Rat) (info : INFO_MAP) (rows : List Row) :
    Prop :=
  ∀ y, info y = if rowsAt atof y rows = [] then none
    else CXArray.appendAll (rowsAt atof y rows)

theorem tables_empty : Tables atof INFO_MAP.empty [] := fun _ => rfl

/-- The table an insertion goes to is what the rows so far have
built. -/
theorem Tables.getD (h : Tables atof info done) (y : UInt32)
    (hfew : (rowsAt atof y done).length ≤ ARRAY_COUNT) :
    CXArray.appendAll (rowsAt atof y done)
      = some ((info y).getD CXArray.new) := by
  rw [h y]
  split
  · next hnil =>
    rw [hnil]
    rfl
  · obtain ⟨a, ha, -⟩ := CXArray.appendAll_holds hfew
    rw [ha]
    rfl

/-- The table of a latitude that has rows. -/
theorem Tables.holds (h : Tables atof info rows)
    (hfew : FewPerLatitude rows) {y : UInt32}
    (hrows : ¬ rowsAt atof y rows = []) :
    ∃ a, info y = some a
      ∧ a.Holds (CXArray.layout (rowsAt atof y rows)) := by
  have hroom : (rowsAt atof y rows).length ≤ ARRAY_COUNT :=
    Nat.le_trans (rowsAt_length_le y rows) (hfew y)
  obtain ⟨a, ha, hholds⟩ := CXArray.appendAll_holds hroom
  refine ⟨a, ?_, hholds⟩
  rw [h y, if_neg hrows, ha]

/-- Inserting one more row. -/
theorem Tables.insertRow (h : Tables atof info done) {r : Row}
    {y k : UInt32} (hy : chang2uint r.lat = some y)
    (hk : chang2uint r.lng = some k)
    (hfew : FewPerLatitude (done ++ [r])) :
    ∃ info', Cdbdo.insertRow info y (r.entry atof k) = some info'
      ∧ Tables atof info' (done ++ [r]) := by
  have hnew : ∀ y', rowsAt atof y' (done ++ [r]) = rowsAt atof y' done
      ++ if y' = y then [r.entry atof k] else [] := by
    intro y'
    rw [rowsAt_append]
    congr 1
    unfold rowsAt
    by_cases hy' : y' = y
    · simp [hy', hy, hk]
    · have hne : ¬ y = y' := fun he => hy' he.symm
      simp [hy', hy, hne]
  have hlen : (rowsAt atof y (done ++ [r])).length ≤ ARRAY_COUNT :=
    Nat.le_trans (rowsAt_length_le y (done ++ [r])) (hfew y)
  have hy₁ := hnew y
  rw [if_pos rfl] at hy₁
  rw [hy₁] at hlen
  have hroom : (rowsAt atof y done).length ≤ ARRAY_COUNT := by
    rw [List.length_append] at hlen
    omega
  obtain ⟨b, hb, -⟩ := CXArray.appendAll_holds hlen
  have hstep : ((info y).getD CXArray.new).append (r.entry atof k)
      = some b := by
    have hall := hb
    unfold CXArray.appendAll at hall
    rw [List.foldlM_append] at hall
    have hfold := h.getD y hroom
    unfold CXArray.appendAll at hfold
    rw [hfold] at hall
    simpa using hall
  refine ⟨Function.update info y (some b), ?_, ?_⟩
  · unfold Cdbdo.insertRow
    rw [hstep]
    rfl
  · intro y'
    rw [hnew y']
    by_cases hy' : y' = y
    · subst hy'
      rw [Function.update_self, if_pos rfl, if_neg (by simp), hb]
    · rw [Function.update_of_ne hy', if_neg hy', List.append_nil]
      exact h y'

/-- One row of the loop. -/
theorem loadRow_fetched (info : INFO_MAP) (r : Row) {y k : UInt32}
    (hy : chang2uint r.lat = some y) (hk : chang2uint r.lng = some k) :
    Cdbdo.loadRow atof info r.fetched
      = (Cdbdo.insertRow info y (r.entry atof k)).map some := by
  simp only [Cdbdo.loadRow, Row.fetched, hy, hk]
  rfl

theorem loadRow_none (info : INFO_MAP) {r : Row}
    (hr : ¬ ((chang2uint r.lat).isSome ∧ (chang2uint r.lng).isSome)) :
    Cdbdo.loadRow atof info r.fetched = none := by
  cases hy : chang2uint r.lat with
  | none => simp only [Cdbdo.loadRow, Row.fetched, hy]
  | some y =>
      cases hk : chang2uint r.lng with
      | none => simp only [Cdbdo.loadRow, Row.fetched, hy, hk]
      | some k =>
          rw [hy, hk] at hr
          exact absurd ⟨rfl, rfl⟩ hr

theorem FewPerLatitude.left {rows rows' : List Row}
    (h : FewPerLatitude (rows ++ rows')) : FewPerLatitude rows := by
  intro y
  have := h y
  rw [List.countP_append] at this
  omega

/-- The rows of a page: the map they leave, or the fault. -/
theorem loadRows_tables (h : Tables atof info done)
    (hfew : FewPerLatitude (done ++ rows)) :
    (Convertible rows →
      ∃ info', Cdbdo.loadRows atof info (rows.map Row.fetched) = some info'
        ∧ Tables atof info' (done ++ rows))
      ∧ (¬ Convertible rows →
        Cdbdo.loadRows atof info (rows.map Row.fetched) = none) := by
  induction rows generalizing done info with
  | nil =>
      refine ⟨fun _ => ⟨info, rfl, by rwa [List.append_nil]⟩, ?_⟩
      intro hnot
      refine absurd ?_ hnot
      intro r hr
      cases hr
  | cons r rows ih =>
      have hsplit : done ++ r :: rows = (done ++ [r]) ++ rows := by simp
      rw [hsplit] at hfew ⊢
      by_cases hr : (chang2uint r.lat).isSome ∧ (chang2uint r.lng).isSome
      · obtain ⟨y, hy⟩ := Option.isSome_iff_exists.mp hr.1
        obtain ⟨k, hk⟩ := Option.isSome_iff_exists.mp hr.2
        obtain ⟨info₁, hinsert, htables⟩ := h.insertRow hy hk hfew.left
        have hload : Cdbdo.loadRows atof info ((r :: rows).map Row.fetched)
            = Cdbdo.loadRows atof info₁ (rows.map Row.fetched) := by
          rw [List.map_cons, Cdbdo.loadRows, loadRow_fetched info r hy hk,
            hinsert]
          rfl
        obtain ⟨hok, hfault⟩ := ih htables hfew
        rw [hload]
        refine ⟨fun hconv => hok fun r' hr' =>
          hconv r' (List.mem_cons_of_mem r hr'), fun hnot => hfault ?_⟩
        intro hconv
        refine hnot ?_
        intro r' hr'
        rcases List.mem_cons.mp hr' with hr' | hr'
        · rw [hr']
          exact hr
        · exact hconv r' hr'
      · refine ⟨fun hconv => absurd (hconv r List.mem_cons_self) hr,
          fun _ => ?_⟩
        rw [List.map_cons, Cdbdo.loadRows, loadRow_none info hr]

/-- One page of the loop. -/
theorem loadPages_cons (pages : Nat → List Row) (info : INFO_MAP)
    (m : Nat) (ms : List Nat) :
    Cdbdo.loadPages atof (fun m => some ((pages m).map Row.fetched)) info
        (m :: ms)
      = match Cdbdo.loadRows atof info ((pages m).map Row.fetched) with
        | none => none
        | some info' => Cdbdo.loadPages atof
            (fun m => some ((pages m).map Row.fetched)) info' ms := rfl

/-- The pages. -/
theorem loadPages_tables {pages : Nat → List Row} {ms : List Nat}
    (h : Tables atof info done)
    (hfew : FewPerLatitude (done ++ ms.flatMap pages)) :
    (Convertible (ms.flatMap pages) →
      ∃ info', Cdbdo.loadPages atof
          (fun m => some ((pages m).map Row.fetched)) info ms
            = some (info', false)
        ∧ Tables atof info' (done ++ ms.flatMap pages))
      ∧ (¬ Convertible (ms.flatMap pages) → Cdbdo.loadPages atof
        (fun m => some ((pages m).map Row.fetched)) info ms = none) := by
  induction ms generalizing done info with
  | nil =>
      refine ⟨fun _ => ⟨info, rfl, by simpa using h⟩, ?_⟩
      intro hnot
      refine absurd ?_ hnot
      intro r hr
      cases hr
  | cons m ms ih =>
      rw [List.flatMap_cons, ← List.append_assoc] at hfew ⊢
      obtain ⟨hok, hfault⟩ := loadRows_tables h hfew.left
      rw [loadPages_cons]
      by_cases hpage : Convertible (pages m)
      · obtain ⟨info₁, hload, htables⟩ := hok hpage
        rw [hload]
        show (_ → ∃ info', Cdbdo.loadPages atof _ info₁ ms = _ ∧ _)
          ∧ (_ → Cdbdo.loadPages atof _ info₁ ms = none)
        obtain ⟨hok', hfault'⟩ := ih htables hfew
        refine ⟨fun hconv => hok' fun r hr =>
          hconv r (List.mem_append_right _ hr), fun hnot => hfault' ?_⟩
        intro hconv
        refine hnot ?_
        intro r hr
        rcases List.mem_append.mp hr with hr | hr
        · exact hpage r hr
        · exact hconv r hr
      · rw [hfault hpage]
        refine ⟨fun hconv => absurd ?_ hpage, fun _ => rfl⟩
        exact fun r hr => hconv r (List.mem_append_left _ hr)

/-- The rows of all pages, in load order. -/
def loaded (pages : Nat → List Row) : List Row :=
  Cdbdo.pageStarts.flatMap pages

/-- `getdb` of complete rows, into an empty map. -/
def getdbOf (atof : List UInt8 → Rat) (pages : Nat → List Row) :
    Option (INFO_MAP × Bool) :=
  Cdbdo.getdb atof true (fun m => some ((pages m).map Row.fetched))
    INFO_MAP.empty

theorem getdb_tables {pages : Nat → List Row}
    (hfew : FewPerLatitude (loaded pages))
    (hconv : Convertible (loaded pages)) :
    ∃ info, getdbOf atof pages = some (info, false)
      ∧ Tables atof info (loaded pages) := by
  have hempty : Tables atof INFO_MAP.empty [] := tables_empty
  have hfew' : FewPerLatitude ([] ++ Cdbdo.pageStarts.flatMap pages) := hfew
  obtain ⟨hok, -⟩ := loadPages_tables hempty hfew'
  exact hok hconv

theorem getdb_none {pages : Nat → List Row}
    (hfew : FewPerLatitude (loaded pages))
    (hconv : ¬ Convertible (loaded pages)) :
    getdbOf atof pages = none := by
  have hempty : Tables atof INFO_MAP.empty [] := tables_empty
  have hfew' : FewPerLatitude ([] ++ Cdbdo.pageStarts.flatMap pages) := hfew
  obtain ⟨-, hfault⟩ := loadPages_tables hempty hfew'
  exact hfault hconv

end CorrectGps
