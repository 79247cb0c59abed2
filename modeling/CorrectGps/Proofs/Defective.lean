/-
Rows with a NULL.

# What a defective row costs

Each of the four tests for a NULL leaves the loop over the rows of the
page, so behind the first defective row of a page nothing is inserted
(`loadRows_inserted`). Before its NULL is met the key texts in front of
it are converted, and one that is too long faults. So a defective row
costs only itself exactly if no complete row stands behind it in its
page and the texts read of it fit (`costsOnlyItself_iff`).

# What is compared

Two loads: of the pages as they are and of their complete rows. The maps
are compared, and the rows inserted on the way: a lost row may make no
difference to the map, if a copy comes later or its table is full.
-/
import CorrectGps.Proofs.Correct

namespace CorrectGps

open Lib

variable {atof : List UInt8 → Rat} {info : INFO_MAP}
variable {page rows : List DbRow} {row : DbRow}

-- ================================================================ a row

/-- No column is NULL. -/
def DbRow.complete (row : DbRow) : Bool :=
  row.lat.isSome && row.lng.isSome && row.offsetlng.isSome
    && row.offsetlat.isSome

/-- The key texts in front of the first NULL fit. -/
def DbRow.Readable (row : DbRow) : Prop :=
  ∀ lat, row.lat = some lat → (chang2uint lat).isSome
    ∧ ∀ lng, row.lng = some lng → (chang2uint lng).isSome

/-- A complete row as a `Row`. -/
theorem DbRow.fetched_of_complete (h : row.complete = true) :
    ∃ r : Row, row = r.fetched := by
  obtain ⟨lat, lng, dx, dy⟩ := row
  unfold DbRow.complete at h
  simp only [Bool.and_eq_true, Option.isSome_iff_exists] at h
  obtain ⟨⟨⟨⟨lat, rfl⟩, lng, rfl⟩, dx, rfl⟩, dy, rfl⟩ := h
  exact ⟨⟨lat, lng, dx, dy⟩, rfl⟩

/-- A complete row is inserted, or faults. -/
theorem loadRow_complete (h : row.complete = true) :
    Cdbdo.loadRow atof info row ≠ some none := by
  obtain ⟨r, rfl⟩ := DbRow.fetched_of_complete h
  by_cases hr : (chang2uint r.lat).isSome ∧ (chang2uint r.lng).isSome
  · obtain ⟨y, hy⟩ := Option.isSome_iff_exists.mp hr.1
    obtain ⟨k, hk⟩ := Option.isSome_iff_exists.mp hr.2
    rw [loadRow_fetched info r hy hk]
    cases Cdbdo.insertRow info y (r.entry atof k) with
    | none => simp
    | some info' => simp
  · rw [loadRow_none info hr]
    simp

/-- A defective row ends the page, or faults. -/
theorem loadRow_defective (atof : List UInt8 → Rat) (info : INFO_MAP)
    (h : row.complete = false) :
    (row.Readable → Cdbdo.loadRow atof info row = some none)
      ∧ (¬ row.Readable → Cdbdo.loadRow atof info row = none) := by
  obtain ⟨lat, lng, dx, dy⟩ := row
  cases lat with
  | none =>
      refine ⟨fun _ => rfl, fun hnot => absurd ?_ hnot⟩
      intro lat hlat
      cases hlat
  | some lat =>
    cases hy : chang2uint lat with
    | none =>
        refine ⟨fun hr => ?_, fun _ => by simp only [Cdbdo.loadRow, hy]⟩
        have hsome := (hr lat rfl).1
        rw [hy] at hsome
        cases hsome
    | some y =>
      cases lng with
      | none =>
          refine ⟨fun _ => by simp only [Cdbdo.loadRow, hy],
            fun hnot => absurd ?_ hnot⟩
          intro lat' hlat
          cases hlat
          refine ⟨by rw [hy]; rfl, fun lng hlng => ?_⟩
          cases hlng
      | some lng =>
        cases hk : chang2uint lng with
        | none =>
            refine ⟨fun hr => ?_,
              fun _ => by simp only [Cdbdo.loadRow, hy, hk]⟩
            have hsome := (hr lat rfl).2 lng rfl
            rw [hk] at hsome
            cases hsome
        | some k =>
          have hskip : Cdbdo.loadRow atof info
              ⟨some lat, some lng, dx, dy⟩ = some none := by
            simp only [Cdbdo.loadRow, hy, hk]
            cases dx with
            | none => rfl
            | some dx =>
                cases dy with
                | none => rfl
                | some dy => cases h
          refine ⟨fun _ => hskip, fun hnot => absurd ?_ hnot⟩
          intro lat' hlat
          cases hlat
          refine ⟨by rw [hy]; rfl, fun lng' hlng => ?_⟩
          cases hlng
          rw [hk]
          rfl

-- =============================================================== a page

/-- The rows of a page that are inserted. -/
def insertedRows (atof : List UInt8 → Rat) (info : INFO_MAP) :
    List DbRow → List DbRow
  | [] => []
  | row :: rows =>
      match Cdbdo.loadRow atof info row with
      | some (some info') => row :: insertedRows atof info' rows
      | _ => []

/-- No complete row stands behind a defective one, and of the first
defective one the key texts that are read fit. -/
def Harmless (page : List DbRow) : Prop :=
  (page.Pairwise fun r s => s.complete = true → r.complete = true)
    ∧ ∀ r ∈ page.find? (fun r => !r.complete), r.Readable

/-- With a good element behind every bad one left out, what is left is
the front. -/
theorem filter_eq_takeWhile_iff {α : Type} (p : α → Bool) (l : List α) :
    l.filter p = l.takeWhile p
      ↔ l.Pairwise fun a b => p b = true → p a = true := by
  induction l with
  | nil => simp
  | cons a l ih =>
      rw [List.pairwise_cons]
      by_cases ha : p a = true
      · rw [List.filter_cons_of_pos ha, List.takeWhile_cons_of_pos ha,
          List.cons.injEq, ih]
        simp [ha]
      · rw [List.filter_cons_of_neg ha, List.takeWhile_cons_of_neg ha,
          List.filter_eq_nil_iff]
        constructor
        · intro hnone
          refine ⟨fun b hb hpb => absurd hpb (hnone b hb), ?_⟩
          apply List.pairwise_of_forall_mem_list
          exact fun _ _ b hb hpb => absurd hpb (hnone b hb)
        · intro hpairs b hb hpb
          obtain ⟨hall, -⟩ := hpairs
          exact ha (hall b hb hpb)

/-- What is inserted of a page that loads: the rows in front of the
first defective one, the rest never counting for the map. -/
theorem loadRows_inserted {info' : INFO_MAP}
    (h : Cdbdo.loadRows atof info page = some info') :
    insertedRows atof info page = page.takeWhile DbRow.complete
      ∧ Cdbdo.loadRows atof info (page.takeWhile DbRow.complete)
        = some info'
      ∧ ∀ r ∈ page.find? (fun r => !r.complete), r.Readable := by
  induction page generalizing info with
  | nil =>
      refine ⟨rfl, h, ?_⟩
      intro r hr
      cases hr
  | cons row rows ih =>
      by_cases hrow : row.complete = true
      · rw [Cdbdo.loadRows] at h
        rw [insertedRows, List.takeWhile_cons_of_pos hrow, Cdbdo.loadRows,
          List.find?_cons_of_neg (by simp [hrow])]
        cases hload : Cdbdo.loadRow atof info row with
        | none =>
            rw [hload] at h
            cases h
        | some next =>
            cases next with
            | none => exact absurd hload (loadRow_complete hrow)
            | some info₁ =>
                rw [hload] at h
                obtain ⟨hins, hrest, hread⟩ := ih h
                exact ⟨congrArg (row :: ·) hins, hrest, hread⟩
      · have hdef : row.complete = false := by simpa using hrow
        obtain ⟨hskip, hfault⟩ := loadRow_defective atof info hdef
        rw [Cdbdo.loadRows] at h
        rw [insertedRows, List.takeWhile_cons_of_neg hrow,
          List.find?_cons_of_pos (by simp [hdef])]
        by_cases hread : row.Readable
        · rw [hskip hread] at h ⊢
          refine ⟨rfl, h, ?_⟩
          intro r hr
          cases hr
          exact hread
        · rw [hfault hread] at h
          cases h

/-- A page whose complete front loads and whose first defective row can
be read loads to the same map. -/
theorem loadRows_front {info' : INFO_MAP}
    (h : Cdbdo.loadRows atof info (page.takeWhile DbRow.complete)
      = some info')
    (hread : ∀ r ∈ page.find? (fun r => !r.complete), r.Readable) :
    Cdbdo.loadRows atof info page = some info' := by
  induction page generalizing info with
  | nil => exact h
  | cons row rows ih =>
      by_cases hrow : row.complete = true
      · rw [List.takeWhile_cons_of_pos hrow, Cdbdo.loadRows] at h
        rw [List.find?_cons_of_neg (by simp [hrow])] at hread
        rw [Cdbdo.loadRows]
        cases hload : Cdbdo.loadRow atof info row with
        | none =>
            rw [hload] at h
            cases h
        | some next =>
            cases next with
            | none => exact absurd hload (loadRow_complete hrow)
            | some info₁ =>
                rw [hload] at h
                exact ih h hread
      · have hdef : row.complete = false := by simpa using hrow
        rw [List.takeWhile_cons_of_neg hrow] at h
        rw [List.find?_cons_of_pos (by simp [hdef])] at hread
        have hkept := (loadRow_defective atof info hdef).1 (hread row rfl)
        rw [Cdbdo.loadRows, hkept]
        exact h

/-- Only complete rows are inserted, in their order. -/
theorem insertedRows_sublist (info : INFO_MAP) (page : List DbRow) :
    (insertedRows atof info page).Sublist (page.filter DbRow.complete) := by
  induction page generalizing info with
  | nil => exact List.Sublist.refl []
  | cons row rows ih =>
      rw [insertedRows]
      by_cases hrow : row.complete = true
      · rw [List.filter_cons_of_pos hrow]
        cases Cdbdo.loadRow atof info row with
        | none => exact List.nil_sublist _
        | some next =>
            cases next with
            | none => exact List.nil_sublist _
            | some info₁ => exact (ih info₁).cons_cons row
      · have hdef : row.complete = false := by simpa using hrow
        obtain ⟨hskip, hfault⟩ := loadRow_defective atof info hdef
        by_cases hread : row.Readable
        · rw [hskip hread]
          exact List.nil_sublist _
        · rw [hfault hread]
          exact List.nil_sublist _

/-- A page loads to what its complete rows load to, all of them inserted,
exactly if its defective rows are harmless. -/
theorem harmless_iff {info' : INFO_MAP}
    (h : Cdbdo.loadRows atof info (page.filter DbRow.complete)
      = some info') :
    (∃ info₁, Cdbdo.loadRows atof info page = some info₁
        ∧ insertedRows atof info page = page.filter DbRow.complete)
      ↔ Harmless page := by
  unfold Harmless
  rw [← filter_eq_takeWhile_iff]
  constructor
  · intro hloaded
    obtain ⟨info₁, hload, hins⟩ := hloaded
    obtain ⟨hfront, -, hread⟩ := loadRows_inserted hload
    exact ⟨hins.symm.trans hfront, hread⟩
  · intro hharmless
    obtain ⟨hfront, hread⟩ := hharmless
    rw [hfront] at h ⊢
    have hload := loadRows_front h hread
    exact ⟨info', hload, (loadRows_inserted hload).1⟩

-- ============================================================== the pages

/-- The rows of all pages that are inserted. -/
def insertedPages (atof : List UInt8 → Rat) (pages : Nat → List DbRow)
    (info : INFO_MAP) : List Nat → List DbRow
  | [] => []
  | m :: ms =>
      insertedRows atof info (pages m)
        ++ match Cdbdo.loadRows atof info (pages m) with
          | none => []
          | some info' => insertedPages atof pages info' ms

/-- The complete rows of the pages. -/
def completeRows (pages : Nat → List DbRow) (m : Nat) : List DbRow :=
  (pages m).filter DbRow.complete

/-- `getdb` of these pages, into an empty map. -/
def getdbPages (atof : List UInt8 → Rat) (pages : Nat → List DbRow) :
    Option (INFO_MAP × Bool) :=
  Cdbdo.getdb atof true (fun m => some (pages m)) INFO_MAP.empty

/-- The map is the one the complete rows give, and all of them are
inserted. -/
def CostsOnlyItself (atof : List UInt8 → Rat) (pages : Nat → List DbRow) :
    Prop :=
  getdbPages atof pages = getdbPages atof (completeRows pages)
    ∧ insertedPages atof pages INFO_MAP.empty Cdbdo.pageStarts
      = Cdbdo.pageStarts.flatMap (completeRows pages)

variable {pages : Nat → List DbRow} {ms : List Nat}

theorem insertedPages_sublist (info : INFO_MAP) (ms : List Nat) :
    (insertedPages atof pages info ms).Sublist
      (ms.flatMap (completeRows pages)) := by
  induction ms generalizing info with
  | nil => exact List.Sublist.refl []
  | cons m ms ih =>
      rw [insertedPages, List.flatMap_cons]
      apply List.Sublist.append (insertedRows_sublist info (pages m))
      cases Cdbdo.loadRows atof info (pages m) with
      | none => exact List.nil_sublist _
      | some info' => exact ih info'

/-- Reading on from a page. -/
theorem loadPages_step (pages : Nat → List DbRow) (info : INFO_MAP)
    (m : Nat) (ms : List Nat) :
    Cdbdo.loadPages atof (fun m => some (pages m)) info (m :: ms)
      = (Cdbdo.loadRows atof info (pages m)).bind fun info' =>
        Cdbdo.loadPages atof (fun m => some (pages m)) info' ms := by
  simp only [Cdbdo.loadPages]
  cases Cdbdo.loadRows atof info (pages m) with
  | none => rfl
  | some info' => rfl

/-- A page of which all complete rows are inserted gives the map that
these give. -/
theorem loadRows_same {info' info₁ : INFO_MAP} {m : Nat}
    (hload : Cdbdo.loadRows atof info (completeRows pages m) = some info')
    (hload₁ : Cdbdo.loadRows atof info (pages m) = some info₁)
    (hins : insertedRows atof info (pages m) = completeRows pages m) :
    info₁ = info' := by
  obtain ⟨hfront, hrows, -⟩ := loadRows_inserted hload₁
  rw [← hfront, hins, hload] at hrows
  exact (Option.some.inj hrows).symm

/-- Over a list of pages, from any map. -/
theorem loadPages_iff {r : INFO_MAP × Bool}
    (h : Cdbdo.loadPages atof (fun m => some (completeRows pages m)) info
      ms = some r) :
    (Cdbdo.loadPages atof (fun m => some (pages m)) info ms = some r
      ∧ insertedPages atof pages info ms
        = ms.flatMap (completeRows pages))
      ↔ ∀ m ∈ ms, Harmless (pages m) := by
  induction ms generalizing info with
  | nil => exact iff_of_true ⟨h, rfl⟩ (by simp)
  | cons m ms ih =>
      rw [loadPages_step] at h
      obtain ⟨info', hload, hrest⟩ := Option.bind_eq_some_iff.mp h
      have hpage := harmless_iff hload
      rw [loadPages_step, insertedPages, List.flatMap_cons,
        List.forall_mem_cons, ← hpage]
      constructor
      · intro hloaded
        obtain ⟨hall, hins⟩ := hloaded
        obtain ⟨info₁, hload₁, hrest₁⟩ := Option.bind_eq_some_iff.mp hall
        simp only [hload₁] at hins
        -- neither part can make up for what the other lacks
        have hle₁ : (insertedRows atof info (pages m)).length
            ≤ (completeRows pages m).length :=
          (insertedRows_sublist info (pages m)).length_le
        have hle₂ : (insertedPages atof pages info₁ ms).length
            ≤ (ms.flatMap (completeRows pages)).length :=
          (insertedPages_sublist info₁ ms).length_le
        have hlen := congrArg List.length hins
        rw [List.length_append, List.length_append] at hlen
        have hsplit := List.append_inj hins (by
          unfold completeRows at hlen hle₁ hle₂ ⊢
          omega)
        obtain ⟨hone, hothers⟩ := hsplit
        have hsame := loadRows_same hload hload₁ hone
        refine ⟨⟨info₁, hload₁, hone⟩, (ih hrest).mp ?_⟩
        rw [hsame] at hrest₁ hothers
        exact ⟨hrest₁, hothers⟩
      · intro hparts
        obtain ⟨⟨info₁, hload₁, hone⟩, hharmless⟩ := hparts
        have hsame := loadRows_same hload hload₁ hone
        obtain ⟨hrest₁, hothers⟩ := (ih hrest).mpr hharmless
        simp only [hload₁, hsame, Option.bind_some, hone, hothers]
        exact ⟨hrest₁, rfl⟩

/-- Where the complete rows load, the defective ones cost only
themselves exactly if they are harmless in every page. -/
theorem costsOnlyItself_iff (atof : List UInt8 → Rat)
    (pages : Nat → List DbRow) (r : INFO_MAP × Bool)
    (hbuilt : getdbPages atof (completeRows pages) = some r) :
    CostsOnlyItself atof pages
      ↔ ∀ m ∈ Cdbdo.pageStarts, Harmless (pages m) := by
  unfold CostsOnlyItself
  rw [hbuilt]
  exact loadPages_iff hbuilt

/-- A row without a latitude. -/
def noLatitude : DbRow where
  lat := none
  lng := some (bytes "114.06".toList)
  offsetlng := none
  offsetlat := none

/-- All rows on the first page. -/
def firstPage (rows : List DbRow) (m : Nat) : List DbRow :=
  if m = 0 then rows else []

/-- One complete row on the first page, and any defective ones: the
complete one alone gives its latitude a table. -/
theorem getdbPages_single (rows : List DbRow)
    (hrows : rows.filter DbRow.complete = [shenzhen.fetched]) :
    ∃ info, getdbPages atofHundredths (completeRows (firstPage rows))
        = some (info, false)
      ∧ info 2254 ≠ none := by
  have hpages : completeRows (firstPage rows)
      = fun m => (onePage [shenzhen] m).map Row.fetched := by
    funext m
    unfold completeRows firstPage onePage
    by_cases hm : m = 0
    · rw [if_pos hm, if_pos hm, hrows]
      rfl
    · rw [if_neg hm, if_neg hm]
      rfl
  have hfew := fewPerLatitude_single shenzhen
  have hconv : Convertible (loaded (onePage [shenzhen])) := by
    rw [loaded_onePage]
    decide
  have hgetdb : ∃ info, getdbOf atofHundredths (onePage [shenzhen])
        = some (info, false)
      ∧ Tables atofHundredths info (loaded (onePage [shenzhen])) :=
    getdb_tables hfew hconv
  obtain ⟨info, hload, htables⟩ := hgetdb
  have hrows' : ¬ rowsAt atofHundredths 2254 (loaded (onePage [shenzhen]))
      = [] := by
    rw [loaded_onePage]
    decide
  obtain ⟨a, ha, -⟩ := htables.holds hfew hrows'
  refine ⟨info, ?_, ?_⟩
  · rw [hpages]
    exact hload
  · rw [ha]
    simp

theorem nullLast_costsOnlyItself :
    CostsOnlyItself atofHundredths
      (firstPage [shenzhen.fetched, noLatitude]) := by
  obtain ⟨info, hbuilt, -⟩ :=
    getdbPages_single [shenzhen.fetched, noLatitude] rfl
  apply (costsOnlyItself_iff atofHundredths _ _ hbuilt).mpr
  intro m _
  unfold firstPage
  by_cases hm : m = 0
  · rw [if_pos hm]
    refine ⟨by simp [shenzhen, Row.fetched, DbRow.complete], ?_⟩
    intro r hr lat hlat
    have hr' : r = noLatitude := by
      simpa [shenzhen, Row.fetched, DbRow.complete, noLatitude] using hr.symm
    rw [hr'] at hlat
    cases hlat
  · rw [if_neg hm]
    refine ⟨List.Pairwise.nil, ?_⟩
    intro r hr
    cases hr

/-- A row without a latitude in front of the only complete one: the map
stays empty. -/
theorem not_costsOnlyItself :
    ¬ ∀ (atof : List UInt8 → Rat) (pages : Nat → List DbRow)
      (r : INFO_MAP × Bool),
      getdbPages atof (completeRows pages) = some r →
      getdbPages atof pages = some r := by
  intro hall
  obtain ⟨info, hbuilt, htable⟩ :=
    getdbPages_single [noLatitude, shenzhen.fetched] rfl
  have hload := hall atofHundredths _ _ hbuilt
  have hempty : getdbPages atofHundredths
      (firstPage [noLatitude, shenzhen.fetched])
        = some (INFO_MAP.empty, false) := by
    unfold getdbPages Cdbdo.getdb Cdbdo.pageStarts
    simp [MAX_RECORD, COUNT_PER_READ, List.range_succ, loadPages_step,
      firstPage, Cdbdo.loadRows, Cdbdo.loadRow, noLatitude, Cdbdo.loadPages]
  rw [hempty, Option.some.injEq, Prod.mk.injEq] at hload
  rw [← hload.1] at htable
  exact htable rfl

end CorrectGps
