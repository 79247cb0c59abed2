/-
The correction, end to end: rows in, corrected coordinates out.

# The lookup

`found` is the row a lookup ends at, read off the layout of the table:
the one at the probe if it has the key, else the first one with it,
unused slots included. Three things make it differ from the first loaded
row with the key: a row the table has lost, a zeroed slot where the key
is 0, and a second copy of a key at the probe. And if it finds nothing,
the point `getGpsxy` returns was never assigned. `Shows` is what is left
when none of these happens (`shows_iff`).

# The correction

`corrects_iff` puts this together with the loading: the corrected
coordinates are the expected ones, whatever the unassigned point holds,
exactly if the key texts fit and the latitude has no rows or `Shows` the
longitude.
-/
import CorrectGps.Ccorrectit
import CorrectGps.Proofs.Load

namespace CorrectGps

open Lib CClient

variable {atof : List UInt8 → Rat} {rows : List Row} {info : INFO_MAP}

/-- The offsets of a row. -/
def Coffsetdata.offsets (t : Coffsetdata) : Rat × Rat := (t.dx, t.dy)

namespace CXArray

-- ============================================================= the lookup

/-- The slots of a table that holds `l`. -/
def slots (l : List Coffsetdata) : List Coffsetdata :=
  l ++ List.replicate (ARRAY_COUNT - l.length) .zeroed

/-- Where `getGpsxy` looks first: the distance from the first key. -/
def probe (l : List Coffsetdata) (k : UInt32) : Nat :=
  (k - (l.getD 0 .zeroed).x).toNat

/-- The row a lookup of `k` ends at: the one at the probe if it has the
key, else the first one that has. -/
def found (l : List Coffsetdata) (k : UInt32) : Option Coffsetdata :=
  if k = (l.getD (probe l k) .zeroed).x then
    some (l.getD (probe l k) .zeroed)
  else (slots l).find? fun t => k = t.x

/-- The lookup, of a table with known contents. -/
theorem getGpsxy_eq {a : CXArray} {l : List Coffsetdata} (h : a.Holds l)
    (gpsxy baiduxy : CPOI) (k : UInt32) :
    a.getGpsxy gpsxy baiduxy k
      = if probe l k < ARRAY_COUNT then
          some (match found l k with
            | some t => { dx := baiduxy.dx - t.dx, dy := baiduxy.dy - t.dy }
            | none => gpsxy)
        else none := by
  have hslots : (slots l).length = ARRAY_COUNT := by
    rw [show slots l = a.arraylng.val from h.slots.symm]
    exact a.arraylng.property
  have hgetD : ∀ i, (slots l).getD i .zeroed = a.slot i := by
    intro i
    rw [show slots l = a.arraylng.val from h.slots.symm]
    rfl
  have hprobe : (k - (a.slot 0).x).toNat = probe l k := by
    unfold probe
    rw [h.slot]
  have hfind := find_eq_scan (fun t : Coffsetdata => decide (k = t.x))
    .zeroed (slots l)
  rw [hslots] at hfind
  simp only [hgetD] at hfind
  unfold CXArray.getGpsxy CXArray.search
  simp only [hprobe]
  by_cases hin : probe l k < ARRAY_COUNT
  · rw [if_pos hin, if_pos hin]
    unfold found
    rw [← h.slot]
    by_cases hat : k = (a.slot (probe l k)).x
    · rw [if_pos hat, if_pos hat, Option.map_some, if_pos hin]
    · rw [if_neg hat, if_neg hat, hfind, Option.map_some]
      split
      · rfl
      · rfl
  · rw [if_neg hin, if_neg hin]
    rfl

-- ======================================================== what it shows

/-- The first loaded row with key `k`. -/
def first (ts : List Coffsetdata) (k : UInt32) : Option Coffsetdata :=
  ts.find? fun t => k = t.x

/-- The offsets to correct by: those of the first loaded row with the
key, none if there is no such row. -/
def offsetsOf (ts : List Coffsetdata) (k : UInt32) : Rat × Rat :=
  match first ts k with
  | some t => t.offsets
  | none => (0, 0)

/-- The rows `ts` of a latitude serve key `k`. First, `k` is less than
`ARRAY_COUNT` above the key in front. Then, if the slot at that distance
has the key `k`, it is no later copy with other offsets. If it has not,
and a row with key `k` was loaded, the first one is not lost, or a copy
with its offsets has come after it; if none was, `k` is 0 and there is a
zeroed slot. -/
def Shows (ts : List Coffsetdata) (k : UInt32) : Prop :=
  let l := CXArray.layout ts
  let p := l.getD (probe l k) .zeroed
  probe l k < ARRAY_COUNT
    ∧ if k = p.x then p.offsets = offsetsOf ts k
      else match first ts k with
        | some t => (first l k).map Coffsetdata.offsets = some t.offsets
        | none => k = 0
            ∧ (l.length < ARRAY_COUNT ∨ ¬ CXArray.FirstIsLeast ts)

instance (ts : List Coffsetdata) (k : UInt32) : Decidable (Shows ts k) := by
  unfold Shows
  cases first ts k with
  | none => infer_instance
  | some t => infer_instance

/-- A table contains its rows and zeroed ones. -/
theorem mem_layout {t : Coffsetdata} {ts : List Coffsetdata}
    (h : t ∈ CXArray.layout ts) : t ∈ ts ∨ t = .zeroed := by
  rcases CXArray.firstIsLeast_or_split ts with
    hleast | ⟨f, early, g, later, rfl, hearly, hg⟩
  · rw [CXArray.layout_of_firstIsLeast hleast] at h
    exact Or.inl (mem_of_mem_shelf h)
  · rw [CXArray.layout_of_below hearly hg] at h
    rcases List.mem_append.mp h with h | h
    · rcases List.mem_cons.mp h with h | h
      · rw [h]
        exact Or.inl (by simp)
      · have hmem := mem_of_mem_shelf (List.mem_of_mem_dropLast h)
        rcases List.mem_cons.mp hmem with hmem | hmem
        · rw [hmem]
          exact Or.inl (by simp)
        · exact Or.inl (by simp [hmem])
    · rcases List.mem_cons.mp (mem_of_mem_shelf h) with h | h
      · exact Or.inr h
      · exact Or.inl (by simp [h])

/-- After a row in front there is a zeroed slot in use. -/
theorem zeroed_mem_layout {ts : List Coffsetdata}
    (h : ¬ CXArray.FirstIsLeast ts) : .zeroed ∈ CXArray.layout ts := by
  rcases CXArray.firstIsLeast_or_split ts with
    hleast | ⟨f, early, g, later, rfl, hearly, hg⟩
  · exact absurd hleast h
  · rw [CXArray.layout_of_below hearly hg]
    exact List.mem_append_right _ (head_mem_shelf .zeroed later)

/-- The first row with a key, if no row is below the first one. -/
theorem first_layout {ts : List Coffsetdata} (h : CXArray.FirstIsLeast ts)
    (k : UInt32) : first (CXArray.layout ts) k = first ts k := by
  have hkey : ∀ l : List Coffsetdata,
      first l k = l.find? fun t => t.key = k.toNat := by
    intro l
    unfold first
    congr 1
    funext t
    rw [decide_eq_decide]
    show k = t.x ↔ t.x.toNat = k.toNat
    rw [UInt32.toNat_inj, eq_comm]
  rw [hkey, hkey, CXArray.layout_of_firstIsLeast h]
  exact shelf_find ts k.toNat

theorem first_eq_none_iff {l : List Coffsetdata} {k : UInt32} :
    first l k = none ↔ ∀ t ∈ l, k ≠ t.x := by
  unfold first
  rw [List.find?_eq_none]
  simp

/-- A scan over the slots: the first row in use with the key, else for
key 0 an unused slot. -/
theorem find_slots (l : List Coffsetdata) (k : UInt32) :
    (slots l).find? (fun t => k = t.x) = match first l k with
      | some t => some t
      | none => if k = 0 ∧ l.length < ARRAY_COUNT then some .zeroed
        else none := by
  unfold slots
  rw [List.find?_append]
  show (first l k).or _ = _
  cases first l k with
  | some t => rfl
  | none =>
      rw [Option.none_or]
      by_cases hroom : l.length < ARRAY_COUNT
      · obtain ⟨n, hn⟩ : ∃ n, ARRAY_COUNT - l.length = n + 1 :=
          ⟨ARRAY_COUNT - l.length - 1, by omega⟩
        rw [hn]
        by_cases hk : k = 0
        · have hzero : decide (k = Coffsetdata.zeroed.x) = true :=
            decide_eq_true hk
          rw [List.replicate_succ, List.find?_cons, hzero]
          exact (if_pos ⟨hk, hroom⟩).symm
        · have hnone : ∀ t ∈ List.replicate (n + 1) Coffsetdata.zeroed,
              ¬ decide (k = t.x) = true := by
            intro t ht
            rw [List.eq_of_mem_replicate ht, decide_eq_true_eq]
            exact hk
          rw [List.find?_eq_none.mpr hnone]
          exact (if_neg fun hc => hk hc.1).symm
      · have hzero : ARRAY_COUNT - l.length = 0 := by omega
        rw [hzero]
        exact (if_neg fun hc => hroom hc.2).symm

/-- A latitude serves a key exactly if the lookup ends, within the
array, at a row with the right offsets. -/
theorem shows_iff (ts : List Coffsetdata) (k : UInt32) :
    Shows ts k ↔ probe (CXArray.layout ts) k < ARRAY_COUNT
      ∧ (found (CXArray.layout ts) k).map Coffsetdata.offsets
        = some (offsetsOf ts k) := by
  unfold Shows found
  apply and_congr_right
  intro _
  by_cases hat : k = ((CXArray.layout ts).getD
      (probe (CXArray.layout ts) k) .zeroed).x
  · rw [if_pos hat, if_pos hat]
    simp
  · rw [if_neg hat, if_neg hat, find_slots]
    unfold offsetsOf
    cases hfirst : first ts k with
    | some t =>
        cases hl : first (CXArray.layout ts) k with
        | some s => rfl
        | none =>
            -- a loaded key 0 is never missing from the table
            have hk : k ≠ 0 := by
              intro hk
              by_cases hleast : CXArray.FirstIsLeast ts
              · rw [first_layout hleast, hfirst] at hl
                cases hl
              · have hzero := zeroed_mem_layout hleast
                exact first_eq_none_iff.mp hl _ hzero hk
            simp [hk]
    | none =>
        have hnew := first_eq_none_iff.mp hfirst
        cases hl : first (CXArray.layout ts) k with
        | some s =>
            -- only a zeroed row can have the key
            have hs : s ∈ CXArray.layout ts := List.mem_of_find?_eq_some hl
            have hsk : k = s.x := by simpa using List.find?_some hl
            rcases mem_layout hs with hmem | hzero
            · exact absurd hsk (hnew s hmem)
            · have hk : k = 0 := by
                rw [hsk, hzero]
                rfl
              have hleast : ¬ CXArray.FirstIsLeast ts := by
                intro hleast
                rw [first_layout hleast, hfirst] at hl
                cases hl
              rw [hzero]
              exact iff_of_true ⟨hk, Or.inr hleast⟩ rfl
        | none =>
            have hleast : k = 0 → CXArray.FirstIsLeast ts := by
              intro hk
              by_contra hnot
              exact first_eq_none_iff.mp hl _ (zeroed_mem_layout hnot) hk
            by_cases hc : k = 0 ∧ (CXArray.layout ts).length < ARRAY_COUNT
            · show _ ↔ Option.map _ (if _ then _ else _) = _
              rw [if_pos hc]
              exact iff_of_true ⟨hc.1, Or.inl hc.2⟩ rfl
            · show _ ↔ Option.map _ (if _ then _ else _) = _
              rw [if_neg hc]
              refine iff_of_false ?_ (by simp)
              intro h
              rcases h.2 with hroom | hnot
              · exact hc ⟨h.1, hroom⟩
              · exact hnot (hleast h.1)

end CXArray

-- ========================================================== the correction

/-- The first loaded row with the keys of these two texts. -/
def Ccorrectit.firstRow (rows : List Row) (x y : List UInt8) : Option Row :=
  rows.find? fun r =>
    chang2uint r.lat = chang2uint y ∧ chang2uint r.lng = chang2uint x

/-- What the corrected coordinates should be. -/
def Ccorrectit.expected (atof : List UInt8 → Rat) (rows : List Row)
    (x y : List UInt8) : CPOI :=
  match firstRow rows x y with
  | some r => ⟨atof x - atof r.offsetlng, atof y - atof r.offsetlat⟩
  | none => ⟨atof x, atof y⟩

/-- Loaded from these pages, the tables correct this client as
expected, whatever an unassigned point holds. -/
def Corrects (atof : List UInt8 → Rat) (pages : Nat → List Row)
    (c : CClient) : Prop :=
  ∀ gpsxy : CPOI, ∃ info c', getdbOf atof pages = some (info, false)
    ∧ Ccorrectit.correctgps_worker atof gpsxy info c = some c'
    ∧ c'.xgps = (Ccorrectit.expected atof (loaded pages) (c.str .xbaidu)
      (c.str .ybaidu)).dx
    ∧ c'.ygps = (Ccorrectit.expected atof (loaded pages) (c.str .xbaidu)
      (c.str .ybaidu)).dy

/-- All key texts that are converted fit, and the latitude has no rows
or they serve the longitude key. -/
def Correctable (atof : List UInt8 → Rat) (rows : List Row)
    (x y : List UInt8) : Prop :=
  Convertible rows ∧ ∃ y1, chang2uint y = some y1
    ∧ (rowsAt atof y1 rows = [] ∨ ∃ x1, chang2uint x = some x1
      ∧ CXArray.Shows (rowsAt atof y1 rows) x1)

/-- The first row with both keys, seen among the rows of its latitude. -/
theorem first_rowsAt (rows : List Row) (x1 y1 : UInt32) :
    CXArray.first (rowsAt atof y1 rows) x1
      = (rows.find? fun r => chang2uint r.lat = some y1
          ∧ chang2uint r.lng = some x1).map fun r => r.entry atof x1 := by
  unfold CXArray.first
  induction rows with
  | nil => rfl
  | cons r rows ih =>
      rw [← List.singleton_append, rowsAt_append, List.find?_append,
        List.find?_append, ih]
      by_cases hy : chang2uint r.lat = some y1
      · cases hk : chang2uint r.lng with
        | none => simp [rowsAt, hy, hk]
        | some k =>
            by_cases hkx : k = x1
            · simp [rowsAt, hy, hk, hkx, Row.entry]
            · have hxk : ¬ x1 = k := fun he => hkx he.symm
              simp [rowsAt, hy, hk, hkx, hxk, Row.entry]
      · simp [rowsAt, hy]

/-- The expected point, by the rows of the latitude. -/
theorem Ccorrectit.expected_eq {x y : List UInt8} {x1 y1 : UInt32}
    (hx : chang2uint x = some x1) (hy : chang2uint y = some y1) :
    expected atof rows x y
      = ⟨atof x - (CXArray.offsetsOf (rowsAt atof y1 rows) x1).1,
        atof y - (CXArray.offsetsOf (rowsAt atof y1 rows) x1).2⟩ := by
  unfold expected firstRow CXArray.offsetsOf
  rw [hx, hy, first_rowsAt]
  cases rows.find? _ with
  | some r => rfl
  | none => simp

/-- The expected point where the latitude has no rows. -/
theorem Ccorrectit.expected_absent (hconv : Convertible rows)
    {x y : List UInt8} {y1 : UInt32} (hy : chang2uint y = some y1)
    (hnil : rowsAt atof y1 rows = []) :
    expected atof rows x y = ⟨atof x, atof y⟩ := by
  have hnone : firstRow rows x y = none := by
    unfold firstRow
    rw [List.find?_eq_none]
    intro r hr hc
    have hlat := (rowsAt_eq_nil_iff hconv y1).mp hnil r hr
    rw [decide_eq_true_eq, hy] at hc
    exact hlat hc.1
  unfold expected
  rw [hnone]

variable {c : CClient} {pages : Nat → List Row}

/-- The members are read as far as their NUL. -/
theorem text_eq {f : Field} (h : 0 ∈ c.member f) :
    c.text f = some (c.str f) := if_pos h

/-- A latitude key text that is too long. -/
theorem worker_latitude_none (info : INFO_MAP) (gpsxy : CPOI)
    (hxz : 0 ∈ c.member .xbaidu) (hyz : 0 ∈ c.member .ybaidu)
    (hy : chang2uint (c.str .ybaidu) = none) :
    Ccorrectit.correctgps_worker atof gpsxy info c = none := by
  unfold Ccorrectit.correctgps_worker
  simp only [text_eq hxz, text_eq hyz, hy]

/-- A latitude without rows. -/
theorem worker_absent (h : Tables atof info rows) (gpsxy : CPOI)
    (hxz : 0 ∈ c.member .xbaidu) (hyz : 0 ∈ c.member .ybaidu)
    {y1 : UInt32} (hy : chang2uint (c.str .ybaidu) = some y1)
    (hnil : rowsAt atof y1 rows = []) :
    Ccorrectit.correctgps_worker atof gpsxy info c
      = some (c.corrected
        ⟨atof (c.str .xbaidu), atof (c.str .ybaidu)⟩) := by
  have htable : info y1 = none := by
    rw [h y1, if_pos hnil]
  unfold Ccorrectit.correctgps_worker
  simp only [text_eq hxz, text_eq hyz, hy, htable]

/-- A longitude key text that is too long, where it is converted. -/
theorem worker_longitude_none (h : Tables atof info rows)
    (hfew : FewPerLatitude rows) (gpsxy : CPOI)
    (hxz : 0 ∈ c.member .xbaidu) (hyz : 0 ∈ c.member .ybaidu)
    {y1 : UInt32} (hy : chang2uint (c.str .ybaidu) = some y1)
    (hrows : ¬ rowsAt atof y1 rows = [])
    (hx : chang2uint (c.str .xbaidu) = none) :
    Ccorrectit.correctgps_worker atof gpsxy info c = none := by
  obtain ⟨a, ha, -⟩ := h.holds hfew hrows
  unfold Ccorrectit.correctgps_worker
  simp only [text_eq hxz, text_eq hyz, hy, ha, hx]

/-- A lookup in the table of a latitude. -/
theorem worker_lookup (h : Tables atof info rows)
    (hfew : FewPerLatitude rows) (gpsxy : CPOI)
    (hxz : 0 ∈ c.member .xbaidu) (hyz : 0 ∈ c.member .ybaidu)
    {x1 y1 : UInt32} (hy : chang2uint (c.str .ybaidu) = some y1)
    (hrows : ¬ rowsAt atof y1 rows = [])
    (hx : chang2uint (c.str .xbaidu) = some x1) :
    Ccorrectit.correctgps_worker atof gpsxy info c
      = if CXArray.probe (CXArray.layout (rowsAt atof y1 rows)) x1
          < ARRAY_COUNT then
        some (c.corrected
          (match CXArray.found (CXArray.layout (rowsAt atof y1 rows)) x1 with
            | some t => ⟨atof (c.str .xbaidu) - t.dx,
                atof (c.str .ybaidu) - t.dy⟩
            | none => gpsxy))
      else none := by
  obtain ⟨a, ha, hholds⟩ := h.holds hfew hrows
  unfold Ccorrectit.correctgps_worker
  simp only [text_eq hxz, text_eq hyz, hy, ha, hx, CXArray.getGpsxy_eq hholds]
  split
  · rfl
  · rfl

/-- What `Corrects` says once the tables are loaded. -/
theorem corrects_iff_worker
    (hload : getdbOf atof pages = some (info, false)) :
    Corrects atof pages c ↔ ∀ gpsxy : CPOI, ∃ c',
      Ccorrectit.correctgps_worker atof gpsxy info c = some c'
      ∧ c'.xgps = (Ccorrectit.expected atof (loaded pages) (c.str .xbaidu)
        (c.str .ybaidu)).dx
      ∧ c'.ygps = (Ccorrectit.expected atof (loaded pages) (c.str .xbaidu)
        (c.str .ybaidu)).dy := by
  unfold Corrects
  apply forall_congr'
  intro gpsxy
  constructor
  · intro h
    obtain ⟨info', c', hload', hrest⟩ := h
    rw [hload] at hload'
    cases hload'
    exact ⟨c', hrest⟩
  · intro h
    obtain ⟨c', hrest⟩ := h
    exact ⟨info, c', hload, hrest⟩

/-- The point of a lookup is right, whatever the unassigned one holds,
exactly if the lookup ends at a row with the right offsets. -/
theorem point_iff (o : Option Coffsetdata) (near : Prop)
    [Decidable near] (x y : Rat) (d : Rat × Rat) :
    (∀ gpsxy : CPOI, ∃ c', (if near then some (c.corrected (match o with
        | some t => ⟨x - t.dx, y - t.dy⟩
        | none => gpsxy)) else none) = some c'
      ∧ c'.xgps = x - d.1 ∧ c'.ygps = y - d.2)
      ↔ near ∧ o.map Coffsetdata.offsets = some d := by
  constructor
  · intro h
    -- an unassigned point that is not the right one
    obtain ⟨c', hc, hx, hy⟩ := h ⟨x - d.1 + 1, 0⟩
    split at hc
    · next hnear =>
      cases hc
      refine ⟨hnear, ?_⟩
      cases o with
      | some t =>
          have hdx : x - t.dx = x - d.1 := hx
          have hdy : y - t.dy = y - d.2 := hy
          rw [sub_right_inj] at hdx hdy
          show some (t.dx, t.dy) = some d
          rw [hdx, hdy]
      | none =>
          have hbad : x - d.1 + 1 = x - d.1 := hx
          exact absurd hbad (by simp)
    · cases hc
  · intro h gpsxy
    obtain ⟨hnear, ho⟩ := h
    cases o with
    | some t =>
        have hd : t.offsets = d := Option.some.inj ho
        refine ⟨_, if_pos hnear, ?_, ?_⟩
        · rw [← hd]
          rfl
        · rw [← hd]
          rfl
    | none => cases ho

-- ============================================================= end to end

/-- With the tables of convertible rows in place. -/
theorem corrects_iff_of_tables (h : Tables atof info (loaded pages))
    (hload : getdbOf atof pages = some (info, false))
    (hfew : FewPerLatitude (loaded pages))
    (hconv : Convertible (loaded pages))
    (hxz : 0 ∈ c.member .xbaidu) (hyz : 0 ∈ c.member .ybaidu) :
    Corrects atof pages c ↔ Correctable atof (loaded pages)
      (c.str .xbaidu) (c.str .ybaidu) := by
  rw [corrects_iff_worker hload]
  unfold Correctable
  rw [and_iff_right hconv]
  cases hy : chang2uint (c.str .ybaidu) with
  | none =>
      refine iff_of_false ?_ (by simp)
      intro hall
      obtain ⟨c', hworker, -⟩ := hall ⟨0, 0⟩
      rw [worker_latitude_none info ⟨0, 0⟩ hxz hyz hy] at hworker
      cases hworker
  | some y1 =>
      by_cases hnil : rowsAt atof y1 (loaded pages) = []
      · refine iff_of_true ?_ ⟨y1, rfl, Or.inl hnil⟩
        intro gpsxy
        rw [Ccorrectit.expected_absent hconv hy hnil]
        exact ⟨_, worker_absent h gpsxy hxz hyz hy hnil, rfl, rfl⟩
      · cases hx : chang2uint (c.str .xbaidu) with
        | none =>
            refine iff_of_false ?_ (by simp [hnil])
            intro hall
            obtain ⟨c', hworker, -⟩ := hall ⟨0, 0⟩
            rw [worker_longitude_none h hfew ⟨0, 0⟩ hxz hyz hy hnil hx]
              at hworker
            cases hworker
        | some x1 =>
            simp only [worker_lookup h hfew _ hxz hyz hy hnil hx,
              Ccorrectit.expected_eq hx hy, point_iff, Option.some.injEq,
              exists_eq_left', hnil, false_or, CXArray.shows_iff]

/-- For complete rows, at most `ARRAY_COUNT` for each latitude, and a
client whose coordinates are terminated, the corrected coordinates are
the expected ones exactly if the rows serve the client. -/
theorem corrects_iff (atof : List UInt8 → Rat) (pages : Nat → List Row)
    (c : CClient) (hfew : FewPerLatitude (loaded pages))
    (hxz : 0 ∈ c.member .xbaidu) (hyz : 0 ∈ c.member .ybaidu) :
    Corrects atof pages c ↔ Correctable atof (loaded pages)
      (c.str .xbaidu) (c.str .ybaidu) := by
  by_cases hconv : Convertible (loaded pages)
  · have hgetdb : ∃ info, getdbOf atof pages = some (info, false)
        ∧ Tables atof info (loaded pages) := getdb_tables hfew hconv
    obtain ⟨info, hload, htables⟩ := hgetdb
    exact corrects_iff_of_tables htables hload hfew hconv hxz hyz
  · refine iff_of_false ?_ fun hcorrectable => hconv hcorrectable.1
    intro hcorrects
    obtain ⟨info, c', hload, -⟩ := hcorrects ⟨0, 0⟩
    rw [getdb_none hfew hconv] at hload
    cases hload

/-- All rows on the first page. -/
def onePage (rows : List Row) (m : Nat) : List Row :=
  if m = 0 then rows else []

theorem loaded_onePage (rows : List Row) :
    loaded (onePage rows) = rows := by
  simp [loaded, onePage, Cdbdo.pageStarts, MAX_RECORD, COUNT_PER_READ,
    List.range_succ]

theorem fewPerLatitude_single (r : Row) :
    FewPerLatitude (loaded (onePage [r])) := by
  intro y
  rw [loaded_onePage]
  apply Nat.le_trans List.countP_le_length
  show 1 ≤ 6600
  omega

/-- A row of the tables, 0.01 and 0.02 off. -/
def shenzhen : Row where
  lat := bytes "22.54".toList
  lng := bytes "114.05".toList
  offsetlng := bytes "0.01".toList
  offsetlat := bytes "0.02".toList

/-- A client at these coordinates. -/
def clientAt (x y : String) : CClient :=
  (CClient.blank.put .xbaidu (bytes x.toList)).put .ybaidu
    (bytes y.toList)

/-- `atof`, of a text with two decimals. -/
def atofHundredths (text : List UInt8) : Rat :=
  (readDigits 0 (text.filter fun b => b != 46) : Rat) / 100

theorem shenzhen_corrects :
    Corrects atofHundredths (onePage [shenzhen])
      (clientAt "114.05" "22.54") := by
  apply (corrects_iff atofHundredths (onePage [shenzhen])
    (clientAt "114.05" "22.54") (fewPerLatitude_single shenzhen)
    (by decide) (by decide)).mpr
  rw [loaded_onePage]
  refine ⟨by decide, 2254, by decide, Or.inr ⟨11405, by decide, ?_⟩⟩
  decide +kernel

/-- A longitude the latitude has no row for: the point is the unassigned
one. -/
theorem not_correctsAll :
    ¬ ∀ (atof : List UInt8 → Rat) (pages : Nat → List Row) (c : CClient),
      FewPerLatitude (loaded pages) → 0 ∈ c.member .xbaidu →
      0 ∈ c.member .ybaidu → Corrects atof pages c := by
  intro hall
  have hfew := fewPerLatitude_single shenzhen
  have hxz : 0 ∈ (clientAt "114.07" "22.54").member .xbaidu := by decide
  have hyz : 0 ∈ (clientAt "114.07" "22.54").member .ybaidu := by decide
  have hcorrects := hall atofHundredths _ _ hfew hxz hyz
  have hconv : Convertible (loaded (onePage [shenzhen])) := by
    rw [loaded_onePage]
    decide
  have hgetdb : ∃ info, getdbOf atofHundredths (onePage [shenzhen])
        = some (info, false)
      ∧ Tables atofHundredths info (loaded (onePage [shenzhen])) :=
    getdb_tables hfew hconv
  obtain ⟨info, hload, htables⟩ := hgetdb
  rw [corrects_iff_of_tables htables hload hfew hconv hxz hyz] at hcorrects
  obtain ⟨-, y1, hy, hserved⟩ := hcorrects
  have hy1 : chang2uint ((clientAt "114.07" "22.54").str .ybaidu)
      = some 2254 := by decide
  have hx1 : chang2uint ((clientAt "114.07" "22.54").str .xbaidu)
      = some 11407 := by decide
  rw [hy1] at hy
  cases hy
  rw [loaded_onePage] at hserved
  rcases hserved with hnil | ⟨x1, hx, hshows⟩
  · exact absurd hnil (by decide)
  · rw [hx1] at hx
    cases hx
    exact absurd hshows (by decide +kernel)

end CorrectGps
