/-
What `append` builds.

# One call

The backward scan splits the used slots at the last key that is not
greater. If such a slot exists the row goes behind it, or is dropped for
an equal key that is not on top (`append_shelved`). If none exists the
row goes to the front, one entry too few is moved, and the top row is
overwritten: a zeroed slot joins the table in its place (`append_front`).

# A sequence

That happens once at most: the zeroed slot has the least key there is,
so every later row goes behind it. `layout` is the resulting table in
closed form, and `appendAll_holds` says the code builds it: the rows
before the first one below the first row, shelved, its top row missing;
that row in front; then a zeroed row and the later rows, shelved.

So a table keeps its rows exactly when no row is below the first one
(`keepsAll_iff`).
-/
import CorrectGps.CXArray
import CorrectGps.Lib.Shelf
import Mathlib.Data.List.TakeWhile

namespace CorrectGps

open Lib

/-- The order of the table: longitudes as numbers. -/
def Coffsetdata.key (t : Coffsetdata) : Nat := t.x.toNat

theorem Coffsetdata.key_eq_iff {s t : Coffsetdata} :
    s.key = t.key ↔ s.x = t.x := UInt32.toNat_inj

theorem Coffsetdata.key_lt_iff {s t : Coffsetdata} :
    s.key < t.key ↔ s.x < t.x := UInt32.lt_iff_toNat_lt.symm

namespace CXArray

variable {a : CXArray} {l lo hi : List Coffsetdata} {t p : Coffsetdata}

-- =============================================================== one call

/-- A write behind the used slots extends them. -/
theorem Holds.store_end (h : a.Holds l) (hroom : l.length < ARRAY_COUNT)
    {b : CXArray}
    (hb : b = { a.store l.length t with index := l.length + 1 }) :
    b.Holds (l ++ [t]) := by
  refine ⟨by rw [hb]; simp, ?_⟩
  have hslots := h.slots
  obtain ⟨k, hk⟩ : ∃ k, ARRAY_COUNT - l.length = k + 1 :=
    ⟨ARRAY_COUNT - l.length - 1, by omega⟩
  rw [hk, List.replicate_succ, ← List.singleton_append] at hslots
  have hblit := blit_split hslots rfl (show [t].length = 1 from rfl)
  rw [hb]
  show (blit a.arraylng l.length [t]).val = _
  rw [hblit, List.length_append, List.append_assoc]
  have : ARRAY_COUNT - (l.length + [t].length) = k := by
    simp only [List.length_singleton]
    omega
  rw [this]

/-- `append` to an empty table. -/
theorem append_empty (h : a.Holds []) (t : Coffsetdata) :
    ∃ b, a.append t = some b ∧ b.Holds [t] := by
  have hindex : a.index = 0 := h.index
  refine ⟨{ a.store 0 t with index := 1 }, ?_, ?_⟩
  · unfold append
    rw [if_pos hindex]
  · exact h.store_end (by decide) rfl

/-- The slot in the middle of known contents. -/
theorem Holds.slot_split (h : a.Holds (lo ++ p :: hi)) :
    a.slot lo.length = p := by
  rw [h.slot, List.getD_eq_getElem?_getD,
    List.getElem?_append_right (Nat.le_refl _), Nat.sub_self]
  rfl

/-- A slot above it. -/
theorem Holds.slot_above (h : a.Holds (lo ++ p :: hi)) {z : Nat}
    (hz : lo.length < z) (hzle : z ≤ lo.length + hi.length) :
    a.slot z ∈ hi := by
  obtain ⟨k, rfl⟩ : ∃ k, z = lo.length + (k + 1) :=
    ⟨z - lo.length - 1, by omega⟩
  have hlt : k < hi.length := by omega
  have hslot : a.slot (lo.length + (k + 1)) = hi[k] := by
    rw [h.slot, List.getD_eq_getElem?_getD,
      List.getElem?_append_right (by omega), Nat.add_sub_cancel_left,
      List.getElem?_cons_succ, List.getElem?_eq_getElem hlt]
    rfl
  rw [hslot]
  exact List.getElem_mem hlt

/-- The scan stops at the last key that is not greater. -/
theorem append_split (h : a.Holds (lo ++ p :: hi)) (hp : p.key ≤ t.key)
    (hhi : ∀ s ∈ hi, t.key < s.key) :
    a.append t = a.placeAt lo.length t := by
  have hlen := h.length_le
  have hindex := h.index
  rw [List.length_append, List.length_cons] at hindex hlen
  have hscan : scanDown (fun i => decide (t.x < (a.slot i).x))
      (a.index - 1) = lo.length := by
    apply scanDown_eq
    · omega
    · intro z hz hzle
      have hmem : a.slot z ∈ hi := h.slot_above hz (by omega)
      exact decide_eq_true (Coffsetdata.key_lt_iff.mp (hhi _ hmem))
    · refine Or.inr (decide_eq_false ?_)
      rw [h.slot_split, ← Coffsetdata.key_lt_iff]
      omega
  unfold append
  rw [if_neg (by omega), if_pos (by omega), hscan]

/-- `append` behind the last slot in use. -/
theorem append_end (h : a.Holds (lo ++ [p])) (hp : p.key ≤ t.key)
    (hroom : (lo ++ [p]).length < ARRAY_COUNT) :
    ∃ b, a.append t = some b ∧ b.Holds ((lo ++ [p]) ++ [t]) := by
  have hnot : ¬ t.x < (a.slot lo.length).x := by
    rw [h.slot_split, ← Coffsetdata.key_lt_iff]
    omega
  refine ⟨{ a.store (lo ++ [p]).length t with
    index := (lo ++ [p]).length + 1 }, ?_, h.store_end hroom rfl⟩
  have hindex := h.index
  rw [List.length_append, List.length_singleton] at hindex hroom
  rw [append_split h hp (by simp)]
  unfold placeAt storeAfter
  rw [if_neg (fun hc => hnot hc.2), if_neg (by omega), if_pos (by omega),
    List.length_append, List.length_singleton, hindex]

/-- `append` of a key that is there, below the top. -/
theorem append_old (h : a.Holds (lo ++ p :: hi)) (hp : p.key = t.key)
    (hhi : ∀ s ∈ hi, t.key < s.key) (hne : hi ≠ []) :
    a.append t = some a := by
  have hnot : ¬ t.x < (a.slot lo.length).x := by
    rw [h.slot_split, ← Coffsetdata.key_lt_iff]
    omega
  have hindex := h.index
  rw [List.length_append, List.length_cons] at hindex
  have hpos := List.length_pos_iff.mpr hne
  rw [append_split h (Nat.le_of_eq hp) hhi]
  unfold placeAt
  rw [if_neg (fun hc => hnot hc.2), if_pos (by omega), h.slot_split,
    if_pos (Coffsetdata.key_eq_iff.mp hp)]

/-- Moving a block up by one over the slot behind it, and writing the
slot it leaves. -/
theorem move_store {front block back : List Coffsetdata} {z : Coffsetdata}
    (hval : a.arraylng.val = front ++ (block ++ z :: back))
    (t : Coffsetdata) :
    ∃ b, a.move (front.length + 1) front.length block.length = some b
      ∧ b.index = a.index
      ∧ (b.store front.length t).arraylng.val
        = front ++ ([t] ++ (block ++ back)) := by
  have hlen := a.arraylng.property
  rw [hval] at hlen
  simp only [List.length_append, List.length_cons] at hlen
  have hslice : slice a.arraylng.val front.length block.length = block := by
    rw [hval]
    exact slice_middle front block (z :: back)
  -- the block with the slot behind it, split at the other end
  obtain ⟨c, old, hold⟩ : ∃ c old, block ++ [z] = c :: old := by
    cases block with
    | nil => exact ⟨z, [], rfl⟩
    | cons c block => exact ⟨c, block ++ [z], rfl⟩
  have hsame : block.length = old.length := by
    have := congrArg List.length hold
    simpa using this
  have hval' : a.arraylng.val = (front ++ [c]) ++ (old ++ back) := by
    rw [hval, ← List.singleton_append, ← List.append_assoc block, hold]
    simp
  have hmoved : (blit a.arraylng (front.length + 1) block).val
      = (front ++ [c]) ++ (block ++ back) :=
    blit_split hval' (by simp) hsame
  refine ⟨{ a with arraylng := blit a.arraylng (front.length + 1) block },
    ?_, rfl, ?_⟩
  · unfold move
    rw [if_pos ⟨by omega, by omega⟩, hslice]
  · rw [List.append_assoc] at hmoved
    exact blit_split hmoved rfl rfl

/-- `append` in the middle: the rows above move up by one. -/
theorem append_middle (h : a.Holds (lo ++ p :: hi)) (hp : p.key < t.key)
    (hhi : ∀ s ∈ hi, t.key < s.key) (hne : hi ≠ [])
    (hroom : (lo ++ p :: hi).length < ARRAY_COUNT) :
    ∃ b, a.append t = some b ∧ b.Holds (lo ++ p :: t :: hi) := by
  have hnot : ¬ t.x < (a.slot lo.length).x := by
    rw [h.slot_split, ← Coffsetdata.key_lt_iff]
    omega
  have hnew : ¬ (a.slot lo.length).x = t.x := by
    rw [h.slot_split, ← Coffsetdata.key_eq_iff]
    omega
  have hindex := h.index
  have hslots := h.slots
  rw [List.length_append, List.length_cons] at hindex hroom hslots
  have hpos := List.length_pos_iff.mpr hne
  -- the slots: below, above, the first unused one, the rest
  obtain ⟨k, hk⟩ : ∃ k, ARRAY_COUNT - (lo.length + (hi.length + 1))
      = k + 1 := ⟨ARRAY_COUNT - (lo.length + (hi.length + 1)) - 1, by omega⟩
  have hval : a.arraylng.val
      = (lo ++ [p]) ++ (hi ++ .zeroed :: List.replicate k .zeroed) := by
    rw [hslots, hk, List.replicate_succ]
    simp
  obtain ⟨b, hmove, hbindex, hbslots⟩ := move_store hval t
  rw [List.length_append, List.length_singleton] at hmove hbslots
  refine ⟨{ b.store (lo.length + 1) t with index := b.index + 1 }, ?_, ?_⟩
  · rw [append_split h (Nat.le_of_lt hp) hhi]
    unfold placeAt
    have hcount : a.index - lo.length - 1 = hi.length := by omega
    rw [if_neg (fun hc => hnot hc.2), if_pos (by omega), if_neg hnew,
      hcount, hmove]
    show some (b.storeAfter lo.length t) = _
    unfold storeAfter
    rw [if_pos (by omega)]
  · refine ⟨?_, ?_⟩
    · show b.index + 1 = _
      rw [hbindex, hindex]
      simp
      omega
    · show (b.store (lo.length + 1) t).arraylng.val = _
      have hrest : ARRAY_COUNT - (lo ++ p :: t :: hi).length = k := by
        simp only [List.length_append, List.length_cons]
        omega
      rw [hbslots, hrest]
      simp

/-- `append` below every key: the top row is lost and the slot behind
it, never written, counts as used. -/
theorem append_front (h : a.Holds l) (hne : l ≠ [])
    (hbelow : ∀ s ∈ l, t.key < s.key) (hroom : l.length < ARRAY_COUNT) :
    ∃ b, a.append t = some b
      ∧ b.Holds (t :: l.dropLast ++ [.zeroed]) := by
  obtain ⟨f, rest, rfl⟩ := List.exists_cons_of_ne_nil hne
  have hindex := h.index
  have hslots := h.slots
  rw [List.length_cons] at hindex hroom hslots
  have h0 : a.Holds ([] ++ f :: rest) := h
  have hfirst : a.slot 0 = f := h0.slot_split
  have hscan : scanDown (fun i => decide (t.x < (a.slot i).x))
      (a.index - 1) = 0 := by
    apply scanDown_eq (Nat.zero_le _)
    · intro z hz hzle
      have hmem : a.slot z ∈ rest := by
        apply h0.slot_above hz
        rw [List.length_nil]
        omega
      exact decide_eq_true (Coffsetdata.key_lt_iff.mp
        (hbelow _ (List.mem_cons_of_mem f hmem)))
    · exact Or.inl rfl
  have hbelow0 : t.x < (a.slot 0).x := by
    rw [hfirst]
    exact Coffsetdata.key_lt_iff.mp (hbelow f List.mem_cons_self)
  -- all but the top row move; the top row is written over
  obtain ⟨top, htop⟩ : ∃ top, (f :: rest).dropLast ++ [top] = f :: rest :=
    ⟨_, List.dropLast_append_getLast hne⟩
  have hval : a.arraylng.val = [] ++ ((f :: rest).dropLast ++ top
        :: List.replicate (ARRAY_COUNT - (rest.length + 1)) .zeroed) := by
    rw [hslots]
    calc f :: rest ++ List.replicate (ARRAY_COUNT - (rest.length + 1))
            Coffsetdata.zeroed
        = ((f :: rest).dropLast ++ [top]) ++ List.replicate
            (ARRAY_COUNT - (rest.length + 1)) .zeroed := by rw [htop]
      _ = _ := List.append_assoc ..
  obtain ⟨b, hmove, hbindex, hbslots⟩ := move_store hval t
  have hcount : a.index - 0 - 1 = (f :: rest).dropLast.length := by
    rw [List.length_dropLast, List.length_cons, hindex, Nat.sub_zero]
  refine ⟨{ b.store 0 t with index := b.index + 1 }, ?_, ?_⟩
  · unfold append
    rw [if_neg (by omega), if_pos (by omega), hscan]
    unfold placeAt
    rw [if_pos ⟨rfl, hbelow0⟩, hcount]
    exact congrArg (Option.map _) hmove
  · refine ⟨?_, ?_⟩
    · show b.index + 1 = _
      rw [hbindex, hindex]
      simp
    · show (b.store 0 t).arraylng.val = _
      obtain ⟨k, hk⟩ : ∃ k, ARRAY_COUNT - (rest.length + 1) = k + 1 :=
        ⟨ARRAY_COUNT - (rest.length + 1) - 1, by omega⟩
      have hrest : ARRAY_COUNT
          - (t :: (f :: rest).dropLast ++ [Coffsetdata.zeroed]).length
          = k := by
        simp only [List.length_append, List.length_cons,
          List.length_dropLast, List.length_nil]
        omega
      rw [List.length_nil] at hbslots
      rw [hbslots, hrest, hk, List.replicate_succ]
      simp

/-- `append` to a table whose upper part is a shelf with a row that is
not above the new one: the shelf takes it. -/
theorem append_shelved {front S : List Coffsetdata}
    (h : a.Holds (front ++ S)) (hS : Shelved Coffsetdata.key S)
    (hle : ∃ s ∈ S, s.key ≤ t.key)
    (hroom : (front ++ S).length < ARRAY_COUNT) :
    ∃ b, a.append t = some b
      ∧ b.Holds (front ++ add Coffsetdata.key t S) := by
  obtain ⟨lo, hi, rfl, hlo, hhi⟩ := hS.split t
  have hlone : lo ≠ [] := by
    rintro rfl
    obtain ⟨s, hs, hst⟩ := hle
    exact absurd (hhi s hs) (Nat.not_lt.mpr hst)
  obtain ⟨low, p, rfl⟩ : ∃ low p, lo = low ++ [p] :=
    ⟨_, _, (List.dropLast_append_getLast hlone).symm⟩
  have hpt : p.key ≤ t.key := hlo p (by simp)
  have hsplit : front ++ ((low ++ [p]) ++ hi)
      = (front ++ low) ++ p :: hi := by simp
  rw [hsplit] at h hroom
  cases hi with
  | nil =>
      have hadd : add Coffsetdata.key t ((low ++ [p]) ++ [])
          = low ++ [p] ++ [t] := by
        unfold add
        rw [if_neg, shelve_of_split hlo hhi]
        rintro ⟨-, s, hs, hlt⟩
        rw [List.append_nil] at hs
        exact absurd hlt (Nat.not_lt.mpr (hlo s hs))
      obtain ⟨b, hb, hholds⟩ := append_end h hpt hroom
      refine ⟨b, hb, ?_⟩
      rw [hadd]
      simpa using hholds
  | cons u hi =>
      have hu : t.key < u.key := hhi u List.mem_cons_self
      by_cases heq : p.key = t.key
      · have hadd : add Coffsetdata.key t ((low ++ [p]) ++ u :: hi)
            = (low ++ [p]) ++ u :: hi :=
          if_pos ⟨⟨p, by simp, heq⟩, u, by simp, hu⟩
        refine ⟨a, append_old h heq hhi (by simp), ?_⟩
        rw [hadd, hsplit]
        exact h
      · have hlt : p.key < t.key := Nat.lt_of_le_of_ne hpt heq
        have hadd : add Coffsetdata.key t ((low ++ [p]) ++ u :: hi)
            = (low ++ [p]) ++ t :: u :: hi := by
          unfold add
          rw [if_neg, shelve_of_split hlo hhi]
          rintro ⟨⟨s, hs, hst⟩, -⟩
          rcases List.mem_append.mp hs with hs | hs
          · -- below `p`, hence below `t`
            rcases List.mem_append.mp hs with hs | hs
            · have hsorted := (List.pairwise_append.mp hS).1
              have hsp : s.key ≤ p.key :=
                (List.pairwise_append.mp hsorted).2.2 s hs p (by simp)
              omega
            · rw [List.mem_singleton.mp hs] at hst
              exact heq hst
          · have := hhi s hs
            omega
        obtain ⟨b, hb, hholds⟩ := append_middle h hlt hhi (by simp) hroom
        refine ⟨b, hb, ?_⟩
        rw [hadd]
        simpa using hholds

-- ============================================================ a sequence

/-- The calls of `append` for a sequence of rows, on a new table. -/
def appendAll (ts : List Coffsetdata) : Option CXArray :=
  ts.foldlM append new

/-- The used slots once the rows `early` are in, none of them below the
first, and then the rows `rest`, whose first one is. -/
def layoutFrom (early : List Coffsetdata) :
    List Coffsetdata → List Coffsetdata
  | [] => shelf Coffsetdata.key early
  | t :: later =>
      t :: (shelf Coffsetdata.key early).dropLast
        ++ shelf Coffsetdata.key (.zeroed :: later)

/-- Row `s` is not below row `f`. -/
def notBelow (f s : Coffsetdata) : Bool := decide (f.key ≤ s.key)

/-- The used slots after a sequence of rows. -/
def layout : List Coffsetdata → List Coffsetdata
  | [] => []
  | f :: ts =>
      layoutFrom (f :: ts.takeWhile (notBelow f))
        (ts.dropWhile (notBelow f))

/-- No row is below the first one. -/
def FirstIsLeast (ts : List Coffsetdata) : Prop :=
  ∀ f ∈ ts.head?, ∀ t ∈ ts, notBelow f t = true

instance (ts : List Coffsetdata) : Decidable (FirstIsLeast ts) := by
  unfold FirstIsLeast
  infer_instance

/-- Without a row below the first one the table is a shelf. -/
theorem layout_of_firstIsLeast {ts : List Coffsetdata}
    (h : FirstIsLeast ts) : layout ts = shelf Coffsetdata.key ts := by
  cases ts with
  | nil => rfl
  | cons f ts =>
      have hall : ∀ s ∈ ts, notBelow f s = true :=
        fun s hs => h f rfl s (List.mem_cons_of_mem f hs)
      show layoutFrom _ _ = _
      rw [List.takeWhile_eq_self_iff.mpr hall,
        List.dropWhile_eq_nil_iff.mpr hall]
      rfl

/-- With one, the first such row splits the sequence. -/
theorem layout_of_below {f t : Coffsetdata} {ts later : List Coffsetdata}
    (hts : ∀ s ∈ ts, notBelow f s = true) (ht : ¬ notBelow f t = true) :
    layout (f :: (ts ++ t :: later))
      = layoutFrom (f :: ts) (t :: later) := by
  show layoutFrom _ _ = _
  rw [List.takeWhile_append_of_pos hts, List.takeWhile_cons_of_neg ht,
    List.dropWhile_append_of_pos hts, List.dropWhile_cons_of_neg ht,
    List.append_nil]

/-- Every sequence is of one of the two kinds. -/
theorem firstIsLeast_or_split (ts : List Coffsetdata) :
    FirstIsLeast ts ∨ ∃ f early t later,
      ts = f :: (early ++ t :: later)
        ∧ (∀ s ∈ early, notBelow f s = true) ∧ ¬ notBelow f t = true := by
  cases ts with
  | nil =>
      refine Or.inl ?_
      intro f hf
      cases hf
  | cons f ts =>
      have hsplit : ts.takeWhile (notBelow f) ++ ts.dropWhile (notBelow f)
          = ts := List.takeWhile_append_dropWhile
      cases hd : ts.dropWhile (notBelow f) with
      | nil =>
          refine Or.inl ?_
          intro f' hf' s hs
          cases hf'
          rcases List.mem_cons.mp hs with hs | hs
          · rw [hs]
            exact decide_eq_true (Nat.le_refl _)
          · exact List.dropWhile_eq_nil_iff.mp hd s hs
      | cons t later =>
          have hne : ts.dropWhile (notBelow f) ≠ [] := by
            rw [hd]
            simp
          have hnot := List.head_dropWhile_not (notBelow f) hne
          simp only [hd, List.head_cons] at hnot
          refine Or.inr ⟨f, _, t, later, by rw [← hd, hsplit], ?_, ?_⟩
          · exact fun s hs => List.mem_takeWhile_imp hs
          · rw [hnot]
            simp

/-- A table is never longer than its sequence of rows. -/
theorem layout_length_le (ts : List Coffsetdata) :
    (layout ts).length ≤ ts.length := by
  rcases firstIsLeast_or_split ts with
    h | ⟨f, early, t, later, rfl, hts, ht⟩
  · rw [layout_of_firstIsLeast h]
    exact shelf_length_le ts
  · have hearly : (shelf Coffsetdata.key (f :: early)).length
        ≤ (f :: early).length := shelf_length_le _
    have hlater : (shelf Coffsetdata.key (.zeroed :: later)).length
        ≤ (Coffsetdata.zeroed :: later).length := shelf_length_le _
    rw [layout_of_below hts ht]
    simp only [layoutFrom, List.length_append, List.length_cons,
      List.length_dropLast] at hearly hlater ⊢
    omega

/-- One more row: the code keeps to the layout. -/
theorem append_layout {ts : List Coffsetdata} (h : a.Holds (layout ts))
    (hroom : ts.length < ARRAY_COUNT) (t : Coffsetdata) :
    ∃ b, a.append t = some b ∧ b.Holds (layout (ts ++ [t])) := by
  have hlen := Nat.lt_of_le_of_lt (layout_length_le ts) hroom
  rcases firstIsLeast_or_split ts with
    hleast | ⟨f, early, u, later, rfl, hts, hu⟩
  · rw [layout_of_firstIsLeast hleast] at h hlen
    cases ts with
    | nil =>
        obtain ⟨b, hb, hholds⟩ := append_empty h t
        exact ⟨b, hb, hholds⟩
    | cons f ts =>
        have hf : f ∈ shelf Coffsetdata.key (f :: ts) := head_mem_shelf f ts
        have hall : ∀ s ∈ ts, notBelow f s = true :=
          fun s hs => hleast f rfl s (List.mem_cons_of_mem f hs)
        by_cases ht : notBelow f t = true
        · -- still no row below the first
          have hleast' : FirstIsLeast (f :: ts ++ [t]) := by
            intro f' hf' s hs
            cases hf'
            rcases List.mem_append.mp hs with hs | hs
            · exact hleast f rfl s hs
            · rw [List.mem_singleton.mp hs]
              exact ht
          have h' : a.Holds ([] ++ shelf Coffsetdata.key (f :: ts)) := h
          have hshelved := append_shelved h' (shelf_sorted (f :: ts))
            ⟨f, hf, of_decide_eq_true ht⟩ hlen
          rw [layout_of_firstIsLeast hleast', shelf_snoc]
          exact hshelved
        · -- the first row below it
          have hbelow : ∀ s ∈ shelf Coffsetdata.key (f :: ts),
              t.key < s.key := by
            intro s hs
            have hfs := of_decide_eq_true
              (hleast f rfl s (mem_of_mem_shelf hs))
            have htf := of_decide_eq_false (Bool.eq_false_iff.mpr ht)
            omega
          have hne : shelf Coffsetdata.key (f :: ts) ≠ [] :=
            List.ne_nil_of_mem hf
          rw [List.cons_append, layout_of_below hall ht]
          exact append_front h hne hbelow hlen
  · have hzero : Coffsetdata.zeroed
        ∈ shelf Coffsetdata.key (.zeroed :: later) := head_mem_shelf _ later
    rw [layout_of_below hts hu] at h hlen
    have hshelved := append_shelved (t := t) h
      (shelf_sorted (.zeroed :: later)) ⟨_, hzero, Nat.zero_le _⟩ hlen
    have hsnoc : f :: (early ++ u :: later) ++ [t]
        = f :: (early ++ u :: (later ++ [t])) := by simp
    have hadd : layoutFrom (f :: early) (u :: (later ++ [t]))
        = u :: (shelf Coffsetdata.key (f :: early)).dropLast
          ++ add Coffsetdata.key t
            (shelf Coffsetdata.key (.zeroed :: later)) := by
      show u :: _ ++ shelf Coffsetdata.key ((.zeroed :: later) ++ [t]) = _
      rw [shelf_snoc]
    rw [hsnoc, layout_of_below hts hu, hadd]
    exact hshelved

/-- The code builds the layout, for up to `ARRAY_COUNT` rows. -/
theorem appendAll_holds {ts : List Coffsetdata}
    (hroom : ts.length ≤ ARRAY_COUNT) :
    ∃ a, appendAll ts = some a ∧ a.Holds (layout ts) := by
  induction ts using List.reverseRecOn with
  | nil => exact ⟨new, rfl, holds_new⟩
  | append_singleton ts t ih =>
      rw [List.length_append, List.length_singleton] at hroom
      obtain ⟨a, ha, hholds⟩ := ih (by omega)
      obtain ⟨b, hb, hholds'⟩ := append_layout hholds (by omega) t
      refine ⟨b, ?_, hholds'⟩
      unfold appendAll at ha ⊢
      rw [List.foldlM_append, ha]
      simpa using hb

-- ======================================================== nothing is lost

/-- After the rows `ts` the used slots are as many as the calls, hold
exactly these rows, and stand in strictly increasing order. -/
def KeepsAll (ts : List Coffsetdata) : Prop :=
  ∃ a, appendAll ts = some a ∧ a.index = ts.length
    ∧ (a.arraylng.val.take a.index).Perm ts
    ∧ (a.arraylng.val.take a.index).Pairwise fun s t => s.x < t.x

/-- The same, of the layout. -/
theorem keepsAll_iff_layout {ts : List Coffsetdata}
    (hroom : ts.length ≤ ARRAY_COUNT) :
    KeepsAll ts ↔ (layout ts).Perm ts
      ∧ (layout ts).Pairwise fun s t => s.key < t.key := by
  obtain ⟨a, ha, hholds⟩ := appendAll_holds hroom
  have hpairwise : ∀ l : List Coffsetdata,
      (l.Pairwise fun s t => s.x < t.x)
        ↔ l.Pairwise fun s t => s.key < t.key :=
    fun l => List.Pairwise.iff (fun _ _ => Coffsetdata.key_lt_iff.symm)
  constructor
  · rintro ⟨b, hb, -, hperm, hsorted⟩
    rw [ha] at hb
    cases hb
    rw [hholds.take] at hperm hsorted
    exact ⟨hperm, (hpairwise _).mp hsorted⟩
  · rintro ⟨hperm, hsorted⟩
    refine ⟨a, ha, ?_, ?_, ?_⟩
    · rw [hholds.index, hperm.length_eq]
    · rw [hholds.take]
      exact hperm
    · rw [hholds.take]
      exact (hpairwise _).mpr hsorted

/-- A table that is strictly ordered has never had a row in front: the
zeroed slot would stand behind a greater key. -/
theorem firstIsLeast_of_strict {ts : List Coffsetdata}
    (h : (layout ts).Pairwise fun s t => s.key < t.key) :
    FirstIsLeast ts := by
  rcases firstIsLeast_or_split ts with
    hleast | ⟨f, early, t, later, rfl, hts, ht⟩
  · exact hleast
  · rw [layout_of_below hts ht] at h
    have hzero : Coffsetdata.zeroed
        ∈ shelf Coffsetdata.key (.zeroed :: later) := head_mem_shelf _ later
    have hlt : t.key < Coffsetdata.zeroed.key :=
      (List.pairwise_append.mp h).2.2 t List.mem_cons_self _ hzero
    exact absurd hlt (Nat.not_lt_zero _)

/-- Distinct keys: the table keeps its rows exactly when none is below
the first. -/
theorem keepsAll_iff_least {ts : List Coffsetdata}
    (hroom : ts.length ≤ ARRAY_COUNT)
    (hdistinct : (ts.map Coffsetdata.x).Nodup) :
    KeepsAll ts ↔ FirstIsLeast ts := by
  rw [keepsAll_iff_layout hroom]
  constructor
  · rintro ⟨-, hsorted⟩
    exact firstIsLeast_of_strict hsorted
  · intro h
    have hkeys : (ts.map Coffsetdata.key).Nodup := by
      have hinj := hdistinct.map (f := UInt32.toNat)
        fun _ _ he => UInt32.toNat_inj.mp he
      rwa [List.map_map] at hinj
    rw [layout_of_firstIsLeast h]
    exact ⟨shelf_perm hkeys, shelf_strict hkeys⟩

/-- For up to `ARRAY_COUNT` rows with distinct keys nothing is lost or
disordered exactly when no row is below the first; and against such an
order, another order gives the same table exactly when it is such an
order too. -/
theorem keepsAll_iff (ts : List Coffsetdata)
    (hroom : ts.length ≤ ARRAY_COUNT)
    (hdistinct : (ts.map Coffsetdata.x).Nodup) :
    (KeepsAll ts ↔ FirstIsLeast ts)
      ∧ ∀ us : List Coffsetdata, us.Perm ts → FirstIsLeast ts →
        (appendAll us = appendAll ts ↔ FirstIsLeast us) := by
  refine ⟨keepsAll_iff_least hroom hdistinct, ?_⟩
  intro us hperm hleast
  have hroom' : us.length ≤ ARRAY_COUNT := by
    rw [hperm.length_eq]
    exact hroom
  have hdistinct' : (us.map Coffsetdata.x).Nodup :=
    (hperm.map _).nodup_iff.mpr hdistinct
  have hkeeps := (keepsAll_iff_least hroom hdistinct).mpr hleast
  constructor
  · intro heq
    obtain ⟨a, ha, hindex, haperm, hsorted⟩ := hkeeps
    refine (keepsAll_iff_least hroom' hdistinct').mp
      ⟨a, heq.trans ha, ?_, haperm.trans hperm.symm, hsorted⟩
    rw [hindex, hperm.length_eq]
  · intro hleast'
    have hkeeps' := (keepsAll_iff_least hroom' hdistinct').mpr hleast'
    obtain ⟨hp, hs⟩ := (keepsAll_iff_layout hroom).mp hkeeps
    obtain ⟨hp', hs'⟩ := (keepsAll_iff_layout hroom').mp hkeeps'
    have hlayout : layout us = layout ts :=
      eq_of_perm_of_strict ((hp'.trans hperm).trans hp.symm) hs' hs
    obtain ⟨a, ha, hholds⟩ := appendAll_holds hroom
    obtain ⟨b, hb, hholds'⟩ := appendAll_holds hroom'
    rw [hlayout] at hholds'
    rw [ha, hb, hholds'.unique hholds]

/-- Three rows, the least first. -/
def ascendingRows : List Coffsetdata :=
  [⟨3, 1, 2⟩, ⟨7, 3, 4⟩, ⟨5, 5, 6⟩]

theorem ascendingRows_keepsAll : KeepsAll ascendingRows :=
  (keepsAll_iff ascendingRows (by decide) (by decide)).1.mpr (by decide)

/-- Two rows in falling order: the table ends as 3 and a zeroed slot,
and 5 is gone. -/
theorem not_keepsAll_falling :
    ¬ ∀ ts : List Coffsetdata, ts.length ≤ ARRAY_COUNT →
      (ts.map Coffsetdata.x).Nodup → KeepsAll ts := by
  intro hall
  have hkeeps := hall [⟨5, 1, 2⟩, ⟨3, 3, 4⟩] (by decide) (by decide)
  have hperm := ((keepsAll_iff_layout (by decide)).mp hkeeps).1
  have hmem : (⟨5, 1, 2⟩ : Coffsetdata) ∈ layout [⟨5, 1, 2⟩, ⟨3, 3, 4⟩] :=
    hperm.symm.subset List.mem_cons_self
  exact absurd hmem (by decide)

end CXArray
end CorrectGps
