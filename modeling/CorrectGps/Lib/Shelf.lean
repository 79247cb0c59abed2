/-
Shelves: sequences kept in key order by inserting from the left, with
the rule for repeated keys that a backward scan leads to.

# The rule

`shelve` puts an item after the last one whose key is not greater; on a
sorted shelf that is after its equals, so the items of one key stand in
the order they came. `add` drops an item instead if its key is there
and a greater key is there too: a scan from the top that has to move
something to make room sees the equal key and gives up, one that has
not does not look. `shelf` adds a whole sequence.

# What holds

A shelf is sorted, contains nothing new, and shows for each key the item
that came first (`shelf_find`). Without repeated keys it is the sequence
itself, sorted (`shelf_perm`).
-/
import Mathlib.Data.List.Induction
import Mathlib.Data.List.Sort
import Mathlib.Order.Basic

namespace CorrectGps.Lib

variable {α κ : Type} [LinearOrder κ] (key : α → κ)

-- ============================================================ definitions

/-- Insert `t` after the items whose key is not greater. -/
def shelve (t : α) (l : List α) : List α :=
  l.takeWhile (fun s => key s ≤ key t)
    ++ t :: l.dropWhile (fun s => key s ≤ key t)

/-- Insert `t`, or drop it if its key is there and is not the greatest. -/
def add (t : α) (l : List α) : List α :=
  if (∃ s ∈ l, key s = key t) ∧ ∃ s ∈ l, key t < key s then l
  else shelve key t l

/-- Add a sequence, first item first. -/
def shelf (ts : List α) : List α :=
  ts.foldl (fun l t => add key t l) []

/-- In increasing key order, equal keys allowed. -/
def Shelved (l : List α) : Prop :=
  l.Pairwise fun a b => key a ≤ key b

variable {key}

-- ============================================================== insertion

/-- Where `t` goes is pinned by the two halves it goes between. -/
theorem shelve_of_split {t : α} {lo hi : List α}
    (hlo : ∀ s ∈ lo, key s ≤ key t) (hhi : ∀ s ∈ hi, key t < key s) :
    shelve key t (lo ++ hi) = lo ++ t :: hi := by
  have htake : hi.takeWhile (fun s => decide (key s ≤ key t)) = [] := by
    cases hi with
    | nil => rfl
    | cons s hi =>
        have hlt : key t < key s := hhi s List.mem_cons_self
        rw [List.takeWhile_cons_of_neg (by simpa using hlt)]
  have hdrop : hi.dropWhile (fun s => decide (key s ≤ key t)) = hi := by
    cases hi with
    | nil => rfl
    | cons s hi =>
        have hlt : key t < key s := hhi s List.mem_cons_self
        rw [List.dropWhile_cons_of_neg (by simpa using hlt)]
  have hlo' : ∀ s ∈ lo, decide (key s ≤ key t) = true := by
    intro s hs
    exact decide_eq_true (hlo s hs)
  unfold shelve
  rw [List.takeWhile_append_of_pos hlo', List.dropWhile_append_of_pos hlo',
    htake, hdrop, List.append_nil]

/-- A shelf splits at every key. -/
theorem Shelved.split {l : List α} (h : Shelved key l) (t : α) :
    ∃ lo hi, l = lo ++ hi ∧ (∀ s ∈ lo, key s ≤ key t)
      ∧ ∀ s ∈ hi, key t < key s := by
  induction l with
  | nil => exact ⟨[], [], rfl, by simp, by simp⟩
  | cons a l ih =>
      obtain ⟨hle, hrest⟩ := List.pairwise_cons.mp h
      rcases le_or_gt (key a) (key t) with hat | hta
      · obtain ⟨lo, hi, rfl, hlo, hhi⟩ := ih hrest
        refine ⟨a :: lo, hi, rfl, ?_, hhi⟩
        intro s hs
        rcases List.mem_cons.mp hs with rfl | hs
        · exact hat
        · exact hlo s hs
      · refine ⟨[], a :: l, rfl, by simp, ?_⟩
        intro s hs
        rcases List.mem_cons.mp hs with rfl | hs
        · exact hta
        · exact lt_of_lt_of_le hta (hle s hs)

theorem shelve_perm (t : α) (l : List α) :
    (shelve key t l).Perm (t :: l) := by
  unfold shelve
  refine List.perm_middle.trans (List.Perm.cons t ?_)
  rw [List.takeWhile_append_dropWhile]

theorem Shelved.shelve {l : List α} (h : Shelved key l) (t : α) :
    Shelved key (shelve key t l) := by
  obtain ⟨lo, hi, rfl, hlo, hhi⟩ := h.split t
  rw [shelve_of_split hlo hhi]
  obtain ⟨hsortedLo, hsortedHi, hcross⟩ := List.pairwise_append.mp h
  refine List.pairwise_append.mpr ⟨hsortedLo, ?_, ?_⟩
  · exact List.pairwise_cons.mpr
      ⟨fun s hs => le_of_lt (hhi s hs), hsortedHi⟩
  · intro a ha b hb
    rcases List.mem_cons.mp hb with rfl | hb
    · exact hlo a ha
    · exact hcross a ha b hb

-- ================================================================= adding

theorem mem_add {t s : α} {l : List α} (h : s ∈ add key t l) :
    s = t ∨ s ∈ l := by
  unfold add at h
  split at h
  · exact Or.inr h
  · exact List.mem_cons.mp ((shelve_perm t l).subset h)

theorem subset_add (t : α) (l : List α) : l ⊆ add key t l := by
  unfold add
  split
  · exact List.Subset.refl l
  · exact fun s hs =>
      (shelve_perm t l).symm.subset (List.mem_cons_of_mem t hs)

theorem Shelved.add {l : List α} (h : Shelved key l) (t : α) :
    Shelved key (add key t l) := by
  unfold Lib.add
  split
  · exact h
  · exact h.shelve t

/-- Adding shows a new key and changes no other. -/
theorem Shelved.find_add {l : List α} (h : Shelved key l) (t : α) (k : κ) :
    (Lib.add key t l).find? (fun s => key s = k)
      = (l ++ [t]).find? fun s => key s = k := by
  unfold Lib.add
  split
  · next hold =>
    -- an equal key is there already, and is found before `t`
    obtain ⟨⟨s, hs, hkey⟩, -⟩ := hold
    rw [List.find?_append]
    cases hf : l.find? (fun s => decide (key s = k)) with
    | some s' => rfl
    | none =>
        have hne : key s ≠ k := by simpa using List.find?_eq_none.mp hf s hs
        have hnt : key t ≠ k := by rwa [hkey] at hne
        simp [hnt]
  · obtain ⟨lo, hi, rfl, hlo, hhi⟩ := h.split t
    rw [shelve_of_split hlo hhi]
    by_cases hk : key t = k
    · -- nothing above `t` has its key
      have hnone : hi.find? (fun s => decide (key s = k)) = none := by
        rw [List.find?_eq_none]
        intro s hs
        have hlt : key t < key s := hhi s hs
        rw [hk] at hlt
        simpa using ne_of_gt hlt
      simp [List.find?_append, hk, hnone]
    · simp [List.find?_append, hk]

-- ============================================================ the sequence

variable {ts : List α}

theorem shelf_snoc (ts : List α) (t : α) :
    shelf key (ts ++ [t]) = add key t (shelf key ts) := by
  unfold shelf
  rw [List.foldl_append]
  rfl

theorem shelf_sorted (ts : List α) : Shelved key (shelf key ts) := by
  induction ts using List.reverseRecOn with
  | nil => exact List.Pairwise.nil
  | append_singleton ts t ih =>
      rw [shelf_snoc]
      exact ih.add t

theorem mem_of_mem_shelf {s : α} (h : s ∈ shelf key ts) : s ∈ ts := by
  induction ts using List.reverseRecOn with
  | nil => exact h
  | append_singleton ts t ih =>
      rw [shelf_snoc] at h
      rcases mem_add h with rfl | h
      · exact List.mem_append_right ts List.mem_cons_self
      · exact List.mem_append_left [t] (ih h)

theorem shelf_length_le (ts : List α) :
    (shelf key ts).length ≤ ts.length := by
  induction ts using List.reverseRecOn with
  | nil => exact Nat.le_refl 0
  | append_singleton ts t ih =>
      rw [shelf_snoc, List.length_append, List.length_singleton]
      unfold add
      split
      · omega
      · have hperm : (shelve key t (shelf key ts)).length
            = (t :: shelf key ts).length := (shelve_perm t _).length_eq
        rw [List.length_cons] at hperm
        omega

/-- What is on the shelf stays on it. -/
theorem shelf_subset_append (ts us : List α) :
    shelf key ts ⊆ shelf key (ts ++ us) := by
  induction us using List.reverseRecOn with
  | nil =>
      rw [List.append_nil]
      exact List.Subset.refl _
  | append_singleton us u ih =>
      rw [← List.append_assoc, shelf_snoc]
      exact List.Subset.trans ih (subset_add u _)

/-- The first item is always on the shelf. -/
theorem head_mem_shelf (t : α) (ts : List α) :
    t ∈ shelf key (t :: ts) := by
  have hone : t ∈ shelf key [t] := by
    unfold shelf add shelve
    simp
  exact shelf_subset_append [t] ts hone

/-- An item that nothing is below stays in front. -/
theorem shelf_front {t : α} (h : ∀ s ∈ ts, key t ≤ key s) :
    ∃ rest, shelf key (t :: ts) = t :: rest := by
  induction ts using List.reverseRecOn with
  | nil =>
      refine ⟨[], ?_⟩
      unfold shelf add shelve
      simp
  | append_singleton ts u ih =>
      obtain ⟨rest, hrest⟩ := ih fun s hs => h s (List.mem_append_left _ hs)
      have hu : key t ≤ key u := h u (by simp)
      rw [← List.cons_append, shelf_snoc, hrest]
      unfold add shelve
      split
      · exact ⟨rest, rfl⟩
      · rw [List.takeWhile_cons_of_pos (by simpa using hu)]
        exact ⟨_, rfl⟩

/-- For every key the shelf shows the item that came first. -/
theorem shelf_find (ts : List α) (k : κ) :
    (shelf key ts).find? (fun s => key s = k)
      = ts.find? fun s => key s = k := by
  induction ts using List.reverseRecOn with
  | nil => rfl
  | append_singleton ts t ih =>
      rw [shelf_snoc, (shelf_sorted ts).find_add, List.find?_append,
        List.find?_append, ih]

/-- Without repeated keys nothing is dropped. -/
theorem shelf_perm (h : (ts.map key).Nodup) : (shelf key ts).Perm ts := by
  induction ts using List.reverseRecOn with
  | nil => exact List.Perm.refl _
  | append_singleton ts t ih =>
      rw [List.map_append, List.nodup_append] at h
      obtain ⟨hts, -, hnew⟩ := h
      have hfresh : ¬ ∃ s ∈ shelf key ts, key s = key t := by
        rintro ⟨s, hs, hkey⟩
        exact hnew (key s) (List.mem_map_of_mem (mem_of_mem_shelf hs))
          (key t) (by simp) hkey
      have hadd : add key t (shelf key ts) = shelve key t (shelf key ts) :=
        if_neg fun hold => hfresh hold.1
      rw [shelf_snoc, hadd]
      calc List.Perm (shelve key t (shelf key ts)) (t :: shelf key ts) :=
            shelve_perm t _
        List.Perm _ (t :: ts) := (ih hts).cons t
        List.Perm _ (ts ++ [t]) := (List.perm_append_singleton t ts).symm

/-- Without repeated keys the order is strict. -/
theorem shelf_strict (h : (ts.map key).Nodup) :
    (shelf key ts).Pairwise fun a b => key a < key b := by
  have hnodup : ((shelf key ts).map key).Nodup :=
    ((shelf_perm h).map key).nodup_iff.mpr h
  have hne : (shelf key ts).Pairwise fun a b => key a ≠ key b :=
    List.pairwise_map.mp hnodup
  exact ((shelf_sorted ts).and hne).imp fun hab =>
    lt_of_le_of_ne hab.1 hab.2

/-- A strictly ordered arrangement of a sequence is its only one. -/
theorem eq_of_perm_of_strict {l l' : List α} (hp : l.Perm l')
    (h : l.Pairwise fun a b => key a < key b)
    (h' : l'.Pairwise fun a b => key a < key b) : l = l' := by
  have hanti : ∀ a b, a ∈ l → b ∈ l' → key a < key b → key b < key a →
      a = b := fun a b _ _ hab hba => absurd hab (lt_asymm hba)
  exact hp.eq_of_pairwise hanti h h'

/-- A sequence in strictly increasing order is its own shelf. -/
theorem shelf_of_strict (h : ts.Pairwise fun a b => key a < key b) :
    shelf key ts = ts := by
  have hkeys : (ts.map key).Nodup := by
    rw [List.nodup_iff_pairwise_ne, List.pairwise_map]
    exact h.imp fun hlt => ne_of_lt hlt
  exact eq_of_perm_of_strict (shelf_perm hkeys) (shelf_strict hkeys) h

end CorrectGps.Lib
