/-
Maps kept as sorted lists of pairs: one pair for each key, the keys
increasing.

`insert` leaves a key that is there as it is, `assign` replaces the value
of a key that is there and adds none. Keys are compared by `<` alone: two
of which neither comes first are one key.

Inserting the pairs of a map one after the other into the empty map gives
the map (`build_items`), so a map can be written down pair by pair and
read back. Of any list of pairs the first one with a key counts
(`find_build`). `find_assign` says what an assignment changes.

An iterator is the key it points at. It goes on to the next key
(`find_next_split`), and nowhere once its pair is erased (`next_erase`).
-/
import Mathlib.Logic.Function.Basic
import Mathlib.Order.Defs.Unbundled

namespace CorrectGps.Lib

/-- Pairs in increasing order of their keys. -/
structure SortedMap (κ α : Type) [LT κ] where
  items : List (κ × α)
  sorted : items.Pairwise fun a b => a.1 < b.1

namespace SortedMap

variable {κ α : Type} [LT κ]

-- ============================================================ definitions

/-- The map without pairs. -/
def empty : SortedMap κ α := ⟨[], List.Pairwise.nil⟩

@[ext] theorem ext {m m' : SortedMap κ α} (h : m.items = m'.items) :
    m = m' := by
  cases m
  cases m'
  simpa using h

variable [DecidableLT κ]

/-- Neither key comes first. -/
def same (k k' : κ) : Bool := !decide (k < k') && !decide (k' < k)

/-- The value at `k`. -/
def findItem (k : κ) : List (κ × α) → Option α
  | [] => none
  | e :: l => if same k e.1 then some e.2 else findItem k l

def find (m : SortedMap κ α) (k : κ) : Option α := findItem k m.items

/-- Put a pair in front of the first greater key, if its key is new. -/
def insertItem (k : κ) (v : α) : List (κ × α) → List (κ × α)
  | [] => [(k, v)]
  | e :: l =>
      if k < e.1 then (k, v) :: e :: l
      else if e.1 < k then e :: insertItem k v l
      else e :: l

theorem mem_insertItem {k : κ} {v : α} {l : List (κ × α)} {e : κ × α}
    (h : e ∈ insertItem k v l) : e = (k, v) ∨ e ∈ l := by
  induction l with
  | nil => exact Or.inl (List.mem_singleton.mp h)
  | cons d l ih =>
      unfold insertItem at h
      split at h
      · exact List.mem_cons.mp h
      · split at h
        · rcases List.mem_cons.mp h with rfl | h
          · exact Or.inr List.mem_cons_self
          · exact (ih h).imp_right (List.mem_cons_of_mem d)
        · exact Or.inr h

/-- Replace the value at `k`. -/
def assignItems (k : κ) (v : α) (l : List (κ × α)) : List (κ × α) :=
  l.map fun e => if same k e.1 then (e.1, v) else e

def assign (m : SortedMap κ α) (k : κ) (v : α) : SortedMap κ α where
  items := assignItems k v m.items
  sorted := by
    unfold assignItems
    rw [List.pairwise_map]
    apply m.sorted.imp
    intro a b h
    split <;> split <;> exact h

/-- Take the pair at `k` away. -/
def erase (m : SortedMap κ α) (k : κ) : SortedMap κ α where
  items := m.items.filter fun e => !same k e.1
  sorted := m.sorted.filter _

/-- The first key, `none` in an empty map. -/
def first : List (κ × α) → Option κ
  | [] => none
  | e :: _ => some e.1

/-- The key behind the pair at `k`, if there is such a pair. -/
def nextItem (k : κ) : List (κ × α) → Option (Option κ)
  | [] => none
  | e :: l => if same k e.1 then some (first l) else nextItem k l

def next (m : SortedMap κ α) (k : κ) : Option (Option κ) :=
  nextItem k m.items

/-- Nothing follows a pair that has been taken away. -/
theorem next_erase (m : SortedMap κ α) (k : κ) :
    (m.erase k).next k = none := by
  have hnext : ∀ l : List (κ × α), (∀ e ∈ l, ¬ same k e.1 = true) →
      nextItem k l = none := by
    intro l
    induction l with
    | nil => exact fun _ => rfl
    | cons d l ih =>
        intro h
        unfold nextItem
        rw [if_neg (h d List.mem_cons_self)]
        exact ih fun e he => h e (List.mem_cons_of_mem d he)
  apply hnext
  intro e he
  have hne := (List.mem_filter.mp he).2
  rw [Bool.not_eq_true'] at hne
  rw [hne]
  exact Bool.false_ne_true

section Order

variable [Trans (α := κ) (· < ·) (· < ·) (· < ·)]

theorem insertItem_sorted (k : κ) (v : α) {l : List (κ × α)}
    (h : l.Pairwise fun a b => a.1 < b.1) :
    (insertItem k v l).Pairwise fun a b => a.1 < b.1 := by
  induction l with
  | nil => exact List.pairwise_singleton _ _
  | cons d l ih =>
      obtain ⟨hd, hl⟩ := List.pairwise_cons.mp h
      unfold insertItem
      split
      · rename_i hlt
        refine List.Pairwise.cons ?_ h
        intro e he
        rcases List.mem_cons.mp he with rfl | he
        · exact hlt
        · exact Trans.trans hlt (hd e he)
      · split
        · rename_i hlt
          refine List.Pairwise.cons ?_ (ih hl)
          intro e he
          rcases mem_insertItem he with rfl | he
          · exact hlt
          · exact hd e he
        · exact h

/-- Add a pair, unless its key is there. -/
def insert (m : SortedMap κ α) (k : κ) (v : α) : SortedMap κ α where
  items := insertItem k v m.items
  sorted := insertItem_sorted k v m.sorted

theorem mem_insert {m : SortedMap κ α} {k : κ} {v : α} {e : κ × α}
    (h : e ∈ (m.insert k v).items) : e = (k, v) ∨ e ∈ m.items :=
  mem_insertItem h

/-- Insert the pairs of a list, the first one first. -/
def build (m : SortedMap κ α) (l : List (κ × α)) : SortedMap κ α :=
  l.foldl (fun m e => m.insert e.1 e.2) m

-- =========================================================== building

variable [Std.Asymm (α := κ) (· < ·)]

omit [Trans (α := κ) (· < ·) (· < ·) (· < ·)] in
/-- A pair behind all others goes to the end. -/
theorem insertItem_last {k : κ} {v : α} {l : List (κ × α)}
    (h : ∀ e ∈ l, e.1 < k) : insertItem k v l = l ++ [(k, v)] := by
  induction l with
  | nil => rfl
  | cons d l ih =>
      have hd : d.1 < k := h d List.mem_cons_self
      unfold insertItem
      rw [if_neg (Std.Asymm.asymm _ _ hd), if_pos hd,
        ih fun e he => h e (List.mem_cons_of_mem d he), List.cons_append]

/-- What is inserted in order behind `m` stands behind `m`. -/
theorem build_append {m : SortedMap κ α} {l : List (κ × α)}
    (h : (m.items ++ l).Pairwise fun a b => a.1 < b.1) :
    (m.build l).items = m.items ++ l := by
  induction l generalizing m with
  | nil => exact (List.append_nil _).symm
  | cons d l ih =>
      have hlast : (m.insert d.1 d.2).items = m.items ++ [d] := by
        apply insertItem_last
        intro e he
        exact (List.pairwise_append.mp h).2.2 e he d List.mem_cons_self
      have hstep : ((m.insert d.1 d.2).items ++ l).Pairwise
          fun a b => a.1 < b.1 := by
        rw [hlast, List.append_assoc]
        exact h
      calc (m.build (d :: l)).items
          = ((m.insert d.1 d.2).build l).items := rfl
        _ = (m.insert d.1 d.2).items ++ l := ih hstep
        _ = m.items ++ d :: l := by rw [hlast, List.append_assoc]; rfl

/-- The pairs of a map, inserted into the empty one, give the map. -/
theorem build_items (m : SortedMap κ α) : empty.build m.items = m := by
  apply ext
  exact build_append m.sorted

end Order

-- ========================================================== assigning

/-- Assigning twice is assigning once. -/
theorem assign_assign (m : SortedMap κ α) (k : κ) (v : α) :
    (m.assign k v).assign k v = m.assign k v := by
  apply ext
  show (m.items.map _).map _ = m.items.map _
  rw [List.map_map]
  apply List.map_congr_left
  intro e _
  dsimp only [Function.comp]
  split <;> rfl

section Total

variable [Std.Asymm (α := κ) (· < ·)] [Std.Trichotomous (α := κ) (· < ·)]

theorem same_iff {k k' : κ} : same k k' = true ↔ k = k' := by
  unfold same
  rw [Bool.and_eq_true, Bool.not_eq_true', Bool.not_eq_true',
    decide_eq_false_iff_not, decide_eq_false_iff_not]
  constructor
  · exact fun h => Std.Trichotomous.trichotomous _ _ h.1 h.2
  · intro heq
    obtain rfl := heq
    exact ⟨Std.Irrefl.irrefl k, Std.Irrefl.irrefl k⟩

theorem mem_of_findItem {k : κ} {v : α} {l : List (κ × α)}
    (h : findItem k l = some v) : (k, v) ∈ l := by
  induction l with
  | nil => cases h
  | cons d l ih =>
      unfold findItem at h
      split at h
      · rename_i hk
        rw [same_iff.mp hk, ← Option.some.inj h]
        exact List.mem_cons_self
      · exact List.mem_cons_of_mem d (ih h)

/-- The pair in the middle of a map, and what follows it. -/
theorem find_next_split {m : SortedMap κ α} {l r : List (κ × α)}
    {e : κ × α} (h : m.items = l ++ e :: r) :
    m.find e.1 = some e.2 ∧ m.next e.1 = some (first r) := by
  have hsorted := m.sorted
  unfold find next
  rw [h] at hsorted ⊢
  clear h
  induction l with
  | nil =>
      have hself : same e.1 e.1 = true := same_iff.mpr rfl
      rw [List.nil_append, findItem, nextItem, if_pos hself, if_pos hself]
      exact ⟨rfl, rfl⟩
  | cons d l ih =>
      rw [List.cons_append, List.pairwise_cons] at hsorted
      have hlt : d.1 < e.1 := hsorted.1 e
        (List.mem_append_right _ List.mem_cons_self)
      have hne : ¬ same e.1 d.1 = true := by
        intro heq
        rw [same_iff.mp heq] at hlt
        exact Std.Irrefl.irrefl _ hlt
      rw [List.cons_append, findItem, nextItem, if_neg hne, if_neg hne]
      exact ih hsorted.2

theorem mem_of_find {m : SortedMap κ α} {k : κ} {v : α}
    (h : m.find k = some v) : (k, v) ∈ m.items :=
  mem_of_findItem h

theorem mem_assign {m : SortedMap κ α} {k : κ} {v : α} {e : κ × α}
    (h : e ∈ (m.assign k v).items) : e = (k, v) ∨ e ∈ m.items := by
  obtain ⟨d, hd, rfl⟩ := List.mem_map.mp h
  split
  · rename_i hk
    rw [same_iff.mp hk]
    exact Or.inl rfl
  · exact Or.inr hd

theorem findItem_assignItems [DecidableEq κ] (k : κ) (v : α) (k' : κ)
    (l : List (κ × α)) :
    findItem k' (assignItems k v l)
      = if k' = k then (findItem k l).map fun _ => v
        else findItem k' l := by
  induction l with
  | nil => split <;> rfl
  | cons d l ih =>
      have hfst : (if same k d.1 then (d.1, v) else d).1 = d.1 := by
        split <;> rfl
      have hcons : assignItems k v (d :: l)
          = (if same k d.1 then (d.1, v) else d)
            :: assignItems k v l := rfl
      rw [hcons, findItem, hfst, ih, findItem, findItem]
      by_cases hk : k' = k
      · subst hk
        rw [if_pos rfl, if_pos rfl]
        split
        · rfl
        · rfl
      · rw [if_neg hk, if_neg hk]
        by_cases hd : same k' d.1
        · have hne : ¬ same k d.1 = true := by
            intro h
            exact hk ((same_iff.mp hd).trans (same_iff.mp h).symm)
          rw [if_pos hd, if_pos hd, if_neg hne]
        · rw [if_neg hd, if_neg hd]

/-- An assignment changes the value of its own key, if it has one. -/
theorem find_assign [DecidableEq κ] (m : SortedMap κ α) (k : κ) (v : α)
    (k' : κ) :
    (m.assign k v).find k'
      = if k' = k then (m.find k).map fun _ => v else m.find k' :=
  findItem_assignItems k v k' m.items

/-- A bound key gets the value and nothing else changes. -/
theorem find_assign_update [DecidableEq κ] {m : SortedMap κ α} {k : κ}
    (h : (m.find k).isSome) (v : α) :
    (m.assign k v).find = Function.update m.find k (some v) := by
  obtain ⟨w, hw⟩ := Option.isSome_iff_exists.mp h
  funext k'
  rw [find_assign, Function.update_apply, hw, Option.map_some]

-- ============================================================ inserting

section Insert

variable [Trans (α := κ) (· < ·) (· < ·) (· < ·)] [BEq κ] [LawfulBEq κ]

omit [Trans (α := κ) (· < ·) (· < ·) (· < ·)] [BEq κ] [LawfulBEq κ] in
theorem findItem_of_lt {k : κ} {l : List (κ × α)}
    (h : ∀ e ∈ l, k < e.1) : findItem k l = none := by
  cases hf : findItem k l with
  | none => rfl
  | some v =>
      have hself := h _ (mem_of_findItem hf)
      exact absurd hself (Std.Irrefl.irrefl k)

omit [Trans (α := κ) (· < ·) (· < ·) (· < ·)] in
theorem findItem_cons (k : κ) (e : κ × α) (l : List (κ × α)) :
    findItem k (e :: l) = if k == e.1 then some e.2 else findItem k l := by
  rw [findItem]
  by_cases hk : k = e.1
  · rw [if_pos (same_iff.mpr hk), if_pos (beq_iff_eq.mpr hk)]
  · rw [if_neg (mt same_iff.mp hk), if_neg (mt beq_iff_eq.mp hk)]

theorem findItem_insertItem (k : κ) (v : α) (k' : κ) {l : List (κ × α)}
    (h : l.Pairwise fun a b => a.1 < b.1) :
    findItem k' (insertItem k v l)
      = (findItem k' l).or (if k' == k then some v else none) := by
  induction l with
  | nil => exact findItem_cons k' (k, v) []
  | cons d l ih =>
      obtain ⟨hd, hl⟩ := List.pairwise_cons.mp h
      unfold insertItem
      split
      · next hlt =>
        -- no key from here on is `k`
        have hnone : findItem k (d :: l) = none := by
          apply findItem_of_lt
          intro e he
          rcases List.mem_cons.mp he with rfl | he
          · exact hlt
          · exact Trans.trans hlt (hd e he)
        rw [findItem_cons]
        split
        · next hk => rw [beq_iff_eq.mp hk, hnone, Option.none_or]
        · rw [Option.or_none]
      · split
        · rw [findItem_cons, findItem_cons, ih hl]
          split <;> rfl
        · next hle hge =>
          have hkey : k = d.1 := Std.Trichotomous.trichotomous _ _ hle hge
          rw [findItem_cons, hkey]
          split
          · rfl
          · rw [Option.or_none]

/-- An insertion gives a new key its value. -/
theorem find_insert (m : SortedMap κ α) (k : κ) (v : α) (k' : κ) :
    (m.insert k v).find k'
      = (m.find k').or (if k' == k then some v else none) :=
  findItem_insertItem k v k' m.sorted

/-- Of the pairs of a list the first one with a key counts. -/
theorem find_build (m : SortedMap κ α) (l : List (κ × α)) (k : κ) :
    (m.build l).find k = (m.find k).or (l.lookup k) := by
  induction l generalizing m with
  | nil => exact (Option.or_none).symm
  | cons d l ih =>
      calc ((m.insert d.1 d.2).build l).find k
          = ((m.insert d.1 d.2).find k).or (l.lookup k) := ih _
        _ = (m.find k).or ((d :: l).lookup k) := by
            rw [find_insert, Option.or_assoc, List.lookup_cons]
            cases k == d.1 <;> rfl

end Insert

end Total

end SortedMap

end CorrectGps.Lib
