/-
A table of open descriptors, and a set of watched ones over it.

# The table

`Fds ι α` says whose each descriptor is, if it is open at all, and which
descriptors are watched. A watched descriptor is open: closing one takes
it out of the set, and only an open one can be put in. This is a field,
so a set that has kept a closed descriptor cannot be built.

# Counting

Each operation changes the size of the set by one or not at all
(`card_watch`, `card_unwatch`, `card_close`).
-/
import Mathlib.Data.Finset.Card

namespace CorrectGps.Lib

variable {ι α : Type} [DecidableEq ι]

/-- Open descriptors with their owners, and the watched ones. -/
structure Fds (ι α : Type) where
  owner : ι → Option α
  watched : Finset ι
  isOpen : ∀ d ∈ watched, (owner d).isSome

namespace Fds

-- ============================================================ operations

def empty : Fds ι α where
  owner := fun _ => none
  watched := ∅
  isOpen := fun d hd => absurd hd (Finset.notMem_empty d)

/-- Open `d` for `a`. -/
def give (k : Fds ι α) (d : ι) (a : α) : Fds ι α where
  owner := Function.update k.owner d (some a)
  watched := k.watched
  isOpen := by
    intro d' hd'
    by_cases hd : d' = d
    · simp [hd]
    · rw [Function.update_of_ne hd]
      exact k.isOpen d' hd'

/-- Close `d`. -/
def close (k : Fds ι α) (d : ι) : Fds ι α where
  owner := Function.update k.owner d none
  watched := k.watched.erase d
  isOpen := by
    intro d' hd'
    rw [Function.update_of_ne (Finset.ne_of_mem_erase hd')]
    exact k.isOpen d' (Finset.mem_of_mem_erase hd')

/-- Watch `d`, if it is open. -/
def watch (k : Fds ι α) (d : ι) : Fds ι α :=
  if h : (k.owner d).isSome then
    { k with
      watched := insert d k.watched
      isOpen := by
        intro d' hd'
        rcases Finset.mem_insert.mp hd' with hd | hd
        · rw [hd]
          exact h
        · exact k.isOpen d' hd }
  else k

/-- Watch `d` no more. -/
def unwatch (k : Fds ι α) (d : ι) : Fds ι α where
  owner := k.owner
  watched := k.watched.erase d
  isOpen := fun d' hd' => k.isOpen d' (Finset.mem_of_mem_erase hd')

-- =============================================================== owners

section Owners

variable (k : Fds ι α) (d d' : ι) (a : α)

theorem give_owner :
    (k.give d a).owner d' = if d' = d then some a else k.owner d' :=
  Function.update_apply ..

theorem close_owner :
    (k.close d).owner d' = if d' = d then none else k.owner d' :=
  Function.update_apply ..

@[simp]
theorem watch_owner : (k.watch d).owner = k.owner := by
  unfold watch
  split <;> rfl

variable {k d d' a} {b : α}

/-- What is open after a close was open before, as another number. -/
theorem owner_of_close (h : (k.close d).owner d' = some a) :
    d' ≠ d ∧ k.owner d' = some a := by
  rw [close_owner] at h
  split at h
  · cases h
  · next hne => exact ⟨hne, h⟩

/-- A close leaves what is another owner's. -/
theorem close_other (h : k.owner d' = some a) (hne : k.owner d ≠ some a) :
    (k.close d).owner d' = some a := by
  rw [close_owner, if_neg]
  · exact h
  · intro hd
    rw [hd] at h
    exact hne h

/-- What is open now is what was given, or was open before. -/
theorem owner_of_give (h : (k.give d a).owner d' = some b) :
    (d' = d ∧ a = b) ∨ k.owner d' = some b := by
  rw [give_owner] at h
  split at h
  · next hd => exact Or.inl ⟨hd, Option.some.inj h⟩
  · exact Or.inr h

/-- Giving away a free number leaves what is open. -/
theorem give_other (hfree : k.owner d = none) (h : k.owner d' = some b) :
    (k.give d a).owner d' = some b := by
  rw [give_owner, if_neg]
  · exact h
  · intro hd
    rw [hd, hfree] at h
    cases h

end Owners

-- ============================================================= counting

section Counting

variable {k : Fds ι α} {d : ι}

theorem watch_watched (h : (k.owner d).isSome) :
    (k.watch d).watched = insert d k.watched := by
  unfold watch
  rw [dif_pos h]

theorem card_watch (h : (k.owner d).isSome) (hd : d ∉ k.watched) :
    (k.watch d).watched.card = k.watched.card + 1 := by
  rw [watch_watched h, Finset.card_insert_of_notMem hd]

theorem card_unwatch (hd : d ∈ k.watched) :
    (k.unwatch d).watched.card + 1 = k.watched.card :=
  Finset.card_erase_add_one hd

/-- Closing a watched descriptor makes the set smaller. -/
theorem card_close (hd : d ∈ k.watched) :
    (k.close d).watched.card + 1 = k.watched.card :=
  Finset.card_erase_add_one hd

/-- Closing another one does not. -/
theorem close_watched (hd : d ∉ k.watched) :
    (k.close d).watched = k.watched :=
  Finset.erase_eq_of_notMem hd

end Counting

end Fds

end CorrectGps.Lib
