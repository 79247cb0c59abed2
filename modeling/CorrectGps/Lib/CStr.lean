/-
Searching a string in memory, with a terminator that may be missing.

`strstr` reads from the left until it has found the pattern or the
terminator. Memory that ends before either is reached gives `none`: the
program reads on behind the object. Over terminated memory the search is
one in the text in front of the terminator (`strstr_terminated`), whatever
follows; a pattern that is there is found whatever follows
(`strstr_of_infix`); and without a terminator there is no other answer
(`strstr_unterminated`).
-/
import Mathlib.Data.List.Infix

namespace CorrectGps.Lib

variable {α : Type} {z : α} {q t : List α}

/-- A pattern without the terminator is not found across it. -/
theorem prefix_append_terminator (hq : z ∉ q) (t r : List α) :
    q <+: t ++ z :: r ↔ q <+: t := by
  constructor
  · intro h
    rcases Nat.lt_or_ge t.length q.length with hlt | hge
    · refine absurd ?_ hq
      obtain ⟨u, hu⟩ := List.prefix_of_prefix_length_le
        (List.prefix_append t (z :: r)) h (Nat.le_of_lt hlt)
      obtain ⟨v, hv⟩ := h
      rw [← hu, List.append_assoc, List.append_cancel_left_eq] at hv
      cases u with
      | nil =>
          rw [List.append_nil] at hu
          rw [hu] at hlt
          exact absurd hlt (Nat.lt_irrefl _)
      | cons a u =>
          rw [List.cons_append, List.cons.injEq] at hv
          rw [← hu, hv.1]
          simp
    · exact List.prefix_of_prefix_length_le h
        (List.prefix_append t (z :: r)) hge
  · exact fun h => h.trans (List.prefix_append t (z :: r))

/-- Filler that is no part of it adds no place for it. -/
theorem infix_of_append_replicate (hne : q ≠ []) (hq : z ∉ q) {k : Nat}
    (h : q <:+: t ++ List.replicate k z) : q <:+: t := by
  induction t with
  | nil =>
      rw [List.nil_append] at h
      obtain ⟨b, hb⟩ := List.exists_mem_of_ne_nil q hne
      have hz := List.eq_of_mem_replicate (h.subset hb)
      rw [hz] at hb
      exact absurd hb hq
  | cons b t ih =>
      rw [List.cons_append] at h
      rcases List.infix_cons_iff.mp h with hfront | hin
      · cases k with
        | zero =>
            rw [List.replicate_zero, List.append_nil] at hfront
            exact hfront.isInfix
        | succ k =>
            rw [List.replicate_succ, ← List.cons_append,
              prefix_append_terminator hq] at hfront
            exact hfront.isInfix
      · exact List.infix_cons_iff.mpr (Or.inr (ih hin))

variable [DecidableEq α]

/-- `strstr(m, q) != NULL`, the terminator being `z`. -/
def strstr (z : α) (q : List α) : List α → Option Bool
  | [] => none
  | b :: m =>
      if q.isPrefixOf (b :: m) then some true
      else if b = z then some false
      else strstr z q m

/-- One place that is not the terminator. -/
theorem strstr_cons {b : α} (hb : z ≠ b) (m : List α) :
    strstr z q (b :: m)
      = if q <+: b :: m then some true else strstr z q m := by
  rw [strstr]
  by_cases h : q <+: b :: m
  · rw [if_pos (List.isPrefixOf_iff_prefix.mpr h), if_pos h]
  · rw [if_neg fun hc => h (List.isPrefixOf_iff_prefix.mp hc),
      if_neg (Ne.symm hb), if_neg h]

/-- Over terminated memory. -/
theorem strstr_terminated (hne : q ≠ []) (hq : z ∉ q) (ht : z ∉ t)
    (r : List α) : strstr z q (t ++ z :: r) = some (decide (q <:+: t)) := by
  induction t with
  | nil =>
      have hnot : ¬ q <+: z :: r := by
        have := prefix_append_terminator hq [] r
        rw [List.nil_append, List.prefix_nil] at this
        exact fun h => hne (this.mp h)
      rw [List.nil_append, strstr, if_neg (by simpa using hnot),
        if_pos rfl]
      simp [hne]
  | cons b t ih =>
      rw [List.mem_cons, not_or] at ht
      obtain ⟨hb, ht'⟩ := ht
      have hfront := prefix_append_terminator hq (b :: t) r
      rw [List.cons_append] at hfront
      rw [List.cons_append, strstr_cons hb, ih ht']
      by_cases h : q <+: b :: t
      · rw [if_pos (hfront.mpr h), decide_eq_true h.isInfix]
      · rw [if_neg fun hc => h (hfront.mp hc)]
        simp [h, List.infix_cons_iff]

/-- Over any memory that begins with a text in which it is. -/
theorem strstr_of_infix (hne : q ≠ []) (ht : z ∉ t) (h : q <:+: t)
    (r : List α) : strstr z q (t ++ r) = some true := by
  induction t with
  | nil => exact absurd (List.infix_nil.mp h) hne
  | cons b t ih =>
      rw [List.mem_cons, not_or] at ht
      obtain ⟨hb, ht'⟩ := ht
      rw [List.cons_append, strstr_cons hb]
      rcases List.infix_cons_iff.mp h with hfront | hin
      · exact if_pos (hfront.trans (List.prefix_append (b :: t) r))
      · rw [ih ht' hin]
        split
        · rfl
        · rfl

/-- Over memory without a terminator, if it is not there. -/
theorem strstr_unterminated (ht : z ∉ t) (h : ¬ q <:+: t) :
    strstr z q t = none := by
  induction t with
  | nil => rfl
  | cons b t ih =>
      rw [List.mem_cons, not_or] at ht
      obtain ⟨hb, ht'⟩ := ht
      rw [List.infix_cons_iff, not_or] at h
      rw [strstr_cons hb, if_neg h.1]
      exact ih ht' h.2

end CorrectGps.Lib
