/-
Fixed-size memory blocks: a C array as a vector, written only by
`blit` (a `memcpy` or a member assignment) and read by `slice`.

`blit` reads its source before it writes, so a block moved inside its
own array is copied from the old contents. The one equation callers
need is `blit_split`: on an array laid out as `front ++ old ++ back`,
writing `new` over `old` leaves `front ++ new ++ back`.
-/
import Mathlib.Data.Vector.Basic

namespace CorrectGps.Lib

variable {α : Type} {n : Nat}

/-- `k` elements from index `i` on. -/
def slice (l : List α) (i k : Nat) : List α := (l.drop i).take k

/-- The middle of a three-part list. -/
theorem slice_middle (a b r : List α) :
    slice (a ++ (b ++ r)) a.length b.length = b := by
  rw [slice, List.drop_left, List.take_left]

/-- Write `src` over the array from index `off` on. Writes past the end
are cut off; no caller makes one. -/
def blit (v : List.Vector α n) (off : Nat) (src : List α) :
    List.Vector α n :=
  ⟨(v.val.take off ++ (src ++ v.val.drop (off + src.length))).take n, by
    have hv := v.property
    simp only [List.length_take, List.length_append, List.length_drop, hv]
    omega⟩

/-- Writing over the middle of an array. -/
theorem blit_split {v : List.Vector α n} {front old back : List α}
    (hv : v.val = front ++ (old ++ back)) {off : Nat}
    (hoff : off = front.length) {new : List α}
    (hnew : new.length = old.length) :
    (blit v off new).val = front ++ (new ++ back) := by
  have hlen : (front ++ (new ++ back)).length = n := by
    have := v.property
    rw [hv] at this
    simpa [hnew] using this
  have hdrop : v.val.drop (off + new.length) = back := by
    rw [hv, hoff, hnew, ← List.append_assoc, ← List.length_append,
      List.drop_left]
  have htake : v.val.take off = front := by
    rw [hv, hoff, List.take_left]
  show (v.val.take off ++ (new ++ v.val.drop (off + new.length))).take n = _
  rw [htake, hdrop, ← hlen, List.take_length]

/-- Writing at the front of an array that has room. -/
theorem blit_zero {v : List.Vector α n} {src : List α}
    (h : src.length ≤ n) :
    (blit v 0 src).val = src ++ v.val.drop src.length := by
  have hv : v.val
      = [] ++ (v.val.take src.length ++ v.val.drop src.length) := by
    rw [List.nil_append, List.take_append_drop]
  have hlen : src.length = (v.val.take src.length).length := by
    rw [List.length_take, v.property]
    omega
  have hsplit : (blit v 0 src).val
      = [] ++ (src ++ v.val.drop src.length) := blit_split hv rfl hlen
  simpa using hsplit

/-- Writing past a known prefix that leaves room. -/
theorem blit_append {v : List.Vector α n} {front back : List α}
    (hv : v.val = front ++ back) {src : List α}
    (h : front.length + src.length ≤ n) :
    (blit v front.length src).val
      = front ++ (src ++ back.drop src.length) := by
  have hback : back.length = n - front.length := by
    have := v.property
    rw [hv, List.length_append] at this
    omega
  have hsplit : v.val
      = front ++ (back.take src.length ++ back.drop src.length) := by
    rw [List.take_append_drop]
    exact hv
  have hlen : src.length = (back.take src.length).length := by
    rw [List.length_take]
    omega
  exact blit_split hsplit rfl hlen

/-- Writing behind a known front leaves it. -/
theorem blit_front {v : List.Vector α n} {front back : List α}
    (hv : v.val = front ++ back) {off : Nat} (hoff : front.length ≤ off)
    (src : List α) : ∃ back', (blit v off src).val = front ++ back' := by
  have hlen : front.length ≤ n := by
    have := v.property
    rw [hv, List.length_append] at this
    omega
  have htake : v.val.take off
      = front ++ back.take (off - front.length) := by
    rw [hv, List.take_append, List.take_of_length_le hoff]
  show ∃ back', (v.val.take off ++ (src ++ v.val.drop (off + src.length))).take
    n = front ++ back'
  rw [htake, List.append_assoc, List.take_append,
    List.take_of_length_le hlen]
  exact ⟨_, rfl⟩

/-- An element of a written array: an old one, or one written. -/
theorem blit_getElem? (v : List.Vector α n) {off : Nat} (hoff : off ≤ n)
    (src : List α) {k : Nat} (hk : k < n) :
    (blit v off src).val[k]?
      = if off ≤ k ∧ k < off + src.length then src[k - off]?
        else v.val[k]? := by
  have htake : (v.val.take off).length = off := by
    rw [List.length_take, v.property]
    omega
  show ((v.val.take off ++ (src ++ v.val.drop (off + src.length))).take
    n)[k]? = _
  rw [List.getElem?_take_of_lt hk]
  rcases Nat.lt_or_ge k off with hlt | hge
  · rw [if_neg (by omega), List.getElem?_append_left (by omega),
      List.getElem?_take_of_lt hlt]
  · rw [List.getElem?_append_right (by omega), htake]
    by_cases hin : k < off + src.length
    · rw [if_pos ⟨hge, hin⟩, List.getElem?_append_left (by omega)]
    · rw [if_neg (by omega), List.getElem?_append_right (by omega),
        List.getElem?_drop]
      congr 1
      omega

/-- What is in a written array was there, or has been written. -/
theorem mem_blit {v : List.Vector α n} {off : Nat} {src : List α} {b : α}
    (h : b ∈ (blit v off src).val) : b ∈ src ∨ b ∈ v.val := by
  rcases List.mem_append.mp (List.mem_of_mem_take h) with h | h
  · exact Or.inr (List.mem_of_mem_take h)
  · rcases List.mem_append.mp h with h | h
    · exact Or.inl h
    · exact Or.inr (List.mem_of_mem_drop h)

-- ============================================================== C strings

/-- What is read up to a terminator does not depend on what follows. -/
theorem takeWhile_stop {p : α → Bool} {z : α} (hz : p z = false)
    (v r : List α) : (v ++ z :: r).takeWhile p = v.takeWhile p := by
  induction v with
  | nil => simp [hz]
  | cons b v ih =>
      rw [List.cons_append, List.takeWhile_cons, List.takeWhile_cons, ih]

end CorrectGps.Lib
