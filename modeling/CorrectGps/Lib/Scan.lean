/-
Bounded scans and byte patterns: the reading half of C string code,
with nothing of any one program in it.

# Scans

`scan hit k x` is the loop `while (x < bound) if hit(x) break; else ++x`
with `k = bound - x` iterations left: it stops on the first hit, or on
the bound. `scan_eq_iff` is the whole interface — a caller names the
stopping place and discharges the two facts that pin it. `scanDown` is
its mirror image, the backward walk of an insertion.

# Patterns

A `Pat` is one pair of accepted bytes per position (a letter in both
cases). `Pat.at` reads a pattern at the front of a memory suffix, left
to right, the way a chain of `&&` tests does. The lemma that matters is
`Pat.at_append`: no pattern that rejects the terminator can match across
it, so a search over terminated memory is a search over the text alone.

# Places

`Pat.reads` and `scanReads` are the places in memory that these loops
look at. What they return depends on nothing else (`Pat.at_congr`,
`scan_congr_reads`).
-/
import Mathlib.Data.List.GetD
import Mathlib.Data.Nat.Basic

namespace CorrectGps.Lib

-- ================================================================ scans

/-- First place in `[x, x + k)` where `hit` holds, `x + k` if there is
none: the loop body runs at most `k` more times. -/
def scan (hit : Nat → Bool) : Nat → Nat → Nat
  | 0, x => x
  | k + 1, x => if hit x then x else scan hit k (x + 1)

variable {hit : Nat → Bool}

theorem scan_ge (k x : Nat) : x ≤ scan hit k x := by
  induction k generalizing x with
  | zero => exact Nat.le_refl x
  | succ k ih =>
      rw [scan]
      split
      · exact Nat.le_refl x
      · exact Nat.le_trans (Nat.le_succ x) (ih (x + 1))

theorem scan_le (k x : Nat) : scan hit k x ≤ x + k := by
  induction k generalizing x with
  | zero => exact Nat.le_refl x
  | succ k ih =>
      rw [scan]
      split
      · omega
      · have := ih (x + 1)
        omega

/-- Everything the scan walked past missed. -/
theorem scan_miss {k x y : Nat} (hxy : x ≤ y) (hy : y < scan hit k x) :
    hit y = false := by
  induction k generalizing x with
  | zero =>
      rw [scan] at hy
      omega
  | succ k ih =>
      rw [scan] at hy
      split at hy
      · omega
      · next hx =>
        rcases Nat.eq_or_lt_of_le hxy with rfl | hlt
        · simpa using hx
        · exact ih hlt hy

/-- A scan that stops short of the bound stopped on a hit. -/
theorem scan_hit {k x : Nat} (h : scan hit k x < x + k) :
    hit (scan hit k x) = true := by
  induction k generalizing x with
  | zero =>
      rw [scan] at h
      omega
  | succ k ih =>
      rw [scan] at h ⊢
      split at h
      · next hx =>
        rw [if_pos hx]
        exact hx
      · next hx =>
        rw [if_neg hx]
        exact ih (by omega)

/-- The stopping place, pinned: nothing before it hits, and it is the
bound or a hit. -/
theorem scan_eq_iff {k x y : Nat} (hx : x ≤ y) (hy : y ≤ x + k) :
    scan hit k x = y ↔
      (∀ z, x ≤ z → z < y → hit z = false) ∧ (y < x + k → hit y = true) := by
  constructor
  · rintro rfl
    exact ⟨fun z hz hlt => scan_miss hz hlt, scan_hit⟩
  · rintro ⟨hmiss, hat⟩
    have hge : x ≤ scan hit k x := scan_ge k x
    have hle : scan hit k x ≤ x + k := scan_le k x
    rcases Nat.lt_trichotomy (scan hit k x) y with hlt | heq | hgt
    · have h1 : hit (scan hit k x) = true := scan_hit (by omega)
      rw [hmiss _ hge hlt] at h1
      cases h1
    · exact heq
    · have h1 : hit y = false := scan_miss hx hgt
      rw [hat (by omega)] at h1
      cases h1

/-- Scans only look at the window. -/
theorem scan_congr {hit' : Nat → Bool} {k x : Nat}
    (h : ∀ y, x ≤ y → y < x + k → hit y = hit' y) :
    scan hit k x = scan hit' k x := by
  induction k generalizing x with
  | zero => rfl
  | succ k ih =>
      rw [scan, scan, h x (Nat.le_refl x) (by omega),
        ih fun y hy hlt => h y (by omega) (by omega)]

/-- They only look as far as they go. -/
theorem scan_congr_stop {hit' : Nat → Bool} {k x : Nat}
    (h : ∀ y, x ≤ y → y ≤ scan hit k x → hit y = hit' y) :
    scan hit k x = scan hit' k x := by
  induction k generalizing x with
  | zero => rfl
  | succ k ih =>
      have hx := h x (Nat.le_refl x) (scan_ge (k + 1) x)
      rw [scan] at h ⊢
      rw [scan, ← hx]
      cases hc : hit x with
      | true => rfl
      | false =>
          rw [hc] at h
          exact ih fun y hy hle => h y (by omega) hle

/-- Moving the window and the test together moves the answer. -/
theorem scan_shift (d k x : Nat) :
    scan hit k (d + x) = d + scan (fun y => hit (d + y)) k x := by
  induction k generalizing x with
  | zero => rfl
  | succ k ih =>
      rw [scan, scan]
      split
      · rfl
      · rw [Nat.add_assoc, ih]

/-- A scan of a whole array is a search in its elements. -/
theorem find_eq_scan {α : Type} (p : α → Bool) (z : α) (l : List α) :
    l.find? p
      = if scan (fun i => p (l.getD i z)) l.length 0 < l.length then
          some (l.getD (scan (fun i => p (l.getD i z)) l.length 0) z)
        else none := by
  induction l with
  | nil => rfl
  | cons b l ih =>
      have hshift : scan (fun i => p ((b :: l).getD i z)) l.length 1
          = 1 + scan (fun i => p (l.getD i z)) l.length 0 := by
        have h : scan (fun i => p ((b :: l).getD i z)) l.length (1 + 0)
            = 1 + scan (fun i => p ((b :: l).getD (1 + i) z)) l.length 0 :=
          scan_shift 1 l.length 0
        simpa [Nat.add_comm] using h
      rw [List.length_cons, scan]
      by_cases hb : p b = true
      · simp [hb]
      · have hb0 : ¬ p ((b :: l).getD 0 z) = true := hb
        rw [List.find?_cons_of_neg hb, ih, if_neg hb0, hshift]
        by_cases hlt : scan (fun i => p (l.getD i z)) l.length 0 < l.length
        · rw [if_pos hlt, if_pos (by omega), Nat.add_comm 1,
            List.getD_cons_succ]
        · rw [if_neg hlt, if_neg (by omega)]

-- ======================================================= downward scans

/-- The loop `while (hit(x)) if (x == 0) break; else --x`: the last place
at or below `x` where `hit` fails, or 0. -/
def scanDown (hit : Nat → Bool) : Nat → Nat
  | 0 => 0
  | x + 1 => if hit (x + 1) then scanDown hit x else x + 1

/-- Its stopping place: everything above hits, and it does not or is
0. -/
theorem scanDown_eq {x y : Nat} (hy : y ≤ x)
    (habove : ∀ z, y < z → z ≤ x → hit z = true)
    (hat : y = 0 ∨ hit y = false) : scanDown hit x = y := by
  induction x with
  | zero => exact (Nat.le_zero.mp hy).symm
  | succ x ih =>
      rw [scanDown]
      rcases Nat.eq_or_lt_of_le hy with rfl | hlt
      · rcases hat with h0 | hmiss
        · omega
        · rw [if_neg (by rw [hmiss]; simp)]
      · rw [if_pos (habove (x + 1) hlt (Nat.le_refl _))]
        exact ih (Nat.le_of_lt_succ hlt)
          fun z hz hzx => habove z hz (Nat.le_succ_of_le hzx)

theorem scanDown_le (x : Nat) : scanDown hit x ≤ x := by
  induction x with
  | zero => exact Nat.le_refl 0
  | succ x ih =>
      rw [scanDown]
      split
      · exact Nat.le_succ_of_le ih
      · exact Nat.le_refl _

/-- Everything above it hits. -/
theorem scanDown_hit {x z : Nat} (hz : scanDown hit x < z) (hzx : z ≤ x) :
    hit z = true := by
  induction x with
  | zero => omega
  | succ x ih =>
      rw [scanDown] at hz
      split at hz
      · next hx =>
        rcases Nat.eq_or_lt_of_le hzx with rfl | hlt
        · exact hx
        · exact ih hz (Nat.le_of_lt_succ hlt)
      · omega

/-- A walk that stops above 0 stops where the test fails. -/
theorem scanDown_miss {x : Nat} (h : scanDown hit x ≠ 0) :
    hit (scanDown hit x) = false := by
  induction x with
  | zero => exact absurd rfl h
  | succ x ih =>
      rw [scanDown] at h ⊢
      split at h
      · next hx =>
        rw [if_pos hx]
        exact ih h
      · next hx =>
        rw [if_neg hx]
        exact Bool.eq_false_iff.mpr hx

-- ============================================================= patterns

/-- A byte pattern: the two bytes accepted at each position. -/
abbrev Pat := List (UInt8 × UInt8)

/-- Does the memory suffix `m` start with the pattern? -/
def Pat.at : Pat → List UInt8 → Bool
  | [], _ => true
  | _ :: _, [] => false
  | q :: qs, b :: m => (b == q.1 || b == q.2) && Pat.at qs m

/-- No position of the pattern accepts the byte `z`. -/
def Pat.Rejects (q : Pat) (z : UInt8) : Prop :=
  ∀ c ∈ q, z ≠ c.1 ∧ z ≠ c.2

instance (q : Pat) (z : UInt8) : Decidable (q.Rejects z) :=
  List.decidableBAll (fun c : UInt8 × UInt8 => z ≠ c.1 ∧ z ≠ c.2) q

/-- A match lies inside its text. -/
theorem Pat.length_le_of_at {q : Pat} {m : List UInt8}
    (h : q.at m = true) : q.length ≤ m.length := by
  induction q generalizing m with
  | nil => exact Nat.zero_le _
  | cons c q ih =>
      cases m with
      | nil => cases h
      | cons b m =>
          rw [Pat.at, Bool.and_eq_true] at h
          exact Nat.succ_le_succ (ih h.2)

/-- A match survives whatever follows the text. -/
theorem Pat.at_append_of_at {q : Pat} {m : List UInt8} (r : List UInt8)
    (h : q.at m = true) : q.at (m ++ r) = true := by
  induction q generalizing m with
  | nil => rfl
  | cons c q ih =>
      cases m with
      | nil => cases h
      | cons b m =>
          rw [Pat.at, Bool.and_eq_true] at h
          rw [List.cons_append, Pat.at, Bool.and_eq_true]
          exact ⟨h.1, ih h.2⟩

/-- No match crosses a terminator the pattern rejects. -/
theorem Pat.at_append {q : Pat} {z : UInt8} (hq : q.Rejects z)
    (m r : List UInt8) : q.at (m ++ z :: r) = q.at m := by
  induction q generalizing m with
  | nil => rfl
  | cons c q ih =>
      have hq' : Pat.Rejects q z :=
        fun c' hc => hq c' (List.mem_cons_of_mem _ hc)
      obtain ⟨h1, h2⟩ := hq c (List.mem_cons_self ..)
      cases m with
      | nil => simp [Pat.at, h1, h2]
      | cons b m => rw [List.cons_append, Pat.at, Pat.at, ih hq']

-- ================================================================ places

/-- The places a chain of tests looks at in memory: up to the first that
fails. -/
def Pat.reads : Pat → List UInt8 → Nat → List Nat
  | [], _, _ => []
  | c :: q, m, x =>
      x :: if m.getD x 0 == c.1 || m.getD x 0 == c.2 then
        Pat.reads q m (x + 1)
      else []

/-- The places a scan looks at, if a test at `y` looks at `look y`. -/
def scanReads (look : Nat → List Nat) (hit : Nat → Bool) :
    Nat → Nat → List Nat
  | 0, _ => []
  | k + 1, x => look x ++ if hit x then [] else scanReads look hit k (x + 1)

/-- A match depends on the places looked at. -/
theorem Pat.at_congr {q : Pat} {m m' : List UInt8} {x : Nat}
    (hlen : m.length = m'.length)
    (h : ∀ k ∈ q.reads m x, m.getD k 0 = m'.getD k 0) :
    q.at (m.drop x) = q.at (m'.drop x) := by
  induction q generalizing x with
  | nil => rfl
  | cons c q ih =>
      have hx := h x List.mem_cons_self
      by_cases hlt : x < m.length
      · have hlt' : x < m'.length := hlen ▸ hlt
        rw [List.drop_eq_getElem_cons hlt, List.drop_eq_getElem_cons hlt',
          Pat.at, Pat.at, ← List.getD_eq_getElem _ 0 hlt,
          ← List.getD_eq_getElem _ 0 hlt', ← hx]
        cases hc : (m.getD x 0 == c.1 || m.getD x 0 == c.2) with
        | false => rfl
        | true =>
            rw [ih]
            intro k hk
            apply h
            rw [Pat.reads, hc, if_pos rfl]
            exact List.mem_cons_of_mem x hk
      · rw [List.drop_eq_nil_of_le (by omega),
          List.drop_eq_nil_of_le (by omega)]

/-- A pattern that rejects the terminator does not look past it. -/
theorem Pat.reads_le {q : Pat} (hq : q.Rejects 0) {m : List UInt8}
    {n x : Nat} (hn : m.getD n 0 = 0) (hx : x ≤ n) :
    ∀ k ∈ q.reads m x, k ≤ n := by
  induction q generalizing x with
  | nil =>
      intro k hk
      cases hk
  | cons c q ih =>
      have hq' : Pat.Rejects q 0 :=
        fun c' hc => hq c' (List.mem_cons_of_mem _ hc)
      intro k hk
      rw [Pat.reads] at hk
      rcases List.mem_cons.mp hk with rfl | hk
      · exact hx
      · split at hk
        · next hc =>
          have hne : x ≠ n := by
            rintro rfl
            obtain ⟨h1, h2⟩ := hq c List.mem_cons_self
            rw [hn, Bool.or_eq_true, beq_iff_eq, beq_iff_eq] at hc
            rcases hc with hc | hc
            · exact h1 hc
            · exact h2 hc
          exact ih hq' (by omega) k hk
        · cases hk

/-- So does where a scan stops. -/
theorem scan_congr_reads {look : Nat → List Nat} {hit' : Nat → Bool}
    {P : Nat → Prop} (hhit : ∀ y, (∀ k ∈ look y, P k) → hit y = hit' y)
    {k x : Nat} (h : ∀ z ∈ scanReads look hit k x, P z) :
    scan hit k x = scan hit' k x := by
  induction k generalizing x with
  | zero => rfl
  | succ k ih =>
      have hx : hit x = hit' x :=
        hhit x fun z hz => h z (List.mem_append_left _ hz)
      rw [scan, scan, ← hx]
      cases hc : hit x with
      | true => rfl
      | false =>
          rw [ih]
          intro z hz
          apply h
          rw [scanReads, hc]
          exact List.mem_append_right _ hz

/-- What holds of every place a test in the window looks at holds of
those the scan does. -/
theorem forall_scanReads {look : Nat → List Nat} {P : Nat → Prop}
    {k x : Nat} (h : ∀ y, x ≤ y → y < x + k → ∀ z ∈ look y, P z) :
    ∀ z ∈ scanReads look hit k x, P z := by
  induction k generalizing x with
  | zero =>
      intro z hz
      cases hz
  | succ k ih =>
      intro z hz
      rw [scanReads] at hz
      rcases List.mem_append.mp hz with hz | hz
      · exact h x (Nat.le_refl x) (by omega) z hz
      · split at hz
        · cases hz
        · exact ih (fun y hy hlt => h y (by omega) (by omega)) z hz

end CorrectGps.Lib
