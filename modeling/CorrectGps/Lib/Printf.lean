/-
`printf`: the specifications in a format, and how numbers are written.

# Formats

A format is read from left to right. A `%` outside a specification
begins one, which goes on over flags, width, precision and length
modifiers to the conversion character (`specs`). `vsprintf` is given no
arguments: of the specifications it can print only `%%`; every other one
takes an argument that is not there, or is none that C knows.

# Numbers

`%d` writes the digits of a number (`decimal`), `%04d` fills them up with
zeros (`padded`).
-/
import Mathlib.Data.Nat.Digits.Defs

namespace CorrectGps.Lib

variable {fmt front back : List UInt8}

-- =============================================================== formats

/-- A byte between the `%` and the conversion character: a flag, a digit
or `*` or `.` of width and precision, or a length modifier. -/
def isModifier (b : UInt8) : Bool :=
  [45, 43, 32, 35, 39, 73, 42, 46, 104, 108, 113, 76, 106, 122, 116,
    90].contains b || (48 ≤ b && b ≤ 57)

/-- The places where specifications begin, the format beginning at `i`,
inside of one or outside. -/
def specs (inside : Bool) (i : Nat) : List UInt8 → List Nat
  | [] => []
  | b :: fmt =>
      if inside then specs (isModifier b) (i + 1) fmt
      else if b = 37 then i :: specs true (i + 1) fmt
      else specs false (i + 1) fmt

/-- `vsprintf` of a format for which no arguments were passed. -/
def vsprintf : List UInt8 → Option (List UInt8)
  | [] => some []
  | b :: fmt =>
      if b = 37 then
        match fmt with
        | 37 :: fmt' => (vsprintf fmt').map (37 :: ·)
        | _ => none
      else (vsprintf fmt).map (b :: ·)

/-- Without a `%` there is no specification. -/
theorem specs_plain (h : 37 ∉ fmt) (i : Nat) : specs false i fmt = [] := by
  induction fmt generalizing i with
  | nil => rfl
  | cons b fmt ih =>
      rw [List.mem_cons, not_or] at h
      rw [specs, if_neg (by simp), if_neg (Ne.symm h.1), ih h.2]

theorem vsprintf_cons {b : UInt8} (hb : b ≠ 37) (fmt : List UInt8) :
    vsprintf (b :: fmt) = (vsprintf fmt).map (b :: ·) := by
  conv_lhs => unfold vsprintf
  rw [if_neg hb]

/-- A format is printed as it stands. -/
theorem vsprintf_plain (h : 37 ∉ fmt) : vsprintf fmt = some fmt := by
  induction fmt with
  | nil => rfl
  | cons b fmt ih =>
      rw [List.mem_cons, not_or] at h
      rw [vsprintf_cons (Ne.symm h.1), ih h.2]
      rfl

/-- What stands in front of the first `%` is printed as it stands. -/
theorem vsprintf_front (h : 37 ∉ front) (fmt : List UInt8) :
    vsprintf (front ++ fmt) = (vsprintf fmt).map (front ++ ·) := by
  induction front with
  | nil =>
      show vsprintf fmt = (vsprintf fmt).map id
      rw [Option.map_id, id]
  | cons b front ih =>
      rw [List.mem_cons, not_or] at h
      rw [List.cons_append, vsprintf_cons (Ne.symm h.1), ih h.2,
        Option.map_map]
      rfl

/-- So is what stands behind the last one. -/
theorem vsprintf_back (h : 37 ∉ back) (fmt : List UInt8) :
    vsprintf (fmt ++ back) = (vsprintf fmt).map (· ++ back) := by
  fun_induction vsprintf fmt with
  | case1 =>
      rw [List.nil_append, vsprintf_plain h]
      rfl
  | case2 fmt' ih =>
      rw [List.cons_append, List.cons_append, vsprintf, if_pos rfl, ih,
        Option.map_map, Option.map_map]
      rfl
  | case3 fmt' hfmt =>
      -- a `%` with another byte behind it, or with the back
      have hno : ∀ m, fmt' ++ back ≠ 37 :: m := by
        intro m heq
        cases fmt' with
        | nil =>
            obtain rfl := heq
            exact h List.mem_cons_self
        | cons b fmt' =>
            rw [List.cons_append] at heq
            cases heq
            exact hfmt fmt' rfl
      rw [List.cons_append, Option.map_none]
      unfold vsprintf
      rw [if_pos rfl]
      split
      · next m heq => exact absurd heq (hno m)
      · rfl
  | case4 b fmt' hb ih =>
      rw [List.cons_append, vsprintf_cons hb, ih, Option.map_map,
        Option.map_map]
      rfl

/-- The first `%` begins a specification. -/
theorem mem_specs (h : 37 ∉ front) (i : Nat) (back : List UInt8) :
    i + front.length ∈ specs false i (front ++ 37 :: back) := by
  induction front generalizing i with
  | nil =>
      rw [List.nil_append, specs, if_neg (by simp), if_pos rfl]
      exact List.mem_cons_self
  | cons b front ih =>
      rw [List.mem_cons, not_or] at h
      rw [List.cons_append, specs, if_neg (by simp), if_neg (Ne.symm h.1),
        List.length_cons]
      have hnext := ih h.2 (i + 1)
      have hplace : i + 1 + front.length = i + (front.length + 1) := by omega
      rwa [hplace] at hnext

-- =============================================================== numbers

/-- `%d` of a natural number. -/
def decimal (n : Nat) : List UInt8 :=
  (Nat.toDigits 10 n).map fun c => c.val.toUInt8

/-- `%0wd` -/
def padded (w n : Nat) : List UInt8 :=
  List.replicate (w - (decimal n).length) 48 ++ decimal n

theorem decimal_length_le_iff {n k : Nat} (hk : 0 < k) :
    (decimal n).length ≤ k ↔ n < 10 ^ k := by
  unfold decimal
  rw [List.length_map]
  exact Nat.length_toDigits_le_iff (by omega) hk

theorem padded_length {w n : Nat} (hw : 0 < w) (hn : n < 10 ^ w) :
    (padded w n).length = w := by
  have hle := (decimal_length_le_iff hw).mpr hn
  unfold padded
  rw [List.length_append, List.length_replicate]
  omega

/-- Digits are no `%`. -/
theorem decimal_plain (n : Nat) : 37 ∉ decimal n := by
  intro h
  unfold decimal at h
  obtain ⟨c, hc, hbyte⟩ := List.mem_map.mp h
  have hdigit := Nat.isDigit_of_mem_toDigits (by omega) (by omega) hc
  unfold Char.isDigit at hdigit
  rw [Bool.and_eq_true, decide_eq_true_eq, decide_eq_true_eq] at hdigit
  have hlow : 48 ≤ c.val.toNat := UInt32.le_iff_toNat_le.mp hdigit.1
  have hhigh : c.val.toNat ≤ 57 := UInt32.le_iff_toNat_le.mp hdigit.2
  have hnat := congrArg UInt8.toNat hbyte
  rw [UInt32.toNat_toUInt8] at hnat
  have h37 : (37 : UInt8).toNat = 37 := rfl
  omega

theorem padded_plain (w n : Nat) : 37 ∉ padded w n := by
  intro h
  rcases List.mem_append.mp h with h | h
  · exact absurd (List.eq_of_mem_replicate h) (by decide)
  · exact decimal_plain n h

end CorrectGps.Lib
