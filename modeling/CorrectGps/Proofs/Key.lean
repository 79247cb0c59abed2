/-
What `chang2uint` makes of a coordinate text.

The loop drops the dot and stops behind the second decimal, and fills
nothing in where a decimal is missing. So the key of a text with two
decimals or more is the number of its 0.01 cell, and that of a text with
fewer is the same digits taken ten or a hundred times too small
(`decimal_key_iff`).
-/
import CorrectGps.Proofs.Complete
import CorrectGps.Tools
import Mathlib.Algebra.Order.Floor.Semifield
import Mathlib.Data.Rat.Floor
import Mathlib.Tactic.FieldSimp
import Mathlib.Tactic.Ring

namespace CorrectGps

open Lib CClient

variable {b : UInt8} {ds es : List UInt8}

-- =============================================================== digits

/-- Nothing but digits. -/
def Digits (ds : List UInt8) : Prop := ∀ b ∈ ds, isDigit b = true

theorem readDigits_cons (acc : Nat) (hb : isDigit b = true)
    (ds : List UInt8) :
    readDigits acc (b :: ds) = readDigits (acc * 10 + (b.toNat - 48)) ds := by
  have hb' : (48 ≤ b && b ≤ 57) = true := by
    unfold isDigit at hb
    simpa using hb
  rw [readDigits, if_pos hb']

/-- Reading goes on behind digits. -/
theorem readDigits_append (acc : Nat) (hds : Digits ds)
    (es : List UInt8) :
    readDigits acc (ds ++ es) = readDigits (readDigits acc ds) es := by
  induction ds generalizing acc with
  | nil => rfl
  | cons b ds ih =>
      obtain ⟨hb, hds'⟩ := List.forall_mem_cons.mp hds
      rw [List.cons_append, readDigits_cons acc hb, readDigits_cons acc hb,
        ih _ hds']

/-- What has been read so far counts by its place. -/
theorem readDigits_acc (acc : Nat) (hds : Digits ds) :
    readDigits acc ds = acc * 10 ^ ds.length + readDigits 0 ds := by
  induction ds generalizing acc with
  | nil => simp [readDigits]
  | cons b ds ih =>
      obtain ⟨hb, hds'⟩ := List.forall_mem_cons.mp hds
      rw [readDigits_cons acc hb, readDigits_cons 0 hb, ih _ hds',
        ih (0 * 10 + _) hds', List.length_cons, pow_succ]
      ring

theorem readDigits_lt (hds : Digits ds) :
    readDigits 0 ds < 10 ^ ds.length := by
  induction ds with
  | nil => simp [readDigits]
  | cons b ds ih =>
      obtain ⟨hb, hds'⟩ := List.forall_mem_cons.mp hds
      have hlt := ih hds'
      have hdigit : b.toNat - 48 ≤ 9 := by
        have hle := of_decide_eq_true hb
        have h57 : b.toNat ≤ 57 := UInt8.le_iff_toNat_le.mp hle.2
        omega
      rw [readDigits_cons 0 hb, readDigits_acc _ hds', List.length_cons,
        pow_succ, Nat.zero_mul, Nat.zero_add]
      have hmul : (b.toNat - 48) * 10 ^ ds.length ≤ 9 * 10 ^ ds.length :=
        Nat.mul_le_mul_right _ hdigit
      omega

/-- A digit is none of the bytes that mean something else. -/
theorem isDigit_ne (hb : isDigit b = true) :
    b ≠ 0 ∧ b ≠ 46 ∧ b ≠ 45 ∧ b ≠ 43 ∧ isSpace b = false := by
  have h48 : 48 ≤ b.toNat :=
    UInt8.le_iff_toNat_le.mp (of_decide_eq_true hb).1
  have hne : ∀ c : UInt8, c.toNat < 48 → b ≠ c := by
    intro c hc heq
    obtain rfl := heq
    omega
  refine ⟨hne 0 (by decide), hne 46 (by decide), hne 45 (by decide),
    hne 43 (by decide), ?_⟩
  have hspace : b ≠ 32 := hne 32 (by decide)
  have hcontrol : ¬ b ≤ 13 := by
    intro hle
    have h13 : b.toNat ≤ 13 := UInt8.le_iff_toNat_le.mp hle
    omega
  simp [isSpace, hspace, hcontrol]

/-- `atoi` of digits. -/
theorem atoi_digits (hne : ds ≠ []) (hds : Digits ds) :
    atoi ds = readDigits 0 ds := by
  obtain ⟨b, ds, rfl⟩ := List.exists_cons_of_ne_nil hne
  obtain ⟨-, -, hminus, hplus, hspace⟩ := isDigit_ne (hds b List.mem_cons_self)
  unfold atoi
  rw [List.dropWhile_cons_of_neg (by rw [hspace]; simp)]
  split
  · next heq => exact absurd (List.cons.inj heq).1 hminus
  · next heq => exact absurd (List.cons.inj heq).1 hplus
  · rfl

/-- The copy of digits in front of the dot, and behind it. -/
theorem keyBytes_whole (hds : Digits ds) (es : List UInt8) :
    keyBytes 0 false (ds ++ es) = ds ++ keyBytes 0 false es := by
  induction ds with
  | nil => rfl
  | cons b ds ih =>
      obtain ⟨hb, hds'⟩ := List.forall_mem_cons.mp hds
      obtain ⟨hnul, hdot, -⟩ := isDigit_ne hb
      rw [List.cons_append, keyBytes, if_neg (by simp [hnul]), if_neg hdot,
        if_neg (by simp), ih hds', List.cons_append]

theorem keyBytes_frac (j : Nat) (hds : Digits ds) :
    keyBytes j true ds = ds.take (3 - j) := by
  induction ds generalizing j with
  | nil => simp [keyBytes]
  | cons b ds ih =>
      obtain ⟨hb, hds'⟩ := List.forall_mem_cons.mp hds
      obtain ⟨hnul, hdot, -⟩ := isDigit_ne hb
      rw [keyBytes]
      by_cases hj : 3 ≤ j
      · have hzero : 3 - j = 0 := by omega
        rw [if_pos (Or.inr hj), hzero, List.take_zero]
      · have hsucc : 3 - j = (3 - (j + 1)) + 1 := by omega
        rw [if_neg (by simp [hnul, hj]), if_neg hdot, if_pos rfl,
          ih (j + 1) hds', hsucc, List.take_succ_cons]

-- =============================================================== the key

/-- A coordinate text: digits, and if there are decimals a dot and
these. -/
structure Decimal where
  whole : List UInt8
  frac : List UInt8
  whole_pos : 1 ≤ whole.length
  whole_le : whole.length ≤ 7
  whole_digits : Digits whole
  frac_digits : Digits frac

namespace Decimal

/-- As it is written. -/
def text (d : Decimal) : List UInt8 :=
  d.whole ++ if d.frac = [] then [] else 46 :: d.frac

/-- The number it denotes. -/
def value (d : Decimal) : Rat :=
  readDigits 0 d.whole + readDigits 0 d.frac / 10 ^ d.frac.length

/-- The digits `chang2uint` converts. -/
def keyText (d : Decimal) : List UInt8 := d.whole ++ d.frac.take 2

/-- The key is the number of the 0.01 cell. -/
def KeyIsCell (d : Decimal) : Prop :=
  ∃ key, chang2uint d.text = some key ∧ key.toNat = ⌊100 * d.value⌋₊

variable (d : Decimal)

theorem keyText_digits : Digits d.keyText := by
  intro b hb
  rcases List.mem_append.mp hb with hb | hb
  · exact d.whole_digits b hb
  · exact d.frac_digits b (List.mem_of_mem_take hb)

theorem keyText_length : d.keyText.length ≤ 9 := by
  have hwhole := d.whole_le
  unfold keyText
  rw [List.length_append, List.length_take]
  omega

theorem keyBytes_text : keyBytes 0 false d.text = d.keyText := by
  unfold text keyText
  rw [keyBytes_whole d.whole_digits]
  split
  · next hnil =>
    rw [hnil]
    rfl
  · rw [keyBytes, if_neg (by simp), if_pos rfl,
      keyBytes_frac 1 d.frac_digits]

/-- The key of a text. -/
theorem chang2uint_text :
    ∃ key, chang2uint d.text = some key
      ∧ key.toNat = readDigits 0 d.keyText := by
  have hlen := d.keyText_length
  have hlt := readDigits_lt d.keyText_digits
  have hpow : 10 ^ d.keyText.length ≤ 10 ^ 9 :=
    Nat.pow_le_pow_right (by omega) hlen
  have hne : d.keyText ≠ [] := by
    have hpos := d.whole_pos
    intro hnil
    have hzero := congrArg List.length hnil
    unfold keyText at hzero
    rw [List.length_append, List.length_nil] at hzero
    omega
  refine ⟨UInt32.ofInt (atoi d.keyText), ?_, ?_⟩
  · unfold chang2uint
    simp only [d.keyBytes_text]
    rw [if_pos (by omega)]
  · rw [atoi_digits hne d.keyText_digits]
    show (UInt32.ofNat _).toNat = _
    rw [UInt32.toNat_ofNat_of_lt' (by
      show _ < 4294967296
      omega)]
    omega

/-- A hundred times the value, as a fraction. -/
theorem floor_value :
    ⌊100 * d.value⌋₊
      = 100 * readDigits 0 d.whole
        + 100 * readDigits 0 d.frac / 10 ^ d.frac.length := by
  have hfrac : 100 * d.value = ((100 * readDigits 0 d.frac
        + 10 ^ d.frac.length * (100 * readDigits 0 d.whole) : Nat) : Rat)
      / ((10 ^ d.frac.length : Nat) : Rat) := by
    unfold value
    push_cast
    field_simp
    ring
  rw [hfrac, Nat.floor_div_eq_div,
    Nat.add_mul_div_left _ _ (by positivity)]
  omega

/-- The decimals behind the second count for less than one cell. -/
theorem cell_eq (h : 2 ≤ d.frac.length) :
    100 * readDigits 0 d.whole
        + 100 * readDigits 0 d.frac / 10 ^ d.frac.length
      = readDigits 0 d.keyText := by
  obtain ⟨n, hn⟩ : ∃ n, d.frac.length = 2 + n := ⟨d.frac.length - 2, by omega⟩
  have hfront : Digits (d.frac.take 2) :=
    fun b hb => d.frac_digits b (List.mem_of_mem_take hb)
  have hback : Digits (d.frac.drop 2) :=
    fun b hb => d.frac_digits b (List.mem_of_mem_drop hb)
  have htake : (d.frac.take 2).length = 2 := by
    rw [List.length_take]
    omega
  have hdrop : (d.frac.drop 2).length = n := by
    rw [List.length_drop]
    omega
  have hlt := readDigits_lt hback
  rw [hdrop] at hlt
  have hfrac : readDigits 0 d.frac
      = readDigits 0 (d.frac.take 2) * 10 ^ n
        + readDigits 0 (d.frac.drop 2) := by
    conv_lhs => rw [← List.take_append_drop 2 d.frac]
    rw [readDigits_append 0 hfront, readDigits_acc _ hback, hdrop]
  have hkey : readDigits 0 d.keyText
      = readDigits 0 d.whole * 100 + readDigits 0 (d.frac.take 2) := by
    unfold keyText
    rw [readDigits_append 0 d.whole_digits, readDigits_acc _ hfront, htake]
    rfl
  have hpow : 10 ^ (2 + n) = 100 * 10 ^ n := by
    rw [pow_add]
    rfl
  rw [hn, hpow, Nat.mul_div_mul_left _ _ (by omega), hfrac,
    Nat.mul_comm _ (10 ^ n), Nat.mul_add_div (by positivity),
    Nat.div_eq_of_lt hlt, hkey]
  omega

/-- With fewer than two the digits are taken too small. -/
theorem cell_short (h : d.frac.length < 2) :
    d.keyText = d.whole ++ d.frac
      ∧ 100 * readDigits 0 d.whole
          + 100 * readDigits 0 d.frac / 10 ^ d.frac.length
        = readDigits 0 d.keyText * 10 ^ (2 - d.frac.length) := by
  have hkey : d.keyText = d.whole ++ d.frac := by
    unfold keyText
    rw [List.take_of_length_le (by omega)]
  refine ⟨hkey, ?_⟩
  rw [hkey, readDigits_append 0 d.whole_digits,
    readDigits_acc (readDigits 0 d.whole) d.frac_digits]
  have hcases : d.frac.length = 0 ∨ d.frac.length = 1 := by omega
  rcases hcases with h0 | h1
  · rw [List.length_eq_zero_iff.mp h0]
    simp [readDigits]
    omega
  · rw [h1]
    omega

/-- The value is 0 if all digits are. -/
theorem value_eq_zero_iff :
    d.value = 0 ↔ readDigits 0 d.whole = 0 ∧ readDigits 0 d.frac = 0 := by
  have hwhole : (0 : Rat) ≤ readDigits 0 d.whole := by positivity
  have hfrac : (0 : Rat) ≤ readDigits 0 d.frac / 10 ^ d.frac.length := by
    positivity
  unfold value
  rw [add_eq_zero_iff_of_nonneg hwhole hfrac]
  simp

/-- A text's key is the number of its cell exactly if it has two
decimals or more, or only zeros. -/
theorem keyIsCell_iff :
    d.KeyIsCell ↔ 2 ≤ d.frac.length ∨ d.value = 0 := by
  obtain ⟨key, hkey, hnat⟩ := d.chang2uint_text
  have hcell : d.KeyIsCell ↔ readDigits 0 d.keyText
      = 100 * readDigits 0 d.whole
        + 100 * readDigits 0 d.frac / 10 ^ d.frac.length := by
    unfold KeyIsCell
    rw [hkey, floor_value]
    simp [hnat]
  rw [hcell, value_eq_zero_iff]
  by_cases hlong : 2 ≤ d.frac.length
  · exact iff_of_true (d.cell_eq hlong).symm (Or.inl hlong)
  · obtain ⟨htext, hcells⟩ := d.cell_short (by omega)
    have hsplit : readDigits 0 d.keyText
        = readDigits 0 d.whole * 10 ^ d.frac.length
          + readDigits 0 d.frac := by
      rw [htext, readDigits_append 0 d.whole_digits,
        readDigits_acc (readDigits 0 d.whole) d.frac_digits]
    have hplace : 0 < 10 ^ d.frac.length := by positivity
    have hzero : readDigits 0 d.keyText = 0
        ↔ readDigits 0 d.whole = 0 ∧ readDigits 0 d.frac = 0 := by
      rw [hsplit, Nat.add_eq_zero_iff, Nat.mul_eq_zero]
      simp
    rw [hcells, or_iff_right hlong, ← hzero]
    -- ten times a number, or a hundred times, is the number for 0 only
    have hten : 10 ≤ 10 ^ (2 - d.frac.length) := by
      have hle : 10 ^ 1 ≤ 10 ^ (2 - d.frac.length) :=
        Nat.pow_le_pow_right (by omega) (by omega)
      omega
    constructor
    · intro heq
      have hmul := Nat.mul_le_mul_left (readDigits 0 d.keyText) hten
      omega
    · intro h0
      rw [h0, Nat.zero_mul]

/-- A text's key is the number of its cell exactly if it has two
decimals or more, or only zeros; and for texts of this kind equal keys
and equal cells are the same. -/
theorem decimal_key_iff (d : Decimal) :
    (d.KeyIsCell ↔ 2 ≤ d.frac.length ∨ d.value = 0)
    ∧ ∀ e : Decimal, (2 ≤ d.frac.length ∨ d.value = 0) →
      (2 ≤ e.frac.length ∨ e.value = 0) →
      (chang2uint d.text = chang2uint e.text
        ↔ ⌊100 * d.value⌋₊ = ⌊100 * e.value⌋₊) := by
  refine ⟨d.keyIsCell_iff, ?_⟩
  intro e hd he
  obtain ⟨k, hk, hcell⟩ := d.keyIsCell_iff.mpr hd
  obtain ⟨k', hk', hcell'⟩ := e.keyIsCell_iff.mpr he
  rw [hk, hk', Option.some.injEq, ← hcell, ← hcell', UInt32.toNat_inj]

/-- The text `114`, without decimals. -/
def noDecimals : Decimal where
  whole := [49, 49, 52]
  frac := []
  whole_pos := by decide
  whole_le := by decide
  whole_digits := List.all_eq_true.mp (by decide)
  frac_digits := List.all_eq_true.mp (by decide)

/-- Its key is 114, and its cell has the number 11400. -/
theorem not_keyIsCell : ¬ ∀ d : Decimal, d.KeyIsCell := by
  intro hall
  rcases noDecimals.keyIsCell_iff.mp (hall noDecimals) with hlong | hzero
  · exact absurd hlong (by decide)
  · exact absurd (noDecimals.value_eq_zero_iff.mp hzero).1 (by decide)

end Decimal

end CorrectGps
