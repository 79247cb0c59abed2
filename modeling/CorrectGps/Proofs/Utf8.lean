/-
The UTF-8 conversions: one encoder and two decoders.

The encoder writes three bytes for every unit, with 4, 6 and 6 of its bits
(`UnicodeToUTF_8_groups`), also for a unit that has a shorter encoding.
Both decoders take the same bits out of three such bytes, so both give the
unit back (`decodeFrom_group`, `UTF_8ToUnicode_group`). The list decoder
chooses three bytes by the first one, which is never below `0xE0`; so it
goes on from unit to unit (`decodeFrom_units`).
-/
import CorrectGps.Encoding
import CorrectGps.Lib.Bits

namespace CorrectGps

open Lib

variable {a b c : BitVec 8} {x y z : Nat}

-- ========================================================= the encoder

/-- The bits of a `char` that the encoder keeps, sign or not. -/
theorem lead_byte : ∀ h : BitVec 8,
    ((0xE0 ||| ((h.signExtend 32) &&& 0xF0#32).sshiftRight 4).setWidth
      8).toNat = 0xE0 + h.toNat / 16 := by
  decide +kernel

theorem middle_byte_high : ∀ h : BitVec 8,
    (0x80 ||| ((h.signExtend 32 &&& 0x0F#32) <<< 2)).toNat
      = 0x80 + 4 * (h.toNat % 16) := by
  decide +kernel

theorem middle_byte_low : ∀ l : BitVec 8,
    ((l.signExtend 32 &&& 0xC0#32).sshiftRight 6).toNat = l.toNat / 64 := by
  decide +kernel

theorem last_byte : ∀ l : BitVec 8,
    ((0x80 ||| (l.signExtend 32 &&& 0x3F#32)).setWidth 8).toNat
      = 0x80 + l.toNat % 64 := by
  decide +kernel

theorem wchar_low (u : BitVec 16) : (wchar u 0).toNat = u.toNat % 256 := by
  show (u.setWidth 8).toNat = _
  rw [BitVec.toNat_setWidth]

theorem wchar_high (u : BitVec 16) : (wchar u 1).toNat = u.toNat / 256 := by
  have hlt := u.isLt
  have h : (wchar u 1).toNat = u.toNat / 256 % 256 := byteAt_toNat u 1
  omega

/-- Three bytes with these groups of bits. -/
structure Group (x y z : Nat) (a b c : BitVec 8) : Prop where
  lead : a.toNat = 0xE0 + x
  middle : b.toNat = 0x80 + y
  last : c.toNat = 0x80 + z
  lead_lt : x < 16
  middle_lt : y < 64
  last_lt : z < 64

/-- A unit is written as its 4, 6 and 6 bits. -/
theorem UnicodeToUTF_8_groups (u : BitVec 16) :
    ∃ a b c, UnicodeToUTF_8 (wchar u) = [a, b, c]
      ∧ Group (u.toNat / 4096) (u.toNat / 64 % 64) (u.toNat % 64) a b c := by
  have hlt := u.isLt
  have hlow := wchar_low u
  have hhigh := wchar_high u
  have hfirst := lead_byte (wchar u 1)
  have hmid₁ := middle_byte_high (wchar u 1)
  have hmid₂ := middle_byte_low (wchar u 0)
  have hthird := last_byte (wchar u 0)
  refine ⟨_, _, _, rfl, ?_, ?_, ?_, by omega, by omega, by omega⟩
  · exact hfirst.trans (by omega)
  · have hsum := congrArg₂ (fun m l => (m + l) % 2 ^ 32 % 2 ^ 8) hmid₁ hmid₂
    exact hsum.trans (by omega)
  · exact hthird.trans (by omega)

theorem units_length (units : List (BitVec 16)) :
    (units.flatMap fun u => UnicodeToUTF_8 (wchar u)).length
      = units.length * 3 := by
  simp [UnicodeToUTF_8, List.length_flatMap, List.map_const']

-- ======================================================== the decoders

/-- A mask on an unsigned byte. -/
theorem byte_mask (b : BitVec 8) {k : Nat} (hk : k ≤ 8) :
    (b.setWidth 32 &&& BitVec.ofNat 32 (2 ^ k - 1)).toNat
      = b.toNat % 2 ^ k := by
  have hlt : b.toNat < 2 ^ 32 := Nat.lt_of_lt_of_le b.isLt (by decide)
  rw [toNat_and_mask (by omega), BitVec.toNat_setWidth,
    Nat.mod_eq_of_lt hlt]

/-- What the list decoder makes of three bytes. -/
theorem decodeFrom_group (h : Group x y z a b c) (done rest : List (BitVec 8))
    {len fuel : Nat} (hlen : done.length < len) {u : BitVec 16}
    (hu : u.toNat = 4096 * x + 64 * y + z) :
    decodeFrom (done ++ a :: b :: c :: rest) len (fuel + 1) done.length
      = (decodeFrom (done ++ a :: b :: c :: rest) len fuel
        (done.length + 3)).map (u :: ·) := by
  obtain ⟨ha, hb, hc, hx, hy, hz⟩ := h
  have hone : ¬ a ≤ 0x7f := by
    rw [BitVec.le_def]
    simp
    omega
  have htwo : ¬ a ≤ 0xdf := by
    rw [BitVec.le_def]
    simp
    omega
  have hget₀ : (done ++ a :: b :: c :: rest)[done.length]? = some a := by
    simp
  have hget₁ : (done ++ a :: b :: c :: rest)[done.length + 1]? = some b := by
    simp
  have hget₂ : (done ++ a :: b :: c :: rest)[done.length + 2]? = some c := by
    simp
  have hunit : ((((a.setWidth 32 &&& 0x0f) <<< 12)
      + ((b.setWidth 32 &&& 0x3f) <<< 6)
      + (c.setWidth 32 &&& 0x3f) : BitVec 32)).setWidth 16 = u := by
    have hma : (a.setWidth 32 &&& (0x0f : BitVec 32)).toNat = a.toNat % 16 :=
      byte_mask a (k := 4) (by omega)
    have hmb : (b.setWidth 32 &&& (0x3f : BitVec 32)).toNat = b.toNat % 64 :=
      byte_mask b (k := 6) (by omega)
    have hmc : (c.setWidth 32 &&& (0x3f : BitVec 32)).toNat = c.toNat % 64 :=
      byte_mask c (k := 6) (by omega)
    apply BitVec.eq_of_toNat_eq
    rw [BitVec.toNat_setWidth, BitVec.toNat_add, BitVec.toNat_add,
      BitVec.toNat_shiftLeft, BitVec.toNat_shiftLeft, hma, hmb, hmc,
      Nat.shiftLeft_eq, Nat.shiftLeft_eq, hu]
    omega
  rw [decodeFrom, if_pos hlen, hget₀]
  simp only
  rw [if_neg hone, if_neg htwo, hget₁, hget₂]
  simp only
  rw [hunit]

/-- Unit after unit. -/
theorem decodeFrom_units (units : List (BitVec 16))
    (done rest : List (BitVec 8)) {fuel : Nat} (hfuel : units.length < fuel) :
    decodeFrom
        (done ++ units.flatMap (fun u => UnicodeToUTF_8 (wchar u)) ++ rest)
        (done.length
          + (units.flatMap fun u => UnicodeToUTF_8 (wchar u)).length)
        fuel done.length = some units := by
  induction units generalizing done fuel with
  | nil =>
      obtain ⟨fuel, rfl⟩ := Nat.exists_eq_succ_of_ne_zero
        (Nat.ne_of_gt hfuel)
      rw [decodeFrom, if_neg (by simp)]
  | cons u units ih =>
      obtain ⟨fuel, rfl⟩ := Nat.exists_eq_succ_of_ne_zero
        (Nat.ne_of_gt (Nat.lt_of_le_of_lt (Nat.zero_le _) hfuel))
      obtain ⟨a, b, c, henc, hgroup⟩ := UnicodeToUTF_8_groups u
      have hlt := u.isLt
      have hstep := ih (done ++ [a, b, c]) (Nat.lt_of_succ_lt_succ hfuel)
      rw [List.flatMap_cons, henc]
      simp only [List.append_assoc, List.cons_append, List.nil_append,
        List.length_append, List.length_cons, List.length_nil] at hstep ⊢
      rw [decodeFrom_group hgroup _ _ (by omega) (u := u) (by omega)]
      have hsum : ∀ k, done.length + (0 + 1 + 1 + 1) + k
          = done.length + (k + 1 + 1 + 1) := fun k => by omega
      rw [hsum] at hstep
      rw [hstep]
      rfl

/-- The bits of a `char` that the other decoder keeps, sign or not. -/
theorem char_bits : ∀ b : BitVec 8,
    ((b.signExtend 32 &&& 0x0F#32) <<< 4).toNat = b.toNat % 16 * 16
      ∧ ((b.signExtend 32).sshiftRight 2 &&& 0x0F#32).toNat
        = b.toNat / 4 % 16
      ∧ ((b.signExtend 32 &&& 0x03#32) <<< 6).toNat = b.toNat % 4 * 64
      ∧ (b.signExtend 32 &&& 0x3F#32).toNat = b.toNat % 64 := by
  decide +kernel

/-- What the other decoder makes of them. -/
theorem UTF_8ToUnicode_group (pOut pText : Nat → BitVec 8)
    (h : Group x y z (pText 0) (pText 1) (pText 2)) :
    (UTF_8ToUnicode pOut pText 0).toNat = 64 * (y % 4) + z
      ∧ (UTF_8ToUnicode pOut pText 1).toNat = 16 * x + y / 4 := by
  obtain ⟨ha, hb, hc, hx, hy, hz⟩ := h
  obtain ⟨hhigh₀, -⟩ := char_bits (pText 0)
  obtain ⟨-, hhigh₁, hlow₁, -⟩ := char_bits (pText 1)
  obtain ⟨-, -, -, hlow₂⟩ := char_bits (pText 2)
  constructor
  · have hsum := congrArg₂ (fun m l => (m + l) % 2 ^ 32 % 2 ^ 8) hlow₁ hlow₂
    exact hsum.trans (by omega)
  · have hsum := congrArg₂ (fun m l => (m + l) % 2 ^ 32 % 2 ^ 8)
      hhigh₀ hhigh₁
    exact hsum.trans (by omega)

-- ====================================================== the round trips

/-- The list decoder reads exactly the bytes it is told of. -/
theorem decode_units (units : List (BitVec 16)) (rest : List (BitVec 8)) :
    myUTF8_to_UNICODE
        ((units.flatMap fun u => UnicodeToUTF_8 (wchar u)) ++ rest)
        (units.flatMap fun u => UnicodeToUTF_8 (wchar u)).length
      = some (units ++ [0], units.length) := by
  have hlong : units.length
      ≤ (units.flatMap fun u => UnicodeToUTF_8 (wchar u)).length := by
    rw [units_length]
    omega
  have hrun := decodeFrom_units units [] rest (Nat.lt_succ_of_le hlong)
  rw [List.nil_append, List.length_nil, Nat.zero_add] at hrun
  rw [myUTF8_to_UNICODE, hrun]
  rfl

/-- The other decoder gives the two bytes of the unit. -/
theorem decode_unit (u : BitVec 16) (pOut : Nat → BitVec 8) :
    let out := UTF_8ToUnicode pOut
      fun i => (UnicodeToUTF_8 (wchar u)).getD i 0
    out 0 = wchar u 0 ∧ out 1 = wchar u 1 := by
  obtain ⟨a, b, c, henc, hgroup⟩ := UnicodeToUTF_8_groups u
  have hlt := u.isLt
  have hlow := wchar_low u
  have hhigh := wchar_high u
  rw [henc]
  obtain ⟨hzero, hone⟩ := UTF_8ToUnicode_group pOut
    (fun i => [a, b, c].getD i 0) hgroup
  constructor
  · apply BitVec.eq_of_toNat_eq
    rw [hzero, hlow]
    omega
  · apply BitVec.eq_of_toNat_eq
    rw [hone, hhigh]
    omega

/-- Every list of units comes back, whatever lies behind its bytes, and
every unit comes back by itself. -/
theorem utf8_round_trip (units : List (BitVec 16))
    (rest : List (BitVec 8)) :
    myUTF8_to_UNICODE
        ((units.flatMap fun u => UnicodeToUTF_8 (wchar u)) ++ rest)
        (units.flatMap fun u => UnicodeToUTF_8 (wchar u)).length
      = some (units ++ [0], units.length)
    ∧ ∀ u pOut,
      let out := UTF_8ToUnicode pOut
        fun i => (UnicodeToUTF_8 (wchar u)).getD i 0
      out 0 = wchar u 0 ∧ out 1 = wchar u 1 :=
  ⟨decode_units units rest, decode_unit⟩

end CorrectGps
