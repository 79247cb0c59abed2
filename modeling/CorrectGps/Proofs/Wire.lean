/-
The wire macros: what is decoded after it was encoded.

# Byte orders

Each decoder takes its first byte for the lowest one. The encoders of
`unsigned long` and `short` put the lowest byte first as well;
`CK_INT2BUF` puts the highest one first. So an integer comes back from
`CK_INT2BUF` and `CK_BUF2INT` with its bytes reversed
(`CK_BUF2INT_CK_INT2BUF`), which is the integer exactly if they read the
same from both ends (`wire_iff`).

None of this depends on whether the type is signed: what a signed shift
brings in is masked off.
-/
import CorrectGps.Encoding
import CorrectGps.Lib.Bits

namespace CorrectGps

open Lib

variable {signed : Bool} {p : Nat → BitVec 8}

-- ============================================================= the bytes

/-- A shift and a mask give a byte. -/
theorem shr_byte (signed : Bool) {w : Nat} (n : BitVec w) {i : Nat}
    (hi : 8 * i + 8 ≤ w) :
    (shr signed n (8 * i) &&& BitVec.ofNat w (2 ^ 8 - 1)).setWidth 8
      = byteAt n i := by
  rw [setWidth_and_mask (by omega)]
  unfold shr byteAt
  cases signed with
  | true => exact setWidth_sshiftRight hi n
  | false => rfl

/-- A byte of a widened word. -/
theorem widen_byte (signed : Bool) {v w : Nat} (hvw : v ≤ w)
    (n : BitVec v) {i : Nat} (hi : 8 * i + 8 ≤ v) :
    byteAt (widen signed w n) i = byteAt n i := by
  have hwide : (widen signed w n).setWidth v = n := by
    unfold widen
    cases signed with
    | true =>
        show (n.signExtend w).setWidth v = n
        rw [setWidth_signExtend (Nat.le_refl v) hvw]
        exact BitVec.setWidth_eq n
    | false =>
        show (n.setWidth w).setWidth v = n
        rw [BitVec.setWidth_setWidth_of_le n hvw]
        exact BitVec.setWidth_eq n
  have hnum := congrArg BitVec.toNat hwide
  rw [BitVec.toNat_setWidth] at hnum
  have hsplit : 2 ^ v = 2 ^ (8 * i) * 2 ^ (v - 8 * i) := by
    rw [← Nat.pow_add, Nat.add_sub_cancel' (by omega)]
  apply BitVec.eq_of_toNat_eq
  rw [byteAt_toNat, byteAt_toNat, ← hnum, hsplit, Nat.mod_mul_right_div_self,
    Nat.mod_mod_of_dvd _ (Nat.pow_dvd_pow 2 (by omega))]

/-- The bytes of an integer make it up. -/
theorem int_bytes (n : BitVec 32) :
    n.toNat = (byteAt n 0).toNat + 2 ^ 8 * (byteAt n 1).toNat
      + 2 ^ 16 * (byteAt n 2).toNat + 2 ^ 24 * (byteAt n 3).toNat := by
  have hlt := n.isLt
  have h0 : (byteAt n 0).toNat = n.toNat % 256 := by
    simpa using byteAt_toNat n 0
  have h1 : (byteAt n 1).toNat = n.toNat / 256 % 256 := byteAt_toNat n 1
  have h2 : (byteAt n 2).toNat = n.toNat / 65536 % 256 := byteAt_toNat n 2
  have h3 : (byteAt n 3).toNat = n.toNat / 16777216 % 256 := byteAt_toNat n 3
  omega

theorem sht_bytes (n : BitVec 16) :
    n.toNat = (byteAt n 0).toNat + 2 ^ 8 * (byteAt n 1).toNat := by
  have hlt := n.isLt
  have h0 : (byteAt n 0).toNat = n.toNat % 256 := by
    simpa using byteAt_toNat n 0
  have h1 : (byteAt n 1).toNat = n.toNat / 256 % 256 := byteAt_toNat n 1
  omega

/-- An integer from its bytes, the lowest one first. -/
theorem CK_BUF2INT_toNat (p : Nat → BitVec 8) :
    (CK_BUF2INT p).toNat = (p 0).toNat + 2 ^ 8 * (p 1).toNat
      + 2 ^ 16 * (p 2).toNat + 2 ^ 24 * (p 3).toNat := by
  have h0 := (p 0).isLt
  have h1 := (p 1).isLt
  have h2 := (p 2).isLt
  have h3 := (p 3).isLt
  unfold CK_BUF2INT
  simp only [BitVec.toNat_add, BitVec.toNat_shiftLeft, BitVec.toNat_setWidth,
    Nat.shiftLeft_eq]
  omega

theorem CK_BUF2SHT_toNat (p : Nat → BitVec 8) :
    (CK_BUF2SHT p).toNat = (p 0).toNat + 2 ^ 8 * (p 1).toNat := by
  have h0 := (p 0).isLt
  have h1 := (p 1).isLt
  unfold CK_BUF2SHT
  simp only [BitVec.toNat_add, BitVec.toNat_shiftLeft, BitVec.toNat_setWidth,
    Nat.shiftLeft_eq]
  omega

-- ========================================================== what is named

/-- `CK_INT2BUF` writes the highest byte first. -/
theorem CK_INT2BUF_bytes (signed : Bool) (n : BitVec 32)
    (p : Nat → BitVec 8) :
    CK_INT2BUF signed n p 0 = byteAt n 3
      ∧ CK_INT2BUF signed n p 1 = byteAt n 2
      ∧ CK_INT2BUF signed n p 2 = byteAt n 1
      ∧ CK_INT2BUF signed n p 3 = byteAt n 0
      ∧ ∀ i, 4 ≤ i → CK_INT2BUF signed n p i = p i := by
  refine ⟨?_, ?_, ?_, ?_, ?_⟩
  · exact shr_byte signed n (i := 3) (by omega)
  · exact shr_byte signed n (i := 2) (by omega)
  · exact shr_byte signed n (i := 1) (by omega)
  · have hlow := setWidth_and_mask (v := 8) (by omega) n
    exact hlow
  · intro i hi
    unfold CK_INT2BUF
    rw [Function.update_of_ne (by omega), Function.update_of_ne (by omega),
      Function.update_of_ne (by omega), Function.update_of_ne (by omega)]

/-- A cast to `unsigned char` before the mask. -/
theorem cast_byte (x : BitVec 64) :
    ((x.setWidth 8).setWidth 32 &&& 0xff).setWidth 8 = x.setWidth 8 := by
  have hmask := setWidth_and_mask (v := 8) (w := 32) (by omega)
    ((x.setWidth 8).setWidth 32)
  have hback : ((x.setWidth 8).setWidth 32).setWidth 8 = x.setWidth 8 := by
    rw [BitVec.setWidth_setWidth_of_le (x.setWidth 8) (by omega),
      BitVec.setWidth_eq]
  exact hmask.trans hback

/-- `CK_ULONG2BUF` writes the lowest byte first. -/
theorem CK_ULONG2BUF_bytes (signed : Bool) (n : BitVec 32)
    (p : Nat → BitVec 8) :
    CK_ULONG2BUF signed n p 0 = byteAt n 0
      ∧ CK_ULONG2BUF signed n p 1 = byteAt n 1
      ∧ CK_ULONG2BUF signed n p 2 = byteAt n 2
      ∧ CK_ULONG2BUF signed n p 3 = byteAt n 3
      ∧ ∀ i, 4 ≤ i → CK_ULONG2BUF signed n p i = p i := by
  have hbyte : ∀ i, 8 * i + 8 ≤ 32 →
      byteAt (widen signed 64 n) i = byteAt n i :=
    fun i => widen_byte signed (by omega) n
  refine ⟨?_, ?_, ?_, ?_, ?_⟩
  · exact (cast_byte _).trans (hbyte 0 (by omega))
  · exact (cast_byte _).trans (hbyte 1 (by omega))
  · exact (cast_byte _).trans (hbyte 2 (by omega))
  · exact (cast_byte _).trans (hbyte 3 (by omega))
  · intro i hi
    unfold CK_ULONG2BUF
    simp only
    rw [Function.update_of_ne (by omega), Function.update_of_ne (by omega),
      Function.update_of_ne (by omega), Function.update_of_ne (by omega)]

/-- So does `CK_SHT2BUF`. -/
theorem CK_SHT2BUF_bytes (signed : Bool) (n : BitVec 16)
    (p : Nat → BitVec 8) :
    CK_SHT2BUF signed n p 0 = byteAt n 0
      ∧ CK_SHT2BUF signed n p 1 = byteAt n 1
      ∧ ∀ i, 2 ≤ i → CK_SHT2BUF signed n p i = p i := by
  refine ⟨?_, ?_, ?_⟩
  · have hlow := setWidth_and_mask (v := 8) (by omega) (widen signed 32 n)
    exact hlow.trans (widen_byte signed (by omega) n (i := 0) (by omega))
  · have hhigh := shr_byte true (widen signed 32 n) (i := 1) (by omega)
    exact hhigh.trans (widen_byte signed (by omega) n (by omega))
  · intro i hi
    unfold CK_SHT2BUF
    rw [Function.update_of_ne (by omega), Function.update_of_ne (by omega)]

-- ============================================================= the pairs

/-- The `int` is decoded to what was encoded, and only the four bytes are
changed. -/
def IntAgrees (signed : Bool) (n : BitVec 32) (p : Nat → BitVec 8) : Prop :=
  CK_BUF2INT (CK_INT2BUF signed n p) = n
    ∧ ∀ i, 4 ≤ i → CK_INT2BUF signed n p i = p i

/-- The `unsigned long` is, modulo 2^32. -/
def UlongAgrees (signed : Bool) (n : BitVec 32) (p : Nat → BitVec 8) :
    Prop :=
  CK_BUF2ULONG (CK_ULONG2BUF signed n p) = n
    ∧ ∀ i, 4 ≤ i → CK_ULONG2BUF signed n p i = p i

/-- The `short` is, modulo 2^16. -/
def ShtAgrees (signed : Bool) (n : BitVec 16) (p : Nat → BitVec 8) : Prop :=
  (CK_BUF2SHT (CK_SHT2BUF signed n p)).toNat = n.toNat
    ∧ ∀ i, 2 ≤ i → CK_SHT2BUF signed n p i = p i

/-- The bytes read the same from both ends. -/
def Palindrome (n : BitVec 32) : Prop :=
  byteAt n 0 = byteAt n 3 ∧ byteAt n 1 = byteAt n 2

/-- The `int` comes back with its bytes reversed. -/
theorem CK_BUF2INT_CK_INT2BUF (signed : Bool) (n : BitVec 32)
    (p : Nat → BitVec 8) :
    (CK_BUF2INT (CK_INT2BUF signed n p)).toNat = (byteAt n 3).toNat
      + 2 ^ 8 * (byteAt n 2).toNat + 2 ^ 16 * (byteAt n 1).toNat
      + 2 ^ 24 * (byteAt n 0).toNat := by
  obtain ⟨h0, h1, h2, h3, -⟩ := CK_INT2BUF_bytes signed n p
  rw [CK_BUF2INT_toNat, h0, h1, h2, h3]

theorem intAgrees_iff (signed : Bool) (n : BitVec 32) (p : Nat → BitVec 8) :
    IntAgrees signed n p ↔ Palindrome n := by
  have hframe := (CK_INT2BUF_bytes signed n p).2.2.2.2
  have h0 := (byteAt n 0).isLt
  have h1 := (byteAt n 1).isLt
  have h2 := (byteAt n 2).isLt
  have h3 := (byteAt n 3).isLt
  unfold IntAgrees Palindrome
  rw [and_iff_left hframe, ← BitVec.toNat_inj, CK_BUF2INT_CK_INT2BUF,
    int_bytes n, ← BitVec.toNat_inj, ← BitVec.toNat_inj]
  omega

theorem ulongAgrees (signed : Bool) (n : BitVec 32) (p : Nat → BitVec 8) :
    UlongAgrees signed n p := by
  obtain ⟨h0, h1, h2, h3, hframe⟩ := CK_ULONG2BUF_bytes signed n p
  refine ⟨?_, hframe⟩
  apply BitVec.eq_of_toNat_eq
  show (CK_BUF2INT (CK_ULONG2BUF signed n p)).toNat = n.toNat
  rw [CK_BUF2INT_toNat, h0, h1, h2, h3, ← int_bytes]

theorem shtAgrees (signed : Bool) (n : BitVec 16) (p : Nat → BitVec 8) :
    ShtAgrees signed n p := by
  obtain ⟨h0, h1, hframe⟩ := CK_SHT2BUF_bytes signed n p
  refine ⟨?_, hframe⟩
  rw [CK_BUF2SHT_toNat, h0, h1, ← sht_bytes]

/-- For every integer of either type the pairs for `unsigned long` and
`short` agree; the pair for `int` agrees exactly for those whose bytes read
the same from both ends. -/
theorem wire_iff (signed : Bool) (n : BitVec 32) (m : BitVec 16)
    (p : Nat → BitVec 8) :
    (IntAgrees signed n p ↔ Palindrome n)
      ∧ UlongAgrees signed n p ∧ ShtAgrees signed m p :=
  ⟨intAgrees_iff signed n p, ulongAgrees signed n p, shtAgrees signed m p⟩

/-- 1 comes back as 2^24. -/
theorem not_intAgrees :
    ¬ ∀ (signed : Bool) (n : BitVec 32) (p : Nat → BitVec 8),
      IntAgrees signed n p := by
  intro hall
  have hone := (intAgrees_iff true 1 fun _ => 0).mp (hall true 1 fun _ => 0)
  exact absurd hone.1 (by decide)

end CorrectGps
