/-
Words as bytes: the wire macros of `g_api.h`, and the UTF-8 conversions
and the checksum of `tools.cpp`.

A pointer is given as what it points to, from the byte (or unit) it points
to on. Integers have the widths of the platform: `int` and `wchar_t` 32
bits, `unsigned long` 64, least byte first. A narrower operand is promoted
before a bit is moved, `char` with its sign.
-/
import Mathlib.Data.UInt
import Mathlib.Logic.Function.Basic

namespace CorrectGps

-- ========================================================== wire macros

/-- `n` in a wider type, for a signed type and for an unsigned one. -/
def widen (signed : Bool) {v : Nat} (w : Nat) (n : BitVec v) : BitVec w :=
  if signed then n.signExtend w else n.setWidth w

/-- `n >> k`, for a signed type and for an unsigned one. -/
def shr (signed : Bool) {w : Nat} (n : BitVec w) (k : Nat) : BitVec w :=
  if signed then n.sshiftRight k else n >>> k

/-- `CK_BUF2INT(p)` -/
def CK_BUF2INT (p : Nat → BitVec 8) : BitVec 32 :=
  ((p 3).setWidth 32 <<< 24) + ((p 2).setWidth 32 <<< 16)
    + ((p 1).setWidth 32 <<< 8) + (p 0).setWidth 32

/-- `CK_BUF2ULONG(p)` -/
def CK_BUF2ULONG (p : Nat → BitVec 8) : BitVec 32 :=
  ((p 3).setWidth 32 <<< 24) + ((p 2).setWidth 32 <<< 16)
    + ((p 1).setWidth 32 <<< 8) + (p 0).setWidth 32

/-- `CK_BUF2SHT(p)`, an `int` -/
def CK_BUF2SHT (p : Nat → BitVec 8) : BitVec 32 :=
  ((p 1).setWidth 32 <<< 8) + (p 0).setWidth 32

/-- `CK_INT2BUF(n,p)`, for an `int` and an `unsigned int` -/
def CK_INT2BUF (signed : Bool) (n : BitVec 32) (p : Nat → BitVec 8) :
    Nat → BitVec 8 :=
  let p := Function.update p 0 ((shr signed n 24 &&& 0xff).setWidth 8)
  let p := Function.update p 1 ((shr signed n 16 &&& 0xff).setWidth 8)
  let p := Function.update p 2 ((shr signed n 8 &&& 0xff).setWidth 8)
  Function.update p 3 ((n &&& 0xff).setWidth 8)

/-- `CK_ULONG2BUF(n,p)`: the cast to `unsigned char` comes before the
mask. -/
def CK_ULONG2BUF (signed : Bool) (n : BitVec 32) (p : Nat → BitVec 8) :
    Nat → BitVec 8 :=
  let byte (x : BitVec 64) : BitVec 8 :=
    ((x.setWidth 8).setWidth 32 &&& 0xff).setWidth 8
  let p := Function.update p 3 (byte (widen signed 64 n >>> 24))
  let p := Function.update p 2 (byte (widen signed 64 n >>> 16))
  let p := Function.update p 1 (byte (widen signed 64 n >>> 8))
  Function.update p 0 (byte (widen signed 64 n))

/-- `CK_SHT2BUF(n,p)`, for a `short` and an `unsigned short` -/
def CK_SHT2BUF (signed : Bool) (n : BitVec 16) (p : Nat → BitVec 8) :
    Nat → BitVec 8 :=
  let n := widen signed 32 n
  let p := Function.update p 1 ((n.sshiftRight 8 &&& 0xff).setWidth 8)
  Function.update p 0 ((n &&& 0xff).setWidth 8)

-- ================================================================ UTF-8

/-- A `wchar_t` with a code unit in it, byte by byte. -/
def wchar (u : BitVec 16) : Nat → BitVec 8
  | 0 => u.setWidth 8
  | 1 => (u >>> 8).setWidth 8
  | _ => 0

/-- `UnicodeToUTF_8(pOut, pText)`: the three bytes written. -/
def UnicodeToUTF_8 (pText : Nat → BitVec 8) : List (BitVec 8) :=
  let pchar (i : Nat) : BitVec 32 := (pText i).signExtend 32
  [(0xE0 ||| (pchar 1 &&& 0xF0).sshiftRight 4).setWidth 8,
    ((0x80 ||| ((pchar 1 &&& 0x0F) <<< 2))
      + (pchar 0 &&& 0xC0).sshiftRight 6).setWidth 8,
    (0x80 ||| (pchar 0 &&& 0x3F)).setWidth 8]

/-- `UTF_8ToUnicode(pOut, pText)`: what is at `pOut` afterwards. -/
def UTF_8ToUnicode (pOut pText : Nat → BitVec 8) : Nat → BitVec 8 :=
  let pchar (i : Nat) : BitVec 32 := (pText i).signExtend 32
  let pOut := Function.update pOut 1
    ((((pchar 0 &&& 0x0F) <<< 4)
      + ((pchar 1).sshiftRight 2 &&& 0x0F)).setWidth 8)
  Function.update pOut 0
    ((((pchar 1 &&& 0x03) <<< 6) + (pchar 2 &&& 0x3F)).setWidth 8)

/-- The loop of `myUTF8_to_UNICODE` from byte `i` on: the units written.
Each round goes on by a byte or more. -/
def decodeFrom (utf8 : List (BitVec 8)) (len : Nat) :
    Nat → Nat → Option (List (BitVec 16))
  | 0, _ => none
  | fuel + 1, i =>
      if i < len then
        match utf8[i]? with
        | none => none
        | some b =>
            if b ≤ 0x7f then
              (decodeFrom utf8 len fuel (i + 1)).map (b.setWidth 16 :: ·)
            else if b ≤ 0xdf then
              match utf8[i + 1]? with
              | none => none
              | some c =>
                  let unit : BitVec 32 := ((b.setWidth 32 &&& 0x1f) <<< 6)
                    + (c.setWidth 32 &&& 0x3f)
                  (decodeFrom utf8 len fuel (i + 2)).map
                    (unit.setWidth 16 :: ·)
            else
              match utf8[i + 1]?, utf8[i + 2]? with
              | some c, some d =>
                  let unit : BitVec 32 := ((b.setWidth 32 &&& 0x0f) <<< 12)
                    + ((c.setWidth 32 &&& 0x3f) <<< 6)
                    + (d.setWidth 32 &&& 0x3f)
                  (decodeFrom utf8 len fuel (i + 3)).map
                    (unit.setWidth 16 :: ·)
              | _, _ => none
      else some []

/-- `myUTF8_to_UNICODE(unicode, utf8, len)`: the units written and what is
returned; `none` if a byte behind the end is read. -/
def myUTF8_to_UNICODE (utf8 : List (BitVec 8)) (len : Nat) :
    Option (List (BitVec 16) × Nat) :=
  (decodeFrom utf8 len (len + 1) 0).map fun units =>
    (units ++ [0], units.length)

-- ============================================================= checksum

/-- `while (cksum>>16) cksum=(cksum>>16)+(cksum & 0xffff);` A round makes
the sum smaller, so that more rounds than its value are never made. -/
def foldSum : Nat → UInt64 → Option UInt64
  | 0, _ => none
  | fuel + 1, cksum =>
      if cksum >>> 16 = 0 then some cksum
      else foldSum fuel ((cksum >>> 16) + (cksum &&& 0xffff))

/-- `checksum(buffer, size)` for a buffer of these words, and of one more
byte if its size is odd. -/
def checksum (words : List UInt16) (odd : Option UInt8) : Option UInt16 :=
  let cksum := words.foldl (fun cksum w => cksum + w.toUInt64) 0
  let cksum := match odd with
    | none => cksum
    | some b => cksum + b.toUInt64
  (foldSum (cksum.toNat + 1) cksum).map fun cksum => (~~~cksum).toUInt16

end CorrectGps
