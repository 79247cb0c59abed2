/-
Doubles as `strtod` reads and `printf` writes them.

# Values

A `Double` is a sign with the exact magnitude, or one of the two things
that have none. `Double.nearest` rounds a rational to 53 bits, ties to
even, with gradual underflow; from `2^1024` on there is only infinity.

# Reading

`strtod` takes the longest beginning of a text that is a number: decimal
or hexadecimal digits with a point among them and an exponent behind
them, `inf`, `infinity` or `nan`. Blanks in front are the caller's
matter. A text that does not begin with a number is 0.

# Writing

`fixed k` is `%.kf`: the exact magnitude to `k` decimals, ties to even,
with all digits of its integer part. How long this is depends on the
integer part alone (`fixed_length`).
-/
import CorrectGps.Lib.Printf
import Mathlib.Data.Nat.Log
import Mathlib.Data.Rat.Defs

namespace CorrectGps.Lib

-- ================================================================ values

inductive Double
  | finite (neg : Bool) (mag : Rat)
  | inf (neg : Bool)
  | nan (neg : Bool)
  deriving DecidableEq

/-- The nearest natural number, of two the even one, to a rational that
is not negative. -/
def roundEven (q : Rat) : Nat :=
  let n := q.num.toNat / q.den
  let r := q.num.toNat % q.den
  if 2 * r < q.den then n
  else if q.den < 2 * r then n + 1
  else n + n % 2

/-- The greatest `e` with `2^e` not above `n/d`, both positive. -/
def log2Div (n d : Nat) : Int :=
  if d ≤ n then Nat.log2 (n / d) else - (Nat.log2 ((d - 1) / n) + 1 : Int)

/-- The nearest double to a rational that is not negative, with a
sign. -/
def Double.nearest (neg : Bool) (q : Rat) : Double :=
  let e := max (log2Div q.num.toNat q.den - 52) (-1074)
  let mag : Rat :=
    if q = 0 then 0
    else if 0 ≤ e then roundEven (q / 2 ^ e.toNat) * 2 ^ e.toNat
    else roundEven (q * 2 ^ (-e).toNat) / 2 ^ (-e).toNat
  if mag < 2 ^ 1024 then .finite neg mag else .inf neg

-- =============================================================== reading

/-- The value of a digit, 16 standing for what is none. -/
def digitValue (b : UInt8) : Nat :=
  if 48 ≤ b && b ≤ 57 then b.toNat - 48
  else if 97 ≤ b && b ≤ 102 then b.toNat - 87
  else if 65 ≤ b && b ≤ 70 then b.toNat - 55
  else 16

/-- What has been read of digits with a point: their number, how many
they are, how many of them behind the point. -/
structure Mantissa where
  value : Nat
  digits : Nat
  scale : Nat

/-- Read digits in a base, with one point at most. -/
def readMantissa (base : Nat) (point : Bool) (m : Mantissa) :
    List UInt8 → Mantissa × List UInt8
  | [] => (m, [])
  | b :: bs =>
      if digitValue b < base then
        readMantissa base point
          { value := m.value * base + digitValue b
            digits := m.digits + 1
            scale := if point then m.scale + 1 else m.scale } bs
      else if b = 46 ∧ ¬ point then readMantissa base true m bs
      else (m, b :: bs)

/-- A letter, whatever its case. -/
def lowered (b : UInt8) : UInt8 := if 65 ≤ b && b ≤ 90 then b + 32 else b

/-- Does a text begin with these letters? -/
def beginsWith (word text : List UInt8) : Bool :=
  word.isPrefixOf (text.map lowered)

/-- An exponent behind its letter: 0 if none is there. -/
def readExponent (letter : UInt8) : List UInt8 → Int
  | b :: bs =>
      if lowered b = letter then
        match bs with
        | 45 :: ds => - (readMantissa 10 true ⟨0, 0, 0⟩ ds).1.value
        | 43 :: ds => (readMantissa 10 true ⟨0, 0, 0⟩ ds).1.value
        | ds => (readMantissa 10 true ⟨0, 0, 0⟩ ds).1.value
      else 0
  | [] => 0

/-- `value * base^exponent` as a double; what is too great or too small
for any is not computed. -/
def scaled (neg : Bool) (m : Mantissa) (base : Nat) (exponent : Int) :
    Double :=
  if m.value = 0 then .finite neg 0
  else if 1100 < exponent then .inf neg
  else if exponent + 4 * m.digits < -1100 then .finite neg 0
  else .nearest neg
    (m.value * base ^ exponent.toNat / base ^ (-exponent).toNat)

/-- A number without its sign. -/
def readMagnitude (neg : Bool) (text : List UInt8) : Double :=
  if beginsWith [105, 110, 102] text then .inf neg
  else if beginsWith [110, 97, 110] text then .nan neg
  else
    let hex := readMantissa 16 false ⟨0, 0, 0⟩ (text.drop 2)
    if beginsWith [48, 120] text ∧ 0 < hex.1.digits then
      scaled neg hex.1 2 (readExponent 112 hex.2 - 4 * hex.1.scale)
    else
      let dec := readMantissa 10 false ⟨0, 0, 0⟩ text
      if 0 < dec.1.digits then
        scaled neg dec.1 10 (readExponent 101 dec.2 - dec.1.scale)
      else .finite false 0

/-- `strtod`, of a text without blanks in front. -/
def strtod : List UInt8 → Double
  | 45 :: text => readMagnitude true text
  | 43 :: text => readMagnitude false text
  | text => readMagnitude false text

/-- Two decimals; an exponent; hexadecimal; no number. -/
example : [strtod [50, 46, 53], strtod [45, 53, 101, 45, 49],
    strtod [48, 120, 49, 46, 56, 112, 51], strtod [120]]
      = [.finite false (5 / 2), .finite true (1 / 2), .finite false 12,
        .finite false 0] := by decide +kernel

-- =============================================================== writing

/-- A magnitude in units of the `k`-th decimal. -/
def units (k : Nat) (mag : Rat) : Nat := roundEven (mag * 10 ^ k)

/-- A minus sign, or nothing. -/
def signOf (neg : Bool) : List UInt8 := if neg then [45] else []

/-- `%.kf` -/
def fixed (k : Nat) : Double → List UInt8
  | .finite neg mag =>
      signOf neg ++ (decimal (units k mag / 10 ^ k)
        ++ 46 :: padded k (units k mag % 10 ^ k))
  | .inf neg => signOf neg ++ [105, 110, 102]
  | .nan neg => signOf neg ++ [110, 97, 110]

/-- How long that is: one more than the decimal logarithm of the integer
part, the point, the decimals and a sign. -/
def Double.width (k : Nat) : Double → Nat
  | .finite neg mag =>
      neg.toNat + (Nat.log 10 (units k mag / 10 ^ k) + 1) + (1 + k)
  | .inf neg => neg.toNat + 3
  | .nan neg => neg.toNat + 3

theorem signOf_length (neg : Bool) : (signOf neg).length = neg.toNat := by
  cases neg <;> rfl

/-- The number of digits. -/
theorem decimal_length (n : Nat) : (decimal n).length = Nat.log 10 n + 1 := by
  have hle : (decimal n).length ≤ Nat.log 10 n + 1 :=
    (decimal_length_le_iff (Nat.succ_pos _)).mpr
      (Nat.lt_pow_succ_log_self (by omega) n)
  have hpos : 0 < (decimal n).length := by
    unfold decimal
    rw [List.length_map]
    exact Nat.length_toDigits_pos
  rcases Nat.eq_zero_or_pos (Nat.log 10 n) with h0 | hlog
  · omega
  · -- with one digit less the number would be below its own power
    have hge : ¬ (decimal n).length ≤ Nat.log 10 n := by
      rw [decimal_length_le_iff hlog]
      have hn : n ≠ 0 := by
        intro heq
        obtain rfl := heq
        rw [Nat.log_zero_right] at hlog
        omega
      have := Nat.pow_log_le_self 10 hn
      omega
    omega

theorem fixed_length {k : Nat} (hk : 0 < k) (d : Double) :
    (fixed k d).length = d.width k := by
  cases d with
  | finite neg mag =>
      have hlt : units k mag % 10 ^ k < 10 ^ k :=
        Nat.mod_lt _ (Nat.pow_pos (by omega))
      unfold fixed Double.width
      simp only [List.length_append, List.length_cons, signOf_length,
        decimal_length, padded_length hk hlt]
      omega
  | inf neg =>
      unfold fixed Double.width
      rw [List.length_append, signOf_length]
      rfl
  | nan neg =>
      unfold fixed Double.width
      rw [List.length_append, signOf_length]
      rfl

end CorrectGps.Lib
