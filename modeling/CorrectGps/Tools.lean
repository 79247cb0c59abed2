/-
`chang2uint`: a coordinate text to the number of its 0.01 cell.

The bytes of the text without its dots are copied into a ten-byte array,
from the dot on two of them, and `atoi` reads the array. Nothing stops
the copy before the text ends or the second decimal is in, so a text can
be too long: with ten bytes there is no NUL left for `atoi`, with more
the copy leaves the array. Either is `none` here.

A text is given without its NUL; a NUL in the list ends it as well.
-/
import Mathlib.Data.UInt

namespace CorrectGps

/-- `isspace` in the C locale. -/
def isSpace (b : UInt8) : Bool := b == 32 || (9 ≤ b && b ≤ 13)

/-- The digits at the front of a text, after the number `acc`. -/
def readDigits (acc : Nat) : List UInt8 → Nat
  | [] => acc
  | b :: bs =>
      if 48 ≤ b && b ≤ 57 then readDigits (acc * 10 + (b.toNat - 48)) bs
      else acc

/-- `atoi`, of a text with a value below 2^31. -/
def atoi (text : List UInt8) : Int :=
  match text.dropWhile isSpace with
  | 45 :: digits => - readDigits 0 digits
  | 43 :: digits => readDigits 0 digits
  | digits => readDigits 0 digits

/-- What the copying loop writes to `ui`, with the source's `j` and
`dot`. -/
def keyBytes (j : Nat) (dot : Bool) : List UInt8 → List UInt8
  | [] => []
  | b :: bs =>
      if b = 0 ∨ 3 ≤ j then []
      else if b = 46 then keyBytes 1 true bs
      else b :: keyBytes (if dot then j + 1 else j) dot bs

/-- `chang2uint(str)`. -/
def chang2uint (str : List UInt8) : Option UInt32 :=
  let ui := keyBytes 0 false str
  if ui.length < 10 then some (UInt32.ofInt (atoi ui)) else none

/-- Digits after the second decimal do not matter. -/
example : chang2uint [49, 49, 52, 46, 48, 53, 57] = some 11405 := by decide

end CorrectGps
