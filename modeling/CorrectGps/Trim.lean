/-
The trimming functions of `tools.cpp` in memory: what they look at and
what they change, byte by byte.

A function gets the bytes from its argument on. It gives the places it has
read or written, counted from its argument, and the bytes as it leaves
them. Places are integers, since one of them is in front of the string;
what the byte there says does not matter, as `i >= 0` fails afterwards.

Lengths fit an `int`. A byte above 127 is no blank to `isspace`.
-/
import CorrectGps.Config
import CorrectGps.Lib.Buf

namespace CorrectGps.Trim

open Lib

/-- `strlen(pstr)` -/
def strlen (pstr : List UInt8) : Nat := (cstr pstr).length

/-- `n` places from `i` on. -/
def places (i n : Nat) : List Int := (List.range' i n).map Int.ofNat

/-- The loop of `strtrimr`, counted by `i + 1`. -/
def trimEnd : Nat → List UInt8 → List Int × List UInt8
  -- `pstr[-1]` is read before `i >= 0` is tested
  | 0, pstr => ([-1], pstr)
  | i + 1, pstr =>
      if trimmed (pstr.getD i 0) then
        let r := trimEnd i (pstr.set i 0)
        (↑i :: r.1, r.2)
      else ([↑i], pstr)

/-- `strtrimr(pstr)` -/
def strtrimr (pstr : List UInt8) : List Int × List UInt8 :=
  let r := trimEnd (strlen pstr) pstr
  (places 0 (strlen pstr + 1) ++ r.1, r.2)

/-- The loop of `strtriml`, counted by `j - i`: the places read, and `i`
afterwards. -/
def skipStart (pstr : List UInt8) : Nat → Nat → List Int × Nat
  | 0, i => ([↑i], i)
  | n + 1, i =>
      if isSpace (pstr.getD i 0) then
        let r := skipStart pstr n (i + 1)
        (↑i :: r.1, r.2)
      else ([↑i], i)

/-- `strcpy(pstr, &pstr[i])`, as a move. -/
def strcpy (i : Nat) (pstr : List UInt8) : List Int × List UInt8 :=
  let n := strlen (pstr.drop i) + 1
  (places i n ++ places 0 n, slice pstr i n ++ pstr.drop n)

/-- `strtriml(pstr)` -/
def strtriml (pstr : List UInt8) : List Int × List UInt8 :=
  let j := strlen pstr
  let r := skipStart pstr j 0
  let read := places 0 (j + 1) ++ r.1
  if 0 < r.2 then
    let c := strcpy r.2 pstr
    (read ++ c.1, c.2)
  else (read, pstr)

/-- `strtrim(pstr)` -/
def strtrim (pstr : List UInt8) : List Int × List UInt8 :=
  let r := strtrimr pstr
  let l := strtriml r.2
  (r.1 ++ l.1, l.2)

/-- ` a b ` in six bytes -/
example : (strtrim [32, 97, 32, 98, 32, 0]).2 = [97, 32, 98, 0, 0, 0] := by
  decide

end CorrectGps.Trim
