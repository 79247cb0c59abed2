/-
The configuration file: lines `key=value`, read into a map and written
back from one.

`get_item_from_line` trims a line, passes over blank ones and comments,
and splits the others at the first `=`; without a `=` it writes through
the null pointer `strchr` returns, which is `none` here. The map is a
`std::map`: the first binding of a key stays, and the pairs are written in
the order of the keys.

Texts are given without their NUL. A file is what `fopen` finds under its
name, `none` if it cannot be opened for reading. `strtrimr` looks at the
byte before an empty text, which is taken as harmless.

# The copy in `strtriml`

It copies a text to the front of the buffer it stands in, with `strcpy`.
Where the two places overlap C does not say what that does. The functions
here take it as the move it is meant to be; those of the namespace
`Strict` end there, as they do at a null pointer (`none`).
-/
import CorrectGps.Lib.Lines
import CorrectGps.Lib.SortedMap
import CorrectGps.Tools
import Mathlib.Data.List.DropRight
import Mathlib.Data.UInt

namespace CorrectGps

open Lib

/-- `std::map<string,string>` -/
abbrev KEY_VAL_MAP : Type := SortedMap (List UInt8) (List UInt8)

/-- Size of `line` in `file_to_items`. -/
def LINE_MAX_LEN : Nat := 400

/-- What `strtrimr` takes off the end. -/
def trimmed (b : UInt8) : Bool := isSpace b || b == 10

/-- `strtrimr(pstr)` -/
def strtrimr (pstr : List UInt8) : List UInt8 := pstr.rdropWhile trimmed

/-- `strtriml(pstr)` -/
def strtriml (pstr : List UInt8) : List UInt8 := pstr.dropWhile isSpace

/-- `strtrim(pstr)` -/
def strtrim (pstr : List UInt8) : List UInt8 := strtriml (strtrimr pstr)

/-- `get_item_from_line(line, kvmap)`: what is returned, and the map. -/
def get_item_from_line (line : List UInt8) (kvmap : KEY_VAL_MAP) :
    Option (Nat × KEY_VAL_MAP) :=
  match strtrim line with
  | [] => some (1, kvmap)
  | b :: p =>
      if b = 35 then some (2, kvmap)
      else match (b :: p).findIdx? (· == 61) with
        | none => none
        | some i =>
            some (0, kvmap.insert ((b :: p).take i) ((b :: p).drop (i + 1)))

/-- The string in a buffer. -/
def cstr (line : List UInt8) : List UInt8 := line.takeWhile fun b => b != 0

/-- The loop of `file_to_items` over what is left of the file; a round
takes a byte or more, so that more rounds than bytes are never made. -/
def readItems : Nat → List UInt8 → KEY_VAL_MAP → Option KEY_VAL_MAP
  | 0, _, _ => none
  | fuel + 1, text, kvmap =>
      match fgets 10 (LINE_MAX_LEN - 1) text with
      | none => some kvmap
      | some (line, text) =>
          match get_item_from_line (cstr line) kvmap with
          | none => none
          | some (_, kvmap) => readItems fuel text kvmap

/-- `file_to_items(file, kvmap)` -/
def file_to_items (file : Option (List UInt8)) (kvmap : KEY_VAL_MAP) :
    Option (Nat × KEY_VAL_MAP) :=
  match file with
  | none => some (1, kvmap)
  | some text =>
      (readItems (text.length + 1) text kvmap).map fun kvmap => (0, kvmap)

/-- `fprintf(fp, "%s=%s\n", …)` -/
def writeItem (e : List UInt8 × List UInt8) : List UInt8 :=
  e.1 ++ 61 :: (e.2 ++ [10])

/-- `write_conf_value(key, value, file, kvmap)`: what is returned, the
file and the map. `writable` says whether the file can be opened for
writing. -/
def write_conf_value (key value : List UInt8) (file : Option (List UInt8))
    (writable : Bool) (kvmap : KEY_VAL_MAP) :
    Option (Nat × Option (List UInt8) × KEY_VAL_MAP) :=
  match file_to_items file kvmap with
  | none => none
  | some (_, kvmap) =>
      let kvmap := match kvmap.find key with
        | none => kvmap
        | some _ => kvmap.assign key value
      if writable then
        some (0, some (kvmap.items.flatMap writeItem), SortedMap.empty)
      else some (1, file, kvmap)

/-- `read_conf_value(key, value, file, kvmap)`: what is returned, what
stands in `value` and the map. -/
def read_conf_value (key value : List UInt8) (file : Option (List UInt8))
    (kvmap : KEY_VAL_MAP) :
    Option (Nat × List UInt8 × KEY_VAL_MAP) :=
  (file_to_items file kvmap).map fun r =>
    (0, (r.2.find key).getD value, SortedMap.empty)

namespace Strict

/-- In `strtriml(pstr)` nothing is skipped, or more than is copied with the
NUL. -/
def Apart (pstr : List UInt8) : Prop :=
  (strtriml pstr).length = pstr.length
    ∨ 2 * (strtriml pstr).length < pstr.length

instance (pstr : List UInt8) : Decidable (Apart pstr) :=
  inferInstanceAs (Decidable (_ ∨ _))

/-- `get_item_from_line(line, kvmap)`, whose `strcpy` must not overlap. -/
def get_item_from_line (line : List UInt8) (kvmap : KEY_VAL_MAP) :
    Option (Nat × KEY_VAL_MAP) :=
  if Apart (strtrimr line) then CorrectGps.get_item_from_line line kvmap
  else none

def readItems : Nat → List UInt8 → KEY_VAL_MAP → Option KEY_VAL_MAP
  | 0, _, _ => none
  | fuel + 1, text, kvmap =>
      match fgets 10 (LINE_MAX_LEN - 1) text with
      | none => some kvmap
      | some (line, text) =>
          match get_item_from_line (cstr line) kvmap with
          | none => none
          | some (_, kvmap) => readItems fuel text kvmap

/-- `file_to_items(file, kvmap)`, likewise. -/
def file_to_items (file : Option (List UInt8)) (kvmap : KEY_VAL_MAP) :
    Option (Nat × KEY_VAL_MAP) :=
  match file with
  | none => some (1, kvmap)
  | some text =>
      (readItems (text.length + 1) text kvmap).map fun kvmap => (0, kvmap)

end Strict

/-- The lines ` a = 1`, `# a=2` and `a =3`. -/
example : (file_to_items (some [32, 97, 32, 61, 32, 49, 10, 35, 32, 97, 61,
    50, 10, 97, 32, 61, 51]) SortedMap.empty).map (fun r => r.2.items)
    = some [([97, 32], [32, 49])] := by
  decide +kernel

end CorrectGps
