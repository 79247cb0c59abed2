/-
The blocks that `CXArray::append` and `CClient::parse` move with `memcpy`.

The models of the two functions move what was there before; here are the
ranges alone, in bytes from the array and from the buffer, as the calls
have them. `none` is a call that gets to no `memcpy` of a block inside the
object.
-/
import CorrectGps.CClient
import CorrectGps.CXArray
import CorrectGps.Lib.BlockCopy

namespace CorrectGps

open Lib

/-- `sizeof(arraylng[0])`: a pointer to the virtual functions, the key with
its padding and two doubles. -/
def sizeofCoffsetdata : Nat := 32

namespace CXArray

/-- The shift of `append` once the scan has stopped at `tindex`. -/
def shiftAt (a : CXArray) (tindex : Nat) (t : Coffsetdata) :
    Option BlockCopy :=
  if tindex = 0 ∧ t.x < (a.slot tindex).x then
    some (.entries sizeofCoffsetdata (tindex + 1) tindex
      (a.index - tindex - 1))
  else if tindex ≠ a.index - 1 then
    if (a.slot tindex).x = t.x then none
    else
      some (.entries sizeofCoffsetdata (tindex + 2) (tindex + 1)
        (a.index - tindex - 1))
  else none

/-- The shift of `append(x, dx, dy)`. -/
def shift (a : CXArray) (t : Coffsetdata) : Option BlockCopy :=
  if a.index = 0 then none
  else a.shiftAt
    (scanDown (fun i => decide (t.x < (a.slot i).x)) (a.index - 1)) t

end CXArray

namespace CClient

/-- The compaction of `iobuf` where the loop has stopped at `i`. -/
def compactionAt (i len : Nat) : Option BlockCopy :=
  if i < len then
    let j := i + 6
    if j + IN_DATA_LEN > len then some ⟨0, i, len - i⟩ else none
  else none

/-- The compaction of `parse(ulen)`. -/
def compaction (c : CClient) (ulen : Nat) : Option BlockCopy :=
  if 0 < ulen then
    let len := ulen + c.offset
    let c := { c with iobuf := blit c.iobuf len [0] }
    compactionAt (scan (fun i => navto.at (c.mem.drop i)) len 0) len
  else none

end CClient

end CorrectGps
