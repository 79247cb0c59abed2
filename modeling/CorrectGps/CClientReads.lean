/-
What `parse` looks at: the places of memory, counted from `iobuf`, that
the statements of `CClient.parse` read.

# Two kinds of look-ahead

The tests of a name stop at the first character that is wrong, so they
stop at the terminator. The copies of `serial` and `md5` and the search
for the end of a coordinate do not look for it. That search also reads
the place at which it gives up: the two characters are tested before the
bound is.

The first statement is a log line with `iobuf` in it as a string
(`LOGLOG` is defined), before the terminator is written.
-/
import CorrectGps.CClient

namespace CorrectGps.CClient

open Lib

/-- `log.append(recvbuf)`: up to the first NUL there is. -/
def logReads (c : CClient) : List Nat :=
  List.range
    (scan (fun i => c.mem.getD i 0 == 0) c.mem.length 0 + 1)

/-- The search for a name from `j` on. -/
def nameReads (c : CClient) (q : Pat) (j len : Nat) : List Nat :=
  scanReads (q.reads c.mem) (fun x => q.at (c.mem.drop x)) (len - j) j

/-- The search for the end of a coordinate from `x` on, and the copy of
what is before it. -/
def coordinateReads (c : CClient) (x : Nat) : List Nat :=
  List.range' x
    (scan (fun d => isDelimiter (c.mem.getD d 0)) GPS_LEN x - x + 1)

/-- What is read of a field whose value begins at `x`. -/
def valueReads (c : CClient) (f : Field) (x : Nat) : List Nat :=
  match f with
  | .serial => List.range' x SERIAL_LEN
  | .md5 => List.range' x MD5_LEN
  | .xbaidu => c.coordinateReads x
  | .ybaidu => c.coordinateReads x

/-- The search for a field from `j` on, and its value if it is there. -/
def fieldReads (c : CClient) (f : Field) (j len : Nat) : List Nat :=
  let x := scan (fun x => f.name.at (c.mem.drop x)) (len - j) j
  c.nameReads f.name j len
    ++ if x < len then c.valueReads f (x + f.skip) else []

/-- Fields one after the other; an assertion that fails ends it, and the
last field has none. -/
def passReads (c : CClient) (j len : Nat) : List Field → List Nat
  | [] => []
  | f :: fs =>
      c.fieldReads f j len
        ++ match c.getField f j len with
          | some (c, _) => c.passReads j len fs
          | none => []

/-- The body of the loop that finds `navto` at `i`. -/
def parseAtReads (c : CClient) (i len : Nat) : List Nat :=
  if i < len then
    let j := i + 6
    if j + IN_DATA_LEN > len then List.range' i (len - i)
    else c.passReads j len [.serial, .md5, .xbaidu, .ybaidu]
  else []

/-- The scan of `parse`, once the terminator is at `len`. -/
def requestReads (c : CClient) (len : Nat) : List Nat :=
  c.nameReads navto 0 len
    ++ c.parseAtReads (scan (fun i => navto.at (c.mem.drop i)) len 0) len

/-- `recvbuf[len] = 0`. -/
def terminated (c : CClient) (len : Nat) : CClient :=
  { c with iobuf := blit c.iobuf len [0] }

/-- `parse(ulen)`. -/
def parseReads (c : CClient) (ulen : Nat) : List Nat :=
  c.logReads
    ++ if 0 < ulen then
      let len := ulen + c.offset
      (c.terminated len).requestReads len
    else []

end CorrectGps.CClient
