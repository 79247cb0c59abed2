/-
`CClient`: the receive buffer of one connection and the parser that
takes the request out of it.

# Memory

`iobuf`, `serial` and `md5` stand in this order in the class, all of
them `char` arrays, so they follow each other without a gap: `mem` is
what a pointer into `iobuf` sees. The parser reads past the received
bytes — every value is copied or scanned without looking at `len` — but
never past `md5`. What a member holds before it is written is whatever
the heap held; `ini` zeroes `iobuf` and `serial` only.

# The parser

`parse` looks for the first `navto`, then for each field's name from six
bytes further on, four searches independent of each other. A search that
fails is an assertion that stops the process (`.error`), except the last
one. A coordinate without a delimiter in its first bytes is only logged.
Either way the call ends in `status = 1` and a notification.

Of what a call does besides changing the object, `Effect` keeps the
fields it writes, the notification and the kill. The source's `parse`
logs the buffer before it does anything else; Log.lean puts that call in
front of `parse`.
-/
import CorrectGps.Lib.Buf
import CorrectGps.Lib.Scan
import Mathlib.Data.Rat.Defs

namespace CorrectGps

open Lib

-- ============================================================= constants

/-- Size of `iobuf`, its terminator not counted. -/
def MAXBUF : Nat := 1024 * 4

def SERIAL_LEN : Nat := 15

def MD5_LEN : Nat := 32

/-- Bytes a request has from the serial on, as the header counts them. -/
def IN_DATA_LEN : Nat := 87

/-- Bytes of a coordinate the parser is willing to look at. -/
def GPS_LEN : Nat := 11

/-- A pattern of the source: the two characters each test accepts. -/
def pattern (l : List (Char × Char)) : Pat :=
  l.map fun c => (c.1.val.toUInt8, c.2.val.toUInt8)

/-- The bytes of a text. -/
def bytes (l : List Char) : List UInt8 := l.map fun c => c.val.toUInt8

def navto : Pat :=
  pattern [('N', 'n'), ('a', 'A'), ('V', 'v'), ('T', 't'), ('O', 'o')]

/-- The four fields of a request. -/
inductive Field
  | serial | md5 | xbaidu | ybaidu
  deriving DecidableEq, Repr

/-- The name a field is searched by. -/
def Field.name : Field → Pat
  | .serial => pattern [('S', 's'), ('e', 'E'), ('R', 'r'), ('I', 'i'),
      ('A', 'a'), ('L', 'l')]
  | .md5 => pattern [('M', 'm'), ('d', 'D'), ('5', '5')]
  | .xbaidu => pattern [('X', 'x'), ('B', 'b'), ('a', 'A'), ('I', 'i'),
      ('D', 'd'), ('U', 'u')]
  | .ybaidu => pattern [('Y', 'y'), ('B', 'b'), ('a', 'A'), ('I', 'i'),
      ('D', 'd'), ('U', 'u')]

/-- From the name to the value: the name and one more byte. -/
def Field.skip : Field → Nat
  | .serial => 7
  | .md5 => 4
  | .xbaidu => 7
  | .ybaidu => 7

-- ============================================================ the object

/-- The members the parser, the corrector and the sender use. -/
structure CClient where
  fd : Int
  /-- buffer offset -/
  offset : Nat
  iobuf : List.Vector UInt8 (MAXBUF + 1)
  serial : List.Vector UInt8 (SERIAL_LEN + 1)
  md5 : List.Vector UInt8 (MD5_LEN + 1)
  xbaidu : List.Vector UInt8 16
  ybaidu : List.Vector UInt8 16
  xgps : Rat
  ygps : Rat
  /-- 1: all data received; 2: gps corrected -/
  status : Nat

/-- What a call does to the rest of the program, and the fields it
writes. -/
inductive Effect
  | stored (f : Field) (value : List UInt8)
  /-- `notificationthreads(fd)` -/
  | notified (fd : Int)
  /-- `DoKill(fd)` -/
  | killed (fd : Int)
  deriving DecidableEq, Repr

namespace CClient

/-- `ini(client, fd)`, over the object `c` the memory held. -/
def ini (c : CClient) (fd : Int) : CClient :=
  { c with
    fd := fd
    offset := 0
    iobuf := List.Vector.replicate _ 0
    serial := List.Vector.replicate _ 0
    status := 0 }

/-- What a pointer into `iobuf` sees. -/
def mem (c : CClient) : List UInt8 :=
  c.iobuf.val ++ (c.serial.val ++ c.md5.val)

/-- The bytes of a field's member. -/
def member (c : CClient) : Field → List UInt8
  | .serial => c.serial.val
  | .md5 => c.md5.val
  | .xbaidu => c.xbaidu.val
  | .ybaidu => c.ybaidu.val

/-- The string in a field's member. -/
def str (c : CClient) (f : Field) : List UInt8 :=
  (c.member f).takeWhile fun b => b != 0

/-- `memcpy` of a value into the field's member, and the terminator. -/
def put (c : CClient) (f : Field) (value : List UInt8) : CClient :=
  match f with
  | .serial => { c with serial := blit c.serial 0 (value ++ [0]) }
  | .md5 => { c with md5 := blit c.md5 0 (value ++ [0]) }
  | .xbaidu => { c with xbaidu := blit c.xbaidu 0 (value ++ [0]) }
  | .ybaidu => { c with ybaidu := blit c.ybaidu 0 (value ++ [0]) }

/-- Does a value end at this byte? -/
def isDelimiter (b : UInt8) : Bool := b == 32 || b == 38

/-- Store the `n` bytes at `x`. -/
def storeText (c : CClient) (f : Field) (x n : Nat) :
    CClient × List Effect :=
  let value := slice c.mem x n
  (c.put f value, [.stored f value])

/-- Store the bytes from `x` to the first delimiter, if one comes within
`GPS_LEN`. -/
def storeCoordinate (c : CClient) (f : Field) (x : Nat) :
    CClient × List Effect :=
  let dot := scan (fun d => isDelimiter (c.mem.getD d 0)) GPS_LEN x
  if dot < x + GPS_LEN then c.storeText f x (dot - x)
  -- "data error"
  else (c, [])

/-- What is done with a field whose value begins at `x`. -/
def storeField (c : CClient) (f : Field) (x : Nat) :
    CClient × List Effect :=
  match f with
  | .serial => c.storeText .serial x SERIAL_LEN
  | .md5 => c.storeText .md5 x MD5_LEN
  | .xbaidu => c.storeCoordinate .xbaidu x
  | .ybaidu => c.storeCoordinate .ybaidu x

/-- The search for a field, from `j`; `none` if it runs into `len`. -/
def getField (c : CClient) (f : Field) (j len : Nat) :
    Option (CClient × List Effect) :=
  let x := scan (fun x => f.name.at (c.mem.drop x)) (len - j) j
  if x < len then some (c.storeField f (x + f.skip)) else none

/-- The branch of an entire request, the fields from `j` on. The error
is the assertion that fails. -/
def takeFields (c : CClient) (j len : Nat) :
    Except Field (CClient × List Effect) :=
  match c.getField .serial j len with
  | none => .error .serial
  | some (c, e₁) =>
    match c.getField .md5 j len with
    | none => .error .md5
    | some (c, e₂) =>
      match c.getField .xbaidu j len with
      | none => .error .xbaidu
      | some (c, e₃) =>
        -- no assertion here: a missing ybaidu is a line on stderr
        let (c, e₄) := (c.getField .ybaidu j len).getD (c, [])
        .ok ({ c with status := 1 },
          e₁ ++ (e₂ ++ (e₃ ++ (e₄ ++ [.notified c.fd]))))

/-- The branch of a request that goes on: keep it from `i` on. -/
def keepRest (c : CClient) (i len : Nat) : CClient :=
  let offset := len - i
  let iobuf := blit c.iobuf 0 (slice c.iobuf.val i offset)
  { c with offset := offset, iobuf := blit iobuf offset [0] }

/-- The body of the loop that finds `navto` at `i`, or has run into
`len`. -/
def parseAt (c : CClient) (i len : Nat) :
    Except Field (CClient × List Effect) :=
  if i < len then
    let j := i + 6
    if j + IN_DATA_LEN > len then .ok (c.keepRest i len, [])
    else c.takeFields j len
  else .ok (c, [])

/-- `parse(ulen)`, behind its log call. -/
def parse (c : CClient) (ulen : Nat) :
    Except Field (CClient × List Effect) :=
  if 0 < ulen then
    let len := ulen + c.offset
    let c := { c with iobuf := blit c.iobuf len [0] }
    c.parseAt (scan (fun i => navto.at (c.mem.drop i)) len 0) len
  else .ok (c, [])

/-- What `recv(fd, iobuf + offset, MAXBUF - offset, 0)` gives. -/
inductive Recv
  | failed
  | closed
  | data (chunk : List UInt8)

/-- `recv` has written a chunk. -/
def filled (c : CClient) (chunk : List UInt8) : CClient :=
  { c with iobuf := blit c.iobuf c.offset chunk }

/-- `receive()`. -/
def receive (c : CClient) : Recv → Except Field (CClient × List Effect)
  | .failed => .ok (c, [.killed c.fd])
  | .closed => .ok (c, [.killed c.fd])
  | .data chunk => (c.filled chunk).parse chunk.length

/-- An object in zeroed memory. -/
def blank : CClient where
  fd := 0
  offset := 0
  iobuf := List.Vector.replicate _ 0
  serial := List.Vector.replicate _ 0
  md5 := List.Vector.replicate _ 0
  xbaidu := List.Vector.replicate _ 0
  ybaidu := List.Vector.replicate _ 0
  xgps := 0
  ygps := 0
  status := 0

end CClient

end CorrectGps
