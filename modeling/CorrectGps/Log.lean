/-
The log, and the call `CClient::parse` begins with.

`log_msg` takes a format and its arguments; `log_doit` prints them into
`buf` and appends a newline. `parse` builds a line around what stands in
`iobuf`, up to the first NUL in memory, before it has written its own
terminator, and passes this line as the format, with no arguments. A
specification that needs one, or a line longer than `buf`, leaves the
call without a defined end: `parseLogged` and `receiveLogged` are `parse`
and `receive` with this call in front.

The time is that of `localtime`, for a year of four digits.
-/
import CorrectGps.CClient
import CorrectGps.Lib.Printf

namespace CorrectGps

open Lib

/-- Size of `buf` in `log_doit`. -/
def BUFFSIZE : Nat := 4096

/-- The local time, `year` and `mon` as they are printed. -/
structure Tm where
  year : Nat
  mon : Nat
  mday : Nat
  hour : Nat
  min : Nat
  sec : Nat
  year_lt : year < 10000
  mon_lt : mon < 100
  mday_lt : mday < 100
  hour_lt : hour < 100
  min_lt : min < 100
  sec_lt : sec < 100
  deriving DecidableEq

/-- Where the clock starts. -/
def Tm.epoch : Tm :=
  ⟨1970, 1, 1, 0, 0, 0, by omega, by omega, by omega, by omega, by omega,
    by omega⟩

/-- `getnowdate(nowdate)`: `%04d-%02d-%02d %02d:%02d:%02d` -/
def getnowdate (t : Tm) : List UInt8 :=
  padded 4 t.year ++ (45 :: (padded 2 t.mon ++ (45 :: (padded 2 t.mday
    ++ (32 :: (padded 2 t.hour ++ (58 :: (padded 2 t.min
      ++ (58 :: padded 2 t.sec)))))))))

/-- What `log_doit` leaves in `buf`, its NUL not counted, if the format
can be printed without arguments. -/
def log_doit (fmt : List UInt8) : Option (List UInt8) :=
  (vsprintf fmt).map (· ++ [10])

namespace CClient

/-- The string at `iobuf`; `none` without a NUL. -/
def recvbuf (c : CClient) : Option (List UInt8) :=
  if 0 ∈ c.mem then some (c.mem.takeWhile fun b => b != 0) else none

/-- `log`, in front of the string and with it. -/
def logHead (t : Tm) : List UInt8 :=
  bytes "[get][".toList ++ (getnowdate t ++ bytes "][".toList)

def logLine (t : Tm) (text : List UInt8) : List UInt8 :=
  logHead t ++ (text ++ bytes "].".toList)

/-- `FLOG_MSG(log.c_str())`: what is in `buf`, if the line can be printed
and has room there with its NUL. -/
def logMsg (c : CClient) (t : Tm) : Option (List UInt8) :=
  c.recvbuf.bind fun text =>
    (log_doit (logLine t text)).filter fun buf => buf.length + 1 ≤ BUFFSIZE

/-- `parse(ulen)` with the log call in front of it, `none` if the process
may not survive that. -/
def parseLogged (c : CClient) (t : Tm) (ulen : Nat) :
    Option (Except Field (CClient × List Effect)) :=
  if (c.logMsg t).isSome then some (c.parse ulen) else none

/-- `receive()`, likewise. -/
def receiveLogged (c : CClient) (t : Tm) :
    Recv → Option (Except Field (CClient × List Effect))
  | .failed => some (c.receive .failed)
  | .closed => some (c.receive .closed)
  | .data chunk => (c.filled chunk).parseLogged t chunk.length

/-- If the process survives the log call, the rest is `receive`. -/
theorem receive_of_logged {c : CClient} {t : Tm} {chunk : List UInt8}
    {r : Except Field (CClient × List Effect)}
    (h : c.receiveLogged t (.data chunk) = some r) :
    c.receive (.data chunk) = r := by
  change (if ((c.filled chunk).logMsg t).isSome
    then some (c.receive (.data chunk)) else none) = some r at h
  split at h
  · exact Option.some.inj h
  · cases h

end CClient

end CorrectGps
