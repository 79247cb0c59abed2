/-
One connection with its tables: what its client sends, and what the
server sends on to the car server.

A call of `receive` and the section of `mmutex` in `run` are one step
each, so no section runs during a call. Otherwise they come in any order:
a client may send again before a worker has come to its request, and with
more than one worker a client may be forwarded again before it is killed.
A failed assertion, a memory fault and a log call that cannot be printed
are no step.

Of the text that is forwarded there is what `Send` takes from the client;
Request.lean has the text around it.
-/
import CorrectGps.Ccorrectit
import CorrectGps.Log

namespace CorrectGps.Session

/-- What `Send(obj)` takes from `obj`. -/
structure Sent where
  serial : List UInt8
  md5 : List UInt8
  xgps : Rat
  ygps : Rat
  deriving DecidableEq

def Sent.of (obj : CClient) : Sent where
  serial := obj.str .serial
  md5 := obj.str .md5
  xgps := obj.xgps
  ygps := obj.ygps

inductive Label
  /-- `receive()` of a chunk, at a time -/
  | receive (t : Tm) (chunk : List UInt8)
  /-- the section of `mmutex`; `gpsxy` is what the local point of
  `getGpsxy` holds -/
  | serve (gpsxy : CPOI)
  deriving DecidableEq

/-- Perform one label, `none` if the process does not survive it. -/
def step (atof : List UInt8 → Rat) (info : INFO_MAP) (c : CClient) :
    Label → Option CClient
  | .receive t chunk =>
      match c.receiveLogged t (.data chunk) with
      | some (.ok (c, _)) => some c
      | _ => none
  | .serve gpsxy => Ccorrectit.correctgps_worker atof gpsxy info c

/-- What a label sends to the car server. -/
def sends (atof : List UInt8 → Rat) (info : INFO_MAP) (c : CClient)
    (a : Label) : Option Sent :=
  match a with
  | .receive _ _ => none
  | .serve gpsxy =>
      match Ccorrectit.correctgps_worker atof gpsxy info c with
      | none => none
      | some c =>
          if c.status = 2 ∧ c.str .serial ≠ [] then some (Sent.of c)
          else none

end CorrectGps.Session
