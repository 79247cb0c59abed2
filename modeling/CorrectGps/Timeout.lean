/-
`CclientManager::killTimeoutClient`: the sweep over the client map.

An iterator is the key of the entry it points at, `none` at the end. Going
on from an entry that is no longer in the map, or looking at one, is not
defined in C++ and gives `none`. `time(NULL)` is `now` during the sweep;
the socket option that `ret` would report is not asked for, so `ret` is 0.

What the destructor of a client does is left out.
-/
import CorrectGps.CClient
import CorrectGps.Lib.SortedMap
import Mathlib.Algebra.Order.Ring.Int

namespace CorrectGps.Timeout

open Lib

/-- A client with the time the sweep reads. -/
structure Client extends CClient where
  delay_time : Int

/-- `std::map<int, CClient*>`; a pointer may be null. -/
abbrev CLIENT_MAP : Type := SortedMap Int (Option Client)

/-- `DoKill(fd)` -/
def DoKill (fd : Int) (clientqueue : CLIENT_MAP) : CLIENT_MAP :=
  match clientqueue.find fd with
  | none => clientqueue
  | some _ => clientqueue.erase fd

/-- The two tests of the loop. -/
def kills (outtime_s : UInt32) (now : Int) : Option Client → Bool
  | none => false
  | some c =>
      c.str .serial == []
        && (outtime_s != 0
          || decide (outtime_s.toNat < ((now - c.delay_time) % 2 ^ 32)))

/-- The loop from `it` on: the keys visited, and the map. -/
def sweep (outtime_s : UInt32) (now : Int) :
    Nat → CLIENT_MAP → Option Int → Option (List Int × CLIENT_MAP)
  | 0, _, _ => none
  | _ + 1, clientqueue, none => some ([], clientqueue)
  | fuel + 1, clientqueue, some fd =>
      match clientqueue.find fd with
      | none => none
      | some client =>
          let clientqueue :=
            if kills outtime_s now client then DoKill fd clientqueue
            else clientqueue
          -- `++it`
          match clientqueue.next fd with
          | none => none
          | some it =>
              (sweep outtime_s now fuel clientqueue it).map fun r =>
                (fd :: r.1, r.2)

/-- `killTimeoutClient()` -/
def killTimeoutClient (outtime_s : UInt32) (now : Int)
    (clientqueue : CLIENT_MAP) : Option (List Int × CLIENT_MAP) :=
  sweep outtime_s now (clientqueue.items.length + 1) clientqueue
    (SortedMap.first clientqueue.items)

end CorrectGps.Timeout
