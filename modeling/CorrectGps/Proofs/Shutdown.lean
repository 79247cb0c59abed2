/-
Shutting down: what `setallthreadexitflag` leads to.

# The measure

Once `allExitFlag` is set every worker is on its way out, and each of its
steps brings it nearer: the wait loop is left at the next test, the test
in front of the lookup is not passed, and the loop is not entered again.
So a worker makes at most eight more steps (`toExit`). One that has
passed that test already still serves, once (`toServe`).

# Nobody is stuck

A worker that cannot go on needs a mutex. The holders lead from it to a
thread that can (`Ordered.unblocked`, with nothing to order), and that
thread is another worker or the main thread in one of its sections. Its
step lowers the measure as well.
-/
import CorrectGps.Proofs.Locks

namespace CorrectGps.Locks

open Lib

variable {α : Type} {n : Nat} {s s' : State α n} {w : Fin n} {m : Mutex}

-- ========================================================= the measure

variable [DecidableEq α]

end CorrectGps.Locks
