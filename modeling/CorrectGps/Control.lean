/-
How `main` goes round, and how it ends: its loop, the one in
`getEvents`, and the flags that signals and other threads set.

# The flags

`sig_term` handles SIGTERM and SIGHUP, and runs as one step. Both set
`allExitFlag`, as `setallthreadexitflag` does, which any thread may call.
`hupmReceived` is there to read the configuration again; what is left of
that is a pause and `goto RESTART`, past the test of the loop.

# The main thread

What is done for one event is one step here (EventLoop.lean has it).
`epoll_wait` returns up to `most` events, or -1 with `EINTR` or another
`errno`. That ends neither loop.
-/
import CorrectGps.Lib.Trans

namespace CorrectGps.Control

open Lib

/-- Where `main` is. -/
inductive Pos
  /-- before `while (!termReceived && !allExitFlag)` -/
  | head
  /-- in `getEvents`, before `while (!allExitFlag)` -/
  | asking
  /-- in `epoll_wait` -/
  | polling
  /-- with so many events to come -/
  | handling (left : Nat)
  /-- in `sleep(1)`, before `goto RESTART` -/
  | sleeping
  /-- behind the loop -/
  | ended
  deriving DecidableEq, Repr

structure State where
  termReceived : Bool
  hupmReceived : Bool
  allExitFlag : Bool
  pos : Pos
  deriving DecidableEq, Repr

/-- When `initialize` has returned. -/
def init : State where
  termReceived := false
  hupmReceived := false
  allExitFlag := false
  pos := .head

/-- What `epoll_wait` returns. -/
inductive Wait
  | events (n : Nat)
  /-- -1, and `errno` is `EINTR` -/
  | interrupted
  /-- -1 -/
  | failed
  deriving DecidableEq, Repr

inductive Label
  /-- `sig_term(SIGTERM)` -/
  | sigterm
  /-- `sig_term(SIGHUP)` -/
  | sighup
  | setallthreadexitflag
  /-- the test of `main`'s loop -/
  | test
  /-- the test of the loop in `getEvents` -/
  | ask
  /-- `epoll_wait` returns -/
  | wait (r : Wait)
  /-- the body of the `for` loop -/
  | handle
  /-- `if (hupmReceived)` -/
  | tail
  /-- `sleep` returns -/
  | wake
  deriving DecidableEq, Repr

/-- Perform one label, `none` if it is not enabled. -/
def step (most : Nat) (s : State) : Label → Option State
  | .sigterm => some { s with termReceived := true, allExitFlag := true }
  | .sighup => some { s with hupmReceived := true, allExitFlag := true }
  | .setallthreadexitflag => some { s with allExitFlag := true }
  | .test =>
      if s.pos = .head then
        some { s with
          pos := if !s.termReceived && !s.allExitFlag then .asking
            else .ended }
      else none
  | .ask =>
      if s.pos = .asking then
        -- `numEvents` is -1 if the loop is not entered
        some { s with
          pos := if !s.allExitFlag then .polling else .handling 0 }
      else none
  | .wait r =>
      if s.pos = .polling then
        match r with
        | .events n =>
            if n ≤ most then some { s with pos := .handling n } else none
        | .interrupted => some { s with pos := .asking }
        | .failed => some { s with pos := .handling 0 }
      else none
  | .handle =>
      match s.pos with
      | .handling (left + 1) => some { s with pos := .handling left }
      | _ => none
  | .tail =>
      match s.pos with
      | .handling 0 =>
          if s.hupmReceived then
            some { s with hupmReceived := false, pos := .sleeping }
          else some { s with pos := .head }
      | _ => none
  | .wake =>
      if s.pos = .sleeping then some { s with pos := .asking } else none

/-- The steps of the main thread. -/
def Label.byMain : Label → Bool
  | .sigterm => false
  | .sighup => false
  | .setallthreadexitflag => false
  | _ => true

end CorrectGps.Control
