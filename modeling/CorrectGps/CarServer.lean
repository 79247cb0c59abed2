/-
`CClient::Send2CarServer`: one exchange with the car server, as the
kernel sees it.

# The connection

`Connect` stores what `socket` returns before it does anything else,
and on a non-blocking socket waits in rounds for `connect` to end: a
round is what `select` returns and, if the socket is writable,
`getsockopt`. It has six exits; none of them closes the socket.

# The exchange

Only behind a `Connect` that returned true `Send` and `Recv` follow, and
`Recv` ends in `Close`. The object is never deleted, and its destructor
would not close either. What `send` returns is not looked at.
-/
import CorrectGps.Csender
import Mathlib.Data.Finset.Insert

namespace CorrectGps

open Lib

/-- The sockets of the process: the open ones, and the closes so far,
latest first. -/
structure Sockets where
  opened : Finset Int
  closed : List Int

/-- `close(fd)` -/
def Sockets.close (s : Sockets) (fd : Int) : Sockets where
  opened := s.opened.erase fd
  closed := fd :: s.closed

namespace Csender

/-- How `connect` returns. -/
inductive Connecting
  | done
  /-- `EINPROGRESS` -/
  | inProgress
  /-- another error -/
  | refused
  deriving DecidableEq, Repr

/-- One round of waiting. -/
inductive Round
  /-- `select` returns 0 -/
  | timeout
  /-- `select` returns a negative number -/
  | failed
  /-- whether the socket is in `fdw` and in `fde`, and what `getsockopt`
  returns and stores in `error` -/
  | ready (fdw fde : Bool) (code error : Int)
  deriving DecidableEq, Repr

/-- `Close()` -/
def Close (c : Csender) (s : Sockets) : Csender × Sockets :=
  if c.m_sockfd ≠ INVALID_SOCKET then
    ({ c with m_sockfd := INVALID_SOCKET }, s.close c.m_sockfd)
  else (c, s)

/-- The loop of `Connect`; `none` if it goes on. -/
def await : List Round → Option Bool
  | [] => none
  | .timeout :: rounds => await rounds
  | .ready fdw fde code error :: rounds =>
      if fdw then
        if code < 0 ∨ error ≠ 0 then some false else some true
      else if fde then some false
      else await rounds
  | .failed :: _ => some false

/-- `Connect()`, given what `socket` returns, how `connect` does and the
rounds of the loop. -/
def Connect (c : Csender) (s : Sockets) (fd : Int) (r : Connecting)
    (rounds : List Round) : Option (Csender × Sockets × Bool) :=
  let c := { c with m_sockfd := fd }
  if fd = INVALID_SOCKET then some (c, s, false)
  else
    let s := { s with opened := insert fd s.opened }
    match r with
    | .done => some (c, s, true)
    | .inProgress => (await rounds).map fun ok => (c, s, ok)
    | .refused => some (c, s, false)

end Csender

/-- What the kernel and the car server do during one exchange. -/
structure Exchange where
  fd : Int
  connected : Csender.Connecting
  rounds : List Csender.Round
  /-- what `send` returns -/
  sent : Int
  received : List (CClient.Recv × Bool)

/-- `Send2CarServer()` with the new object `c`; `none` if it does not
return. -/
def CClient.Send2CarServer (c : Csender) (s : Sockets) (e : Exchange) :
    Option (Csender × Sockets) :=
  match c.Connect s e.fd e.connected e.rounds with
  | none => none
  | some (c, s, true) =>
      -- `Recv()`, and the `Close()` it ends in
      (c.Recv e.received).map fun r => (r.1, (c.Close s).2)
  | some (c, s, false) => some (c, s)

end CorrectGps
