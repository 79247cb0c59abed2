/-
`Cserver::createListener`: the socket that the clients connect to.

`getaddrinfo` gives a list of addresses, and the first one that a socket
can be bound to is listened at. An address whose `socket` or `bind` fails
is passed over; a `setsockopt` that fails ends the search. What the calls
for an address give is part of the list here, and so are the numbers that
`socket` returns.

Left out are the address itself and the `fcntl` at the end.
-/
import CorrectGps.CarServer

namespace CorrectGps.Cserver

/-- What is returned after an error. -/
def CKERROR : Int := -1

/-- An element of `servinfo`, and what the calls for it give. -/
structure Address where
  /-- `socket` -/
  socket : Int
  /-- whether `SO_REUSEADDR` can be set -/
  reuseaddr : Bool
  /-- whether `TCP_DEFER_ACCEPT` can be set -/
  deferAccept : Bool
  /-- whether `bind` succeeds -/
  bind : Bool
  deriving DecidableEq, Repr

/-- What `createListener` leaves. -/
structure Outcome where
  sockets : Sockets
  /-- what it returns -/
  fd : Int
  /-- with what it has called `setallthreadexitflag` -/
  exit : Option Nat
  /-- whether it has called `freeaddrinfo` -/
  freed : Bool

/-- The loop over `servinfo`: the socket that is bound, or the number
`setallthreadexitflag` is called with. -/
def bindFirst (s : Sockets) : List Address → Sockets × (Nat ⊕ Int)
  | [] => (s, .inl 204)
  | p :: rest =>
      if p.socket = -1 then bindFirst s rest
      else
        let s := { s with opened := insert p.socket s.opened }
        if !p.reuseaddr then (s, .inl 202)
        else if !p.deferAccept then (s, .inl 203)
        else if !p.bind then bindFirst (s.close p.socket) rest
        else (s, .inr p.socket)

/-- `createListener`, given `servinfo`, if `getaddrinfo` succeeds, and
whether `listen` does. -/
def createListener (s : Sockets) (servinfo : Option (List Address))
    (listens : Bool) : Outcome :=
  match servinfo with
  | none => { sockets := s, fd := CKERROR, exit := some 201, freed := false }
  | some servinfo =>
      match bindFirst s servinfo with
      | (s, .inl code) =>
          { sockets := s, fd := CKERROR, exit := some code, freed := false }
      | (s, .inr sockfd) =>
          if listens then
            { sockets := s, fd := sockfd, exit := none, freed := true }
          else
            { sockets := s.close sockfd, fd := CKERROR, exit := some 205
              freed := true }

end CorrectGps.Cserver
