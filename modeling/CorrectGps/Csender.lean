/-
`Csender`: the connection to the car server, and the loop that reads its
answer.

# The loop

`Recv` reads until `fb` contains both `succMark` and `closing`, as a
string, or the time is up. It counts what has arrived (`strlen`), what
is left (`len`) and where to write (`p`). `len` goes to `recv` as a
`size_t`, so a negative one is no bound at all (`CanGive`). What is taken
off `len` is the total so far.

# What goes wrong

A `recv` that writes past `fb` ends in `overrun`; a `strstr` that finds
neither its pattern nor a NUL in `fb` reads on in whatever follows, and
ends in `overread`. The constructor does not initialise `fb`.

An iteration is given what `recv` returns and whether `outtime_s` has
passed by then.
-/
import CorrectGps.CClient
import CorrectGps.Lib.CStr
import CorrectGps.Lib.Trans

namespace CorrectGps

open Lib

def FEEDBACK_MSG_LEN : Nat := 1024

def SOCKET_ERROR : Int := -1

def INVALID_SOCKET : Int := -1

/-- The members `Recv` uses. -/
structure Csender where
  m_sockfd : Int
  fb : List.Vector UInt8 FEEDBACK_MSG_LEN

namespace Csender

/-- The first string `Recv` looks for. -/
def succMark : List UInt8 := bytes "\x7b\"succ\":\"".toList

/-- The second one. -/
def closing : List UInt8 := bytes "\x7d".toList

/-- Where `Recv` is. -/
inductive Pc
  | looping
  | left
  /-- `strstr` has gone past `fb` -/
  | overread
  /-- `recv` has written past `fb` -/
  | overrun
  deriving DecidableEq, Repr

/-- The locals of `Recv`, and `fb`; `p` is counted from `fb`. -/
structure Loop where
  fb : List.Vector UInt8 FEEDBACK_MSG_LEN
  strlen : Nat
  len : Int
  p : Nat
  ret : Int
  pc : Pc

/-- Before the first iteration. -/
def start (fb : List.Vector UInt8 FEEDBACK_MSG_LEN) : Loop where
  fb := fb
  strlen := 0
  len := FEEDBACK_MSG_LEN - 1
  p := 0
  ret := 0
  pc := .looping

/-- What `recv` may give when asked for `len` bytes. -/
def CanGive (len : Int) : CClient.Recv → Prop
  | .failed => True
  | .closed => True
  | .data chunk => chunk ≠ [] ∧ (len < 0 ∨ (chunk.length : Int) ≤ len)

instance (len : Int) (r : CClient.Recv) : Decidable (CanGive len r) :=
  match r with
  | .failed => isTrue trivial
  | .closed => isTrue trivial
  | .data _ => inferInstanceAs (Decidable (_ ∧ _))

namespace Loop

/-- `ret = recv(m_sockfd, p, len, 0)` and what is done with a positive
`ret`. -/
def receive (s : Loop) : CClient.Recv → Loop
  | .failed => { s with ret := SOCKET_ERROR }
  | .closed => { s with ret := 0 }
  | .data chunk =>
      if s.p + chunk.length ≤ FEEDBACK_MSG_LEN then
        let strlen := s.strlen + chunk.length
        { s with
          fb := blit s.fb s.p chunk
          ret := chunk.length
          strlen := strlen
          len := s.len - strlen
          p := s.p + chunk.length }
      else { s with pc := .overrun }

/-- `strstr(fb, succMark) && strstr(fb, closing)` -/
def search (s : Loop) : Option Bool :=
  match strstr 0 succMark s.fb.val with
  | some true => strstr 0 closing s.fb.val
  | some false => some false
  | none => none

/-- The two ways out of the loop. -/
def test (s : Loop) (late : Bool) : Loop :=
  if late then { s with pc := .left }
  else match s.search with
    | some true => { s with pc := .left }
    | some false => s
    | none => { s with pc := .overread }

/-- One iteration. -/
def iterate (s : Loop) (e : CClient.Recv × Bool) : Option Loop :=
  if s.pc = .looping ∧ CanGive s.len e.1 then
    let s := s.receive e.1
    if s.pc = .looping then some (s.test e.2) else some s
  else none

end Loop

/-- `Recv()`, given what happens in its loop; `none` if that is not the
end of the loop, or the terminator has no place in `fb`. -/
def Recv (c : Csender) (events : List (CClient.Recv × Bool)) :
    Option (Csender × Int) :=
  if c.m_sockfd = INVALID_SOCKET then
    some ({ c with fb := blit c.fb 0 [0] }, 0)
  else
    match run Loop.iterate (start c.fb) events with
    | some s =>
        if s.pc = .left ∧ s.strlen < FEEDBACK_MSG_LEN then
          -- `Close()`
          some ({ m_sockfd := INVALID_SOCKET, fb := blit s.fb s.strlen [0] },
            if s.ret = SOCKET_ERROR then 0 else s.ret)
        else none
    | none => none

/-- What `Send2CarServer` sends back. -/
def feedback (c : Csender) : List UInt8 :=
  c.fb.val.takeWhile fun b => b != 0

end Csender

end CorrectGps
