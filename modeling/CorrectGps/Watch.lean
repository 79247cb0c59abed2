/-
The event loop with what there is to read: the main loop of EventLoop.lean
on one side, the readiness the kernel keeps for an epoll set on the other.

# Edge triggering

`registerForEvent` asks for `EPOLLET`. So `epoll_wait` returns a
descriptor when something has arrived for it since it was registered or
last returned, and once more when it is registered with something to
read. The main loop reads once for each event, and accepts one connection
for each event of the listener. `unRegisterForEvent` and
`registerForEvent` around every read are its answer to what a read
leaves behind; `reRegisterServerSock` does nothing under `USE_EPOLL`.

# What there is to read

Bytes of a client, the end of its stream, or a connection for the
listener: one Bool for each descriptor (`Edge`). A closed descriptor and a
new one have nothing. A read of the main thread may leave something or
not, and so may an `accept`.
-/
import CorrectGps.EventLoop
import CorrectGps.Lib.Edge

namespace CorrectGps.Watch

open Lib
open EventLoop (Main Event)

structure State where
  loop : EventLoop.State
  edge : Edge Int

def init (sockfd : Int) : State where
  loop := EventLoop.init sockfd
  edge := .quiet

inductive Label
  /-- something arrives for `d` -/
  | arrive (d : Int)
  /-- a step of the program, and the descriptor that the main thread has
  read empty with it -/
  | loop (a : EventLoop.Label) (drained : Option Int)

/-- `epoll_wait` returns what is in the ready list, with one of the
flags that were asked for. -/
def State.announced (s : State) : EventLoop.Label → Prop
  | .getEvents events =>
      ∀ e ∈ events, e.fd ∈ s.edge.ready
        ∧ (e.readable = true ∨ e.hangup = true)
  | _ => True

instance (s : State) (a : EventLoop.Label) : Decidable (s.announced a) := by
  cases a <;> unfold State.announced <;> infer_instance

/-- What a step of the main thread reads from. -/
def State.reads (sockfd : Int) (s : State) (a : EventLoop.Label)
    (d : Int) : Bool :=
  match a with
  | .accept _ => d = sockfd
  | .acceptFail => d = sockfd
  | .recvData =>
      match s.loop.main with
      | .receiving c _ _ =>
          s.loop.client c = some d || s.loop.client c = none
      | _ => false
  | .recvGone _ =>
      match s.loop.main with
      | .receiving c _ _ =>
          s.loop.client c = some d || s.loop.client c = none
      | _ => false
  | _ => false

/-- The kernel follows a step of the program that leads to `l`. -/
def State.react (s : State) (a : EventLoop.Label) (drained : Option Int)
    (l : EventLoop.State) : Edge Int :=
  let taken := match a with
    | .getEvents events => s.edge.take (events.map Event.fd)
    | _ => s.edge
  let read := match drained with
    | some d => taken.drain d
    | none => taken
  read.follow s.loop.fds.watched l.fds.watched
    fun d => decide (l.fds.owner d = s.loop.fds.owner d)

/-- Perform one label, `none` if it is not enabled. -/
def step (maxClients : Nat) (sockfd : Int) (s : State) :
    Label → Option State
  | .arrive d =>
      if (s.loop.fds.owner d).isSome then
        some { s with edge := s.edge.arrive s.loop.fds.watched d }
      else none
  | .loop a drained =>
      if s.announced a ∧ drained.all (s.reads sockfd a) = true then
        (EventLoop.step maxClients sockfd s.loop a).map fun l =>
          { loop := l, edge := s.react a drained l }
      else none

/-- `epoll_ctl` fails only where the descriptor does not allow it, number
0 is not given away, and `epoll_wait` returns no more events than there is
room for. -/
def Obliging (_ : State) : Label → Prop
  | .loop (.getEvents events) _ => events.length ≤ EventLoop.MAXDESCRIPTORS
  | .loop (.unRegister willing) _ => willing = true
  | .loop (.add willing) _ => willing = true
  | .loop (.accept fd) _ => 0 < fd
  | .loop (.socket fd) _ => 0 < fd
  | _ => True

/-- Every `accept` leaves no connection behind. -/
def AcceptsAll (sockfd : Int) (_ : State) : Label → Prop
  | .loop (.accept _) drained => drained = some sockfd
  | .loop .acceptFail drained => drained = some sockfd
  | _ => True

instance (s : State) (a : Label) : Decidable (Obliging s a) := by
  unfold Obliging
  split <;> infer_instance

instance (sockfd : Int) (s : State) (a : Label) :
    Decidable (AcceptsAll sockfd s a) := by
  unfold AcceptsAll
  split <;> infer_instance

/-- The main thread is in `epoll_wait`, and nothing is there to return. -/
def State.Blocked (s : State) : Prop :=
  s.loop.main = .between [] ∧ ∀ d ∈ s.edge.ready, s.edge.level d = false

instance : DecidablePred State.Blocked :=
  fun _ => inferInstanceAs (Decidable (_ ∧ _))

section Inversion

variable {maxClients : Nat} {sockfd : Int} {s s' : State}

theorem arrive_inv {d : Int}
    (h : step maxClients sockfd s (.arrive d) = some s') :
    s' = { s with edge := s.edge.arrive s.loop.fds.watched d } := by
  simp only [step] at h
  split at h
  case isTrue => simpa using h.symm
  case isFalse => cases h

theorem loop_inv {a : EventLoop.Label} {drained : Option Int}
    (h : step maxClients sockfd s (.loop a drained) = some s') :
    s.announced a ∧ EventLoop.step maxClients sockfd s.loop a = some s'.loop
      ∧ s'.edge = s.react a drained s'.loop := by
  simp only [step] at h
  split at h
  case isTrue hg =>
    obtain ⟨l, hl, hs'⟩ := Option.map_eq_some_iff.mp h
    subst hs'
    exact ⟨hg.1, hl, rfl⟩
  case isFalse => cases h

end Inversion

end CorrectGps.Watch
