/-
The main loop of `gps.cpp` over `SelEpolKqEvPrt`, with every descriptor
it accepts, registers and closes, and the threads that open and close
others meanwhile.

# Descriptors

The kernel's table says whose each open number is: the listener's, a
connection's (a socket `accept` returned) or a `Csender`'s. Connections
and senders are numbered as they are opened, and the `CClient` built for
a connection carries its number. `accept` and `socket` return any number
that is not open. The watched descriptors of the table are the epoll set.

# The main thread

It works through what `epoll_wait` returned, one event after the other,
and every system call and every critical section on the way is a step of
its own. A `Bool` of a label says whether the kernel is willing: even if
it is, `setsockopt` and `EPOLL_CTL_ADD` need an open descriptor, and
`EPOLL_CTL_DEL` a watched one. The loop starts when `initialize` has
registered the listener. `epoll_wait` is asked for `curfds` events,
however long `events` is; what it writes behind the array has no part
here.

# The other threads

A worker may call `DoKill` with any number at any time, and open and
close the socket of a `Csender`. The program does so at fewer moments,
with fewer numbers; Server.lean has the worker's turn in full.
-/
import CorrectGps.Csender
import CorrectGps.Lib.Fds
import Mathlib.Data.List.AList

namespace CorrectGps.EventLoop

open Lib

-- ================================================================ state

/-- The length of `events`. -/
def MAXDESCRIPTORS : Nat := 1024

/-- Whose an open descriptor is. -/
inductive Owner
  | listener
  /-- a socket `accept` returned -/
  | conn (c : Nat)
  /-- the socket of a `Csender` -/
  | sender (k : Nat)
  deriving DecidableEq, Repr

/-- An element of `events` and, as history, whose the descriptor was
when `epoll_wait` returned it. -/
structure Event where
  fd : Int
  owner : Owner
  /-- `EPOLLIN` -/
  readable : Bool
  /-- `EPOLLRDHUP` or `EPOLLERR` -/
  hangup : Bool
  deriving DecidableEq, Repr

/-- Where `registerForEvent` is. -/
inductive Stage
  /-- before the `setsockopt` of `SO_LINGER` -/
  | linger
  /-- before the `setsockopt` of `SO_RCVTIMEO` -/
  | timeout
  /-- before `EPOLL_CTL_ADD` -/
  | add
  /-- a `setsockopt` has failed, before `close` -/
  | failed
  deriving DecidableEq, Repr

/-- Where the main thread is, with the events it has not come to. -/
inductive Main
  /-- between two events, or before `getEvents` if none is left -/
  | between (rest : List Event)
  /-- in `AddToQueue(fd)`, before `GetNewClient` -/
  | accepted (fd : Int) (c : Nat) (rest : List Event)
  /-- in `AddToQueue(fd)`, before the locked section -/
  | created (fd : Int) (c : Nat) (rest : List Event)
  /-- in `DoRead`, before `find` -/
  | reading (e : Event) (rest : List Event)
  /-- in `receive` of client `c` -/
  | receiving (c : Nat) (e : Event) (rest : List Event)
  /-- `recv` gave nothing, before `DoKill(fd)` -/
  | lost (fd : Int) (e : Event) (rest : List Event)
  /-- in `registerForEvent(e.fd)` -/
  | registering (stage : Stage) (e : Event) (rest : List Event)
  /-- a hang-up, before `unRegisterForEvent(fd)` -/
  | hanging (fd : Int) (rest : List Event)
  /-- a hang-up, before `DoKill(fd)` -/
  | dropping (fd : Int) (rest : List Event)
  deriving DecidableEq, Repr

structure State where
  /-- `clientqueue`: descriptor to client object -/
  clientqueue : AList fun _ : Int => Nat
  /-- the `fd` of the client objects not yet deleted -/
  client : Nat → Option Int
  /-- the `m_sockfd` of the senders that have not closed it -/
  sender : Nat → Option Int
  fds : Fds Int Owner
  curfds : Int
  /-- the next connection's or sender's number -/
  next : Nat
  /-- history: the connections `GetNewClient` has refused -/
  refused : List Nat
  main : Main

/-- After `initialize(sockfd)`. -/
def init (sockfd : Int) : State where
  clientqueue := ∅
  client := fun _ => none
  sender := fun _ => none
  fds := (Fds.empty.give sockfd .listener).watch sockfd
  curfds := 2
  next := 0
  refused := []
  main := .between []

-- ============================================================ operations

/-- `delete c`: the destructor calls `Close`. -/
def State.deleteClient (s : State) (c : Nat) : State :=
  match s.client c with
  | some fd =>
      { s with
        client := Function.update s.client c none
        fds := if fd = INVALID_SOCKET then s.fds else s.fds.close fd }
  | none => s

/-- `CclientManager::DoKill(fd)` -/
def State.doKill (s : State) (fd : Int) : State :=
  match s.clientqueue.lookup fd with
  | some c =>
      { s.deleteClient c with clientqueue := s.clientqueue.erase fd }
  | none => s

/-- The locked section of `AddToQueue`. -/
def State.insertClient (s : State) (fd : Int) (c : Nat) : State :=
  match s.clientqueue.lookup fd with
  | some old =>
      { s.deleteClient old with clientqueue := s.clientqueue.insert fd c }
  | none => { s with clientqueue := s.clientqueue.insert fd c }

/-- `unRegisterForEvent(fd)` -/
def State.unRegisterForEvent (s : State) (fd : Int) (willing : Bool) :
    State :=
  if 0 < fd ∧ willing = true ∧ fd ∈ s.fds.watched then
    { s with fds := s.fds.unwatch fd, curfds := s.curfds - 1 }
  else s

/-- The `EPOLL_CTL_ADD` of `registerForEvent(fd)`. -/
def State.addForEvent (s : State) (fd : Int) (willing : Bool) : State :=
  if willing = true ∧ (s.fds.owner fd).isSome ∧ fd ∉ s.fds.watched then
    { s with fds := s.fds.watch fd, curfds := s.curfds + 1 }
  else s

/-- An accepted connection, as what `registerForEvent` is called for. -/
def newcomer (fd : Int) (c : Nat) : Event where
  fd := fd
  owner := .conn c
  readable := false
  hangup := false

/-- When the read part of an event is done, or there is none. -/
def afterRead (e : Event) (rest : List Event) : Main :=
  if e.hangup then .hanging e.fd rest else .between rest

inductive Label
  /-- `getEvents` returns; no events after a timeout or an error -/
  | getEvents (events : List Event)
  /-- `accept` returns `fd` -/
  | accept (fd : Int)
  /-- `accept` returns -1 -/
  | acceptFail
  /-- an event of descriptor -1 -/
  | skip
  /-- `GetNewClient` -/
  | getNewClient
  /-- the locked section of `AddToQueue` -/
  | insert
  | unRegister (willing : Bool)
  /-- the `find` of `DoRead` -/
  | find
  /-- `recv` gives bytes, and they are parsed -/
  | recvData
  /-- `recv` gives -1 or 0, and `fd` is read for `DoKill` -/
  | recvGone (fd : Int)
  /-- the main thread's `DoKill` -/
  | doKill
  | setsockopt (willing : Bool)
  /-- the `close` of `registerForEvent` -/
  | close
  | add (willing : Bool)
  /-- a worker's `DoKill` -/
  | workerKill (fd : Int)
  /-- `socket` returns `fd` to a `Csender` -/
  | socket (fd : Int)
  /-- `Csender::Close` -/
  | senderClose (k : Nat)

/-- The events that the loop comes to: it passes over those behind
`MAXDESCRIPTORS`, for which `getDescriptor` returns -1. -/
def described (events : List Event) : List Event :=
  events.take MAXDESCRIPTORS

/-- What `epoll_wait` may return. -/
def State.CanGet (s : State) (events : List Event) : Prop :=
  (events.length : Int) ≤ s.curfds ∧ (events.map Event.fd).Nodup
    ∧ ∀ e ∈ events, e.fd ∈ s.fds.watched ∧ s.fds.owner e.fd = some e.owner

instance (s : State) (events : List Event) :
    Decidable (s.CanGet events) :=
  inferInstanceAs (Decidable (_ ∧ _ ∧ _))

/-- Perform one label, `none` if it is not enabled. -/
def step (maxClients : Nat) (sockfd : Int) (s : State) :
    Label → Option State
  | .getEvents events =>
      match s.main with
      | .between [] =>
          if s.CanGet events then
            some { s with main := .between (described events) }
          else none
      | _ => none
  | .accept fd =>
      match s.main with
      | .between (e :: rest) =>
          if e.fd = sockfd ∧ 0 ≤ fd ∧ s.fds.owner fd = none then
            some { s with
              fds := s.fds.give fd (.conn s.next)
              next := s.next + 1
              main := .accepted fd s.next rest }
          else none
      | _ => none
  | .acceptFail =>
      match s.main with
      | .between (e :: rest) =>
          if e.fd = sockfd then some { s with main := .between rest }
          else none
      | _ => none
  | .skip =>
      match s.main with
      | .between (e :: rest) =>
          if e.fd ≠ sockfd ∧ e.fd = -1 then
            some { s with main := .between rest }
          else none
      | _ => none
  | .getNewClient =>
      match s.main with
      | .accepted fd c rest =>
          if s.clientqueue.keys.length < maxClients then
            some { s with
              client := Function.update s.client c (some fd)
              main := .created fd c rest }
          -- the main thread goes on as if there were a client
          else
            some { s with
              refused := c :: s.refused
              main := .registering .linger (newcomer fd c) rest }
      | _ => none
  | .insert =>
      match s.main with
      | .created fd c rest =>
          some { s.insertClient fd c with
            main := .registering .linger (newcomer fd c) rest }
      | _ => none
  | .unRegister willing =>
      match s.main with
      | .between (e :: rest) =>
          if e.fd ≠ sockfd ∧ e.fd ≠ -1 then
            some { s.unRegisterForEvent e.fd willing with
              main := if e.readable then .reading e rest
                else afterRead e rest }
          else none
      | .hanging fd rest =>
          some { s.unRegisterForEvent fd willing with
            main := .dropping fd rest }
      | _ => none
  | .find =>
      match s.main with
      | .reading e rest =>
          match s.clientqueue.lookup e.fd with
          | some c => some { s with main := .receiving c e rest }
          | none => some { s with main := .registering .linger e rest }
      | _ => none
  | .recvData =>
      match s.main with
      | .receiving _ e rest =>
          some { s with main := .registering .linger e rest }
      | _ => none
  | .recvGone fd =>
      match s.main with
      | .receiving c e rest =>
          -- a deleted client gives an arbitrary number
          if s.client c = some fd ∨ s.client c = none then
            some { s with main := .lost fd e rest }
          else none
      | _ => none
  | .doKill =>
      match s.main with
      | .lost fd e rest =>
          some { s.doKill fd with main := .registering .linger e rest }
      | .dropping fd rest =>
          some { s.doKill fd with main := .between rest }
      | _ => none
  | .setsockopt willing =>
      match s.main with
      | .registering .linger e rest =>
          if willing = true ∧ (s.fds.owner e.fd).isSome then
            some { s with main := .registering .timeout e rest }
          else some { s with main := .registering .failed e rest }
      | .registering .timeout e rest =>
          if willing = true ∧ (s.fds.owner e.fd).isSome then
            some { s with main := .registering .add e rest }
          else some { s with main := .registering .failed e rest }
      | _ => none
  | .close =>
      match s.main with
      | .registering .failed e rest =>
          some { s with fds := s.fds.close e.fd, main := afterRead e rest }
      | _ => none
  | .add willing =>
      match s.main with
      | .registering .add e rest =>
          some { s.addForEvent e.fd willing with main := afterRead e rest }
      | _ => none
  | .workerKill fd => some (s.doKill fd)
  | .socket fd =>
      if 0 ≤ fd ∧ s.fds.owner fd = none then
        some { s with
          fds := s.fds.give fd (.sender s.next)
          sender := Function.update s.sender s.next (some fd)
          next := s.next + 1 }
      else none
  | .senderClose k =>
      match s.sender k with
      | some fd =>
          some { s with
            fds := s.fds.close fd
            sender := Function.update s.sender k none }
      | none => none

-- =============================================================== closing

/-- The number `delete c` closes. -/
def State.closes (s : State) (c : Nat) : Option Int :=
  (s.client c).filter fun fd => decide (fd ≠ INVALID_SOCKET)

/-- The close of `DoKill(fd)`, and whose number it is meant for. -/
def State.kills (s : State) (fd : Int) : Option (Int × Owner) :=
  (s.clientqueue.lookup fd).bind fun c =>
    (s.closes c).map fun d => (d, .conn c)

/-- The close a label performs, and whose number it is meant for. -/
def State.closing (s : State) : Label → Option (Int × Owner)
  | .insert =>
      match s.main with
      | .created fd _ _ => s.kills fd
      | _ => none
  | .doKill =>
      match s.main with
      | .lost fd _ _ => s.kills fd
      | .dropping fd _ => s.kills fd
      | _ => none
  | .close =>
      match s.main with
      | .registering .failed e _ => some (e.fd, e.owner)
      | _ => none
  | .workerKill fd => s.kills fd
  | .senderClose k => (s.sender k).map fun fd => (fd, .sender k)
  | _ => none

-- ============================================== what one label can do

/-- The labels that open and close nothing and leave the map alone. -/
def Label.quiet : Label → Bool
  | .getEvents _ => true
  | .acceptFail => true
  | .skip => true
  | .unRegister _ => true
  | .find => true
  | .recvData => true
  | .recvGone _ => true
  | .setsockopt _ => true
  | .add _ => true
  | _ => false

/-- The connection `AddToQueue` is working on. -/
def Main.accepting : Main → Option (Int × Nat)
  | .accepted fd c _ => some (fd, c)
  | .created fd c _ => some (fd, c)
  | _ => none

/-- What `registerForEvent` is working on. -/
def Main.registers : Main → Option Event
  | .registering _ e _ => some e
  | _ => none

/-- The events whose descriptors `registerForEvent` may yet be called
for. -/
def Main.pending : Main → List Event
  | .between rest => rest
  | .accepted fd c rest => newcomer fd c :: rest
  | .created fd c rest => newcomer fd c :: rest
  | .reading e rest => e :: rest
  | .receiving _ e rest => e :: rest
  | .lost _ e rest => e :: rest
  | .registering _ e rest => e :: rest
  | .hanging _ rest => rest
  | .dropping _ rest => rest

@[simp]
theorem afterRead_accepting (e : Event) (rest : List Event) :
    (afterRead e rest).accepting = none := by
  unfold afterRead
  split <;> rfl

@[simp]
theorem afterRead_pending (e : Event) (rest : List Event) :
    (afterRead e rest).pending = rest := by
  unfold afterRead
  split <;> rfl

/-- By how much `curfds` exceeds the number of watched descriptors. -/
def State.surplus (s : State) : Int := s.curfds - s.fds.watched.card

/-- Two states with the same map, objects, open descriptors, numbers and
surplus. -/
structure Frame (s s' : State) : Prop where
  clientqueue : s'.clientqueue = s.clientqueue
  client : s'.client = s.client
  sender : s'.sender = s.sender
  owner : s'.fds.owner = s.fds.owner
  next : s'.next = s.next
  refused : s'.refused = s.refused
  surplus : s'.surplus = s.surplus

theorem unRegister_frame (s : State) (fd : Int) (willing : Bool) (m : Main) :
    Frame s { s.unRegisterForEvent fd willing with main := m } := by
  unfold State.unRegisterForEvent
  split
  · next hg =>
    refine ⟨rfl, rfl, rfl, rfl, rfl, rfl, ?_⟩
    have hcard := Fds.card_unwatch hg.2.2
    simp only [State.surplus]
    omega
  · exact ⟨rfl, rfl, rfl, rfl, rfl, rfl, rfl⟩

theorem add_frame (s : State) (fd : Int) (willing : Bool) (m : Main) :
    Frame s { s.addForEvent fd willing with main := m } := by
  unfold State.addForEvent
  split
  · next hg =>
    refine ⟨rfl, rfl, rfl, Fds.watch_owner _ _, rfl, rfl, ?_⟩
    have hcard := Fds.card_watch hg.2.1 hg.2.2
    simp only [State.surplus]
    omega
  · exact ⟨rfl, rfl, rfl, rfl, rfl, rfl, rfl⟩

section Inversion

variable {maxClients : Nat} {sockfd : Int} {s s' : State} {a : Label}
variable {fd : Int} {k : Nat}

theorem State.CanGet.described {events : List Event}
    (h : s.CanGet events) : s.CanGet (described events) := by
  obtain ⟨hlen, hnodup, howner⟩ := h
  have hsub : (EventLoop.described events).Sublist events :=
    List.take_sublist _ _
  refine ⟨?_, hnodup.sublist (hsub.map _),
    fun e he => howner e (hsub.subset he)⟩
  have hle := hsub.length_le
  omega

theorem getEvents_inv {events : List Event}
    (h : step maxClients sockfd s (.getEvents events) = some s') :
    s.main = .between [] ∧ s.CanGet events
      ∧ s' = { s with main := .between (described events) } := by
  simp only [step] at h
  split at h
  case h_1 hm =>
    split at h
    case isTrue hget => exact ⟨hm, hget, by simpa using h.symm⟩
    case isFalse => cases h
  case h_2 => cases h

/-- The event of the listener, or of no descriptor, is done with. -/
theorem passOver_inv (ha : a = .acceptFail ∨ a = .skip)
    (h : step maxClients sockfd s a = some s') :
    ∃ e rest, s.main = .between (e :: rest)
      ∧ s' = { s with main := .between rest } := by
  rcases ha with rfl | rfl
  all_goals
    simp only [step] at h
    split at h
    case h_1 e rest hm =>
      split at h
      case isTrue => exact ⟨e, rest, hm, by simpa using h.symm⟩
      case isFalse => cases h
    case h_2 => cases h

/-- An event is taken up, or its hang-up part is. -/
theorem unRegister_inv {willing : Bool}
    (h : step maxClients sockfd s (.unRegister willing) = some s') :
    ∃ fd m, s' = { s.unRegisterForEvent fd willing with main := m }
      ∧ s.main.accepting = none ∧ m.accepting = none
      ∧ m.pending.Sublist s.main.pending := by
  simp only [step] at h
  split at h
  case h_1 e rest hm =>
    split at h
    case isTrue =>
      refine ⟨e.fd, _, (Option.some.inj h).symm, by rw [hm]; rfl, ?_, ?_⟩
      · split
        · rfl
        · exact afterRead_accepting e rest
      · rw [hm]
        split
        · exact List.Sublist.refl _
        · rw [afterRead_pending]
          exact List.sublist_cons_self e rest
    case isFalse => cases h
  case h_2 fd rest hm =>
    refine ⟨fd, _, (Option.some.inj h).symm, by rw [hm]; rfl, rfl, ?_⟩
    rw [hm]
    exact List.Sublist.refl rest
  case h_3 => cases h

/-- `DoRead` finds a client or is done. -/
theorem find_inv (h : step maxClients sockfd s .find = some s') :
    ∃ e rest m, s.main = .reading e rest ∧ s' = { s with main := m }
      ∧ (m = .registering .linger e rest
        ∨ ∃ c, m = .receiving c e rest) := by
  simp only [step] at h
  split at h
  case h_1 e rest hm =>
    split at h
    case h_1 c _ =>
      exact ⟨e, rest, _, hm, by simpa using h.symm, Or.inr ⟨c, rfl⟩⟩
    case h_2 =>
      exact ⟨e, rest, _, hm, by simpa using h.symm, Or.inl rfl⟩
  case h_2 => cases h

theorem recvData_inv (h : step maxClients sockfd s .recvData = some s') :
    ∃ c e rest, s.main = .receiving c e rest
      ∧ s' = { s with main := .registering .linger e rest } := by
  simp only [step] at h
  split at h
  case h_1 c e rest hm => exact ⟨c, e, rest, hm, by simpa using h.symm⟩
  case h_2 => cases h

theorem recvGone_inv
    (h : step maxClients sockfd s (.recvGone fd) = some s') :
    ∃ c e rest, s.main = .receiving c e rest
      ∧ s' = { s with main := .lost fd e rest } := by
  simp only [step] at h
  split at h
  case h_1 c e rest hm =>
    split at h
    case isTrue => exact ⟨c, e, rest, hm, by simpa using h.symm⟩
    case isFalse => cases h
  case h_2 => cases h

theorem setsockopt_inv {willing : Bool}
    (h : step maxClients sockfd s (.setsockopt willing) = some s') :
    ∃ stage stage' e rest, s.main = .registering stage e rest
      ∧ s' = { s with main := .registering stage' e rest } := by
  simp only [step] at h
  split at h
  case h_3 => cases h
  all_goals
    next e rest hm =>
    split at h
    all_goals exact ⟨_, _, e, rest, hm, by simpa using h.symm⟩

theorem add_inv {willing : Bool}
    (h : step maxClients sockfd s (.add willing) = some s') :
    ∃ e rest, s.main = .registering .add e rest
      ∧ s' = { s.addForEvent e.fd willing with
          main := afterRead e rest } := by
  simp only [step] at h
  split at h
  case h_1 e rest hm => exact ⟨e, rest, hm, by simpa using h.symm⟩
  case h_2 => cases h

/-- A quiet label changes the main thread's place and the epoll set
only, and it takes up events only from `getEvents`. -/
theorem quiet_inv (hq : a.quiet = true)
    (h : step maxClients sockfd s a = some s') :
    Frame s s' ∧ s.main.accepting = none ∧ s'.main.accepting = none
      ∧ ((s'.main.pending).Sublist s.main.pending
        ∨ ∃ events, s.CanGet events ∧ s'.main = .between events) := by
  have hsame : ∀ m, Frame s { s with main := m } :=
    fun m => ⟨rfl, rfl, rfl, rfl, rfl, rfl, rfl⟩
  have hpass : a = .acceptFail ∨ a = .skip →
      Frame s s' ∧ s.main.accepting = none ∧ s'.main.accepting = none
        ∧ (s'.main.pending).Sublist s.main.pending := by
    intro ha
    obtain ⟨e, rest, hm, rfl⟩ := passOver_inv ha h
    rw [hm]
    exact ⟨hsame _, rfl, rfl, List.sublist_cons_self e rest⟩
  cases a with
  | getEvents events =>
      obtain ⟨hm, hget, rfl⟩ := getEvents_inv h
      rw [hm]
      exact ⟨hsame _, rfl, rfl, Or.inr ⟨_, hget.described, rfl⟩⟩
  | acceptFail =>
      obtain ⟨hf, hnone, hnone', hsub⟩ := hpass (Or.inl rfl)
      exact ⟨hf, hnone, hnone', Or.inl hsub⟩
  | skip =>
      obtain ⟨hf, hnone, hnone', hsub⟩ := hpass (Or.inr rfl)
      exact ⟨hf, hnone, hnone', Or.inl hsub⟩
  | unRegister willing =>
      obtain ⟨fd, m, rfl, hnone, hnone', hsub⟩ := unRegister_inv h
      exact ⟨unRegister_frame _ _ _ _, hnone, hnone', Or.inl hsub⟩
  | find =>
      obtain ⟨e, rest, m, hm, rfl, rfl | ⟨c, rfl⟩⟩ := find_inv h
      · rw [hm]
        exact ⟨hsame _, rfl, rfl, Or.inl (List.Sublist.refl _)⟩
      · rw [hm]
        exact ⟨hsame _, rfl, rfl, Or.inl (List.Sublist.refl _)⟩
  | recvData =>
      obtain ⟨c, e, rest, hm, rfl⟩ := recvData_inv h
      rw [hm]
      exact ⟨hsame _, rfl, rfl, Or.inl (List.Sublist.refl _)⟩
  | recvGone fd =>
      obtain ⟨c, e, rest, hm, rfl⟩ := recvGone_inv h
      rw [hm]
      exact ⟨hsame _, rfl, rfl, Or.inl (List.Sublist.refl _)⟩
  | setsockopt willing =>
      obtain ⟨stage, stage', e, rest, hm, rfl⟩ := setsockopt_inv h
      rw [hm]
      exact ⟨hsame _, rfl, rfl, Or.inl (List.Sublist.refl _)⟩
  | add willing =>
      obtain ⟨e, rest, hm, rfl⟩ := add_inv h
      refine ⟨add_frame _ _ _ _, ?_, afterRead_accepting e rest, Or.inl ?_⟩
      · rw [hm]
        rfl
      · rw [hm]
        show ((afterRead e rest).pending).Sublist (e :: rest)
        rw [afterRead_pending]
        exact List.sublist_cons_self e rest
  | _ => simp [Label.quiet] at hq

/-- Before `EPOLL_CTL_ADD` a quiet label leaves `registerForEvent` where
it is. -/
theorem quiet_registers (hq : a.quiet = true) (hadd : ∀ w, a ≠ .add w)
    (h : step maxClients sockfd s a = some s') :
    s.main.registers = none ∨ s'.main.registers = s.main.registers := by
  cases a with
  | add w => exact absurd rfl (hadd w)
  | setsockopt willing =>
      obtain ⟨stage, stage', e, rest, hm, rfl⟩ := setsockopt_inv h
      rw [hm]
      exact Or.inr rfl
  | _ =>
      refine Or.inl ?_
      cases hm : s.main with
      | registering stage e rest => simp [step, hm, Label.quiet] at h hq
      | _ => rfl

theorem accept_inv (h : step maxClients sockfd s (.accept fd) = some s') :
    ∃ e rest, s.main = .between (e :: rest) ∧ 0 ≤ fd
      ∧ s.fds.owner fd = none
      ∧ s' = { s with
          fds := s.fds.give fd (.conn s.next)
          next := s.next + 1
          main := .accepted fd s.next rest } := by
  simp only [step] at h
  split at h
  case h_1 e rest hm =>
    split at h
    case isTrue hg =>
      exact ⟨e, rest, hm, hg.2.1, hg.2.2, by simpa using h.symm⟩
    case isFalse => cases h
  case h_2 => cases h

theorem getNewClient_inv
    (h : step maxClients sockfd s .getNewClient = some s') :
    ∃ fd c rest, s.main = .accepted fd c rest
      ∧ ((s.clientqueue.keys.length < maxClients
          ∧ s' = { s with
            client := Function.update s.client c (some fd)
            main := .created fd c rest })
        ∨ s' = { s with
            refused := c :: s.refused
            main := .registering .linger (newcomer fd c) rest }) := by
  simp only [step] at h
  split at h
  case h_1 fd c rest hm =>
    refine ⟨fd, c, rest, hm, ?_⟩
    split at h
    case isTrue hlt => exact Or.inl ⟨hlt, by simpa using h.symm⟩
    case isFalse => exact Or.inr (by simpa using h.symm)
  case h_2 => cases h

theorem insert_inv (h : step maxClients sockfd s .insert = some s') :
    ∃ fd c rest, s.main = .created fd c rest
      ∧ s' = { s.insertClient fd c with
          main := .registering .linger (newcomer fd c) rest } := by
  simp only [step] at h
  split at h
  case h_1 fd c rest hm =>
    exact ⟨fd, c, rest, hm, by simpa using h.symm⟩
  case h_2 => cases h

/-- The main thread's `DoKill` ends a read or an event. -/
theorem doKill_inv (h : step maxClients sockfd s .doKill = some s') :
    ∃ fd m, s' = { s.doKill fd with main := m }
      ∧ s.closing .doKill = s.kills fd ∧ m.accepting = none
      ∧ s.main.accepting = none ∧ s.main.registers = none
      ∧ m.pending = s.main.pending := by
  simp only [step] at h
  split at h
  case h_1 fd e rest hm =>
    refine ⟨fd, _, (Option.some.inj h).symm, ?_, rfl, ?_, ?_, ?_⟩
    · simp [State.closing, hm]
    · simp [Main.accepting, hm]
    · simp [Main.registers, hm]
    · simp [Main.pending, hm]
  case h_2 fd rest hm =>
    refine ⟨fd, _, (Option.some.inj h).symm, ?_, rfl, ?_, ?_, ?_⟩
    · simp [State.closing, hm]
    · simp [Main.accepting, hm]
    · simp [Main.registers, hm]
    · simp [Main.pending, hm]
  case h_3 => cases h

theorem close_inv (h : step maxClients sockfd s .close = some s') :
    ∃ e rest, s.main = .registering .failed e rest
      ∧ s' = { s with
          fds := s.fds.close e.fd
          main := afterRead e rest } := by
  simp only [step] at h
  split at h
  case h_1 e rest hm => exact ⟨e, rest, hm, by simpa using h.symm⟩
  case h_2 => cases h

theorem workerKill_inv
    (h : step maxClients sockfd s (.workerKill fd) = some s') :
    s' = s.doKill fd := by
  simp only [step, Option.some.injEq] at h
  exact h.symm

theorem socket_inv (h : step maxClients sockfd s (.socket fd) = some s') :
    s.fds.owner fd = none
      ∧ s' = { s with
          fds := s.fds.give fd (.sender s.next)
          sender := Function.update s.sender s.next (some fd)
          next := s.next + 1 } := by
  simp only [step] at h
  split at h
  case isTrue hg => exact ⟨hg.2, by simpa using h.symm⟩
  case isFalse => cases h

theorem senderClose_inv
    (h : step maxClients sockfd s (.senderClose k) = some s') :
    ∃ fd, s.sender k = some fd
      ∧ s' = { s with
          fds := s.fds.close fd
          sender := Function.update s.sender k none } := by
  simp only [step] at h
  split at h
  case h_1 fd hk => exact ⟨fd, hk, by simpa using h.symm⟩
  case h_2 => cases h

end Inversion

-- ============================================ the operations, read off

section Operations

variable (s : State) (fd : Int) (c : Nat)

/-- `delete` changes the heap and the kernel's table only. -/
theorem deleteClient_frame :
    (s.deleteClient c).clientqueue = s.clientqueue
      ∧ (s.deleteClient c).sender = s.sender
      ∧ (s.deleteClient c).curfds = s.curfds
      ∧ (s.deleteClient c).next = s.next
      ∧ (s.deleteClient c).refused = s.refused
      ∧ (s.deleteClient c).main = s.main := by
  unfold State.deleteClient
  split <;> exact ⟨rfl, rfl, rfl, rfl, rfl, rfl⟩

theorem deleteClient_client (c' : Nat) :
    (s.deleteClient c).client c'
      = if c' = c then none else s.client c' := by
  unfold State.deleteClient
  split
  · exact Function.update_apply ..
  · next hnone =>
    by_cases hc : c' = c
    · rw [if_pos hc, hc, hnone]
    · rw [if_neg hc]

theorem deleteClient_fds :
    (s.deleteClient c).fds = (s.closes c).elim s.fds s.fds.close := by
  unfold State.deleteClient State.closes
  split
  · next d hd =>
    rw [hd, Option.filter_some]
    by_cases hinv : d = INVALID_SOCKET
    · simp [hinv]
    · simp [hinv]
  · next hnone =>
    rw [hnone]
    rfl

/-- `DoKill` leaves the senders, the counts and the main thread's place
alone. -/
theorem doKill_frame :
    (s.doKill fd).sender = s.sender ∧ (s.doKill fd).curfds = s.curfds
      ∧ (s.doKill fd).next = s.next ∧ (s.doKill fd).refused = s.refused
      ∧ (s.doKill fd).main = s.main := by
  unfold State.doKill
  split
  · next c _ => exact (deleteClient_frame s c).2
  · exact ⟨rfl, rfl, rfl, rfl, rfl⟩

/-- `DoKill(fd)` erases the entry of `fd`. -/
theorem doKill_lookup (fd' : Int) :
    (s.doKill fd).clientqueue.lookup fd'
      = if fd' = fd then none else s.clientqueue.lookup fd' := by
  unfold State.doKill
  split
  · by_cases hfd : fd' = fd
    · rw [if_pos hfd, hfd]
      exact AList.lookup_erase ..
    · rw [if_neg hfd]
      exact AList.lookup_erase_ne hfd
  · next hnone =>
    by_cases hfd : fd' = fd
    · rw [if_pos hfd, hfd, hnone]
    · rw [if_neg hfd]

/-- `DoKill(fd)` deletes the client found under `fd` and no other. -/
theorem doKill_client (c' : Nat) :
    (s.doKill fd).client c'
      = if s.clientqueue.lookup fd = some c' then none
        else s.client c' := by
  unfold State.doKill
  split
  · next c hc =>
    rw [hc]
    show (s.deleteClient c).client c' = _
    rw [deleteClient_client]
    simp only [Option.some.injEq, eq_comm]
  · next hnone => simp [hnone]

theorem doKill_fds :
    (s.doKill fd).fds
      = ((s.kills fd).map Prod.fst).elim s.fds s.fds.close := by
  unfold State.doKill State.kills
  split
  · next c hc =>
    rw [hc]
    show (s.deleteClient c).fds = _
    rw [deleteClient_fds, Option.bind_some, Option.map_map]
    cases s.closes c with
    | none => rfl
    | some d => rfl
  · next hnone =>
    rw [hnone]
    rfl

/-- The section of `AddToQueue` is a `DoKill` and the new entry. -/
theorem insertClient_eq :
    s.insertClient fd c
      = { s.doKill fd with
          clientqueue := s.clientqueue.insert fd c } := by
  unfold State.insertClient State.doKill
  cases s.clientqueue.lookup fd with
  | none => rfl
  | some old => rfl

end Operations

end CorrectGps.EventLoop
