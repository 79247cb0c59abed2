/-
The threads of the server around one client map: the main thread of
`gps.cpp` (accept, `AddToQueue`, `DoRead`, `DoKill`) and the workers of
`CclientManager::run`, interleaved at their critical sections.

# Connections and objects

A connection is the socket one `accept` returned, numbered in order of
acceptance; the `CClient` built for it carries the same number, so a
pointer to a client is a connection number and a dangling pointer is one
whose `client` entry is gone. Descriptor numbers are the kernel's:
`accept` returns any number that is not open, and deleting a client
closes the number in its `fd` field. The sockets of `Csender` only make
fewer numbers available, so leaving them out allows more runs.

# The worker's turn

The waiting half is the protocol of CclientManager.lean, embedded as
`wake` with its queue elements tagged by the connection that pushed
them; `serve` is the section under `mmutex` that does the lookup, the
correction and the forward. A worker that forwarded holds the pointer
`pc` (`serving`), reads `pc->fd` without the lock (`eval`) and calls
`DoKill` with the value it read (`finish`). Reading a deleted client
gives an arbitrary number.

# The main thread

One event at a time: an accepted number goes through `GetNewClient`
(`create`, which may refuse it) and the locked insert; a read ends in
`DoKill`, in an incomplete request, or in a complete one, whose two
`notificationthreads` sections are `complete` and `notify`. What the
parser stores is left open here: `complete` carries any serial text.

`parse` takes no lock, and its writes, from the serial to the status, are
one step with the push: the runs are those in which no section of
`mmutex` comes in between.
-/
import CorrectGps.CclientManager
import Mathlib.Data.List.AList

namespace CorrectGps.Server

open Lib

variable {n : Nat}

-- ================================================================ state

/-- A queue element: the descriptor pushed and, as history, the
connection whose parse pushed it. -/
structure Msg where
  fd : Int
  pusher : Nat
  deriving DecidableEq, Repr

/-- The element a worker holds before its first pop. -/
def noMsg : Msg := ⟨CclientManager.invalidSocket, 0⟩

/-- The members of a `CClient` the threads look at. -/
structure Client where
  fd : Int
  /-- 1: all data received; 2: gps corrected -/
  status : Nat
  serial : List UInt8
  deriving DecidableEq, Repr

/-- Where the main thread stands between two sections. -/
inductive Main
  | idle
  /-- in `AddToQueue(fd)`, before `GetNewClient` -/
  | accepted (fd : Int) (c : Nat)
  /-- in `AddToQueue(fd)`, client built, before the locked insert -/
  | created (fd : Int) (c : Nat)
  /-- between the two sections of `notificationthreads` -/
  | notifying
  deriving DecidableEq, Repr

/-- What a worker holds outside `mmutex` after a forward. -/
inductive Phase
  | idle
  /-- `pc` set, `pc->fd` not read yet -/
  | serving (pc : Nat)
  /-- `pc->fd` read as `fd`, `DoKill(fd)` not called yet -/
  | killing (fd : Int) (pc : Nat)
  deriving DecidableEq, Repr

/-- The whole server. -/
structure State (n : Nat) where
  wake : CclientManager.State Msg n
  /-- `clientqueue`: descriptor to client object -/
  clientqueue : AList fun _ : Int => Nat
  /-- the heap: the client objects not yet deleted -/
  client : Nat → Option Client
  /-- the kernel's table: the connection each open number belongs to -/
  sock : Int → Option Nat
  /-- the next connection number -/
  next : Nat
  main : Main
  phase : Fin n → Phase

def init (n : Nat) : State n where
  wake := CclientManager.init noMsg n
  clientqueue := ∅
  client := fun _ => none
  sock := fun _ => none
  next := 0
  main := .idle
  phase := fun _ => .idle

-- ============================================================ operations

/-- `delete c`: the destructor closes the descriptor in `fd`. -/
def State.deleteClient (s : State n) (c : Nat) : State n :=
  match s.client c with
  | some o =>
      { s with
        client := Function.update s.client c none
        sock := Function.update s.sock o.fd none }
  | none => s

/-- `CclientManager::DoKill(fd)`. -/
def State.doKill (s : State n) (fd : Int) : State n :=
  match s.clientqueue.lookup fd with
  | some c =>
      { s.deleteClient c with clientqueue := s.clientqueue.erase fd }
  | none => s

/-- The locked section of `AddToQueue`: an entry already there is
deleted and replaced. -/
def State.insertClient (s : State n) (fd : Int) (c : Nat) : State n :=
  match s.clientqueue.lookup fd with
  | some old =>
      { s.deleteClient old with clientqueue := s.clientqueue.insert fd c }
  | none => { s with clientqueue := s.clientqueue.insert fd c }

/-- One critical section, or one unlocked step between two. -/
inductive Label (n : Nat)
  | accept (fd : Int)
  /-- `GetNewClient`: the size check and the constructor -/
  | create
  /-- the locked section of `AddToQueue` -/
  | insert
  /-- `DoRead(fd)` whose `recv` returns 0 or -1 -/
  | readGone (fd : Int)
  /-- `DoRead(fd)` of an incomplete request -/
  | readMore (fd : Int)
  /-- `DoRead(fd)` of a complete request, up to the first section of
  `notificationthreads` -/
  | complete (fd : Int) (m : Msg) (serial : List UInt8)
  /-- the second section of `notificationthreads` -/
  | notify (woken : Option (Fin n))
  /-- hang-up event: `DoKill(fd)` -/
  | kill (fd : Int)
  /-- a worker's step of the wake-up protocol -/
  | thread (w : Fin n) (l : CclientManager.Label Msg n)
  /-- the section of `mmutex`; `out` is the client it forwards -/
  | serve (w : Fin n) (m : Msg) (out : Option Nat)
  /-- the worker reads `pc->fd` -/
  | eval (w : Fin n) (fd : Int)
  /-- the worker's `DoKill` -/
  | finish (w : Fin n)

/-- The protocol steps a worker takes by itself. -/
def ownStep (w : Fin n) : CclientManager.Label Msg n → Bool
  | .loop v => v == w
  | .enter v => v == w
  | .wake v _ => v == w
  | .pop v => v == w
  | .leave v => v == w
  | .exit => true
  | _ => false

/-- What the section of `mmutex` does to the client found: correct it,
and forward it if it has a serial. -/
def State.serveClient (s : State n) (w : Fin n) (c : Nat) (o : Client) :
    State n :=
  let s' := { s with
    client := Function.update s.client c (some { o with status := 2 }) }
  if o.serial = [] then s'
  else { s' with phase := Function.update s.phase w (.serving c) }

/-- Whom that section forwards. -/
def forwarded (c : Nat) (o : Client) : Option Nat :=
  if o.serial = [] then none else some c

/-- Perform one label with `maxClients` connections allowed, `none` if
it is not enabled. -/
def step (maxClients : Nat) (s : State n) : Label n → Option (State n)
  | .accept fd =>
      if s.main = .idle ∧ 0 ≤ fd ∧ s.sock fd = none then
        some { s with
          sock := Function.update s.sock fd (some s.next)
          next := s.next + 1
          main := .accepted fd s.next }
      else none
  | .create =>
      match s.main with
      | .accepted fd c =>
          if s.clientqueue.keys.length < maxClients then
            some { s with
              client := Function.update s.client c
                (some { fd := fd, status := 0, serial := [] })
              main := .created fd c }
          -- refused: the number stays open and nobody owns it
          else some { s with main := .idle }
      | _ => none
  | .insert =>
      match s.main with
      | .created fd c =>
          some { s.insertClient fd c with main := .idle }
      | _ => none
  | .readGone fd =>
      if s.main = .idle then
        match s.clientqueue.lookup fd with
        | some c =>
            match s.client c with
            | some o => some (s.doKill o.fd)
            | none => none
        | none => some s
      else none
  | .readMore fd =>
      if s.main = .idle ∧ (s.clientqueue.lookup fd).isSome then some s
      else none
  | .complete fd m serial =>
      if s.main = .idle ∧ s.clientqueue.lookup fd = some m.pusher then
        match s.client m.pusher with
        | some o =>
            if o.fd = m.fd then
              (CclientManager.step s.wake (.push m)).map fun wake =>
                { s with
                  wake := wake
                  client := Function.update s.client m.pusher
                    (some { o with status := 1, serial := serial })
                  main := .notifying }
            else none
        | none => none
      else none
  | .notify woken =>
      if s.main = .notifying then
        (CclientManager.step s.wake (.notify woken)).map fun wake =>
          { s with wake := wake, main := .idle }
      else none
  | .kill fd => if s.main = .idle then some (s.doKill fd) else none
  | .thread w l =>
      if ownStep w l = true ∧ s.phase w = .idle then
        (CclientManager.step s.wake l).map fun wake =>
          { s with wake := wake }
      else none
  | .serve w m out =>
      if s.phase w = .idle then
        (CclientManager.step s.wake (.lookup w m)).bind fun wake =>
          match s.clientqueue.lookup m.fd with
          | some c =>
              match s.client c with
              | some o =>
                  if out = forwarded c o then
                    some ({ s with wake := wake }.serveClient w c o)
                  else none
              | none => none
          | none =>
              if out = none then some { s with wake := wake } else none
      else none
  | .eval w fd =>
      match s.phase w with
      | .serving pc =>
          if ∀ o, s.client pc = some o → o.fd = fd then
            some { s with
              phase := Function.update s.phase w (.killing fd pc) }
          else none
      | _ => none
  | .finish w =>
      match s.phase w with
      | .killing fd _ =>
          some { s.doKill fd with
            phase := Function.update s.phase w .idle }
      | _ => none

-- ============================================== what one label can do

section Inversion

variable {maxClients : Nat} {s s' : State n} {w : Fin n} {fd : Int}

theorem accept_inv (h : step maxClients s (.accept fd) = some s') :
    s.main = .idle ∧ 0 ≤ fd ∧ s.sock fd = none
      ∧ s' = { s with
          sock := Function.update s.sock fd (some s.next)
          next := s.next + 1
          main := .accepted fd s.next } := by
  simp only [step] at h
  split at h
  case isTrue hg => exact ⟨hg.1, hg.2.1, hg.2.2, by simpa using h.symm⟩
  case isFalse => cases h

theorem create_inv (h : step maxClients s .create = some s') :
    ∃ fd c, s.main = .accepted fd c
      ∧ ((s.clientqueue.keys.length < maxClients
          ∧ s' = { s with
            client := Function.update s.client c
              (some { fd := fd, status := 0, serial := [] })
            main := .created fd c })
        ∨ (maxClients ≤ s.clientqueue.keys.length
          ∧ s' = { s with main := .idle })) := by
  simp only [step] at h
  split at h
  case h_1 fd c hm =>
    refine ⟨fd, c, hm, ?_⟩
    split at h
    · next hlt => exact Or.inl ⟨hlt, by simpa using h.symm⟩
    · next hge =>
      exact Or.inr ⟨Nat.le_of_not_lt hge, by simpa using h.symm⟩
  case h_2 => cases h

theorem insert_inv (h : step maxClients s .insert = some s') :
    ∃ fd c, s.main = .created fd c
      ∧ s' = { s.insertClient fd c with main := .idle } := by
  simp only [step] at h
  split at h
  case h_1 fd c hm => exact ⟨fd, c, hm, by simpa using h.symm⟩
  case h_2 => cases h

theorem readGone_inv (h : step maxClients s (.readGone fd) = some s') :
    s.main = .idle
      ∧ ((∃ c o, s.clientqueue.lookup fd = some c ∧ s.client c = some o
          ∧ s' = s.doKill o.fd)
        ∨ s' = s) := by
  simp only [step] at h
  split at h
  case isFalse => cases h
  case isTrue hm =>
    refine ⟨hm, ?_⟩
    split at h
    case h_1 c hc =>
      split at h
      case h_1 o ho => exact Or.inl ⟨c, o, hc, ho, by simpa using h.symm⟩
      case h_2 => cases h
    case h_2 => exact Or.inr (by simpa using h.symm)

theorem readMore_inv (h : step maxClients s (.readMore fd) = some s') :
    s' = s := by
  simp only [step] at h
  split at h
  case isTrue => simpa using h.symm
  case isFalse => cases h

theorem complete_inv {m : Msg} {serial : List UInt8}
    (h : step maxClients s (.complete fd m serial) = some s') :
    s.main = .idle ∧ s.clientqueue.lookup fd = some m.pusher
      ∧ ∃ o wake, s.client m.pusher = some o ∧ o.fd = m.fd
        ∧ CclientManager.step s.wake (.push m) = some wake
        ∧ s' = { s with
            wake := wake
            client := Function.update s.client m.pusher
              (some { o with status := 1, serial := serial })
            main := .notifying } := by
  simp only [step] at h
  split at h
  case isFalse => cases h
  case isTrue hg =>
    refine ⟨hg.1, hg.2, ?_⟩
    split at h
    case h_2 => cases h
    case h_1 o ho =>
      split at h
      case isFalse => cases h
      case isTrue hfd =>
        obtain ⟨wake, hw, hs'⟩ := Option.map_eq_some_iff.mp h
        exact ⟨o, wake, ho, hfd, hw, hs'.symm⟩

theorem notify_inv {woken : Option (Fin n)}
    (h : step maxClients s (.notify woken) = some s') :
    s.main = .notifying
      ∧ ∃ wake, CclientManager.step s.wake (.notify woken) = some wake
        ∧ s' = { s with wake := wake, main := .idle } := by
  simp only [step] at h
  split at h
  case isFalse => cases h
  case isTrue hm =>
    obtain ⟨wake, hw, hs'⟩ := Option.map_eq_some_iff.mp h
    exact ⟨hm, wake, hw, hs'.symm⟩

theorem kill_inv (h : step maxClients s (.kill fd) = some s') :
    s.main = .idle ∧ s' = s.doKill fd := by
  simp only [step] at h
  split at h
  case isTrue hm => exact ⟨hm, by simpa using h.symm⟩
  case isFalse => cases h

theorem thread_inv {l : CclientManager.Label Msg n}
    (h : step maxClients s (.thread w l) = some s') :
    ownStep w l = true ∧ s.phase w = .idle
      ∧ ∃ wake, CclientManager.step s.wake l = some wake
        ∧ s' = { s with wake := wake } := by
  simp only [step] at h
  split at h
  case isFalse => cases h
  case isTrue hg =>
    obtain ⟨wake, hw, hs'⟩ := Option.map_eq_some_iff.mp h
    exact ⟨hg.1, hg.2, wake, hw, hs'.symm⟩

/-- The section of `mmutex` either finds a client and serves it, or
finds none and changes nothing but the worker's place. -/
theorem serve_inv {m : Msg} {out : Option Nat}
    (h : step maxClients s (.serve w m out) = some s') :
    s.phase w = .idle
      ∧ ∃ wake, CclientManager.step s.wake (.lookup w m) = some wake
        ∧ ((∃ c o, s.clientqueue.lookup m.fd = some c
            ∧ s.client c = some o ∧ out = forwarded c o
            ∧ s' = { s with wake := wake }.serveClient w c o)
          ∨ (s.clientqueue.lookup m.fd = none ∧ out = none
            ∧ s' = { s with wake := wake })) := by
  simp only [step] at h
  split at h
  case isFalse => cases h
  case isTrue hp =>
    obtain ⟨wake, hw, h⟩ := Option.bind_eq_some_iff.mp h
    refine ⟨hp, wake, hw, ?_⟩
    split at h
    case h_1 c hc =>
      split at h
      case h_2 => cases h
      case h_1 o ho =>
        split at h
        case isTrue hout =>
          exact Or.inl ⟨c, o, hc, ho, hout, by simpa using h.symm⟩
        case isFalse => cases h
    case h_2 hc =>
      split at h
      case isTrue hout => exact Or.inr ⟨hc, hout, by simpa using h.symm⟩
      case isFalse => cases h

theorem eval_inv (h : step maxClients s (.eval w fd) = some s') :
    ∃ pc, s.phase w = .serving pc
      ∧ (∀ o, s.client pc = some o → o.fd = fd)
      ∧ s' = { s with
          phase := Function.update s.phase w (.killing fd pc) } := by
  simp only [step] at h
  split at h
  case h_2 => cases h
  case h_1 pc hp =>
    split at h
    case isTrue ho => exact ⟨pc, hp, ho, by simpa using h.symm⟩
    case isFalse => cases h

theorem finish_inv (h : step maxClients s (.finish w) = some s') :
    ∃ fd pc, s.phase w = .killing fd pc
      ∧ s' = { s.doKill fd with
          phase := Function.update s.phase w .idle } := by
  simp only [step] at h
  split at h
  case h_1 fd pc hp => exact ⟨fd, pc, hp, by simpa using h.symm⟩
  case h_2 => cases h

end Inversion

-- ============================================ the operations, read off

section Operations

variable (s : State n) (fd : Int) (c : Nat)

/-- `delete` changes the heap and the kernel's table only. -/
theorem deleteClient_frame :
    (s.deleteClient c).wake = s.wake
      ∧ (s.deleteClient c).clientqueue = s.clientqueue
      ∧ (s.deleteClient c).next = s.next
      ∧ (s.deleteClient c).main = s.main
      ∧ (s.deleteClient c).phase = s.phase := by
  unfold State.deleteClient
  split <;> exact ⟨rfl, rfl, rfl, rfl, rfl⟩

/-- After `delete c` only object `c` is gone. -/
theorem deleteClient_client (c' : Nat) :
    (s.deleteClient c).client c'
      = if c' = c then none else s.client c' := by
  unfold State.deleteClient
  split
  · by_cases hc : c' = c
    · simp [hc]
    · simp [hc, Function.update_of_ne]
  · next hnone =>
    by_cases hc : c' = c
    · rw [if_pos hc, hc, hnone]
    · rw [if_neg hc]

/-- `DoKill` leaves the protocol, the numbering and every thread's
place alone. -/
theorem doKill_frame :
    (s.doKill fd).wake = s.wake ∧ (s.doKill fd).next = s.next
      ∧ (s.doKill fd).main = s.main ∧ (s.doKill fd).phase = s.phase := by
  unfold State.doKill
  split
  · next c _ =>
    obtain ⟨hwake, -, hnext, hmain, hphase⟩ := deleteClient_frame s c
    exact ⟨hwake, hnext, hmain, hphase⟩
  · exact ⟨rfl, rfl, rfl, rfl⟩

/-- `DoKill(fd)` erases the entry of `fd`. -/
theorem doKill_lookup (fd' : Int) :
    (s.doKill fd).clientqueue.lookup fd'
      = if fd' = fd then none else s.clientqueue.lookup fd' := by
  unfold State.doKill
  split
  · by_cases hfd : fd' = fd
    · rw [if_pos hfd, hfd]
      exact AList.lookup_erase ..
    · rw [if_neg hfd]
      exact AList.lookup_erase_ne hfd
  · next hnone =>
    by_cases hfd : fd' = fd
    · rw [if_pos hfd, hfd, hnone]
    · rw [if_neg hfd]

/-- `DoKill(fd)` deletes the client found under `fd` and no other. -/
theorem doKill_client (c' : Nat) :
    (s.doKill fd).client c'
      = if s.clientqueue.lookup fd = some c' then none
        else s.client c' := by
  unfold State.doKill
  split
  · next c hc =>
    rw [hc]
    show (s.deleteClient c).client c' = _
    rw [deleteClient_client]
    by_cases hcc : c' = c
    · rw [if_pos hcc, if_pos (by rw [hcc])]
    · rw [if_neg hcc, if_neg (by simpa using Ne.symm hcc)]
  · next hnone => simp [hnone]

end Operations

end CorrectGps.Server
