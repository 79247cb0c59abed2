/-
The program: the main thread call by call as in EventLoop.lean, the
workers' turns as in Server.lean, and the clients with their bytes as in
CClient.lean and Ccorrectit.lean, all over one map.

# The state

The map, the heap and the kernel's table are those of the event loop, and
a pointer to a client is the number it gives the connection. To these
come what the memory of the client objects holds, the wake-up protocol,
and where each worker is in its turn. The tables are loaded. A queue
element is tagged with its connection in order of acceptance, as in
Server.lean.

# The labels

A label of the event loop is the main thread's, or a `Csender`'s, whose
sockets may come and go at any time. What `recv` gives is parsed, and if
that completes a request the two sections of `notificationthreads`
follow; between them the main thread does nothing else. The section of
`mmutex` corrects the client it finds, and the worker's `DoKill` ends the
turn. There is no step for a failed assertion, a memory fault or a log
call that cannot be printed.

`parse` takes no lock. What it does to the object, from `recv` to the
first section of `notificationthreads`, is one step here: the runs are
those in which no section of `mmutex` comes in between.

# The civil steps

Server.lean has no close but the destructor's, and a request is completed
by a client in the map. A step at which neither can be seen to fail is
`Civil`.
-/
import CorrectGps.EventLoop
import CorrectGps.Server
import CorrectGps.Session

namespace CorrectGps.Program

open Lib
open Server (Msg Phase)
open Session (Sent)

variable {n : Nat}

-- ================================================================ state

/-- What the program is started with. -/
structure Setup where
  atof : List UInt8 → Rat
  /-- what `getdb` has loaded -/
  info : INFO_MAP
  maxClients : Nat
  sockfd : Int

structure State (n : Nat) where
  loop : EventLoop.State
  /-- the memory of the client objects -/
  object : Nat → CClient
  wake : CclientManager.State Msg n
  /-- between the two sections of `notificationthreads` -/
  notifying : Bool
  phase : Fin n → Phase
  /-- history: the connections, in order of acceptance -/
  accepted : List Nat

/-- After `initialize(sockfd)`, with `n` workers. -/
def init (k : Setup) (memory : Nat → CClient) (n : Nat) : State n where
  loop := EventLoop.init k.sockfd
  object := memory
  wake := CclientManager.init Server.noMsg n
  notifying := false
  phase := fun _ => .idle
  accepted := []

/-- Which one of the connections accepted it is. -/
def State.num (s : State n) (c : Nat) : Nat := s.accepted.idxOf c

-- ============================================================ operations

/-- The labels of the event loop that may be performed as they are: what
`recv` gives is parsed, the workers' `DoKill` is in their turns, and the
main thread may be notifying. -/
def State.allows (s : State n) : EventLoop.Label → Bool
  | .recvData => false
  | .workerKill _ => false
  | .socket _ => true
  | .senderClose _ => true
  | _ => !s.notifying

/-- The event loop goes on to `loop`; a new client is built over what its
memory holds. -/
def State.advance (s : State n) (a : EventLoop.Label)
    (loop : EventLoop.State) : State n :=
  { s with
    loop := loop
    object := match a, loop.main with
      | .getNewClient, .created fd c _ =>
          Function.update s.object c ((s.object c).ini fd)
      | _, _ => s.object
    accepted := match a with
      | .accept _ => s.accepted ++ [s.loop.next]
      | _ => s.accepted }

/-- The descriptor `notificationthreads` is called with. -/
def notified (effects : List Effect) : Option Int :=
  effects.findSome? fun
    | .notified fd => some fd
    | _ => none

/-- What a chunk leaves of the client that receives it, and the
descriptor it notifies with. -/
def State.parsed (s : State n) (t : Tm) (chunk : List UInt8) :
    Option (Nat × CClient × Option Int) :=
  match s.loop.main with
  | .receiving c _ _ =>
      if chunk ≠ [] ∧ (s.object c).offset + chunk.length ≤ MAXBUF then
        match (s.object c).receiveLogged t (.data chunk) with
        | some (.ok (o, effects)) => some (c, o, notified effects)
        | _ => none
      else none
  | _ => none

/-- What the section of `mmutex` sends on of the client corrected. -/
def sentOf (o : CClient) : Option Sent :=
  if o.status = 2 ∧ o.str .serial ≠ [] then some (Sent.of o) else none

/-- What that section does to the client found. -/
def State.serveClient (s : State n) (w : Fin n) (c : Nat) (o : CClient) :
    State n :=
  { s with
    object := Function.update s.object c o
    phase := if (sentOf o).isSome
      then Function.update s.phase w (.serving c) else s.phase }

inductive Label (n : Nat)
  /-- the main thread, or the socket of a `Csender` -/
  | loop (a : EventLoop.Label)
  /-- `recv` gives a chunk, which is parsed at a time, up to the first
  section of `notificationthreads` if that is called -/
  | receive (t : Tm) (chunk : List UInt8)
  /-- the second section of `notificationthreads` -/
  | notify (woken : Option (Fin n))
  /-- a worker's step of the wake-up protocol -/
  | thread (w : Fin n) (l : CclientManager.Label Msg n)
  /-- the section of `mmutex`; `gpsxy` is what the local point of
  `getGpsxy` holds -/
  | serve (w : Fin n) (m : Msg) (gpsxy : CPOI)
  /-- the worker reads `pc->fd` -/
  | eval (w : Fin n) (fd : Int)
  /-- the worker's `DoKill` -/
  | finish (w : Fin n)

/-- Perform one label, `none` if it is not enabled or the process does
not survive it. -/
def step (k : Setup) (s : State n) : Label n → Option (State n)
  | .loop a =>
      if s.allows a then
        (EventLoop.step k.maxClients k.sockfd s.loop a).map (s.advance a)
      else none
  | .receive t chunk =>
      if s.notifying = false then
        match s.parsed t chunk with
        | some (c, o, some fd) =>
            (CclientManager.step s.wake (.push ⟨fd, s.num c⟩)).map
              fun wake =>
                { s with
                  object := Function.update s.object c o
                  wake := wake
                  notifying := true }
        | some (c, o, none) =>
            (EventLoop.step k.maxClients k.sockfd s.loop .recvData).map
              fun loop =>
                { s with
                  object := Function.update s.object c o
                  loop := loop }
        | none => none
      else none
  | .notify woken =>
      if s.notifying then
        (CclientManager.step s.wake (.notify woken)).bind fun wake =>
          (EventLoop.step k.maxClients k.sockfd s.loop .recvData).map
            fun loop =>
              { s with wake := wake, loop := loop, notifying := false }
      else none
  | .thread w l =>
      if Server.ownStep w l = true ∧ s.phase w = .idle then
        (CclientManager.step s.wake l).map fun wake =>
          { s with wake := wake }
      else none
  | .serve w m gpsxy =>
      if s.phase w = .idle then
        (CclientManager.step s.wake (.lookup w m)).bind fun wake =>
          match s.loop.clientqueue.lookup m.fd with
          | some c =>
              (Ccorrectit.correctgps_worker k.atof gpsxy k.info
                (s.object c)).map ({ s with wake := wake }.serveClient w c)
          | none => some { s with wake := wake }
      else none
  | .eval w fd =>
      match s.phase w with
      | .serving pc =>
          -- a deleted client gives an arbitrary number
          if ∀ d, s.loop.client pc = some d → d = fd then
            some { s with
              phase := Function.update s.phase w (.killing fd pc) }
          else none
      | _ => none
  | .finish w =>
      match s.phase w with
      | .killing fd _ =>
          some { s with
            loop := s.loop.doKill fd
            phase := Function.update s.phase w .idle }
      | _ => none

-- ============================================================ the images

/-- The label of EventLoop.lean, if it has the step. -/
def State.looped (s : State n) : Label n → Option EventLoop.Label
  | .loop a => some a
  | .receive t chunk =>
      match s.parsed t chunk with
      | some (_, _, none) => some .recvData
      | _ => none
  | .notify _ => some .recvData
  | .finish w =>
      match s.phase w with
      | .killing fd _ => some (.workerKill fd)
      | _ => none
  | _ => none

/-- The descriptor the main thread is about to kill. -/
def killing : EventLoop.Main → Option Int
  | .lost fd _ _ => some fd
  | .dropping fd _ => some fd
  | _ => none

/-- Whom the section of `mmutex` forwards. -/
def State.forwarded (s : State n) (m : Msg) : Option Nat :=
  (s.loop.clientqueue.lookup m.fd).bind fun c =>
    if (s.object c).str .serial = [] then none else some (s.num c)

/-- The label of Server.lean, if it has the step. -/
def State.served (s : State n) : Label n → Option (Server.Label n)
  | .loop (.accept fd) => some (.accept fd)
  | .loop .getNewClient => some .create
  | .loop .insert => some .insert
  | .loop .doKill => (killing s.loop.main).map .kill
  | .loop _ => none
  | .receive t chunk =>
      match s.parsed t chunk with
      | some (c, o, some fd) =>
          some (.complete fd ⟨fd, s.num c⟩ (o.str .serial))
      | _ => none
  | .notify woken => some (.notify woken)
  | .thread w l => some (.thread w l)
  | .serve w m _ => some (.serve w m (s.forwarded m))
  | .eval w fd => some (.eval w fd)
  | .finish w => some (.finish w)

/-- What a label sends to the car server for connection `c`. -/
def State.sends (k : Setup) (s : State n) (c : Nat) :
    Label n → Option Sent
  | .serve _ m gpsxy =>
      if s.loop.clientqueue.lookup m.fd = some c then
        (Ccorrectit.correctgps_worker k.atof gpsxy k.info
          (s.object c)).bind sentOf
      else none
  | _ => none

-- ======================================================= the civil steps

/-- The connection of an owner, if it is one's. -/
def connection : EventLoop.Owner → Option Nat
  | .conn c => some c
  | _ => none

/-- The connection whose open descriptor it is. -/
def connOf (l : EventLoop.State) (fd : Int) : Option Nat :=
  (l.fds.owner fd).bind connection

/-- No `close` of `registerForEvent` or of a `Csender` hits an open
connection, and no client is deleted while the main thread receives for
it. -/
def State.civil (s : State n) : Label n → Bool
  | .loop .close =>
      s.loop.main.registers.all fun e => (connOf s.loop e.fd).isNone
  | .loop (.senderClose k) =>
      (s.loop.sender k).all fun fd => (connOf s.loop fd).isNone
  | .receive _ _ =>
      match s.loop.main with
      | .receiving c _ _ => (s.loop.client c).isSome
      | _ => true
  | _ => true

def Civil (s : State n) (a : Label n) : Prop := s.civil a = true

instance (s : State n) (a : Label n) : Decidable (Civil s a) :=
  inferInstanceAs (Decidable (_ = _))

-- ============================================== what one label can do

section Inversion

variable {k : Setup} {s s' : State n} {w : Fin n} {c : Nat} {t : Tm}

theorem loop_inv {a : EventLoop.Label}
    (h : step k s (.loop a) = some s') :
    s.allows a = true
      ∧ ∃ l, EventLoop.step k.maxClients k.sockfd s.loop a = some l
        ∧ s' = s.advance a l := by
  simp only [step] at h
  split at h
  case isTrue hg =>
    obtain ⟨l, hl, hs'⟩ := Option.map_eq_some_iff.mp h
    exact ⟨hg, l, hl, hs'.symm⟩
  case isFalse => cases h

theorem parsed_inv {chunk : List UInt8} {o : CClient} {r : Option Int}
    (h : s.parsed t chunk = some (c, o, r)) :
    ∃ e rest effects, s.loop.main = .receiving c e rest ∧ chunk ≠ []
      ∧ (s.object c).offset + chunk.length ≤ MAXBUF
      ∧ (s.object c).receiveLogged t (.data chunk) = some (.ok (o, effects))
      ∧ r = notified effects := by
  unfold State.parsed at h
  split at h
  case h_2 => cases h
  case h_1 c' e rest hm =>
    split at h
    case isFalse => cases h
    case isTrue hg =>
      split at h
      case h_2 => cases h
      case h_1 o' effects hok =>
        cases h
        exact ⟨e, rest, effects, hm, hg.1, hg.2, hok, rfl⟩

/-- A chunk completes a request, or is kept. -/
theorem receive_inv {chunk : List UInt8}
    (h : step k s (.receive t chunk) = some s') :
    s.notifying = false
      ∧ ∃ c o, (∃ fd wake, s.parsed t chunk = some (c, o, some fd)
          ∧ CclientManager.step s.wake (.push ⟨fd, s.num c⟩) = some wake
          ∧ s' = { s with
              object := Function.update s.object c o
              wake := wake
              notifying := true })
        ∨ (∃ l, s.parsed t chunk = some (c, o, none)
          ∧ EventLoop.step k.maxClients k.sockfd s.loop .recvData = some l
          ∧ s' = { s with
              object := Function.update s.object c o
              loop := l }) := by
  simp only [step] at h
  split at h
  case isFalse => cases h
  case isTrue hg =>
    refine ⟨hg, ?_⟩
    split at h
    case h_1 c o fd hp =>
      obtain ⟨wake, hw, hs'⟩ := Option.map_eq_some_iff.mp h
      exact ⟨c, o, Or.inl ⟨fd, wake, hp, hw, hs'.symm⟩⟩
    case h_2 c o hp =>
      obtain ⟨l, hl, hs'⟩ := Option.map_eq_some_iff.mp h
      exact ⟨c, o, Or.inr ⟨l, hp, hl, hs'.symm⟩⟩
    case h_3 => cases h

theorem notify_inv {woken : Option (Fin n)}
    (h : step k s (.notify woken) = some s') :
    s.notifying = true
      ∧ ∃ wake l, CclientManager.step s.wake (.notify woken) = some wake
        ∧ EventLoop.step k.maxClients k.sockfd s.loop .recvData = some l
        ∧ s' = { s with wake := wake, loop := l, notifying := false } := by
  simp only [step] at h
  split at h
  case isTrue hg =>
    obtain ⟨wake, hw, h⟩ := Option.bind_eq_some_iff.mp h
    obtain ⟨l, hl, hs'⟩ := Option.map_eq_some_iff.mp h
    exact ⟨hg, wake, l, hw, hl, hs'.symm⟩
  case isFalse => cases h

theorem thread_inv {l : CclientManager.Label Msg n}
    (h : step k s (.thread w l) = some s') :
    Server.ownStep w l = true ∧ s.phase w = .idle
      ∧ ∃ wake, CclientManager.step s.wake l = some wake
        ∧ s' = { s with wake := wake } := by
  simp only [step] at h
  split at h
  case isTrue hg =>
    obtain ⟨wake, hw, hs'⟩ := Option.map_eq_some_iff.mp h
    exact ⟨hg.1, hg.2, wake, hw, hs'.symm⟩
  case isFalse => cases h

theorem serve_inv {m : Msg} {gpsxy : CPOI}
    (h : step k s (.serve w m gpsxy) = some s') :
    s.phase w = .idle
      ∧ ∃ wake, CclientManager.step s.wake (.lookup w m) = some wake
        ∧ ((∃ c o, s.loop.clientqueue.lookup m.fd = some c
            ∧ Ccorrectit.correctgps_worker k.atof gpsxy k.info
              (s.object c) = some o
            ∧ s' = { s with wake := wake }.serveClient w c o)
          ∨ (s.loop.clientqueue.lookup m.fd = none
            ∧ s' = { s with wake := wake })) := by
  simp only [step] at h
  split at h
  case isFalse => cases h
  case isTrue hp =>
    obtain ⟨wake, hw, h⟩ := Option.bind_eq_some_iff.mp h
    refine ⟨hp, wake, hw, ?_⟩
    split at h
    case h_1 c hc =>
      obtain ⟨o, ho, hs'⟩ := Option.map_eq_some_iff.mp h
      exact Or.inl ⟨c, o, hc, ho, hs'.symm⟩
    case h_2 hc => exact Or.inr ⟨hc, by simpa using h.symm⟩

theorem eval_inv {fd : Int} (h : step k s (.eval w fd) = some s') :
    ∃ pc, s.phase w = .serving pc
      ∧ (∀ d, s.loop.client pc = some d → d = fd)
      ∧ s' = { s with
          phase := Function.update s.phase w (.killing fd pc) } := by
  simp only [step] at h
  split at h
  case h_1 pc hp =>
    split at h
    case isTrue hd => exact ⟨pc, hp, hd, by simpa using h.symm⟩
    case isFalse => cases h
  case h_2 => cases h

theorem finish_inv (h : step k s (.finish w) = some s') :
    ∃ fd pc, s.phase w = .killing fd pc
      ∧ s' = { s with
          loop := s.loop.doKill fd
          phase := Function.update s.phase w .idle } := by
  simp only [step] at h
  split at h
  case h_1 fd pc hp => exact ⟨fd, pc, hp, by simpa using h.symm⟩
  case h_2 => cases h

end Inversion

end CorrectGps.Program
