/-
The threads of `CclientManager` at the level of single mutex operations:
the main thread in `AddToQueue`, `DoKill` and `notificationthreads`, and
the workers in `run`, with `mmutex`, `mtx4cond` and `mtx4msgqueue`.

# Granularity

Every `pthread_mutex_lock`, every unlock, and every access to what the
mutexes protect is a step of its own: `push_back`, the assignments of
`test_cond`, the signal, the test of the wait loop, `front` and
`pop_front`. `CAutoLock` is the lock of its constructor and the unlock
of its destructor. CclientManager.lean has one label for a whole
section; Proofs/Locks.lean shows that its runs are all there are.

# The condition variable

`pthread_cond_timedwait` gives the mutex back and blocks in one step
(`test`), and returns when it has the mutex again (`wake`): whether it
returns for a signal or for another reason is settled then. What the
signal wakes is as in CclientManager.lean.

# What is left open

The sections of `mmutex` are one step each here: what they do to the
client map is the subject of Server.lean. The exit flag has no mutex; any
thread may set it at any time.
-/
import CorrectGps.CclientManager

namespace CorrectGps.Locks

open Lib
open CclientManager (WaitResult)

variable {α : Type} {n : Nat}

-- ================================================================ state

/-- The mutexes of `CclientManager`. -/
inductive Mutex
  | mmutex | mtx4cond | mtx4msgqueue
  deriving DecidableEq, Repr

inductive Thread (n : Nat)
  | main
  | worker (w : Fin n)
  deriving DecidableEq, Repr

/-- Where the main thread is. -/
inductive MainPos (α : Type)
  /-- in none of the functions that lock -/
  | outside
  /-- in `AddToQueue` or `DoKill`, before the `CAutoLock` -/
  | mapping
  /-- in its section -/
  | mapped
  /-- in `notificationthreads(fd)`, before it locks `mtx4msgqueue` -/
  | queueing (fd : α)
  /-- before `push_back` -/
  | pushing (fd : α)
  /-- past it, before the unlock -/
  | pushed
  /-- before it locks `mtx4cond` -/
  | signalling
  /-- before `test_cond = true` -/
  | setting
  /-- before `pthread_cond_signal` -/
  | waking
  /-- past it, before the unlock -/
  | woken
  deriving DecidableEq, Repr

/-- What `pthread_cond_timedwait` may return to a waiting thread: also a
signalled one may find its time up. -/
def mayReturn : Bool → WaitResult → Bool
  | false, .signal => false
  | _, _ => true

/-- Where a worker is in `run`. -/
inductive Pos
  /-- before `while (!allExitFlag)` -/
  | head
  /-- before it locks `mtx4cond` -/
  | locking
  /-- before the first test of the wait loop -/
  | testing
  /-- blocked in `pthread_cond_timedwait` -/
  | waiting (signalled : Bool)
  /-- back from it with `rc`, before the next test -/
  | returned (signalled : Bool) (rc : WaitResult)
      (may : mayReturn signalled rc = true)
  /-- before `test_cond = false` -/
  | clearing
  /-- past it, before the unlock -/
  | cleared
  /-- before it locks `mtx4msgqueue` -/
  | queueing
  /-- before the test of `msglist` -/
  | popping
  /-- past the section's body, before the unlock -/
  | popped (got : Bool)
  /-- before `if (!allExitFlag)` -/
  | deciding (got : Bool)
  /-- before the `CAutoLock` of the block that looks the client up -/
  | finding
  /-- in that block -/
  | serving
  /-- at its end; `pc`: a client was forwarded -/
  | served (pc : Bool)
  /-- in `DoKill(pc->fd)`, before the `CAutoLock` -/
  | killing
  /-- in its section -/
  | erasing
  /-- out of the loop -/
  | exited
  deriving DecidableEq, Repr

structure Worker (α : Type) where
  pos : Pos
  fd : α
  deriving DecidableEq, Repr

structure State (α : Type) (n : Nat) where
  holder : Mutex → Option (Thread n)
  msglist : List α
  testCond : Bool
  allExitFlag : Bool
  main : MainPos α
  worker : Fin n → Worker α

def init (invalid : α) (n : Nat) : State α n where
  holder := fun _ => none
  msglist := []
  testCond := false
  allExitFlag := false
  main := .outside
  worker := fun _ => ⟨.head, invalid⟩

-- ============================================================ positions

/-- The mutex a thread is about to lock, and where it is then. -/
def MainPos.enters : MainPos α → Option (Mutex × MainPos α)
  | .mapping => some (.mmutex, .mapped)
  | .queueing fd => some (.mtx4msgqueue, .pushing fd)
  | .signalling => some (.mtx4cond, .setting)
  | _ => none

def Pos.enters : Pos → Option (Mutex × Pos)
  | .locking => some (.mtx4cond, .testing)
  | .queueing => some (.mtx4msgqueue, .popping)
  | .finding => some (.mmutex, .serving)
  | .killing => some (.mmutex, .erasing)
  | _ => none

/-- The mutex a thread is about to unlock, and where it is then. -/
def MainPos.leaves : MainPos α → Option (Mutex × MainPos α)
  | .mapped => some (.mmutex, .outside)
  | .pushed => some (.mtx4msgqueue, .signalling)
  | .woken => some (.mtx4cond, .outside)
  | _ => none

def Pos.leaves : Pos → Option (Mutex × Pos)
  | .cleared => some (.mtx4cond, .queueing)
  | .popped got => some (.mtx4msgqueue, .deciding got)
  | .served true => some (.mmutex, .killing)
  | .served false => some (.mmutex, .head)
  | .erasing => some (.mmutex, .head)
  | _ => none

/-- The mutex whose section a thread is in. -/
def MainPos.held : MainPos α → Option Mutex
  | .mapped => some .mmutex
  | .pushing _ => some .mtx4msgqueue
  | .pushed => some .mtx4msgqueue
  | .setting => some .mtx4cond
  | .waking => some .mtx4cond
  | .woken => some .mtx4cond
  | _ => none

def Pos.held : Pos → Option Mutex
  | .testing => some .mtx4cond
  | .returned _ _ _ => some .mtx4cond
  | .clearing => some .mtx4cond
  | .cleared => some .mtx4cond
  | .popping => some .mtx4msgqueue
  | .popped _ => some .mtx4msgqueue
  | .serving => some .mmutex
  | .served _ => some .mmutex
  | .erasing => some .mmutex
  | _ => none

/-- The mutex whose section thread `t` is in. -/
def State.held (s : State α n) : Thread n → Option Mutex
  | .main => s.main.held
  | .worker w => (s.worker w).pos.held

/-- The mutex thread `t` is about to lock. -/
def State.wants (s : State α n) : Thread n → Option Mutex
  | .main => s.main.enters.map Prod.fst
  | .worker w => (s.worker w).pos.enters.map Prod.fst

/-- Replace worker `w`. -/
def State.put (s : State α n) (w : Fin n) (x : Worker α) : State α n :=
  { s with worker := Function.update s.worker w x }

/-- Put worker `w` at `p`, its `fd` unchanged. -/
def State.moveTo (s : State α n) (w : Fin n) (p : Pos) : State α n :=
  s.put w ⟨p, (s.worker w).fd⟩

/-- Write down who holds `m`. -/
def State.hold (s : State α n) (m : Mutex) (t : Option (Thread n)) :
    State α n :=
  { s with holder := Function.update s.holder m t }

-- =============================================================== labels

inductive Label (α : Type) (n : Nat)
  /-- the main thread calls `AddToQueue` or `DoKill` -/
  | callMap
  /-- the main thread calls `notificationthreads(fd)` -/
  | callNotify (fd : α)
  | mainLock
  | mainUnlock
  /-- `msglist.push_back(fd)` -/
  | push (fd : α)
  /-- `test_cond = true` -/
  | set
  /-- `pthread_cond_signal`, and whom it wakes -/
  | signal (woken : Option (Fin n))
  | lock (w : Fin n)
  | unlock (w : Fin n)
  | loop (w : Fin n)
  /-- the test of the wait loop, after the return of `rc` if any -/
  | test (w : Fin n) (rc : Option WaitResult)
  /-- `pthread_cond_timedwait` has the mutex again and returns `rc` -/
  | wake (w : Fin n) (rc : WaitResult)
  /-- `test_cond = false` -/
  | clear (w : Fin n)
  /-- `front` and `pop_front`, or nothing -/
  | pop (w : Fin n)
  /-- `allExitFlag` is found false, with `fd` to look up -/
  | decide (w : Fin n) (fd : α)
  /-- it is found true -/
  | leave (w : Fin n)
  /-- the lookup, the correction and the forward -/
  | serve (w : Fin n) (pc : Bool)
  /-- some thread sets `allExitFlag` -/
  | exit

/-- The thread whose step a label is. -/
def Label.actor : Label α n → Option (Thread n)
  | .callMap => some .main
  | .callNotify _ => some .main
  | .mainLock => some .main
  | .mainUnlock => some .main
  | .push _ => some .main
  | .set => some .main
  | .signal _ => some .main
  | .lock w => some (.worker w)
  | .unlock w => some (.worker w)
  | .loop w => some (.worker w)
  | .test w _ => some (.worker w)
  | .wake w _ => some (.worker w)
  | .clear w => some (.worker w)
  | .pop w => some (.worker w)
  | .decide w _ => some (.worker w)
  | .leave w => some (.worker w)
  | .serve w _ => some (.worker w)
  | .exit => none

/-- The test of the wait loop: block again, or leave it. -/
def State.testWait (s : State α n) (w : Fin n) (rc : WaitResult) :
    State α n :=
  if !s.testCond && rc = .timeout && !s.allExitFlag then
    (s.hold .mtx4cond none).moveTo w (.waiting false)
  else s.moveTo w .clearing

/-- The test blocks on a timeout that finds both flags false. -/
theorem testWait_cases (s : State α n) (w : Fin n) (rc : WaitResult) :
    (s.testCond = false ∧ rc = .timeout ∧ s.allExitFlag = false
        ∧ s.testWait w rc
          = (s.hold .mtx4cond none).moveTo w (.waiting false))
      ∨ ((s.testCond = true ∨ rc ≠ .timeout ∨ s.allExitFlag = true)
        ∧ s.testWait w rc = s.moveTo w .clearing) := by
  unfold State.testWait
  split
  case isTrue hg =>
    simp only [Bool.and_eq_true, Bool.not_eq_true', decide_eq_true_eq] at hg
    exact Or.inl ⟨hg.1.1, hg.1.2, hg.2, rfl⟩
  case isFalse hg =>
    refine Or.inr ⟨?_, rfl⟩
    by_contra hnot
    apply hg
    simp only [not_or, Bool.not_eq_true, not_not] at hnot
    simp [hnot.1, hnot.2.1, hnot.2.2]

variable [DecidableEq α]

/-- Perform one label, `none` if it is not enabled. -/
def step (s : State α n) : Label α n → Option (State α n)
  | .callMap =>
      if s.main = .outside then some { s with main := .mapping } else none
  | .callNotify fd =>
      if s.main = .outside then some { s with main := .queueing fd }
      else none
  | .mainLock =>
      match s.main.enters with
      | some (m, p) =>
          if s.holder m = none then
            some { s.hold m (some .main) with main := p }
          else none
      | none => none
  | .mainUnlock =>
      match s.main.leaves with
      | some (m, p) => some { s.hold m none with main := p }
      | none => none
  | .push fd =>
      if s.main = .pushing fd then
        some { s with msglist := s.msglist ++ [fd], main := .pushed }
      else none
  | .set =>
      if s.main = .setting then
        some { s with testCond := true, main := .waking }
      else none
  | .signal (some w) =>
      if s.main = .waking ∧ (s.worker w).pos = .waiting false then
        some { s.moveTo w (.waiting true) with main := .woken }
      else none
  | .signal none =>
      if s.main = .waking ∧ ∀ w, (s.worker w).pos ≠ .waiting false then
        some { s with main := .woken }
      else none
  | .lock w =>
      match (s.worker w).pos.enters with
      | some (m, p) =>
          if s.holder m = none then
            some ((s.hold m (some (.worker w))).moveTo w p)
          else none
      | none => none
  | .unlock w =>
      match (s.worker w).pos.leaves with
      | some (m, p) => some ((s.hold m none).moveTo w p)
      | none => none
  | .loop w =>
      if (s.worker w).pos = .head then
        some (s.moveTo w (if s.allExitFlag then .exited else .locking))
      else none
  | .test w rc =>
      match (s.worker w).pos with
      -- `rc` is `ETIMEDOUT` before the first wait
      | .testing => if rc = none then some (s.testWait w .timeout) else none
      | .returned _ r _ =>
          if rc = some r then some (s.testWait w r) else none
      | _ => none
  | .wake w rc =>
      match (s.worker w).pos with
      | .waiting signalled =>
          if h : mayReturn signalled rc = true
              ∧ s.holder .mtx4cond = none then
            some ((s.hold .mtx4cond (some (.worker w))).moveTo w
              (.returned signalled rc h.1))
          else none
      | _ => none
  | .clear w =>
      if (s.worker w).pos = .clearing then
        some { s.moveTo w .cleared with testCond := false }
      else none
  | .pop w =>
      if (s.worker w).pos = .popping then
        match s.msglist with
        | fd :: rest =>
            some { s.put w ⟨.popped true, fd⟩ with msglist := rest }
        | [] => some (s.moveTo w (.popped false))
      else none
  | .decide w fd =>
      if ((s.worker w).pos = .deciding true
            ∨ (s.worker w).pos = .deciding false)
          ∧ (s.worker w).fd = fd ∧ s.allExitFlag = false then
        some (s.moveTo w .finding)
      else none
  | .leave w =>
      if ((s.worker w).pos = .deciding true
            ∨ (s.worker w).pos = .deciding false)
          ∧ s.allExitFlag = true then
        some (s.moveTo w .exited)
      else none
  | .serve w pc =>
      if (s.worker w).pos = .serving then some (s.moveTo w (.served pc))
      else none
  | .exit => some { s with allExitFlag := true }

-- ============================================== what one label can do

section Inversion

variable {s s' : State α n} {w : Fin n} {fd : α}

theorem callMap_inv (h : step s .callMap = some s') :
    s.main = .outside ∧ s' = { s with main := .mapping } := by
  simp only [step] at h
  split at h
  case isTrue hm => exact ⟨hm, by simpa using h.symm⟩
  case isFalse => cases h

theorem callNotify_inv (h : step s (.callNotify fd) = some s') :
    s.main = .outside ∧ s' = { s with main := .queueing fd } := by
  simp only [step] at h
  split at h
  case isTrue hm => exact ⟨hm, by simpa using h.symm⟩
  case isFalse => cases h

theorem mainLock_inv (h : step s .mainLock = some s') :
    ∃ m p, s.main.enters = some (m, p) ∧ s.holder m = none
      ∧ s' = { s.hold m (some .main) with main := p } := by
  simp only [step] at h
  split at h
  case h_1 m p hm =>
    split at h
    case isTrue hfree => exact ⟨m, p, hm, hfree, by simpa using h.symm⟩
    case isFalse => cases h
  case h_2 => cases h

theorem mainUnlock_inv (h : step s .mainUnlock = some s') :
    ∃ m p, s.main.leaves = some (m, p)
      ∧ s' = { s.hold m none with main := p } := by
  simp only [step] at h
  split at h
  case h_1 m p hm => exact ⟨m, p, hm, by simpa using h.symm⟩
  case h_2 => cases h

theorem push_inv (h : step s (.push fd) = some s') :
    s.main = .pushing fd
      ∧ s' = { s with msglist := s.msglist ++ [fd], main := .pushed } := by
  simp only [step] at h
  split at h
  case isTrue hm => exact ⟨hm, by simpa using h.symm⟩
  case isFalse => cases h

theorem set_inv (h : step s .set = some s') :
    s.main = .setting
      ∧ s' = { s with testCond := true, main := .waking } := by
  simp only [step] at h
  split at h
  case isTrue hm => exact ⟨hm, by simpa using h.symm⟩
  case isFalse => cases h

theorem signal_some_inv (h : step s (.signal (some w)) = some s') :
    s.main = .waking ∧ (s.worker w).pos = .waiting false
      ∧ s' = { s.moveTo w (.waiting true) with main := .woken } := by
  simp only [step] at h
  split at h
  case isTrue hg => exact ⟨hg.1, hg.2, by simpa using h.symm⟩
  case isFalse => cases h

theorem signal_none_inv (h : step s (.signal none) = some s') :
    s.main = .waking ∧ (∀ w, (s.worker w).pos ≠ .waiting false)
      ∧ s' = { s with main := .woken } := by
  simp only [step] at h
  split at h
  case isTrue hg => exact ⟨hg.1, hg.2, by simpa using h.symm⟩
  case isFalse => cases h

theorem lock_inv (h : step s (.lock w) = some s') :
    ∃ m p, (s.worker w).pos.enters = some (m, p) ∧ s.holder m = none
      ∧ s' = (s.hold m (some (.worker w))).moveTo w p := by
  simp only [step] at h
  split at h
  case h_1 m p hp =>
    split at h
    case isTrue hfree => exact ⟨m, p, hp, hfree, by simpa using h.symm⟩
    case isFalse => cases h
  case h_2 => cases h

theorem unlock_inv (h : step s (.unlock w) = some s') :
    ∃ m p, (s.worker w).pos.leaves = some (m, p)
      ∧ s' = (s.hold m none).moveTo w p := by
  simp only [step] at h
  split at h
  case h_1 m p hp => exact ⟨m, p, hp, by simpa using h.symm⟩
  case h_2 => cases h

theorem loop_inv (h : step s (.loop w) = some s') :
    (s.worker w).pos = .head
      ∧ s' = s.moveTo w (if s.allExitFlag then .exited else .locking) := by
  simp only [step] at h
  split at h
  case isTrue hp => exact ⟨hp, by simpa using h.symm⟩
  case isFalse => cases h

/-- The test is made with `ETIMEDOUT` at first and with what the wait has
returned later. -/
theorem test_inv {rc : Option WaitResult}
    (h : step s (.test w rc) = some s') :
    ∃ r, (((s.worker w).pos = .testing ∧ rc = none ∧ r = .timeout)
        ∨ ∃ b may, (s.worker w).pos = .returned b r may ∧ rc = some r)
      ∧ s' = s.testWait w r := by
  simp only [step] at h
  split at h
  case h_1 hp =>
    split at h
    case isTrue hrc =>
      exact ⟨_, Or.inl ⟨hp, hrc, rfl⟩, by simpa using h.symm⟩
    case isFalse => cases h
  case h_2 b r may hp =>
    split at h
    case isTrue hrc =>
      exact ⟨r, Or.inr ⟨b, may, hp, hrc⟩, by simpa using h.symm⟩
    case isFalse => cases h
  case h_3 => cases h

theorem wake_inv {rc : WaitResult} (h : step s (.wake w rc) = some s') :
    ∃ b may, (s.worker w).pos = .waiting b ∧ s.holder .mtx4cond = none
      ∧ s' = (s.hold .mtx4cond (some (.worker w))).moveTo w
          (.returned b rc may) := by
  simp only [step] at h
  split at h
  case h_1 b hp =>
    split at h
    case isTrue hg => exact ⟨b, hg.1, hp, hg.2, by simpa using h.symm⟩
    case isFalse => cases h
  case h_2 => cases h

theorem clear_inv (h : step s (.clear w) = some s') :
    (s.worker w).pos = .clearing
      ∧ s' = { s.moveTo w .cleared with testCond := false } := by
  simp only [step] at h
  split at h
  case isTrue hp => exact ⟨hp, by simpa using h.symm⟩
  case isFalse => cases h

theorem pop_inv (h : step s (.pop w) = some s') :
    (s.worker w).pos = .popping
      ∧ ((∃ fd rest, s.msglist = fd :: rest
          ∧ s' = { s.put w ⟨.popped true, fd⟩ with msglist := rest })
        ∨ (s.msglist = [] ∧ s' = s.moveTo w (.popped false))) := by
  simp only [step] at h
  split at h
  case isFalse => cases h
  case isTrue hp =>
    refine ⟨hp, ?_⟩
    split at h
    case h_1 fd rest hm =>
      exact Or.inl ⟨fd, rest, hm, by simpa using h.symm⟩
    case h_2 hm => exact Or.inr ⟨hm, by simpa using h.symm⟩

theorem decide_inv (h : step s (.decide w fd) = some s') :
    (∃ got, (s.worker w).pos = .deciding got) ∧ (s.worker w).fd = fd
      ∧ s.allExitFlag = false ∧ s' = s.moveTo w .finding := by
  simp only [step] at h
  split at h
  case isTrue hg =>
    refine ⟨?_, hg.2.1, hg.2.2, by simpa using h.symm⟩
    rcases hg.1 with hp | hp
    · exact ⟨true, hp⟩
    · exact ⟨false, hp⟩
  case isFalse => cases h

theorem leave_inv (h : step s (.leave w) = some s') :
    (∃ got, (s.worker w).pos = .deciding got) ∧ s.allExitFlag = true
      ∧ s' = s.moveTo w .exited := by
  simp only [step] at h
  split at h
  case isTrue hg =>
    refine ⟨?_, hg.2, by simpa using h.symm⟩
    rcases hg.1 with hp | hp
    · exact ⟨true, hp⟩
    · exact ⟨false, hp⟩
  case isFalse => cases h

theorem serve_inv {pc : Bool} (h : step s (.serve w pc) = some s') :
    (s.worker w).pos = .serving ∧ s' = s.moveTo w (.served pc) := by
  simp only [step] at h
  split at h
  case isTrue hp => exact ⟨hp, by simpa using h.symm⟩
  case isFalse => cases h

theorem exit_inv (h : step s .exit = some s') :
    s' = { s with allExitFlag := true } := by
  simpa [step] using h.symm

end Inversion

end CorrectGps.Locks
