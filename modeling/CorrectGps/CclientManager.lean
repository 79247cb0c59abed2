/-
The wake-up protocol of `CclientManager`: `notificationthreads` on one
side, the waiting half of every worker's `run` loop on the other.

# Granularity

A label is one critical section, or one test a thread makes between two
of them. `notificationthreads` is two sections — `push` under
`mtx4msgqueue`, `notify` under `mtx4cond` — and any number of calls may
be between the two (`half`). A worker's turn is

  head → locking → (waiting →) cleared → popped → head

with `enter` the part of the `mtx4cond` section up to the wait or the
clearing of `test_cond`, `wake` the part after a return of
`pthread_cond_timedwait`, and `pop` the `mtx4msgqueue` section. What a
worker does with its descriptor is left to the server model; here it is
one label, `lookup`, that shows which descriptor was looked up.

`rc` needs no field: it is `ETIMEDOUT` whenever the wait loop is
entered, so it only decides what a return of the wait does next.

# The condition variable

`pthread_cond_signal` wakes one thread that is blocked and not yet woken
(`notify (some w)`), or nobody if there is none (`notify none`). A woken
worker returns 0 or, if its time is up too, `ETIMEDOUT`; a return without
a signal may be a timeout, a spurious 0, or an error code. A worker that
timed out tests `test_cond` again while holding the mutex, and blocks
again if it is false: a signal that it had been given is spent then.

The queue elements are a parameter: bare descriptors for the protocol
itself, descriptors tagged with the connection that pushed them for the
server model.
-/
import CorrectGps.Lib.Trans

namespace CorrectGps.CclientManager

open Lib

variable {α : Type} {n : Nat}

/-- `INVALID_SOCKET`, the local `fd` of a worker that has popped
nothing yet. -/
def invalidSocket : Int := -1

-- ================================================================ state

/-- What `pthread_cond_timedwait` returns: 0 to a signalled thread, 0
to another one, `ETIMEDOUT`, or any other code. -/
inductive WaitResult
  | signal | spurious | timeout | error
  deriving DecidableEq, Repr

/-- Where a worker stands in `run`. -/
inductive Pos
  /-- before `while (!allExitFlag)` -/
  | head
  /-- before the section of `mtx4cond` -/
  | locking
  /-- blocked in `pthread_cond_timedwait` -/
  | waiting (signalled : Bool)
  /-- `test_cond` cleared, `msglist` not yet looked at -/
  | cleared
  /-- past the section of `mtx4msgqueue`; `got`: it took an element -/
  | popped (got : Bool)
  /-- out of the loop -/
  | exited
  deriving DecidableEq, Repr

/-- A worker thread: its place in `run` and its local `fd`, which
survives from one turn to the next. -/
structure Worker (α : Type) where
  pos : Pos
  fd : α
  deriving DecidableEq, Repr

/-- The shared state of the protocol. -/
structure State (α : Type) (n : Nat) where
  msglist : List α
  testCond : Bool
  /-- calls of `notificationthreads` between their two sections -/
  half : Nat
  worker : Fin n → Worker α
  allExitFlag : Bool

/-- The state `start` leaves: nothing queued, every worker at the head
of its loop. -/
def init (invalid : α) (n : Nat) : State α n where
  msglist := []
  testCond := false
  half := 0
  worker := fun _ => { pos := .head, fd := invalid }
  allExitFlag := false

/-- Replace worker `w`. -/
def State.put (s : State α n) (w : Fin n) (x : Worker α) : State α n :=
  { s with worker := Function.update s.worker w x }

/-- Put worker `w` at `p`, its `fd` unchanged. -/
def State.moveTo (s : State α n) (w : Fin n) (p : Pos) : State α n :=
  s.put w ⟨p, (s.worker w).fd⟩

/-- Leave the wait loop: `test_cond = false` and unlock. -/
def State.clear (s : State α n) (w : Fin n) : State α n :=
  { s.moveTo w .cleared with testCond := false }

-- =============================================================== labels

/-- One critical section, or one test between two of them. -/
inductive Label (α : Type) (n : Nat)
  /-- `notificationthreads`, first section -/
  | push (fd : α)
  /-- `notificationthreads`, second section, and whom the signal wakes -/
  | notify (woken : Option (Fin n))
  | loop (w : Fin n)
  | enter (w : Fin n)
  | wake (w : Fin n) (rc : WaitResult)
  | pop (w : Fin n)
  /-- `getClientMap()->find(fd)` -/
  | lookup (w : Fin n) (fd : α)
  /-- the `break` of a worker that finds `allExitFlag` set -/
  | leave (w : Fin n)
  /-- some thread sets `allExitFlag` -/
  | exit

variable [DecidableEq α]

/-- Perform one label, `none` if it is not enabled. -/
def step (s : State α n) : Label α n → Option (State α n)
  | .push fd =>
      some { s with msglist := s.msglist ++ [fd], half := s.half + 1 }
  | .notify (some w) =>
      if s.half ≠ 0 ∧ (s.worker w).pos = .waiting false then
        some { s.moveTo w (.waiting true) with
          testCond := true, half := s.half - 1 }
      else none
  | .notify none =>
      if s.half ≠ 0 ∧ ∀ w, (s.worker w).pos ≠ .waiting false then
        some { s with testCond := true, half := s.half - 1 }
      else none
  | .loop w =>
      if (s.worker w).pos = .head then
        some (s.moveTo w (if s.allExitFlag then .exited else .locking))
      else none
  | .enter w =>
      if (s.worker w).pos = .locking then
        if !s.testCond && !s.allExitFlag then
          some (s.moveTo w (.waiting false))
        else some (s.clear w)
      else none
  | .wake w rc =>
      match (s.worker w).pos with
      | .waiting signalled =>
          match rc, signalled with
          | .signal, false => none
          | .timeout, _ =>
              -- a signalled thread may time out as well
              if !s.testCond && !s.allExitFlag then
                some (s.moveTo w (.waiting false))
              else some (s.clear w)
          | _, _ => some (s.clear w)
      | _ => none
  | .pop w =>
      if (s.worker w).pos = .cleared then
        match s.msglist with
        | fd :: rest =>
            some { s.put w ⟨.popped true, fd⟩ with
              msglist := rest }
        | [] => some (s.moveTo w (.popped false))
      else none
  | .lookup w fd =>
      if ((s.worker w).pos = .popped true ∨ (s.worker w).pos = .popped false)
          ∧ (s.worker w).fd = fd ∧ s.allExitFlag = false then
        some (s.moveTo w .head)
      else none
  | .leave w =>
      if ((s.worker w).pos = .popped true ∨ (s.worker w).pos = .popped false)
          ∧ s.allExitFlag = true then
        some (s.moveTo w .exited)
      else none
  | .exit => some { s with allExitFlag := true }

-- ============================================== what one section can do

variable {s s' : State α n} {w : Fin n} {fd : α}

theorem push_inv (h : step s (.push fd) = some s') :
    s' = { s with msglist := s.msglist ++ [fd], half := s.half + 1 } := by
  simpa [step] using h.symm

theorem notify_some_inv (h : step s (.notify (some w)) = some s') :
    s.half ≠ 0 ∧ (s.worker w).pos = .waiting false
      ∧ s' = { s.moveTo w (.waiting true) with
          testCond := true, half := s.half - 1 } := by
  simp only [step] at h
  split at h
  case isTrue hg => exact ⟨hg.1, hg.2, by simpa using h.symm⟩
  case isFalse => cases h

theorem notify_none_inv (h : step s (.notify none) = some s') :
    s.half ≠ 0 ∧ (∀ w, (s.worker w).pos ≠ .waiting false)
      ∧ s' = { s with testCond := true, half := s.half - 1 } := by
  simp only [step] at h
  split at h
  case isTrue hg => exact ⟨hg.1, hg.2, by simpa using h.symm⟩
  case isFalse => cases h

theorem loop_inv (h : step s (.loop w) = some s') :
    (s.worker w).pos = .head
      ∧ s' = s.moveTo w (if s.allExitFlag then .exited else .locking) := by
  simp only [step] at h
  split at h
  case isTrue hg => exact ⟨hg, by simpa using h.symm⟩
  case isFalse => cases h

/-- `enter` blocks only on a false flag. -/
theorem enter_inv (h : step s (.enter w) = some s') :
    (s.worker w).pos = .locking
      ∧ ((s.testCond = false ∧ s' = s.moveTo w (.waiting false))
        ∨ ((s.testCond = true ∨ s.allExitFlag = true)
          ∧ s' = s.clear w)) := by
  simp only [step] at h
  split at h
  case isFalse => cases h
  case isTrue hg =>
    refine ⟨hg, ?_⟩
    split at h
    case isTrue hc =>
      simp only [Bool.and_eq_true, Bool.not_eq_true'] at hc
      exact Or.inl ⟨hc.1, by simpa using h.symm⟩
    case isFalse hc =>
      refine Or.inr ⟨?_, by simpa using h.symm⟩
      cases ht : s.testCond <;> cases he : s.allExitFlag <;> simp_all

/-- A return of the wait clears the flag, except a timeout that finds
it false: that worker keeps waiting, without a signal. -/
theorem wake_inv {rc : WaitResult} (h : step s (.wake w rc) = some s') :
    (∃ b, (s.worker w).pos = .waiting b)
      ∧ (s' = s.clear w
        ∨ (rc = .timeout ∧ s.testCond = false
          ∧ s' = s.moveTo w (.waiting false))) := by
  simp only [step] at h
  split at h
  case h_2 => cases h
  case h_1 b hp =>
    refine ⟨⟨b, hp⟩, ?_⟩
    split at h
    case h_1 => cases h
    case h_2 =>
      split at h
      case isTrue hc =>
        simp only [Bool.and_eq_true, Bool.not_eq_true'] at hc
        exact Or.inr ⟨rfl, hc.1, by simpa using h.symm⟩
      case isFalse => exact Or.inl (by simpa using h.symm)
    case h_3 => exact Or.inl (by simpa using h.symm)

theorem pop_inv (h : step s (.pop w) = some s') :
    (s.worker w).pos = .cleared
      ∧ ((∃ fd rest, s.msglist = fd :: rest
          ∧ s' = { s.put w ⟨.popped true, fd⟩ with
              msglist := rest })
        ∨ (s.msglist = [] ∧ s' = s.moveTo w (.popped false))) := by
  simp only [step] at h
  split at h
  case isFalse => cases h
  case isTrue hg =>
    refine ⟨hg, ?_⟩
    split at h
    case h_1 fd rest hm =>
      exact Or.inl ⟨fd, rest, hm, by simpa using h.symm⟩
    case h_2 hm => exact Or.inr ⟨hm, by simpa using h.symm⟩

theorem lookup_inv (h : step s (.lookup w fd) = some s') :
    (∃ got, (s.worker w).pos = .popped got) ∧ (s.worker w).fd = fd
      ∧ s' = s.moveTo w .head := by
  simp only [step] at h
  split at h
  case isTrue hg =>
    refine ⟨?_, hg.2.1, by simpa using h.symm⟩
    rcases hg.1 with hp | hp
    · exact ⟨true, hp⟩
    · exact ⟨false, hp⟩
  case isFalse => cases h

theorem leave_inv (h : step s (.leave w) = some s') :
    (∃ got, (s.worker w).pos = .popped got)
      ∧ s' = s.moveTo w .exited := by
  simp only [step] at h
  split at h
  case isTrue hg =>
    refine ⟨?_, by simpa using h.symm⟩
    rcases hg.1 with hp | hp
    · exact ⟨true, hp⟩
    · exact ⟨false, hp⟩
  case isFalse => cases h

theorem exit_inv (h : step s .exit = some s') :
    s' = { s with allExitFlag := true } := by
  simpa [step] using h.symm

/-- A label that is neither a push nor a pop leaves the queue alone and
moves one worker at most, to a place that is not past the queue. -/
theorem moves_one {a : Label α n} (h : step s a = some s')
    (hpush : ∀ fd, a ≠ .push fd) (hpop : ∀ w, a ≠ .pop w) :
    s'.msglist = s.msglist
      ∧ (s'.worker = s.worker ∨ ∃ w x,
        s'.worker = Function.update s.worker w x
          ∧ ∀ got, x.pos ≠ .popped got) := by
  cases a with
  | push fd => exact absurd rfl (hpush fd)
  | pop w => exact absurd rfl (hpop w)
  | notify woken =>
      cases woken with
      | some w =>
          obtain ⟨-, -, hs'⟩ := notify_some_inv h
          subst hs'
          exact ⟨rfl, Or.inr ⟨w, _, rfl, by simp⟩⟩
      | none =>
          obtain ⟨-, -, hs'⟩ := notify_none_inv h
          subst hs'
          exact ⟨rfl, Or.inl rfl⟩
  | loop w =>
      obtain ⟨-, hs'⟩ := loop_inv h
      subst hs'
      refine ⟨rfl, Or.inr ⟨w, _, rfl, ?_⟩⟩
      cases s.allExitFlag <;> simp
  | enter w =>
      obtain ⟨-, ⟨-, hs'⟩ | ⟨-, hs'⟩⟩ := enter_inv h
      · subst hs'
        exact ⟨rfl, Or.inr ⟨w, _, rfl, by simp⟩⟩
      · subst hs'
        exact ⟨rfl, Or.inr ⟨w, _, rfl, by simp⟩⟩
  | wake w rc =>
      obtain ⟨-, hs' | ⟨-, -, hs'⟩⟩ := wake_inv h
      · subst hs'
        exact ⟨rfl, Or.inr ⟨w, _, rfl, by simp⟩⟩
      · subst hs'
        exact ⟨rfl, Or.inr ⟨w, _, rfl, by simp⟩⟩
  | lookup w fd =>
      obtain ⟨-, -, hs'⟩ := lookup_inv h
      subst hs'
      exact ⟨rfl, Or.inr ⟨w, _, rfl, by simp⟩⟩
  | leave w =>
      obtain ⟨-, hs'⟩ := leave_inv h
      subst hs'
      exact ⟨rfl, Or.inr ⟨w, _, rfl, by simp⟩⟩
  | exit =>
      have hs' := exit_inv h
      subst hs'
      exact ⟨rfl, Or.inl rfl⟩

end CorrectGps.CclientManager
