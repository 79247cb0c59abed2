/-
What the wake-up protocol does and does not promise.

# Stranded requests

`test_cond` is one bit and each wake-up pops one element, so two
notifications that find every worker busy leave one bit for two
elements: the worker that clears it serves the first and goes to sleep
on the second (`not_nothingLeftBehind`). The timeout does not help — a
timed-out worker tests the same bit.

What holds is an accounting law (`WakeInv`): the queue is never longer
than the pops still to come (`due`) — the calls between their two
sections, the workers between clearing and popping, and either the
signalled workers or, if there are none, the bit. Two steps can break
it: a `notify` whose signal finds nobody, since then the bit is all it
leaves and the bit may be spent already, and a signalled worker whose
time is up as well and that finds the bit spent, since it blocks again.
`WakeNotLost` forbids exactly these steps when the queue has no slack
left, and under it no request is left behind.

# Stale lookups

The local `fd` of a worker survives its turn, and a pop that finds the
queue empty does not stop the turn: the worker looks the old descriptor
up once more (`not_lookupsAreQueued`). Counting the lookups done, the
lookups under way and the queue against the pushes (`LookInv`), the
only other step is such a pop by a worker that has served somebody.
-/
import CorrectGps.CclientManager

namespace CorrectGps.CclientManager

open Lib

variable {α : Type} {n : Nat}

-- ============================================================== tallies

/-- Total of a weight over the workers. -/
def State.tally (weight : Worker α → Nat) (s : State α n) : Nat :=
  ∑ w, weight (s.worker w)

/-- Replacing one worker changes a tally by that worker's weight. -/
theorem tally_update (weight : Worker α → Nat) {s s' : State α n}
    {w : Fin n} {x : Worker α}
    (h : s'.worker = Function.update s.worker w x) :
    s'.tally weight + weight (s.worker w) = s.tally weight + weight x := by
  unfold State.tally
  rw [h]
  exact sum_update weight s.worker w x

/-- Workers between clearing `test_cond` and popping. -/
def aboutToPop (x : Worker α) : Nat :=
  match x.pos with
  | .cleared => 1
  | _ => 0

/-- Workers a signal has woken and that do not hold the mutex yet. -/
def signalled (x : Worker α) : Nat :=
  match x.pos with
  | .waiting true => 1
  | _ => 0

/-- Workers past the queue with `f` in hand, about to look it up. -/
def holding [DecidableEq α] (f : α) (x : Worker α) : Nat :=
  match x.pos with
  | .popped _ => if x.fd = f then 1 else 0
  | _ => 0

/-- `test_cond` as a number. -/
def State.flag (s : State α n) : Nat := if s.testCond then 1 else 0

/-- The pops still to come: calls that have yet to notify, workers
about to pop, and the wake-ups outstanding — signalled workers, or the
bit if nobody is signalled. -/
def State.due (s : State α n) : Nat :=
  s.half + s.tally aboutToPop + max (s.tally signalled) s.flag

-- ================================================= nothing left behind

/-- Nothing is under way: no call is half done, the bit is down and
every worker is blocked with no signal pending. -/
def State.Quiet (s : State α n) : Prop :=
  s.half = 0 ∧ s.testCond = false ∧
    ∀ w, (s.worker w).pos = .waiting false

instance (s : State α n) : Decidable s.Quiet := by
  unfold State.Quiet
  infer_instance

/-- With `n` workers, a quiet state has an empty queue, whatever
happened before. -/
def NothingLeftBehind (n : Nat) : Prop :=
  ∀ (labels : List (Label Int n)) (s : State Int n),
    run step (init invalidSocket n) labels = some s →
    s.allExitFlag = false → s.Quiet → s.msglist = []

/-- Both calls of `notificationthreads` finish before the only worker
gets to the mutex; it serves 7 and sleeps on 8. -/
def strandingRun : List (Label Int 1) :=
  [.push 7, .notify none, .push 8, .notify none, .loop 0, .enter 0,
    .pop 0, .lookup 0 7, .loop 0, .enter 0]

theorem not_nothingLeftBehind : ¬ NothingLeftBehind 1 := by
  intro hall
  have hend : ∃ s, run step (init invalidSocket 1) strandingRun = some s
      ∧ s.allExitFlag = false ∧ s.Quiet ∧ s.msglist = [8] :=
    exists_run_of_any (by decide)
  obtain ⟨s, hrun, hexit, hquiet, hleft⟩ := hend
  have hnil := hall strandingRun s hrun hexit hquiet
  rw [hleft] at hnil
  cases hnil

/-- The steps that keep the accounting law: a signal that finds nobody
is given only while the queue is shorter than the pops still to come,
counting the bit it sets as one if no worker is signalled; and a
signalled worker times out and finds the bit down only while the queue
is shorter than these pops, its own among them. -/
def WakeNotLost (s : State α n) : Label α n → Prop
  | .notify none =>
      s.msglist.length
        < s.half + s.tally aboutToPop + max (s.tally signalled) 1
  | .wake w .timeout =>
      (s.worker w).pos = .waiting true → s.testCond = false →
        s.msglist.length
          < s.half + s.tally aboutToPop + s.tally signalled
  | _ => True

instance (s : State α n) (a : Label α n) : Decidable (WakeNotLost s a) :=
  match a with
  | .notify none => Nat.decLt _ _
  | .notify (some _) => isTrue trivial
  | .push _ => isTrue trivial
  | .loop _ => isTrue trivial
  | .enter _ => isTrue trivial
  | .wake _ .timeout => inferInstanceAs (Decidable (_ → _ → _ < _))
  | .wake _ .signal => isTrue trivial
  | .wake _ .spurious => isTrue trivial
  | .wake _ .error => isTrue trivial
  | .pop _ => isTrue trivial
  | .lookup _ _ => isTrue trivial
  | .leave _ => isTrue trivial
  | .exit => isTrue trivial

/-- The accounting law, and the fact it leans on: while the bit is up,
a blocked worker implies a signalled one — the bit was raised by a call
that would have woken it. -/
structure WakeInv (s : State α n) : Prop where
  due : s.msglist.length ≤ s.due
  heard : s.testCond = true → ∀ w, (s.worker w).pos = .waiting false →
    1 ≤ s.tally signalled

variable {s s' : State α n}

/-- A worker seen asleep after another one moved was asleep before. -/
theorem waiting_of_update {w : Fin n} {x : Worker α}
    (hw : s'.worker = Function.update s.worker w x)
    (hwait : x.pos ≠ .waiting false) {v : Fin n}
    (hv : (s'.worker v).pos = .waiting false) :
    (s.worker v).pos = .waiting false := by
  rw [hw] at hv
  by_cases hvw : v = w
  · subst hvw
    rw [Function.update_self] at hv
    exact absurd hv hwait
  · rwa [Function.update_of_ne hvw] at hv

theorem signalled_le (x : Worker α) : signalled x ≤ 1 := by
  unfold signalled
  split <;> omega

/-- A worker that moves, but not to sleep, keeps the law if the queue,
the calls and the bit do not change and neither does its own weight. -/
theorem WakeInv.move (hinv : WakeInv s) {w : Fin n} {x : Worker α}
    (hw : s'.worker = Function.update s.worker w x)
    (hmsg : s'.msglist = s.msglist) (hhalf : s'.half = s.half)
    (hbit : s'.testCond = s.testCond)
    (hpop : aboutToPop x = aboutToPop (s.worker w))
    (hsig : signalled x = signalled (s.worker w))
    (hwait : x.pos ≠ .waiting false) : WakeInv s' := by
  have hp := tally_update aboutToPop hw
  have hs := tally_update signalled hw
  have hdue := hinv.due
  refine ⟨?_, ?_⟩
  · unfold State.due State.flag at hdue ⊢
    rw [hmsg, hhalf, hbit]
    omega
  · intro hup v hv
    have hv' := waiting_of_update hw hwait hv
    have := hinv.heard (by rw [← hbit]; exact hup) v hv'
    omega

/-- Leaving the wait loop trades the bit, or the worker's own signal,
for one pop. -/
theorem WakeInv.clear (hinv : WakeInv s) {w : Fin n}
    (hpos : aboutToPop (s.worker w) = 0) : WakeInv (s.clear w) := by
  have hw : (s.clear w).worker
      = Function.update s.worker w ⟨.cleared, (s.worker w).fd⟩ := rfl
  have hp := tally_update aboutToPop hw
  have hs := tally_update signalled hw
  have hone := signalled_le (s.worker w)
  have hdue := hinv.due
  have hflag : s.flag ≤ 1 := by
    unfold State.flag
    split <;> omega
  have hmsg : (s.clear w).msglist = s.msglist := rfl
  have hhalf : (s.clear w).half = s.half := rfl
  have hdown : (s.clear w).flag = 0 := rfl
  have hx : aboutToPop (⟨.cleared, (s.worker w).fd⟩ : Worker α) = 1 := rfl
  have hy : signalled (⟨.cleared, (s.worker w).fd⟩ : Worker α) = 0 := rfl
  refine ⟨?_, fun h => by cases h⟩
  unfold State.due at hdue ⊢
  rw [hmsg, hhalf, hdown]
  omega

/-- A worker blocks under a lowered bit, and if it has been signalled,
the law holds without its signal. -/
theorem WakeInv.sleep (hinv : WakeInv s) {w : Fin n}
    (hdown : s.testCond = false)
    (hpop : aboutToPop (s.worker w) = 0)
    (hslack : signalled (s.worker w) = 1 → s.msglist.length
      < s.half + s.tally aboutToPop + s.tally signalled) :
    WakeInv (s.moveTo w (.waiting false)) := by
  have hw : (s.moveTo w (.waiting false)).worker = Function.update s.worker w
      ⟨.waiting false, (s.worker w).fd⟩ := rfl
  have hp := tally_update aboutToPop hw
  have hs := tally_update signalled hw
  have hone := signalled_le (s.worker w)
  have hx : aboutToPop (⟨.waiting false, (s.worker w).fd⟩ : Worker α) = 0 :=
    rfl
  have hy : signalled (⟨.waiting false, (s.worker w).fd⟩ : Worker α) = 0 :=
    rfl
  have hdue := hinv.due
  unfold State.due State.flag at hdue
  rw [if_neg (by rw [hdown]; simp)] at hdue
  refine ⟨?_, fun hup => ?_⟩
  · show s.msglist.length ≤ s.half
        + (s.moveTo w (.waiting false)).tally aboutToPop
        + max ((s.moveTo w (.waiting false)).tally signalled)
          (s.moveTo w (.waiting false)).flag
    rcases Nat.lt_or_ge 0 (signalled (s.worker w)) with hyes | hno
    · have hlt := hslack (by omega)
      omega
    · omega
  · change s.testCond = true at hup
    rw [hdown] at hup
    cases hup

theorem wakeInv_init (invalid : α) (n : Nat) :
    WakeInv (init invalid n) :=
  ⟨Nat.zero_le _, fun h => by cases h⟩

/-- A quiet state has no pop to come. -/
theorem due_of_quiet (h : s.Quiet) : s.due = 0 := by
  obtain ⟨hhalf, hbit, hwait⟩ := h
  have hpop : s.tally aboutToPop = 0 := by
    refine Finset.sum_eq_zero fun w _ => ?_
    simp [aboutToPop, hwait w]
  have hsig : s.tally signalled = 0 := by
    refine Finset.sum_eq_zero fun w _ => ?_
    simp [signalled, hwait w]
  unfold State.due State.flag
  rw [hhalf, hpop, hsig, hbit]
  rfl

/-- Nobody clears `allExitFlag`. -/
theorem exitFlag_mono [DecidableEq α] {a : Label α n}
    (hstep : step s a = some s') (h : s'.allExitFlag = false) :
    s.allExitFlag = false := by
  cases a with
  | push fd => rwa [push_inv hstep] at h
  | notify woken =>
      cases woken with
      | some w => rwa [(notify_some_inv hstep).2.2] at h
      | none => rwa [(notify_none_inv hstep).2.2] at h
  | loop w => rwa [(loop_inv hstep).2] at h
  | enter w =>
      rcases (enter_inv hstep).2 with ⟨-, hs'⟩ | ⟨-, hs'⟩ <;>
        rwa [hs'] at h
  | wake w rc =>
      rcases (wake_inv hstep).2 with hs' | ⟨-, -, hs'⟩ <;>
        rwa [hs'] at h
  | pop w =>
      rcases (pop_inv hstep).2 with ⟨fd, rest, -, hs'⟩ | ⟨-, hs'⟩ <;>
        rwa [hs'] at h
  | lookup w fd => rwa [(lookup_inv hstep).2.2] at h
  | leave w => rwa [(leave_inv hstep).2] at h
  | exit =>
      rw [exit_inv hstep] at h
      cases h

section Steps

variable [DecidableEq α] {w : Fin n}

/-- A push is one call more that has not notified. -/
theorem WakeInv.push (hinv : WakeInv s) {fd : α}
    (hstep : step s (.push fd) = some s') : WakeInv s' := by
  have hdue := hinv.due
  unfold State.due State.flag at hdue
  have hs' := push_inv hstep
  have hmsg : s'.msglist.length = s.msglist.length + 1 := by
    rw [hs', List.length_append, List.length_singleton]
  have hhalf : s'.half = s.half + 1 := by rw [hs']
  have hbit : s'.testCond = s.testCond := by rw [hs']
  have hpop : s'.tally aboutToPop = s.tally aboutToPop := by
    rw [hs']
    rfl
  have hsig : s'.tally signalled = s.tally signalled := by
    rw [hs']
    rfl
  refine ⟨?_, ?_⟩
  · unfold State.due State.flag
    rw [hmsg, hhalf, hbit, hpop, hsig]
    omega
  · intro hup v hv
    rw [hsig]
    exact hinv.heard (by rwa [hbit] at hup) v (by rwa [hs'] at hv)

/-- A signal somebody hears. -/
theorem WakeInv.notifySome (hinv : WakeInv s)
    (hstep : step s (.notify (some w)) = some s') : WakeInv s' := by
  have hdue := hinv.due
  unfold State.due State.flag at hdue
  obtain ⟨hhalf, hpos, hs'⟩ := notify_some_inv hstep
  have hw : s'.worker = Function.update s.worker w
      ⟨.waiting true, (s.worker w).fd⟩ := by rw [hs']; rfl
  have hp := tally_update aboutToPop hw
  have hs := tally_update signalled hw
  simp only [aboutToPop, signalled, hpos] at hp hs
  refine ⟨?_, fun _ _ _ => by omega⟩
  have hbit : s'.flag = 1 := by rw [hs']; rfl
  have hh : s'.half = s.half - 1 := by rw [hs']
  have hm : s'.msglist = s.msglist := by rw [hs']; rfl
  unfold State.due
  rw [hbit, hh, hm]
  cases hup : s.testCond with
  | true =>
      -- under a raised bit the blocked worker was not alone: a
      -- signal is out already and the new one adds to it
      have := hinv.heard hup w hpos
      rw [if_pos hup] at hdue
      omega
  | false =>
      rw [if_neg (by rw [hup]; simp)] at hdue
      omega

/-- A signal nobody hears, where the law still holds without it. -/
theorem wakeInv_notifyNone (hok : WakeNotLost s (.notify none))
    (hstep : step s (.notify none) = some s') : WakeInv s' := by
  obtain ⟨hhalf, hnone, hs'⟩ := notify_none_inv hstep
  have hlt : s.msglist.length < s.half + s.tally aboutToPop
      + max (s.tally signalled) 1 := hok
  subst hs'
  refine ⟨?_, fun _ v hv => absurd hv (hnone v)⟩
  show s.msglist.length ≤ (s.half - 1) + s.tally aboutToPop
    + max (s.tally signalled) 1
  omega

/-- A return of the wait. -/
theorem WakeInv.wake (hinv : WakeInv s) {rc : WaitResult}
    (hok : WakeNotLost s (.wake w rc))
    (hstep : step s (.wake w rc) = some s') : WakeInv s' := by
  obtain ⟨⟨b, hpos⟩, rfl | ⟨rfl, hdown, rfl⟩⟩ := wake_inv hstep
  · exact hinv.clear (by simp [aboutToPop, hpos])
  · refine hinv.sleep hdown (by simp [aboutToPop, hpos]) fun hsig => ?_
    cases b with
    | true => exact hok hpos hdown
    | false => simp [signalled, hpos] at hsig

/-- A worker falls asleep under a lowered bit, or does not wait. -/
theorem WakeInv.enter (hinv : WakeInv s)
    (hstep : step s (.enter w) = some s') : WakeInv s' := by
  obtain ⟨hpos, ⟨hdown, rfl⟩ | ⟨-, rfl⟩⟩ := enter_inv hstep
  · exact hinv.sleep hdown (by simp [aboutToPop, hpos])
      fun hsig => by simp [signalled, hpos] at hsig
  · exact hinv.clear (by simp [aboutToPop, hpos])

/-- A pop is paid by the element popped, or there is none left. -/
theorem WakeInv.pop (hinv : WakeInv s)
    (hstep : step s (.pop w) = some s') : WakeInv s' := by
  have hdue := hinv.due
  unfold State.due State.flag at hdue
  obtain ⟨hpos, ⟨fd, rest, hm, hs'⟩ | ⟨hm, hs'⟩⟩ := pop_inv hstep
  · have hw : s'.worker = Function.update s.worker w
        ⟨.popped true, fd⟩ := by rw [hs']; rfl
    have hp := tally_update aboutToPop hw
    have hs := tally_update signalled hw
    simp only [aboutToPop, signalled, hpos] at hp hs
    have hm' : s'.msglist = rest := by rw [hs']
    have hh : s'.half = s.half := by rw [hs']; rfl
    have hbit : s'.testCond = s.testCond := by rw [hs']; rfl
    rw [hm, List.length_cons] at hdue
    refine ⟨?_, ?_⟩
    · unfold State.due State.flag
      rw [hm', hh, hbit]
      omega
    · intro hup v hv
      have hv' := waiting_of_update hw (by simp) hv
      have := hinv.heard (by rwa [hbit] at hup) v hv'
      omega
  · have hw : s'.worker = Function.update s.worker w
        ⟨.popped false, (s.worker w).fd⟩ := by rw [hs']; rfl
    have hs := tally_update signalled hw
    simp only [signalled, hpos] at hs
    have hm' : s'.msglist = [] := by rw [hs']; exact hm
    have hbit : s'.testCond = s.testCond := by rw [hs']; rfl
    refine ⟨?_, ?_⟩
    · rw [hm']
      exact Nat.zero_le _
    · intro hup v hv
      have hv' := waiting_of_update hw (by simp) hv
      have := hinv.heard (by rwa [hbit] at hup) v hv'
      omega

end Steps

/-- Every section keeps the law, as long as no signal is wasted. -/
theorem wakeInv_step [DecidableEq α] {a : Label α n} (hinv : WakeInv s)
    (hexit : s.allExitFlag = false) (hok : WakeNotLost s a)
    (hstep : step s a = some s') : WakeInv s' := by
  cases a with
  | push fd => exact hinv.push hstep
  | notify woken =>
      cases woken with
      | some w => exact hinv.notifySome hstep
      | none => exact wakeInv_notifyNone hok hstep
  | loop w =>
      obtain ⟨hpos, hs'⟩ := loop_inv hstep
      rw [hexit] at hs'
      have hw : s'.worker = Function.update s.worker w
          ⟨.locking, (s.worker w).fd⟩ := by rw [hs']; rfl
      refine hinv.move hw (by rw [hs']; rfl) (by rw [hs']; rfl)
        (by rw [hs']; rfl) ?_ ?_ (by simp) <;>
        simp [aboutToPop, signalled, hpos]
  | enter w => exact hinv.enter hstep
  | wake w rc => exact hinv.wake hok hstep
  | pop w => exact hinv.pop hstep
  | lookup w fd =>
      obtain ⟨⟨got, hpos⟩, -, hs'⟩ := lookup_inv hstep
      have hw : s'.worker = Function.update s.worker w
          ⟨.head, (s.worker w).fd⟩ := by rw [hs']; rfl
      refine hinv.move hw (by rw [hs']; rfl) (by rw [hs']; rfl)
        (by rw [hs']; rfl) ?_ ?_ (by simp) <;>
        simp [aboutToPop, signalled, hpos]
  | leave w =>
      obtain ⟨⟨got, hpos⟩, hs'⟩ := leave_inv hstep
      have hw : s'.worker = Function.update s.worker w
          ⟨.exited, (s.worker w).fd⟩ := by rw [hs']; rfl
      refine hinv.move hw (by rw [hs']; rfl) (by rw [hs']; rfl)
        (by rw [hs']; rfl) ?_ ?_ (by simp) <;>
        simp [aboutToPop, signalled, hpos]
  | exit =>
      rw [exit_inv hstep]
      exact ⟨hinv.due, hinv.heard⟩

/-- In a run that wastes no signal, the law holds until `allExitFlag`
is set. -/
theorem wakeInv_run [DecidableEq α] {invalid : α}
    {labels : List (Label α n)}
    (hok : Meets step WakeNotLost (init invalid n) labels)
    (hrun : run step (init invalid n) labels = some s)
    (hexit : s.allExitFlag = false) : WakeInv s := by
  have hinv := run_inv (I := fun _ s => s.allExitFlag = false → WakeInv s)
    (fun hI hg hs hexit => wakeInv_step (hI (exitFlag_mono hs hexit))
      (exitFlag_mono hs hexit) hg hs)
    (fun _ => wakeInv_init invalid n) hok hrun (h := [])
  exact hinv hexit

/-- No request is left behind in a run that wastes no signal: once
everybody sleeps and nothing is under way, the queue is empty. -/
theorem quiet_msglist_nil {labels : List (Label Int n)}
    {s : State Int n}
    (hrun : run step (init invalidSocket n) labels = some s)
    (hok : Meets step WakeNotLost (init invalidSocket n) labels)
    (hexit : s.allExitFlag = false) (hquiet : s.Quiet) :
    s.msglist = [] := by
  have hdue := (wakeInv_run hok hrun hexit).due
  rw [due_of_quiet hquiet] at hdue
  exact List.eq_nil_of_length_eq_zero (Nat.le_zero.mp hdue)

/-- Two workers, two requests, every signal heard. -/
def servedRun : List (Label Int 2) :=
  [.loop 0, .enter 0, .loop 1, .enter 1, .push 7, .push 8,
    .notify (some 0), .notify (some 1), .wake 0 .signal, .wake 1 .signal,
    .pop 0, .pop 1, .lookup 0 7, .lookup 1 8, .loop 0, .enter 0,
    .loop 1, .enter 1]

theorem servedRun_msglist_nil :
    ∃ s, run step (init invalidSocket 2) servedRun = some s
      ∧ s.Quiet ∧ s.msglist = [] := by
  have hend : ∃ s, run step (init invalidSocket 2) servedRun = some s
      ∧ s.allExitFlag = false ∧ s.Quiet := exists_run_of_any (by decide)
  obtain ⟨s, hrun, hexit, hquiet⟩ := hend
  exact ⟨s, hrun, hquiet,
    quiet_msglist_nil hrun (by decide) hexit hquiet⟩

-- ========================================================= stale lookups

/-- Pushes of `f` in a run. -/
def pushes (f : Int) (labels : List (Label Int n)) : Nat :=
  labels.countP fun a =>
    match a with
    | .push g => g == f
    | _ => false

/-- Lookups of `f` in a run, by any worker. -/
def lookups (f : Int) (labels : List (Label Int n)) : Nat :=
  labels.countP fun a =>
    match a with
    | .lookup _ g => g == f
    | _ => false

/-- With `n` workers, no descriptor is looked up more often than it was
pushed. -/
def LookupsAreQueued (n : Nat) : Prop :=
  ∀ (labels : List (Label Int n)) (s : State Int n),
    run step (init invalidSocket n) labels = some s →
    ∀ f : Int, 0 ≤ f → lookups f labels ≤ pushes f labels

/-- A worker serves 7, sleeps, and wakes without a signal: the queue is
empty, and it looks 7 up again. -/
def staleRun : List (Label Int 1) :=
  [.push 7, .notify none, .loop 0, .enter 0, .pop 0, .lookup 0 7,
    .loop 0, .enter 0, .wake 0 .spurious, .pop 0, .lookup 0 7]

theorem not_lookupsAreQueued : ¬ LookupsAreQueued 1 := by
  intro hall
  have hend : (run step (init invalidSocket 1) staleRun).isSome = true := by
    decide
  obtain ⟨s, hrun⟩ := Option.isSome_iff_exists.mp hend
  have hle := hall staleRun s hrun 7 (by decide)
  exact absurd hle (by decide)

/-- The pops that start no stale lookup: there is something to pop, or
the worker has never popped anything. -/
def PopsSomething (s : State Int n) : Label Int n → Prop
  | .pop w => s.msglist ≠ [] ∨ (s.worker w).fd = invalidSocket
  | _ => True

instance (s : State Int n) (a : Label Int n) :
    Decidable (PopsSomething s a) :=
  match a with
  | .pop w =>
      inferInstanceAs
        (Decidable (s.msglist ≠ [] ∨ (s.worker w).fd = invalidSocket))
  | .push _ => isTrue trivial
  | .notify _ => isTrue trivial
  | .loop _ => isTrue trivial
  | .enter _ => isTrue trivial
  | .wake _ _ => isTrue trivial
  | .lookup _ _ => isTrue trivial
  | .leave _ => isTrue trivial
  | .exit => isTrue trivial

/-- Every lookup of `f`, done or under way, has a push behind it, and
so has every queued `f`. -/
def LookInv (f : Int) (h : List (Label Int n)) (s : State Int n) : Prop :=
  lookups f h + s.tally (holding f) + s.msglist.count f ≤ pushes f h

theorem holding_eq_zero {f : Int} {x : Worker Int}
    (h : ∀ got, x.pos ≠ .popped got) : holding f x = 0 := by
  unfold holding
  split
  · next got hpos => exact absurd hpos (h got)
  · rfl

/-- A label that is neither a push nor a lookup counts for nothing. -/
theorem LookInv.quiet {f : Int} {h : List (Label Int n)}
    {s s' : State Int n} {a : Label Int n} (hinv : LookInv f h s)
    (hpush : ∀ g, a ≠ .push g) (hlook : ∀ w g, a ≠ .lookup w g)
    (hle : s'.tally (holding f) + s'.msglist.count f
      ≤ s.tally (holding f) + s.msglist.count f) :
    LookInv f (h ++ [a]) s' := by
  have hp : pushes f (h ++ [a]) = pushes f h := by
    unfold pushes
    rw [List.countP_append]
    cases a <;> simp_all
  have hl : lookups f (h ++ [a]) = lookups f h := by
    unfold lookups
    rw [List.countP_append]
    cases a <;> simp_all
  unfold LookInv at hinv ⊢
  omega

/-- A worker that moves between two places that hold nothing does not
change what is held. -/
theorem LookInv.move {f : Int} {h : List (Label Int n)}
    {s s' : State Int n} {a : Label Int n} (hinv : LookInv f h s)
    (hpush : ∀ g, a ≠ .push g) (hlook : ∀ w g, a ≠ .lookup w g)
    {w : Fin n} {x : Worker Int}
    (hw : s'.worker = Function.update s.worker w x)
    (hmsg : s'.msglist = s.msglist)
    (hx : holding f x ≤ holding f (s.worker w)) :
    LookInv f (h ++ [a]) s' := by
  have ht := tally_update (holding f) hw
  refine hinv.quiet hpush hlook ?_
  rw [hmsg]
  omega

/-- Every section keeps the count, except a pop that finds nothing for
a worker that has served somebody. -/
theorem lookInv_step {f : Int} (hf : 0 ≤ f) {h : List (Label Int n)}
    {s s' : State Int n} {a : Label Int n} (hinv : LookInv f h s)
    (hok : PopsSomething s a) (hstep : step s a = some s') :
    LookInv f (h ++ [a]) s' := by
  cases a with
  | push g =>
      have hs' := push_inv hstep
      have ht : s'.tally (holding f) = s.tally (holding f) := by
        rw [hs']
        rfl
      have hm : s'.msglist = s.msglist ++ [g] := by rw [hs']
      have hp : pushes f (h ++ [Label.push g])
          = pushes f h + [g].count f := by
        unfold pushes
        rw [List.countP_append]
        simp [List.count_cons]
      have hl : lookups f (h ++ [Label.push g]) = lookups f h := by
        unfold lookups
        rw [List.countP_append]
        simp
      unfold LookInv at hinv ⊢
      rw [hm, ht, hp, hl, List.count_append]
      omega
  | pop w =>
      obtain ⟨hpos, ⟨g, rest, hm, hs'⟩ | ⟨hm, hs'⟩⟩ := pop_inv hstep
      · -- the element moves from the queue into the worker's hand
        have hw : s'.worker = Function.update s.worker w
            ⟨.popped true, g⟩ := by rw [hs']; rfl
        have ht := tally_update (holding f) hw
        have hm' : s'.msglist = rest := by rw [hs']
        have hold : holding f (s.worker w) = 0 := by simp [holding, hpos]
        have hnew : holding f (⟨.popped true, g⟩ : Worker Int)
            = [g].count f := by
          simp [holding, List.count_cons]
        refine hinv.quiet (by simp) (by simp) ?_
        rw [hm', hm, ← List.singleton_append, List.count_append]
        omega
      · -- nothing to pop: the guard makes the hand empty
        have hnever : (s.worker w).fd = invalidSocket := by
          rcases hok with hne | hnever
          · exact absurd hm hne
          · exact hnever
        refine hinv.move (by simp) (by simp) (w := w)
          (x := ⟨.popped false, (s.worker w).fd⟩) (by rw [hs']; rfl)
          (by rw [hs']; rfl) ?_
        have hne : invalidSocket ≠ f := by
          unfold invalidSocket
          omega
        simp [holding, hnever, hne]
  | lookup w g =>
      obtain ⟨⟨got, hpos⟩, hfd, hs'⟩ := lookup_inv hstep
      have hw : s'.worker = Function.update s.worker w
          ⟨.head, (s.worker w).fd⟩ := by rw [hs']; rfl
      have ht := tally_update (holding f) hw
      have hm : s'.msglist = s.msglist := by rw [hs']; rfl
      have hp : pushes f (h ++ [Label.lookup w g]) = pushes f h := by
        unfold pushes
        rw [List.countP_append]
        simp
      have hl : lookups f (h ++ [Label.lookup w g])
          = lookups f h + holding f (s.worker w) := by
        unfold lookups
        rw [List.countP_append]
        simp [holding, hpos, hfd]
      have hhead : holding f (⟨.head, (s.worker w).fd⟩ : Worker Int) = 0 :=
        rfl
      unfold LookInv at hinv ⊢
      rw [hm, hp, hl]
      omega
  | _ =>
      obtain ⟨hm, hw | ⟨w, x, hw, hx⟩⟩ :=
        moves_one hstep (by simp) (by simp)
      · refine hinv.quiet (by simp) (by simp) ?_
        unfold State.tally
        rw [hm, hw]
      · refine hinv.move (by simp) (by simp) hw hm ?_
        rw [holding_eq_zero hx]
        exact Nat.zero_le _

/-- Workers only process what was queued, in every run in which no
worker that has served somebody pops from an empty queue. -/
theorem lookups_le_pushes {labels : List (Label Int n)}
    {s : State Int n}
    (hrun : run step (init invalidSocket n) labels = some s)
    (hok : Meets step PopsSomething (init invalidSocket n) labels)
    {f : Int} (hf : 0 ≤ f) : lookups f labels ≤ pushes f labels := by
  have hinit : LookInv f [] (init invalidSocket n) := by
    have hzero : (init invalidSocket n).tally (holding f) = 0 :=
      Finset.sum_eq_zero fun w _ => rfl
    unfold LookInv
    rw [hzero]
    exact Nat.le_refl _
  have hinv : LookInv f ([] ++ labels) s :=
    run_inv (I := LookInv f)
      (fun hI hg hs => lookInv_step hf hI hg hs) hinit hok hrun
  unfold LookInv at hinv
  rw [List.nil_append] at hinv
  omega

theorem servedRun_lookups_le :
    (run step (init invalidSocket 2) servedRun).isSome = true
      ∧ lookups 7 servedRun ≤ pushes 7 servedRun := by
  have hend : (run step (init invalidSocket 2) servedRun).isSome = true := by
    decide
  obtain ⟨s, hrun⟩ := Option.isSome_iff_exists.mp hend
  exact ⟨hend, lookups_le_pushes hrun (by decide) (by decide)⟩

end CorrectGps.CclientManager
