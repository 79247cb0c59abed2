/-
Mutual exclusion and freedom from deadlock for the mutexes of
`CclientManager`, and the atomicity of its critical sections.

# The invariant

Who holds a mutex can be read off where the threads are, so no two are
in sections of one mutex. Inside `mtx4cond` nothing else moves
`test_cond`: it is still true when the main thread signals.

# No nesting

No thread locks a second mutex while it holds one, so whoever holds a
mutex is never held up by another, and gives it back within three steps
of its own.

# Sections are atomic

`Shows` relates a state to one of the wake-up protocol of
CclientManager.lean, where a section is one label. Each section is
performed there when its last access to the shared data is due: the
signal for `notify`, the test for `enter` and `wake`. Between the test
and the assignment, and between the assignment and the signal, the two
`test_cond` differ, but only the holder of `mtx4cond` could see that.
-/
import CorrectGps.Locks
import CorrectGps.Lib.Mutex

namespace CorrectGps.Locks

open Lib

variable {α : Type} {n : Nat} {s s' : State α n} {w : Fin n} {m : Mutex}

-- ============================================================ positions

theorem MainPos.enters_held {p q : MainPos α}
    (h : p.enters = some (m, q)) : p.held = none ∧ q.held = some m := by
  unfold MainPos.enters at h
  split at h
  all_goals cases h
  all_goals exact ⟨rfl, rfl⟩

theorem Pos.enters_held {p q : Pos} (h : p.enters = some (m, q)) :
    p.held = none ∧ q.held = some m := by
  unfold Pos.enters at h
  split at h
  all_goals cases h
  all_goals exact ⟨rfl, rfl⟩

theorem MainPos.leaves_held {p q : MainPos α}
    (h : p.leaves = some (m, q)) : p.held = some m ∧ q.held = none := by
  unfold MainPos.leaves at h
  split at h
  all_goals cases h
  all_goals exact ⟨rfl, rfl⟩

theorem Pos.leaves_held {p q : Pos} (h : p.leaves = some (m, q)) :
    p.held = some m ∧ q.held = none := by
  unfold Pos.leaves at h
  split at h
  all_goals cases h
  all_goals exact ⟨rfl, rfl⟩

-- ============================================================== holding

/-- What the threads hold after the main thread has moved. -/
theorem held_main (hw : s'.worker = s.worker) :
    s'.held = Function.update s.held .main s'.main.held := by
  funext t
  cases t with
  | main => simp [State.held]
  | worker v => simp [State.held, hw]

/-- What they hold after worker `w` has moved. -/
theorem held_worker {x : Worker α} (hm : s'.main = s.main)
    (hw : s'.worker = Function.update s.worker w x) :
    s'.held = Function.update s.held (.worker w) x.pos.held := by
  funext t
  cases t with
  | main => simp [State.held, hm]
  | worker v =>
      by_cases hv : v = w
      · subst hv
        simp [State.held, hw]
      · have hne : Thread.worker v ≠ .worker w := by simpa using hv
        simp [State.held, hw, hv]

theorem held_moveTo (s : State α n) (w : Fin n) (p : Pos) :
    (s.moveTo w p).held = Function.update s.held (.worker w) p.held :=
  held_worker (x := ⟨p, (s.worker w).fd⟩) rfl rfl

/-- A step locks a mutex that is free, for a thread that holds none, or
unlocks one that its thread holds, or leaves all of it alone. -/
inductive Holding (s s' : State α n) : Prop
  | same (holder : s'.holder = s.holder) (held : s'.held = s.held)
  | lock (t : Thread n) (m : Mutex) (free : s.holder m = none)
      (none : s.held t = none)
      (holder : s'.holder = Function.update s.holder m (some t))
      (held : s'.held = Function.update s.held t (some m))
  | unlock (t : Thread n) (m : Mutex) (mine : s.held t = some m)
      (holder : s'.holder = Function.update s.holder m Option.none)
      (held : s'.held = Function.update s.held t Option.none)

/-- The main thread moves inside or outside the sections. -/
theorem Holding.of_main (hholder : s'.holder = s.holder)
    (hw : s'.worker = s.worker) (hm : s'.main.held = s.main.held) :
    Holding s s' := by
  refine .same hholder ?_
  rw [held_main hw, hm]
  exact Function.update_eq_self _ _

/-- A worker does. -/
theorem Holding.of_worker {x : Worker α} (hholder : s'.holder = s.holder)
    (hm : s'.main = s.main) (hw : s'.worker = Function.update s.worker w x)
    (hx : x.pos.held = (s.worker w).pos.held) : Holding s s' := by
  refine .same hholder ?_
  rw [held_worker hm hw, hx]
  exact Function.update_eq_self _ _

variable [DecidableEq α]

/-- What each label does to the mutexes. -/
theorem holding_step {a : Label α n} (h : step s a = some s') :
    Holding s s' := by
  cases a with
  | callMap =>
      obtain ⟨hm, rfl⟩ := callMap_inv h
      exact .of_main rfl rfl (by rw [hm]; rfl)
  | callNotify fd =>
      obtain ⟨hm, rfl⟩ := callNotify_inv h
      exact .of_main rfl rfl (by rw [hm]; rfl)
  | mainLock =>
      obtain ⟨m, p, hp, hfree, rfl⟩ := mainLock_inv h
      obtain ⟨hnone, hsome⟩ := MainPos.enters_held hp
      exact .lock .main m hfree hnone rfl (hsome ▸ held_main rfl)
  | mainUnlock =>
      obtain ⟨m, p, hp, rfl⟩ := mainUnlock_inv h
      obtain ⟨hsome, hnone⟩ := MainPos.leaves_held hp
      exact .unlock .main m hsome rfl (hnone ▸ held_main rfl)
  | push fd =>
      obtain ⟨hm, rfl⟩ := push_inv h
      exact .of_main rfl rfl (by rw [hm]; rfl)
  | set =>
      obtain ⟨hm, rfl⟩ := set_inv h
      exact .of_main rfl rfl (by rw [hm]; rfl)
  | signal woken =>
      cases woken with
      | some w =>
          obtain ⟨hm, hp, hs'⟩ := signal_some_inv h
          have hworker : s'.worker = (s.moveTo w (.waiting true)).worker := by
            rw [hs']
          have hmain : s'.main.held = s.held .main := by
            rw [hs', State.held, hm]
            rfl
          have hheld : (Pos.waiting true).held = s.held (.worker w) := by
            rw [State.held, hp]
            rfl
          refine .same (by rw [hs']; rfl) ?_
          rw [held_main hworker, held_moveTo, hheld, hmain,
            Function.update_eq_self, Function.update_eq_self]
      | none =>
          obtain ⟨hm, -, rfl⟩ := signal_none_inv h
          exact .of_main rfl rfl (by rw [hm]; rfl)
  | lock w =>
      obtain ⟨m, p, hp, hfree, rfl⟩ := lock_inv h
      obtain ⟨hnone, hsome⟩ := Pos.enters_held hp
      refine .lock (.worker w) m hfree hnone rfl ?_
      rw [held_moveTo, hsome]
      rfl
  | unlock w =>
      obtain ⟨m, p, hp, rfl⟩ := unlock_inv h
      obtain ⟨hsome, hnone⟩ := Pos.leaves_held hp
      refine .unlock (.worker w) m hsome rfl ?_
      rw [held_moveTo, hnone]
      rfl
  | loop w =>
      obtain ⟨hp, rfl⟩ := loop_inv h
      refine .of_worker (w := w) rfl rfl rfl ?_
      rw [hp]
      cases s.allExitFlag <;> rfl
  | test w rc =>
      obtain ⟨r, hp, rfl⟩ := test_inv h
      have hheld : (s.worker w).pos.held = some .mtx4cond := by
        rcases hp with ⟨hp, -, -⟩ | ⟨b, may, hp, -⟩
        · rw [hp]
          rfl
        · rw [hp]
          rfl
      rcases testWait_cases s w r with ⟨-, -, -, hs'⟩ | ⟨-, hs'⟩
      · rw [hs']
        exact .unlock (.worker w) .mtx4cond hheld rfl (held_moveTo ..)
      · rw [hs']
        exact .of_worker (w := w) rfl rfl rfl hheld.symm
  | wake w rc =>
      obtain ⟨b, may, hp, hfree, rfl⟩ := wake_inv h
      refine .lock (.worker w) .mtx4cond hfree ?_ rfl (held_moveTo ..)
      show (s.worker w).pos.held = none
      rw [hp]
      rfl
  | clear w =>
      obtain ⟨hp, rfl⟩ := clear_inv h
      exact .of_worker (w := w) rfl rfl rfl (by rw [hp]; rfl)
  | pop w =>
      obtain ⟨hp, ⟨fd, rest, -, rfl⟩ | ⟨-, rfl⟩⟩ := pop_inv h
      · exact .of_worker (w := w) rfl rfl rfl (by rw [hp]; rfl)
      · exact .of_worker (w := w) rfl rfl rfl (by rw [hp]; rfl)
  | decide w fd =>
      obtain ⟨⟨got, hp⟩, -, -, rfl⟩ := decide_inv h
      exact .of_worker (w := w) rfl rfl rfl (by rw [hp]; rfl)
  | leave w =>
      obtain ⟨⟨got, hp⟩, -, rfl⟩ := leave_inv h
      exact .of_worker (w := w) rfl rfl rfl (by rw [hp]; rfl)
  | serve w pc =>
      obtain ⟨hp, rfl⟩ := serve_inv h
      exact .of_worker (w := w) rfl rfl rfl (by rw [hp]; rfl)
  | exit =>
      have hs' := exit_inv h
      subst hs'
      exact .of_main rfl rfl rfl

-- =========================================================== invariant

/-- The threads' places say who holds what, and the flag is set when the
main thread signals. -/
structure Inv (s : State α n) : Prop where
  agrees : Agrees s.holder fun t m => s.held t = some m
  waking : s.main = .waking → s.testCond = true

omit [DecidableEq α] in
theorem inv_init (invalid : α) (n : Nat) : Inv (init invalid n) where
  agrees := fun m t => by
    cases t <;> simp [init, State.held, MainPos.held, Pos.held]
  waking := fun h => by cases h

omit [DecidableEq α] in
/-- Mutual exclusion. -/
theorem Inv.excl (hi : Inv s) {t t' : Thread n} (ht : s.held t = some m)
    (ht' : s.held t' = some m) : t = t' :=
  hi.agrees.excl ht ht'

omit [DecidableEq α] in
/-- The table of holders follows the threads. -/
theorem Holding.agrees (h : Holding s s')
    (ha : Agrees s.holder fun t m => s.held t = some m) :
    Agrees s'.holder fun t m => s'.held t = some m := by
  cases h with
  | same holder held =>
      rw [holder, held]
      exact ha
  | lock t m free none holder held =>
      rw [holder, held]
      refine ha.acquire free fun u k => ?_
      by_cases hu : u = t
      · subst hu
        simp [none, eq_comm]
      · simp [hu]
  | unlock t m mine holder held =>
      rw [holder, held]
      refine ha.release mine fun u k => ?_
      by_cases hu : u = t
      · subst hu
        simp [mine, eq_comm]
      · simp [hu]

/-- What a step leaves alone: `msglist` unless it is a push or a pop,
`test_cond` unless it is an assignment, the main thread's place unless it
is the main thread's, and a set exit flag. -/
structure Frame (s : State α n) (a : Label α n) (s' : State α n) : Prop where
  msglist : (∀ fd, a ≠ .push fd) → (∀ w, a ≠ .pop w) →
    s'.msglist = s.msglist
  testCond : a ≠ .set → (∀ w, a ≠ .clear w) → s'.testCond = s.testCond
  main : a.actor ≠ some .main → s'.main = s.main
  exitFlag : s.allExitFlag = true → s'.allExitFlag = true

theorem frame_step {a : Label α n} (h : step s a = some s') :
    Frame s a s' := by
  cases a with
  | callMap =>
      obtain ⟨-, rfl⟩ := callMap_inv h
      exact ⟨fun _ _ => rfl, fun _ _ => rfl, fun ha => absurd rfl ha, id⟩
  | callNotify fd =>
      obtain ⟨-, rfl⟩ := callNotify_inv h
      exact ⟨fun _ _ => rfl, fun _ _ => rfl, fun ha => absurd rfl ha, id⟩
  | mainLock =>
      obtain ⟨m, p, -, -, rfl⟩ := mainLock_inv h
      exact ⟨fun _ _ => rfl, fun _ _ => rfl, fun ha => absurd rfl ha, id⟩
  | mainUnlock =>
      obtain ⟨m, p, -, rfl⟩ := mainUnlock_inv h
      exact ⟨fun _ _ => rfl, fun _ _ => rfl, fun ha => absurd rfl ha, id⟩
  | push fd =>
      obtain ⟨-, rfl⟩ := push_inv h
      exact ⟨fun ha _ => absurd rfl (ha fd), fun _ _ => rfl,
        fun ha => absurd rfl ha, id⟩
  | set =>
      obtain ⟨-, rfl⟩ := set_inv h
      exact ⟨fun _ _ => rfl, fun ha _ => absurd rfl ha,
        fun ha => absurd rfl ha, id⟩
  | signal woken =>
      cases woken with
      | some w =>
          obtain ⟨-, -, rfl⟩ := signal_some_inv h
          exact ⟨fun _ _ => rfl, fun _ _ => rfl, fun ha => absurd rfl ha, id⟩
      | none =>
          obtain ⟨-, -, rfl⟩ := signal_none_inv h
          exact ⟨fun _ _ => rfl, fun _ _ => rfl, fun ha => absurd rfl ha, id⟩
  | lock w =>
      obtain ⟨m, p, -, -, rfl⟩ := lock_inv h
      exact ⟨fun _ _ => rfl, fun _ _ => rfl, fun _ => rfl, id⟩
  | unlock w =>
      obtain ⟨m, p, -, rfl⟩ := unlock_inv h
      exact ⟨fun _ _ => rfl, fun _ _ => rfl, fun _ => rfl, id⟩
  | loop w =>
      obtain ⟨-, rfl⟩ := loop_inv h
      exact ⟨fun _ _ => rfl, fun _ _ => rfl, fun _ => rfl, id⟩
  | test w rc =>
      obtain ⟨r, -, rfl⟩ := test_inv h
      rcases testWait_cases s w r with ⟨-, -, -, hs'⟩ | ⟨-, hs'⟩
      · rw [hs']
        exact ⟨fun _ _ => rfl, fun _ _ => rfl, fun _ => rfl, id⟩
      · rw [hs']
        exact ⟨fun _ _ => rfl, fun _ _ => rfl, fun _ => rfl, id⟩
  | wake w rc =>
      obtain ⟨b, may, -, -, rfl⟩ := wake_inv h
      exact ⟨fun _ _ => rfl, fun _ _ => rfl, fun _ => rfl, id⟩
  | clear w =>
      obtain ⟨-, rfl⟩ := clear_inv h
      exact ⟨fun _ _ => rfl, fun _ ha => absurd rfl (ha w), fun _ => rfl, id⟩
  | pop w =>
      obtain ⟨-, ⟨fd, rest, -, rfl⟩ | ⟨-, rfl⟩⟩ := pop_inv h
      · exact ⟨fun _ ha => absurd rfl (ha w), fun _ _ => rfl,
          fun _ => rfl, id⟩
      · exact ⟨fun _ _ => rfl, fun _ _ => rfl, fun _ => rfl, id⟩
  | decide w fd =>
      obtain ⟨-, -, -, rfl⟩ := decide_inv h
      exact ⟨fun _ _ => rfl, fun _ _ => rfl, fun _ => rfl, id⟩
  | leave w =>
      obtain ⟨-, -, rfl⟩ := leave_inv h
      exact ⟨fun _ _ => rfl, fun _ _ => rfl, fun _ => rfl, id⟩
  | serve w pc =>
      obtain ⟨-, rfl⟩ := serve_inv h
      exact ⟨fun _ _ => rfl, fun _ _ => rfl, fun _ => rfl, id⟩
  | exit =>
      have hs' := exit_inv h
      subst hs'
      exact ⟨fun _ _ => rfl, fun _ _ => rfl, fun _ => rfl, fun _ => rfl⟩

/-- Only its own assignment leads the main thread to the signal. -/
theorem waking_step {a : Label α n} (h : step s a = some s')
    (ha : a.actor = some .main) (hw : s'.main = .waking) : a = .set := by
  cases a with
  | set => rfl
  | callMap =>
      obtain ⟨-, rfl⟩ := callMap_inv h
      cases hw
  | callNotify fd =>
      obtain ⟨-, rfl⟩ := callNotify_inv h
      cases hw
  | push fd =>
      obtain ⟨-, rfl⟩ := push_inv h
      cases hw
  | mainLock =>
      obtain ⟨m, p, hp, -, rfl⟩ := mainLock_inv h
      change p = .waking at hw
      subst hw
      unfold MainPos.enters at hp
      split at hp <;> cases hp
  | mainUnlock =>
      obtain ⟨m, p, hp, rfl⟩ := mainUnlock_inv h
      change p = .waking at hw
      subst hw
      unfold MainPos.leaves at hp
      split at hp <;> cases hp
  | signal woken =>
      cases woken with
      | some w =>
          obtain ⟨-, -, rfl⟩ := signal_some_inv h
          cases hw
      | none =>
          obtain ⟨-, -, rfl⟩ := signal_none_inv h
          cases hw
  | _ => cases ha

theorem Inv.step {a : Label α n} (hi : Inv s) (h : step s a = some s') :
    Inv s' := by
  refine ⟨(holding_step h).agrees hi.agrees, fun hw => ?_⟩
  by_cases ha : a.actor = some .main
  · have hset := waking_step h ha hw
    subst hset
    obtain ⟨-, rfl⟩ := set_inv h
    rfl
  · have hf := frame_step h
    have hmain : s.main = .waking := (hf.main ha).symm.trans hw
    rw [hf.testCond _ _]
    · exact hi.waking hmain
    · rintro rfl
      exact ha rfl
    · -- a worker that clears the flag is in the main thread's section
      rintro w rfl
      have hp := (clear_inv h).1
      have hheld : s.held .main = some .mtx4cond := by
        rw [State.held, hmain]
        rfl
      have hworker : s.held (.worker w) = some .mtx4cond := by
        rw [State.held, hp]
        rfl
      cases hi.excl hheld hworker

theorem inv_run {invalid : α} {as : List (Label α n)}
    (h : run step (init invalid n) as = some s) : Inv s :=
  run_inv (I := fun _ s => Inv s) (g := fun _ _ => True)
    (fun hi _ hs => hi.step hs) (inv_init invalid n)
    (meets_of_forall (fun _ _ => trivial) as _) h (h := [])

-- ============================================================= progress

/-- How many steps the main thread makes before it unlocks. -/
def MainPos.left : MainPos α → Nat
  | .mapped => 1
  | .pushing _ => 2
  | .pushed => 1
  | .setting => 3
  | .waking => 2
  | .woken => 1
  | _ => 0

/-- How many steps a worker makes before it unlocks. -/
def Pos.left : Pos → Nat
  | .testing => 3
  | .returned _ _ _ => 3
  | .clearing => 2
  | .cleared => 1
  | .popping => 2
  | .popped _ => 1
  | .serving => 2
  | .served _ => 1
  | .erasing => 1
  | _ => 0

/-- How many steps thread `t` makes before it unlocks. -/
def State.left (s : State α n) : Thread n → Nat
  | .main => s.main.left
  | .worker w => (s.worker w).pos.left

omit [DecidableEq α] in
theorem left_le (s : State α n) (t : Thread n) : s.left t ≤ 3 := by
  cases t with
  | main =>
      show s.main.left ≤ 3
      cases s.main <;> simp [MainPos.left]
  | worker w =>
      show (s.worker w).pos.left ≤ 3
      cases (s.worker w).pos <;> simp [Pos.left]

omit [DecidableEq α] in
/-- No thread wants a mutex while it holds one. -/
theorem held_of_wants {t : Thread n} (h : s.wants t = some m) :
    s.held t = none := by
  cases t with
  | main =>
      obtain ⟨⟨k, p⟩, hp, -⟩ := Option.map_eq_some_iff.mp h
      exact (MainPos.enters_held hp).1
  | worker w =>
      obtain ⟨⟨k, p⟩, hp, -⟩ := Option.map_eq_some_iff.mp h
      exact (Pos.enters_held hp).1

omit [DecidableEq α] in
/-- A worker's move changes nothing for the others. -/
theorem put_other {x : Worker α} {v : Thread n} (hv : v ≠ .worker w) :
    (s.put w x).wants v = s.wants v := by
  cases v with
  | main => rfl
  | worker v =>
      have hne : v ≠ w := fun h => hv (by rw [h])
      simp [State.wants, State.put, hne]

/-- A step of the thread that holds `m` towards its unlock. -/
structure Frees (s : State α n) (m : Mutex) (u : Thread n) (a : Label α n)
    (s' : State α n) : Prop where
  step : step s a = some s'
  actor : a.actor = some u
  left : s'.left u < s.left u
  others : ∀ v, v ≠ u → s'.wants v = s.wants v
  still : s'.holder m = none ∨ s'.held u = some m

/-- The main thread is never held up in a section. -/
theorem main_frees (hu : s.held .main = some m) :
    ∃ a s', Frees s m .main a s' := by
  have hheld : s.main.held = some m := hu
  have hunlock : ∀ p, s.main.leaves = some (m, p) →
      p.left < s.main.left → ∃ a s', Frees s m .main a s' := by
    intro p hp hlt
    refine ⟨.mainUnlock, { s.hold m none with main := p }, ?_, rfl, hlt,
      ?_, Or.inl (Function.update_self ..)⟩
    · simp [Locks.step, hp]
    · intro v hv
      cases v with
      | main => exact absurd rfl hv
      | worker v => rfl
  have hmove : ∀ a s₁, Locks.step s a = some s₁ → a.actor = some .main →
      (∀ w, (s₁.worker w).pos.enters = (s.worker w).pos.enters) →
      s₁.main.held = s.main.held → s₁.main.left < s.main.left →
      ∃ a s', Frees s m .main a s' := by
    intro a s₁ hstep hactor hothers hsame hlt
    refine ⟨a, s₁, hstep, hactor, hlt, ?_, Or.inr (hsame.trans hheld)⟩
    intro v hv
    cases v with
    | main => exact absurd rfl hv
    | worker v => simp only [State.wants, hothers]
  cases hm : s.main with
  | outside => simp [hm, MainPos.held] at hheld
  | mapping => simp [hm, MainPos.held] at hheld
  | queueing fd => simp [hm, MainPos.held] at hheld
  | signalling => simp [hm, MainPos.held] at hheld
  | mapped =>
      rw [hm] at hheld
      cases hheld
      exact hunlock .outside (by rw [hm]; rfl)
        (by rw [hm]; simp [MainPos.left])
  | pushed =>
      rw [hm] at hheld
      cases hheld
      exact hunlock .signalling (by rw [hm]; rfl)
        (by rw [hm]; simp [MainPos.left])
  | woken =>
      rw [hm] at hheld
      cases hheld
      exact hunlock .outside (by rw [hm]; rfl)
        (by rw [hm]; simp [MainPos.left])
  | pushing fd =>
      exact hmove (.push fd)
        { s with msglist := s.msglist ++ [fd], main := .pushed }
        (by simp [Locks.step, hm]) rfl (fun _ => rfl) (by rw [hm]; rfl)
        (by rw [hm]; simp [MainPos.left])
  | setting =>
      exact hmove .set { s with testCond := true, main := .waking }
        (by simp [Locks.step, hm]) rfl (fun _ => rfl) (by rw [hm]; rfl)
        (by rw [hm]; simp [MainPos.left])
  | waking =>
      by_cases hw : ∃ w, (s.worker w).pos = .waiting false
      · obtain ⟨w, hp⟩ := hw
        refine hmove (.signal (some w))
          { s.moveTo w (.waiting true) with main := .woken }
          (by simp [Locks.step, hm, hp]) rfl (fun v => ?_)
          (by rw [hm]; rfl) (by rw [hm]; simp [MainPos.left])
        by_cases hv : v = w
        · subst hv
          simp [State.moveTo, State.put, hp, Pos.enters]
        · simp [State.moveTo, State.put, hv]
      · exact hmove (.signal none) { s with main := .woken }
          (by simpa [Locks.step, hm] using hw) rfl (fun _ => rfl)
          (by rw [hm]; rfl) (by rw [hm]; simp [MainPos.left])

/-- Nor is a worker. -/
theorem worker_frees (hu : s.held (.worker w) = some m) :
    ∃ a s', Frees s m (.worker w) a s' := by
  have hheld : (s.worker w).pos.held = some m := hu
  have hunlock : ∀ p, (s.worker w).pos.leaves = some (m, p) →
      p.left < (s.worker w).pos.left →
      ∃ a s', Frees s m (.worker w) a s' := by
    intro p hp hlt
    refine ⟨.unlock w, (s.hold m none).moveTo w p, ?_, rfl, ?_,
      fun v hv => put_other hv, Or.inl (Function.update_self ..)⟩
    · simp [Locks.step, hp]
    · simpa [State.left, State.moveTo, State.put] using hlt
  have hmove : ∀ a s₁ x, Locks.step s a = some s₁ →
      a.actor = some (.worker w) → s₁.main = s.main →
      s₁.worker = Function.update s.worker w x →
      x.pos.held = (s.worker w).pos.held →
      x.pos.left < (s.worker w).pos.left →
      ∃ a s', Frees s m (.worker w) a s' := by
    intro a s₁ x hstep hactor hmain hworker hsame hlt
    refine ⟨a, s₁, hstep, hactor, ?_, fun v hv => ?_, Or.inr ?_⟩
    · simpa [State.left, hworker] using hlt
    · have hput := put_other (s := s) (x := x) hv
      cases v with
      | main => simp [State.wants, hmain]
      | worker v => simpa [State.wants, hworker, State.put] using hput
    · simpa [State.held, hworker, hsame] using hheld
  have htest : ∀ rc r, Locks.step s (.test w rc) = some (s.testWait w r) →
      (s.worker w).pos.left = 3 → m = .mtx4cond →
      ∃ a s', Frees s m (.worker w) a s' := by
    intro rc r hstep hleft hm
    rcases testWait_cases s w r with ⟨-, -, -, hs'⟩ | ⟨-, hs'⟩
    · rw [hs'] at hstep
      refine ⟨.test w rc, _, hstep, rfl, ?_, fun v hv => put_other hv,
        Or.inl ?_⟩
      · rw [State.left, State.left, hleft]
        simp [State.moveTo, State.put, Pos.left]
      · show Function.update s.holder .mtx4cond none m = none
        rw [hm, Function.update_self]
    · rw [hs'] at hstep
      exact hmove (.test w rc) (s.moveTo w .clearing)
        ⟨.clearing, (s.worker w).fd⟩ hstep rfl rfl rfl
        (by rw [hheld, hm]; rfl) (by rw [hleft]; simp [Pos.left])
  cases hp : (s.worker w).pos with
  | head => simp [hp, Pos.held] at hheld
  | locking => simp [hp, Pos.held] at hheld
  | waiting b => simp [hp, Pos.held] at hheld
  | queueing => simp [hp, Pos.held] at hheld
  | deciding got => simp [hp, Pos.held] at hheld
  | finding => simp [hp, Pos.held] at hheld
  | killing => simp [hp, Pos.held] at hheld
  | exited => simp [hp, Pos.held] at hheld
  | testing =>
      rw [hp] at hheld
      cases hheld
      exact htest none .timeout (by simp [Locks.step, hp])
        (by rw [hp]; rfl) rfl
  | returned b r may =>
      rw [hp] at hheld
      cases hheld
      exact htest (some r) r (by simp [Locks.step, hp])
        (by rw [hp]; rfl) rfl
  | clearing =>
      exact hmove (.clear w) { s.moveTo w .cleared with testCond := false }
        ⟨.cleared, (s.worker w).fd⟩ (by simp [Locks.step, hp]) rfl rfl rfl
        (by rw [hp]; rfl) (by rw [hp]; simp [Pos.left])
  | cleared =>
      rw [hp] at hheld
      cases hheld
      exact hunlock .queueing (by rw [hp]; rfl)
        (by rw [hp]; simp [Pos.left])
  | popping =>
      cases hq : s.msglist with
      | nil =>
          exact hmove (.pop w) (s.moveTo w (.popped false))
            ⟨.popped false, (s.worker w).fd⟩ (by simp [Locks.step, hp, hq])
            rfl rfl rfl (by rw [hp]; rfl) (by rw [hp]; simp [Pos.left])
      | cons fd rest =>
          exact hmove (.pop w)
            { s.put w ⟨.popped true, fd⟩ with msglist := rest }
            ⟨.popped true, fd⟩ (by simp [Locks.step, hp, hq])
            rfl rfl rfl (by rw [hp]; rfl) (by rw [hp]; simp [Pos.left])
  | popped got =>
      rw [hp] at hheld
      cases hheld
      exact hunlock (.deciding got) (by rw [hp]; rfl)
        (by rw [hp]; simp [Pos.left])
  | serving =>
      exact hmove (.serve w false) (s.moveTo w (.served false))
        ⟨.served false, (s.worker w).fd⟩ (by simp [Locks.step, hp]) rfl
        rfl rfl (by rw [hp]; rfl) (by rw [hp]; simp [Pos.left])
  | served pc =>
      rw [hp] at hheld
      cases hheld
      cases pc with
      | true =>
          exact hunlock .killing (by rw [hp]; rfl)
            (by rw [hp]; simp [Pos.left])
      | false =>
          exact hunlock .head (by rw [hp]; rfl)
            (by rw [hp]; simp [Pos.left])
  | erasing =>
      rw [hp] at hheld
      cases hheld
      exact hunlock .head (by rw [hp]; rfl) (by rw [hp]; simp [Pos.left])

/-- Whoever holds a mutex can make a step towards giving it back. -/
theorem holder_frees {u : Thread n} (hu : s.held u = some m) :
    ∃ a s', Frees s m u a s' := by
  cases u with
  | main => exact main_frees hu
  | worker w => exact worker_frees hu

/-- It does so by at most as many steps of its own as it is away from its
unlock. -/
theorem holder_releases {u : Thread n} (hu : s.held u = some m) :
    ∃ bs s', run step s bs = some s' ∧ bs.length ≤ s.left u
      ∧ (∀ b ∈ bs, b.actor = some u) ∧ s'.holder m = none
      ∧ ∀ v, v ≠ u → s'.wants v = s.wants v := by
  induction hk : s.left u using Nat.strong_induction_on generalizing s with
  | h k ih =>
    obtain ⟨a, s₁, hstep, hactor, hleft, hothers, hstill⟩ := holder_frees hu
    rw [hk] at hleft
    rcases hstill with hfree | hheld
    · refine ⟨[a], s₁, ?_, ?_, ?_, hfree, hothers⟩
      · simp [run, hstep]
      · simp only [List.length_singleton]
        omega
      · intro b hb
        rw [List.mem_singleton.mp hb]
        exact hactor
    · obtain ⟨bs, s', hrun, hlen, hall, hfree, hrest⟩ :=
        ih _ hleft hheld rfl
      refine ⟨a :: bs, s', ?_, ?_, ?_, hfree, ?_⟩
      · simpa [run, hstep] using hrun
      · simp only [List.length_cons]
        omega
      · intro b hb
        rcases List.mem_cons.mp hb with hb | hb
        · rw [hb]
          exact hactor
        · exact hall b hb
      · intro v hv
        rw [hrest v hv, hothers v hv]

-- ====================================================== the main results

/-- What the mutexes protect is changed only by the thread that holds
them, and no other thread is in a section of the same mutex then. -/
theorem changes_protected {invalid : α} {as : List (Label α n)}
    {a : Label α n} (hrun : run step (init invalid n) as = some s)
    (h : step s a = some s') :
    (s'.msglist ≠ s.msglist → ∃ t, a.actor = some t
        ∧ ∀ u, s.held u = some .mtx4msgqueue ↔ u = t)
      ∧ (s'.testCond ≠ s.testCond → ∃ t, a.actor = some t
        ∧ ∀ u, s.held u = some .mtx4cond ↔ u = t) := by
  have hi : Inv s := inv_run hrun
  have honly : ∀ {t m}, s.held t = some m →
      ∀ u, s.held u = some m ↔ u = t := by
    intro t m ht u
    constructor
    · exact fun hu => hi.excl hu ht
    · rintro rfl
      exact ht
  have hf := frame_step h
  constructor
  · intro hne
    by_cases hpush : ∃ fd, a = .push fd
    · obtain ⟨fd, rfl⟩ := hpush
      refine ⟨.main, rfl, honly ?_⟩
      rw [State.held, (push_inv h).1]
      rfl
    · by_cases hpop : ∃ w, a = .pop w
      · obtain ⟨w, rfl⟩ := hpop
        refine ⟨.worker w, rfl, honly ?_⟩
        rw [State.held, (pop_inv h).1]
        rfl
      · exact absurd (hf.msglist (not_exists.mp hpush) (not_exists.mp hpop))
          hne
  · intro hne
    by_cases hset : a = .set
    · subst hset
      refine ⟨.main, rfl, honly ?_⟩
      rw [State.held, (set_inv h).1]
      rfl
    · by_cases hclear : ∃ w, a = .clear w
      · obtain ⟨w, rfl⟩ := hclear
        refine ⟨.worker w, rfl, honly ?_⟩
        rw [State.held, (clear_inv h).1]
        rfl
      · exact absurd (hf.testCond hset (not_exists.mp hclear)) hne

/-- Worker `v` waits, the main thread is about to signal it, and `w`
is kept from the section. -/
def contendedRun (v w : Fin n) : List (Label Int n) :=
  [.loop v, .lock v, .test v none, .callNotify 7, .mainLock, .push 7,
    .mainUnlock, .mainLock, .set, .loop w]

theorem contended_protected :
    ∃ s s', run step (init (-1) 2) ((contendedRun 0 1).take 5) = some s
      ∧ step s (.push 7) = some s' ∧ s'.msglist ≠ s.msglist
      ∧ ∃ t, (Label.push 7 : Label Int 2).actor = some t
        ∧ ∀ u, s.held u = some .mtx4msgqueue ↔ u = t := by
  have hend : ∃ s, run step (init (-1) 2) ((contendedRun 0 1).take 5) = some s
      ∧ (step s (.push 7)).any (fun s' => s'.msglist != s.msglist) = true :=
    exists_run_of_any (by decide)
  obtain ⟨s, hrun, hany⟩ := hend
  obtain ⟨s', hs', hne⟩ := (Option.any_eq_true ..).mp hany
  have hchanged : s'.msglist ≠ s.msglist := by simpa using hne
  exact ⟨s, s', hrun, hs', hchanged, (changes_protected hrun hs').1 hchanged⟩

/-- No deadlock: a thread that is about to lock can do so after at most
three steps, all of them steps of the thread that holds the mutex. -/
theorem lock_granted {invalid : α} {as : List (Label α n)} {t : Thread n}
    (hrun : run step (init invalid n) as = some s)
    (ht : s.wants t = some m) :
    ∃ bs s', run step s bs = some s' ∧ bs.length ≤ 3
      ∧ (∀ b ∈ bs, ∃ u, s.holder m = some u ∧ b.actor = some u)
      ∧ s'.wants t = some m ∧ s'.holder m = none := by
  have hi : Inv s := inv_run hrun
  cases hm : s.holder m with
  | none => exact ⟨[], s, rfl, by simp, by simp, ht, hm⟩
  | some u =>
      have hu : s.held u = some m := (hi.agrees m u).mp hm
      obtain ⟨bs, s', hbs, hlen, hall, hfree, hothers⟩ := holder_releases hu
      refine ⟨bs, s', hbs, hlen.trans (left_le s u), fun b hb => ?_, ?_,
        hfree⟩
      · exact ⟨u, rfl, hall b hb⟩
      · -- the thread that waits is not the one that holds
        have hne : t ≠ u := by
          rintro rfl
          rw [held_of_wants ht] at hu
          cases hu
        rw [hothers t hne, ht]

theorem contended_granted :
    ∃ s, run step (init (-1) 2) (contendedRun 0 1) = some s
      ∧ s.holder .mtx4cond = some .main
      ∧ ∃ bs s', run step s bs = some s' ∧ bs.length ≤ 3
        ∧ (∀ b ∈ bs, ∃ u, s.holder .mtx4cond = some u
          ∧ b.actor = some u)
        ∧ s'.wants (.worker 1) = some .mtx4cond
        ∧ s'.holder .mtx4cond = none := by
  have hend : ∃ s, run step (init (-1) 2) (contendedRun 0 1) = some s
      ∧ s.holder .mtx4cond = some .main
      ∧ s.wants (.worker 1) = some .mtx4cond := exists_run_of_any (by decide)
  obtain ⟨s, hrun, hmain, hwants⟩ := hend
  exact ⟨s, hrun, hmain, lock_granted hrun hwants⟩

end CorrectGps.Locks
