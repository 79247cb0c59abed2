/-
The critical sections of `CclientManager` are atomic: a run of single
mutex operations is, seen from outside the sections, a run of the
wake-up protocol of CclientManager.lean.

# When a section is performed

The label of a section stands where its outcome is settled: the signal
for the second section of `notificationthreads`, the test of the wait
loop for `enter` and `wake`, the access to `msglist` for `push` and
`pop`. A lookup is settled with the test of `allExitFlag` in front of it.

# What is not seen

Two assignments of `test_cond` are apart from the label of their section:
the main thread's comes before its signal, a worker's after its test.
While one of them is under way the two flags may differ (`Hidden`), and
whoever could see that would have to hold `mtx4cond` as well.
-/
import CorrectGps.Proofs.Locks

namespace CorrectGps.Locks

open Lib

variable {α : Type} {n : Nat} {s s' : State α n}
variable {t : CclientManager.State α n} {w : Fin n}

-- ============================================================ the images

/-- Where the wake-up protocol sees a worker. -/
def Pos.shown : Pos → CclientManager.Pos
  | .head => .head
  | .locking => .locking
  | .testing => .locking
  | .waiting signalled => .waiting signalled
  | .returned signalled _ _ => .waiting signalled
  | .clearing => .cleared
  | .cleared => .cleared
  | .queueing => .cleared
  | .popping => .cleared
  | .popped got => .popped got
  | .deciding got => .popped got
  | .finding => .head
  | .serving => .head
  | .served _ => .head
  | .killing => .head
  | .erasing => .head
  | .exited => .exited

def Worker.shown (x : Worker α) : CclientManager.Worker α :=
  ⟨x.pos.shown, x.fd⟩

/-- Whether the main thread is between its two sections, or has not yet
performed the second one. -/
def MainPos.half : MainPos α → Nat
  | .pushed => 1
  | .signalling => 1
  | .setting => 1
  | .waking => 1
  | _ => 0

/-- The section a label settles. -/
def Label.shown : Label α n → Option (CclientManager.Label α n)
  | .push fd => some (.push fd)
  | .signal woken => some (.notify woken)
  | .loop w => some (.loop w)
  | .test w none => some (.enter w)
  | .test w (some rc) => some (.wake w rc)
  | .pop w => some (.pop w)
  | .decide w fd => some (.lookup w fd)
  | .leave w => some (.leave w)
  | .exit => some .exit
  | _ => none

/-- `test_cond` is being assigned. -/
def State.Hidden (s : State α n) : Prop :=
  s.main = .waking ∨ ∃ w, (s.worker w).pos = .clearing

/-- `t` is what is seen of `s` from outside the sections. -/
structure Shows (s : State α n) (t : CclientManager.State α n) :
    Prop where
  msglist : t.msglist = s.msglist
  exitFlag : t.allExitFlag = s.allExitFlag
  half : t.half = s.main.half
  worker : ∀ w, t.worker w = (s.worker w).shown
  testCond : ¬ s.Hidden → t.testCond = s.testCond
  clearing : ∀ w, (s.worker w).pos = .clearing → t.testCond = false

theorem shows_init (invalid : α) (n : Nat) :
    Shows (init invalid n) (CclientManager.init invalid n) where
  msglist := rfl
  exitFlag := rfl
  half := rfl
  worker := fun _ => rfl
  testCond := fun _ => rfl
  clearing := fun _ h => by cases h

-- ========================================================== steps unseen

/-- Locking and unlocking is not seen. -/
theorem Pos.enters_shown {p q : Pos} {m : Mutex}
    (h : p.enters = some (m, q)) :
    q.shown = p.shown ∧ p ≠ .clearing ∧ q ≠ .clearing := by
  unfold Pos.enters at h
  split at h
  all_goals cases h
  all_goals exact ⟨rfl, by simp, by simp⟩

theorem Pos.leaves_shown {p q : Pos} {m : Mutex}
    (h : p.leaves = some (m, q)) :
    q.shown = p.shown ∧ p ≠ .clearing ∧ q ≠ .clearing := by
  unfold Pos.leaves at h
  split at h
  all_goals cases h
  all_goals exact ⟨rfl, by simp, by simp⟩

theorem MainPos.enters_half {p q : MainPos α} {m : Mutex}
    (h : p.enters = some (m, q)) :
    q.half = p.half ∧ p ≠ .waking ∧ q ≠ .waking := by
  unfold MainPos.enters at h
  split at h
  all_goals cases h
  all_goals exact ⟨rfl, by simp, by simp⟩

theorem MainPos.leaves_half {p q : MainPos α} {m : Mutex}
    (h : p.leaves = some (m, q)) :
    q.half = p.half ∧ p ≠ .waking ∧ q ≠ .waking := by
  unfold MainPos.leaves at h
  split at h
  all_goals cases h
  all_goals exact ⟨rfl, by simp, by simp⟩

/-- The main thread moves, outside its assignment. -/
theorem Shows.main (hs : Shows s t) (hmsg : s'.msglist = s.msglist)
    (hexit : s'.allExitFlag = s.allExitFlag)
    (htest : s'.testCond = s.testCond) (hworker : s'.worker = s.worker)
    (hhalf : s'.main.half = s.main.half)
    (hw : s.main ≠ .waking) : Shows s' t where
  msglist := by rw [hmsg, hs.msglist]
  exitFlag := by rw [hexit, hs.exitFlag]
  half := by rw [hhalf, hs.half]
  worker := by rw [hworker]; exact hs.worker
  testCond := fun hno => by
    rw [htest]
    refine hs.testCond fun hhid => hno ?_
    rcases hhid with hhid | hhid
    · exact absurd hhid hw
    · exact Or.inr (by rw [hworker]; exact hhid)
  clearing := by rw [hworker]; exact hs.clearing

/-- A worker moves, and is seen to move or not. -/
theorem Shows.move {x : Worker α} {t' : CclientManager.State α n}
    (hs : Shows s t) (hmsg : t'.msglist = s'.msglist)
    (hexit : s'.allExitFlag = s.allExitFlag ∧ t'.allExitFlag = t.allExitFlag)
    (htest : s'.testCond = s.testCond ∧ t'.testCond = t.testCond)
    (hmain : s'.main = s.main ∧ t'.half = t.half)
    (hworker : s'.worker = Function.update s.worker w x)
    (hshown : t'.worker = Function.update t.worker w x.shown)
    (hold : (s.worker w).pos ≠ .clearing) (hnew : x.pos ≠ .clearing) :
    Shows s' t' := by
  have hsame : ∀ v, (s'.worker v).pos = .clearing
      ↔ (s.worker v).pos = .clearing := by
    intro v
    rw [hworker]
    by_cases hv : v = w
    · subst hv
      simp [hold, hnew]
    · simp [hv]
  refine ⟨hmsg, ?_, ?_, fun v => ?_, fun hno => ?_, fun v hv => ?_⟩
  · rw [hexit.1, hexit.2, hs.exitFlag]
  · rw [hmain.1, hmain.2, hs.half]
  · rw [hworker, hshown]
    by_cases hv : v = w
    · subst hv
      simp
    · simp [hv, hs.worker v]
  · rw [htest.1, htest.2]
    refine hs.testCond fun hhid => hno ?_
    rcases hhid with hhid | ⟨v, hv⟩
    · exact Or.inl (hmain.1.trans hhid)
    · exact Or.inr ⟨v, (hsame v).mpr hv⟩
  · rw [htest.2]
    exact hs.clearing v ((hsame v).mp hv)

/-- A worker moves without being seen to. -/
theorem Shows.still {p : Pos} (hs : Shows s t)
    (hmsg : s'.msglist = s.msglist)
    (hexit : s'.allExitFlag = s.allExitFlag)
    (htest : s'.testCond = s.testCond) (hmain : s'.main = s.main)
    (hworker : s'.worker
      = Function.update s.worker w ⟨p, (s.worker w).fd⟩)
    (hp : p.shown = (s.worker w).pos.shown)
    (hold : (s.worker w).pos ≠ .clearing) (hnew : p ≠ .clearing) :
    Shows s' t := by
  refine hs.move (hs.msglist.trans hmsg.symm) ⟨hexit, rfl⟩ ⟨htest, rfl⟩
    ⟨hmain, rfl⟩ hworker ?_ hold hnew
  have hself : Worker.shown ⟨p, (s.worker w).fd⟩ = t.worker w := by
    rw [hs.worker w, Worker.shown, Worker.shown, hp]
  rw [hself, Function.update_eq_self]

-- ================================================================ a step

/-- Nobody assigns `test_cond` while `w` is in the section of
`mtx4cond` at another place. -/
theorem Inv.not_hidden (hi : Inv s)
    (hw : s.held (.worker w) = some .mtx4cond)
    (hp : (s.worker w).pos ≠ .clearing) : ¬ s.Hidden := by
  intro hhid
  rcases hhid with hmain | ⟨v, hv⟩
  · have hheld : s.held .main = some .mtx4cond := by
      rw [State.held, hmain]
      rfl
    cases hi.excl hheld hw
  · have hheld : s.held (.worker v) = some .mtx4cond := by
      rw [State.held, hv]
      rfl
    cases hi.excl hheld hw
    exact hp hv

variable [DecidableEq α]

omit [DecidableEq α] in
/-- A worker that leaves the wait loop is seen to have cleared the
flag. -/
theorem shows_clear (hs : Shows s t) :
    Shows (s.moveTo w .clearing) (t.clear w) where
  msglist := hs.msglist
  exitFlag := hs.exitFlag
  half := hs.half
  worker := fun v => by
    by_cases hv : v = w
    · subst hv
      simp [State.moveTo, State.put, CclientManager.State.clear,
        CclientManager.State.moveTo, CclientManager.State.put, hs.worker v,
        Worker.shown, Pos.shown]
    · simp [State.moveTo, State.put, CclientManager.State.clear,
        CclientManager.State.moveTo, CclientManager.State.put, hv,
        hs.worker v]
  testCond := fun hno =>
    absurd (Or.inr ⟨w, by simp [State.moveTo, State.put]⟩) hno
  clearing := fun _ _ => rfl

/-- The first test of the wait loop settles `enter`. -/
theorem shows_enter (hi : Inv s) (hs : Shows s t)
    (hp : (s.worker w).pos = .testing) :
    ∃ t', CclientManager.step t (.enter w) = some t'
      ∧ Shows (s.testWait w .timeout) t' := by
  have hflag : t.testCond = s.testCond :=
    hs.testCond (hi.not_hidden (w := w) (by rw [State.held, hp]; rfl)
      (by rw [hp]; simp))
  have hpos : (t.worker w).pos = .locking := by
    rw [hs.worker w, Worker.shown, hp]
    rfl
  rcases testWait_cases s w .timeout with ⟨hf, -, he, hs'⟩ | ⟨hg, hs'⟩
  · refine ⟨t.moveTo w (.waiting false), ?_, ?_⟩
    · simp [CclientManager.step, hpos, hflag, hs.exitFlag, hf, he]
    · rw [hs']
      refine hs.move (x := ⟨.waiting false, (s.worker w).fd⟩) hs.msglist
        ⟨rfl, rfl⟩ ⟨rfl, rfl⟩ ⟨rfl, rfl⟩ rfl ?_ (by rw [hp]; simp) (by simp)
      simp [CclientManager.State.moveTo, CclientManager.State.put,
        Worker.shown, Pos.shown, hs.worker w]
  · refine ⟨t.clear w, ?_, hs' ▸ shows_clear hs⟩
    have hor : s.testCond = true ∨ s.allExitFlag = true := by
      simpa using hg
    have hno : ¬ (s.testCond = false ∧ s.allExitFlag = false) := by
      intro hboth
      simp [hboth.1, hboth.2] at hor
    simp [CclientManager.step, hpos, hflag, hs.exitFlag, hno]

/-- The test after a return of the wait settles `wake`. -/
theorem shows_wake {b : Bool} {r : CclientManager.WaitResult}
    {may : mayReturn b r = true} (hi : Inv s) (hs : Shows s t)
    (hp : (s.worker w).pos = .returned b r may) :
    ∃ t', CclientManager.step t (.wake w r) = some t'
      ∧ Shows (s.testWait w r) t' := by
  have hflag : t.testCond = s.testCond :=
    hs.testCond (hi.not_hidden (w := w) (by rw [State.held, hp]; rfl)
      (by rw [hp]; simp))
  have hpos : (t.worker w).pos = .waiting b := by
    rw [hs.worker w, Worker.shown, hp]
    rfl
  rcases testWait_cases s w r with ⟨hf, hr, he, hs'⟩ | ⟨hg, hs'⟩
  · subst hr
    refine ⟨t.moveTo w (.waiting false), ?_, ?_⟩
    · simp [CclientManager.step, hpos, hflag, hs.exitFlag, hf, he]
    · rw [hs']
      refine hs.move (x := ⟨.waiting false, (s.worker w).fd⟩) hs.msglist
        ⟨rfl, rfl⟩ ⟨rfl, rfl⟩ ⟨rfl, rfl⟩ rfl ?_ (by rw [hp]; simp) (by simp)
      simp [CclientManager.State.moveTo, CclientManager.State.put,
        Worker.shown, Pos.shown, hs.worker w]
  · refine ⟨t.clear w, ?_, hs' ▸ shows_clear hs⟩
    have hno : r = .timeout →
        ¬ (s.testCond = false ∧ s.allExitFlag = false) := by
      intro hr hboth
      simp [hr, hboth.1, hboth.2] at hg
    cases r with
    | timeout =>
        simp [CclientManager.step, hpos, hflag, hs.exitFlag, hno rfl]
    | signal =>
        cases b with
        | true => simp [CclientManager.step, hpos]
        | false => simp [mayReturn] at may
    | spurious => simp [CclientManager.step, hpos]
    | error => simp [CclientManager.step, hpos]

/-- The signal settles the second section of `notificationthreads`. -/
theorem shows_signal {woken : Option (Fin n)} (hi : Inv s)
    (hs : Shows s t) (h : step s (.signal woken) = some s') :
    ∃ t', CclientManager.step t (.notify woken) = some t'
      ∧ Shows s' t' := by
  have hmain : s.main = .waking := by
    cases woken with
    | some w => exact (signal_some_inv h).1
    | none => exact (signal_none_inv h).1
  have hheld : s.held .main = some .mtx4cond := by
    rw [State.held, hmain]
    rfl
  have hhalf : t.half = 1 := by
    rw [hs.half, hmain]
    rfl
  -- no worker is in the section of the main thread
  have hout : ∀ v, (s.worker v).pos.held ≠ some .mtx4cond := by
    intro v hv
    cases hi.excl (t := .worker v) hv hheld
  have hclearing : ∀ v, (s.worker v).pos ≠ .clearing := by
    intro v hv
    exact hout v (by rw [hv]; rfl)
  cases woken with
  | some w =>
      obtain ⟨-, hp, rfl⟩ := signal_some_inv h
      have hpos : (t.worker w).pos = .waiting false := by
        rw [hs.worker w, Worker.shown, hp]
        rfl
      refine ⟨{ t.moveTo w (.waiting true) with
        testCond := true, half := t.half - 1 }, ?_, ?_⟩
      · simp [CclientManager.step, hhalf, hpos]
      · refine ⟨hs.msglist, hs.exitFlag, by simp [hhalf, MainPos.half],
          fun v => ?_, fun _ => (hi.waking hmain).symm, fun v hv => ?_⟩
        · by_cases hv : v = w
          · subst hv
            simp [State.moveTo, State.put, CclientManager.State.moveTo,
              CclientManager.State.put, hs.worker v, Worker.shown,
              Pos.shown]
          · simp [State.moveTo, State.put, CclientManager.State.moveTo,
              CclientManager.State.put, hv, hs.worker v]
        · by_cases hvw : v = w
          · subst hvw
            simp [State.moveTo, State.put] at hv
          · refine absurd ?_ (hclearing v)
            simpa [State.moveTo, State.put, hvw] using hv
  | none =>
      obtain ⟨-, hnone, rfl⟩ := signal_none_inv h
      have hblocked : ∀ v, (t.worker v).pos ≠ .waiting false := by
        intro v hv
        rw [hs.worker v, Worker.shown] at hv
        cases hp : (s.worker v).pos with
        | waiting b =>
            rw [hp] at hv
            cases hv
            exact hnone v hp
        | returned b r may => exact hout v (by rw [hp]; rfl)
        | _ =>
            rw [hp] at hv
            cases hv
      refine ⟨{ t with testCond := true, half := t.half - 1 }, ?_, ?_⟩
      · simp [CclientManager.step, hhalf, hblocked]
      · exact ⟨hs.msglist, hs.exitFlag, by simp [hhalf, MainPos.half],
          hs.worker, fun _ => (hi.waking hmain).symm,
          fun v hv => absurd hv (hclearing v)⟩

/-- Each step is one of the protocol, or is not seen. -/
theorem shows_step {a : Label α n} (hi : Inv s) (hs : Shows s t)
    (h : step s a = some s') :
    ∃ t', stepOpt CclientManager.step t a.shown = some t'
      ∧ Shows s' t' := by
  cases a with
  | callMap =>
      obtain ⟨hm, rfl⟩ := callMap_inv h
      exact ⟨t, rfl, hs.main rfl rfl rfl rfl (by rw [hm]; rfl)
        (by rw [hm]; simp)⟩
  | callNotify fd =>
      obtain ⟨hm, rfl⟩ := callNotify_inv h
      exact ⟨t, rfl, hs.main rfl rfl rfl rfl (by rw [hm]; rfl)
        (by rw [hm]; simp)⟩
  | mainLock =>
      obtain ⟨m, p, hp, -, rfl⟩ := mainLock_inv h
      obtain ⟨hhalf, hold, -⟩ := MainPos.enters_half hp
      exact ⟨t, rfl, hs.main rfl rfl rfl rfl hhalf hold⟩
  | mainUnlock =>
      obtain ⟨m, p, hp, rfl⟩ := mainUnlock_inv h
      obtain ⟨hhalf, hold, -⟩ := MainPos.leaves_half hp
      exact ⟨t, rfl, hs.main rfl rfl rfl rfl hhalf hold⟩
  | push fd =>
      obtain ⟨hm, rfl⟩ := push_inv h
      refine ⟨{ t with msglist := t.msglist ++ [fd], half := t.half + 1 },
        rfl, by simp [hs.msglist], hs.exitFlag, ?_, hs.worker, ?_,
        hs.clearing⟩
      · simp [hs.half, hm, MainPos.half]
      · intro hno
        refine hs.testCond fun hhid => hno ?_
        rcases hhid with hhid | hhid
        · rw [hm] at hhid
          cases hhid
        · exact Or.inr hhid
  | set =>
      obtain ⟨hm, rfl⟩ := set_inv h
      refine ⟨t, rfl, hs.msglist, hs.exitFlag, ?_, hs.worker, ?_,
        hs.clearing⟩
      · simp [hs.half, hm, MainPos.half]
      · exact fun hno => absurd (Or.inl rfl) hno
  | signal woken => exact shows_signal hi hs h
  | lock w =>
      obtain ⟨m, p, hp, -, rfl⟩ := lock_inv h
      obtain ⟨hshown, hold, hnew⟩ := Pos.enters_shown hp
      exact ⟨t, rfl, hs.still rfl rfl rfl rfl rfl hshown hold hnew⟩
  | unlock w =>
      obtain ⟨m, p, hp, rfl⟩ := unlock_inv h
      obtain ⟨hshown, hold, hnew⟩ := Pos.leaves_shown hp
      exact ⟨t, rfl, hs.still rfl rfl rfl rfl rfl hshown hold hnew⟩
  | loop w =>
      obtain ⟨hp, rfl⟩ := loop_inv h
      have hpos : (t.worker w).pos = .head := by
        rw [hs.worker w, Worker.shown, hp]
        rfl
      refine ⟨t.moveTo w (if t.allExitFlag then .exited else .locking),
        by simp [stepOpt, Label.shown, CclientManager.step, hpos], ?_⟩
      refine hs.move hs.msglist ⟨rfl, rfl⟩ ⟨rfl, rfl⟩ ⟨rfl, rfl⟩ rfl ?_
        (by rw [hp]; simp) (by cases s.allExitFlag <;> simp)
      rw [hs.exitFlag]
      cases s.allExitFlag <;>
        simp [CclientManager.State.moveTo, CclientManager.State.put,
          Worker.shown, Pos.shown, hs.worker w]
  | test w rc =>
      obtain ⟨r, ⟨hp, rfl, rfl⟩ | ⟨b, may, hp, rfl⟩, rfl⟩ := test_inv h
      · exact shows_enter hi hs hp
      · exact shows_wake hi hs hp
  | wake w rc =>
      obtain ⟨b, may, hp, -, rfl⟩ := wake_inv h
      exact ⟨t, rfl, hs.still (p := .returned b rc may) (w := w) rfl rfl
        rfl rfl rfl (by rw [hp]; rfl) (by rw [hp]; simp) (by simp)⟩
  | clear w =>
      obtain ⟨hp, rfl⟩ := clear_inv h
      have hfalse : t.testCond = false := hs.clearing w hp
      refine ⟨t, rfl, hs.msglist, hs.exitFlag, hs.half, fun v => ?_,
        fun _ => hfalse, fun _ _ => hfalse⟩
      by_cases hv : v = w
      · subst hv
        simp [State.moveTo, State.put, hs.worker v, Worker.shown, hp,
          Pos.shown]
      · simp [State.moveTo, State.put, hv, hs.worker v]
  | pop w =>
      obtain ⟨hp, hcase⟩ := pop_inv h
      have hpos : (t.worker w).pos = .cleared := by
        rw [hs.worker w, Worker.shown, hp]
        rfl
      rcases hcase with ⟨fd, rest, hq, rfl⟩ | ⟨hq, rfl⟩
      · refine ⟨{ t.put w ⟨.popped true, fd⟩ with msglist := rest }, ?_, ?_⟩
        · simp [stepOpt, Label.shown, CclientManager.step, hpos,
            hs.msglist, hq]
        · exact hs.move (x := ⟨.popped true, fd⟩) rfl ⟨rfl, rfl⟩ ⟨rfl, rfl⟩
            ⟨rfl, rfl⟩ rfl rfl (by rw [hp]; simp) (by simp)
      · refine ⟨t.moveTo w (.popped false), ?_, ?_⟩
        · simp [stepOpt, Label.shown, CclientManager.step, hpos,
            hs.msglist, hq]
        · refine hs.move (x := ⟨.popped false, (s.worker w).fd⟩) hs.msglist
            ⟨rfl, rfl⟩ ⟨rfl, rfl⟩ ⟨rfl, rfl⟩ rfl ?_ (by rw [hp]; simp)
            (by simp)
          simp [CclientManager.State.moveTo, CclientManager.State.put,
            Worker.shown, Pos.shown, hs.worker w]
  | decide w fd =>
      obtain ⟨⟨got, hp⟩, hfd, he, rfl⟩ := decide_inv h
      have hpos : (t.worker w).pos = .popped got := by
        rw [hs.worker w, Worker.shown, hp]
        rfl
      refine ⟨t.moveTo w .head, ?_, ?_⟩
      · have hseen : (t.worker w).fd = fd := by
          rw [hs.worker w]
          exact hfd
        cases got <;>
          simp [stepOpt, Label.shown, CclientManager.step, hpos, hseen,
            hs.exitFlag, he]
      · refine hs.move (x := ⟨.finding, (s.worker w).fd⟩) hs.msglist
          ⟨rfl, rfl⟩ ⟨rfl, rfl⟩ ⟨rfl, rfl⟩ rfl ?_ (by rw [hp]; simp)
          (by simp)
        simp [CclientManager.State.moveTo, CclientManager.State.put,
          Worker.shown, Pos.shown, hs.worker w]
  | leave w =>
      obtain ⟨⟨got, hp⟩, he, rfl⟩ := leave_inv h
      have hpos : (t.worker w).pos = .popped got := by
        rw [hs.worker w, Worker.shown, hp]
        rfl
      refine ⟨t.moveTo w .exited, ?_, ?_⟩
      · cases got <;>
          simp [stepOpt, Label.shown, CclientManager.step, hpos,
            hs.exitFlag, he]
      · refine hs.move (x := ⟨.exited, (s.worker w).fd⟩) hs.msglist
          ⟨rfl, rfl⟩ ⟨rfl, rfl⟩ ⟨rfl, rfl⟩ rfl ?_ (by rw [hp]; simp)
          (by simp)
        simp [CclientManager.State.moveTo, CclientManager.State.put,
          Worker.shown, Pos.shown, hs.worker w]
  | serve w pc =>
      obtain ⟨hp, rfl⟩ := serve_inv h
      exact ⟨t, rfl, hs.still (p := .served pc) (w := w) rfl rfl rfl rfl
        rfl (by rw [hp]; rfl) (by rw [hp]; simp) (by simp)⟩
  | exit =>
      have hs' := exit_inv h
      subst hs'
      exact ⟨{ t with allExitFlag := true }, rfl, hs.msglist, rfl, hs.half,
        hs.worker, hs.testCond, hs.clearing⟩

-- ====================================================== the main results

/-- The critical sections are atomic: every run of mutex operations is
seen as a run of sections. -/
theorem sections_atomic {invalid : α} {as : List (Label α n)}
    (hrun : run step (init invalid n) as = some s) :
    ∃ t, run CclientManager.step (CclientManager.init invalid n)
        (as.filterMap Label.shown) = some t
      ∧ Shows s t := by
  obtain ⟨t, ht, -, hs⟩ := run_simulate
    (R := fun s t => Inv s ∧ Shows s t) Label.shown
    (fun hR h => by
      obtain ⟨hi, hs⟩ := hR
      obtain ⟨t', ht', hs'⟩ := shows_step hi hs h
      exact ⟨t', ht', hi.step h, hs'⟩)
    ⟨inv_init invalid n, shows_init invalid n⟩ hrun
  exact ⟨t, ht, hs⟩

/-- A worker waits, is signalled and takes the descriptor. -/
def signalledRun (w : Fin n) : List (Label Int n) :=
  [.loop w, .lock w, .test w none, .callNotify 7, .mainLock, .push 7,
    .mainUnlock, .mainLock, .set, .signal (some w), .mainUnlock,
    .wake w .signal, .test w (some .signal), .clear w, .unlock w, .lock w,
    .pop w, .callNotify 8, .unlock w, .mainLock, .decide w 7, .push 8]

theorem signalledRun_shown :
    ∃ s t, run step (init (-1) 2) (signalledRun 0) = some s
      ∧ run CclientManager.step (CclientManager.init (-1) 2)
        [.loop 0, .enter 0, .push 7, .notify (some 0), .wake 0 .signal,
          .pop 0, .lookup 0 7, .push 8] = some t
      ∧ Shows s t := by
  have hend : ∃ s, run step (init (-1) 2) (signalledRun 0) = some s
      ∧ s.msglist = [8] := exists_run_of_any (by decide)
  obtain ⟨s, hrun, -⟩ := hend
  obtain ⟨t, ht, hs⟩ := sections_atomic hrun
  exact ⟨s, t, hrun, ht, hs⟩

/-- What `push_back` puts into `msglist`. -/
def Label.pushed : Label α n → Option α
  | .push fd => some fd
  | _ => none

/-- What a worker has in hand after a pop that found something. -/
def State.taken (s : State α n) : Label α n → Option α
  | .pop w =>
      match step s (.pop w) with
      | some s' =>
          if (s'.worker w).pos = .popped true then some (s'.worker w).fd
          else none
      | none => none
  | _ => none

theorem queue_step {a : Label α n} (h : step s a = some s') :
    s.msglist ++ a.pushed.toList = (s.taken a).toList ++ s'.msglist := by
  cases a with
  | push fd =>
      obtain ⟨-, rfl⟩ := push_inv h
      rfl
  | pop w =>
      obtain ⟨-, ⟨fd, rest, hq, rfl⟩ | ⟨hq, rfl⟩⟩ := pop_inv h
      · simp [Label.pushed, State.taken, h, hq, State.put]
      · simp [Label.pushed, State.taken, h, hq, State.moveTo, State.put]
  | _ =>
      rw [(frame_step h).msglist (by simp) (by simp)]
      simp [Label.pushed, State.taken]

/-- `msglist` is a queue: the workers take the descriptors in the order
in which they were pushed, and none is lost or taken twice. -/
theorem msglist_fifo {invalid : α} {as : List (Label α n)}
    (hrun : run step (init invalid n) as = some s) :
    as.filterMap Label.pushed
      = outputs step State.taken (init invalid n) as ++ s.msglist := by
  have hqueue := run_queue State.msglist Label.pushed State.taken
    queue_step hrun
  simpa [init] using hqueue

theorem signalledRun_fifo :
    ∃ s, run step (init (-1) 2) (signalledRun 0) = some s
      ∧ [7, 8] = outputs step State.taken (init (-1) 2) (signalledRun 0)
        ++ s.msglist := by
  have hend : ∃ s, run step (init (-1) 2) (signalledRun 0) = some s
      ∧ s.msglist = [8] := exists_run_of_any (by decide)
  obtain ⟨s, hrun, -⟩ := hend
  exact ⟨s, hrun, msglist_fifo hrun⟩

end CorrectGps.Locks
