/-
What a lost wake-up costs a single worker, which is what there is if the
configuration says nothing else.

# The balance

Proofs/Wake.lean says when no request is left behind. With one worker it
can be said how many are: a notification that finds `test_cond` set
leaves nothing but what was there before, and nothing ever makes up for
it. A timed-out worker tests the same bit, and each later notification
gets one later request served (`backlog_step`).

# What it means

Once two requests have met a busy worker, every client that comes later
is answered only when another one has come after it. The number of
requests behind never falls, as long as the wait returns for signals and
timeouts alone.
-/
import CorrectGps.Proofs.Wake

namespace CorrectGps.CclientManager

open Lib

variable {α : Type} [DecidableEq α] {s s' : State α 1} {a : Label α 1}

-- =========================================================== the balance

/-- The pops still to come. -/
def State.credit (s : State α 1) : Nat :=
  s.half + s.tally aboutToPop + s.flag

/-- By how much the queue is longer than that. -/
def State.behind (s : State α 1) : Int := s.msglist.length - s.credit

/-- A notification that finds `test_cond` set. -/
def lost (s : State α 1) (a : Label α 1) : Option Unit :=
  match a with
  | .notify none => if s.testCond then some () else none
  | _ => none

/-- The wait returns for a signal or a timeout, and the flag to exit is
not set. -/
def Prompt (_ : State α 1) (a : Label α 1) : Prop :=
  match a with
  | .wake _ .spurious => False
  | .wake _ .error => False
  | .exit => False
  | _ => True

instance (s : State α 1) (a : Label α 1) : Decidable (Prompt s a) := by
  unfold Prompt
  split <;> infer_instance

omit [DecidableEq α] in
theorem credit_eq (s : State α 1) :
    s.credit = s.half + aboutToPop (s.worker 0) + s.flag := by
  rw [State.credit, State.tally, Fin.sum_univ_one]

/-- The worker sleeps only while `test_cond` is false, unless it has been
signalled, and there is an element for every pop to come. -/
structure Alone (s : State α 1) : Prop where
  running : s.allExitFlag = false
  heard : ∀ b, (s.worker 0).pos = .waiting b → b = s.testCond
  covered : s.credit ≤ s.msglist.length

omit [DecidableEq α] in
theorem alone_init (invalid : α) : Alone (init invalid 1) where
  running := rfl
  heard := fun b h => by cases h
  covered := by simp [credit_eq, init, aboutToPop, State.flag]

omit [DecidableEq α] in
theorem moveTo_self (s : State α 1) (p : Pos) :
    (s.moveTo 0 p).worker 0 = ⟨p, (s.worker 0).fd⟩ := by
  simp [State.moveTo, State.put]

omit [DecidableEq α] in
/-- A step after which the balance is the same; `x` is the worker then. -/
theorem Alone.even (hi : Alone s) {t : State α 1} {x : Worker α}
    (hx : t.worker 0 = x)
    (hexit : t.allExitFlag = s.allExitFlag)
    (hheard : ∀ b, x.pos = .waiting b → b = t.testCond)
    (heven : t.msglist.length + (s.half + aboutToPop (s.worker 0) + s.flag)
      = s.msglist.length + (t.half + aboutToPop x + t.flag)) :
    Alone t ∧ t.behind = s.behind := by
  have hcovered := hi.covered
  have hcredit : t.credit = t.half + aboutToPop x + t.flag := by
    rw [credit_eq, hx]
  rw [credit_eq] at hcovered
  refine ⟨⟨hexit.trans hi.running, by rw [hx]; exact hheard, by omega⟩, ?_⟩
  unfold State.behind
  rw [hcredit, credit_eq]
  omega

omit [DecidableEq α] in
/-- A move of the worker that pops nothing and wakes nobody. -/
theorem Alone.move (hi : Alone s) {p : Pos}
    (hfrom : aboutToPop (s.worker 0) = 0)
    (hto : ∀ fd : α, aboutToPop ⟨p, fd⟩ = 0)
    (hwait : ∀ b, p = .waiting b → b = s.testCond) :
    Alone (s.moveTo 0 p) ∧ (s.moveTo 0 p).behind = s.behind := by
  refine hi.even (moveTo_self s p) rfl hwait ?_
  rw [hfrom, hto]
  rfl

omit [DecidableEq α] in
/-- The worker takes the flag with it. -/
theorem Alone.clear (hi : Alone s) (hfrom : aboutToPop (s.worker 0) = 0)
    (hflag : s.testCond = true) :
    Alone (s.clear 0) ∧ (s.clear 0).behind = s.behind := by
  have hone : s.flag = 1 := by simp [State.flag, hflag]
  refine hi.even (moveTo_self s .cleared) rfl (fun b hb => by cases hb) ?_
  rw [hfrom, hone]
  rfl

/-- The balance grows when a notification is lost, and is kept by every
other step. -/
theorem backlog_step (hi : Alone s) (hg : Prompt s a)
    (h : step s a = some s') :
    Alone s' ∧ s'.behind = s.behind + (lost s a).toList.length := by
  have hzero : ∀ w : Fin 1, w = 0 := fun w => Subsingleton.elim w 0
  have hcovered := hi.covered
  cases a with
  | push fd =>
      rw [push_inv h]
      have heven := hi.even (x := s.worker 0) (t := { s with
        msglist := s.msglist ++ [fd], half := s.half + 1 }) rfl rfl
        hi.heard (by
          simp only [List.length_append, List.length_singleton, State.flag]
          omega)
      simpa [lost] using heven
  | notify woken =>
      cases woken with
      | some w =>
          rw [hzero w] at h
          obtain ⟨hhalf, hpos, rfl⟩ := notify_some_inv h
          -- nobody sleeps while the flag is set
          have hflag : s.flag = 0 := by
            simp [State.flag, ← hi.heard false hpos]
          have hfrom : aboutToPop (s.worker 0) = 0 := by
            simp [aboutToPop, hpos]
          have heven := hi.even (t := { s.moveTo 0 (.waiting true) with
            testCond := true, half := s.half - 1 })
            (moveTo_self s (.waiting true)) rfl
            (fun b hb => by cases hb; rfl) (by
              rw [hfrom, hflag]
              show s.msglist.length + _
                = s.msglist.length + (s.half - 1 + 0 + 1)
              omega)
          simpa [lost] using heven
      | none =>
          obtain ⟨hhalf, hpos, rfl⟩ := notify_none_inv h
          have hheard : ∀ b, (s.worker 0).pos = .waiting b → b = true := by
            intro b hb
            cases b with
            | true => rfl
            | false => exact absurd hb (hpos 0)
          cases hflag : s.testCond with
          | false =>
              have heven := hi.even (x := s.worker 0) (t := { s with
                testCond := true, half := s.half - 1 }) rfl rfl hheard (by
                  simp only [State.flag, hflag]
                  simp
                  omega)
              simpa [lost, hflag] using heven
          | true =>
              -- the flag says no more than it has said before
              rw [credit_eq, State.flag, if_pos hflag] at hcovered
              refine ⟨⟨hi.running, hheard, ?_⟩, ?_⟩
              · show s.half - 1 + aboutToPop (s.worker 0) + 1
                  ≤ s.msglist.length
                omega
              · have hone : (lost s (.notify none)).toList.length = 1 := by
                  simp [lost, hflag]
                rw [hone]
                show (s.msglist.length : Int)
                    - ((s.half - 1 + aboutToPop (s.worker 0) + 1 : Nat) : Int)
                  = s.msglist.length - s.credit + (1 : Nat)
                rw [credit_eq, State.flag, if_pos hflag]
                omega
  | loop w =>
      rw [hzero w] at h
      obtain ⟨hpos, rfl⟩ := loop_inv h
      rw [hi.running]
      simpa [lost] using hi.move (p := .locking) (by simp [aboutToPop, hpos])
        (fun _ => rfl) (fun b hb => by cases hb)
  | enter w =>
      rw [hzero w] at h
      obtain ⟨hpos, ⟨hflag, rfl⟩ | ⟨hflag | hexit, rfl⟩⟩ := enter_inv h
      · simpa [lost] using hi.move (p := .waiting false)
          (by simp [aboutToPop, hpos]) (fun _ => rfl)
          (fun b hb => by cases hb; exact hflag.symm)
      · simpa [lost] using hi.clear (by simp [aboutToPop, hpos]) hflag
      · rw [hi.running] at hexit
        cases hexit
  | wake w rc =>
      rw [hzero w] at h
      cases hpos : (s.worker 0).pos with
      | waiting b =>
          have hheard := hi.heard b hpos
          have hfrom : aboutToPop (s.worker 0) = 0 := by
            simp [aboutToPop, hpos]
          cases rc with
          | signal =>
              cases b with
              | true =>
                  simp only [step, hpos, Option.some.injEq] at h
                  rw [← h]
                  simpa [lost] using hi.clear hfrom hheard.symm
              | false => simp [step, hpos] at h
          | timeout =>
              simp only [step, hpos, ← hheard, hi.running] at h
              cases b with
              | true =>
                  cases h
                  simpa [lost] using hi.clear hfrom hheard.symm
              | false =>
                  cases h
                  simpa [lost] using hi.move (p := .waiting false)
                    hfrom (fun _ => rfl)
                    (fun b hb => by cases hb; exact hheard)
          | spurious => exact absurd hg id
          | error => exact absurd hg id
      | _ => simp [step, hpos] at h
  | pop w =>
      rw [hzero w] at h
      obtain ⟨hpos, ⟨fd, rest, hlist, rfl⟩ | ⟨hnil, rfl⟩⟩ := pop_inv h
      · have hfrom : aboutToPop (s.worker 0) = 1 := by
          simp [aboutToPop, hpos]
        have heven := hi.even (x := ⟨.popped true, fd⟩)
          (t := { s.put 0 ⟨.popped true, fd⟩ with msglist := rest })
          (by simp [State.put]) rfl (fun b hb => by cases hb) (by
            rw [hfrom, hlist]
            show rest.length + (s.half + 1 + s.flag)
              = rest.length + 1 + (s.half + 0 + s.flag)
            omega)
        simpa [lost] using heven
      · -- there is an element for every pop
        rw [credit_eq, hnil] at hcovered
        simp [aboutToPop, hpos] at hcovered
  | lookup w fd =>
      rw [hzero w] at h
      obtain ⟨⟨got, hpos⟩, -, rfl⟩ := lookup_inv h
      simpa [lost] using hi.move (p := .head) (by simp [aboutToPop, hpos])
        (fun _ => rfl) (fun b hb => by cases hb)
  | leave w =>
      simp [step, hi.running] at h
  | exit => exact absurd hg id

-- =============================================================== the run

omit [DecidableEq α] in
/-- At rest all of the balance is in the queue. -/
theorem behind_of_quiet (hquiet : s.Quiet) :
    s.behind = s.msglist.length := by
  obtain ⟨hhalf, hflag, hpos⟩ := hquiet
  simp [State.behind, credit_eq, hhalf, aboutToPop, hpos 0, State.flag,
    hflag]

/-- With one worker the requests that are left behind, at every moment at
which nothing is under way, are as many as the notifications that have
found `test_cond` set. -/
theorem left_behind_eq {invalid : α} {labels : List (Label α 1)}
    (hrun : run step (init invalid 1) labels = some s)
    (hprompt : Meets step Prompt (init invalid 1) labels)
    (hquiet : s.Quiet) :
    s.msglist.length
      = (outputs step lost (init invalid 1) labels).length := by
  have hledger : Alone s ∧ s.behind = (init invalid 1).behind
      + (outputs step lost (init invalid 1) labels).length :=
    run_ledger lost (fun hI hg hs => backlog_step hI hg hs)
      (alone_init invalid) hprompt hrun
  have hbehind := hledger.2
  rw [behind_of_quiet hquiet] at hbehind
  have hzero : (init invalid 1).behind = 0 := by
    simp [State.behind, credit_eq, init, aboutToPop, State.flag]
  omega

/-- One request is left behind, and served when the next one comes. -/
def overtakenRun (w : Fin 1) : List (Label Int 1) :=
  strandingRun ++ [.push 9, .notify (some w), .wake w .signal, .pop w,
    .lookup w 8, .loop w, .enter w, .wake w .timeout]

theorem overtakenRun_behind :
    ∃ s, run step (init invalidSocket 1) (overtakenRun 0) = some s
      ∧ s.msglist = [9] ∧ s.msglist.length = (outputs step lost
        (init invalidSocket 1) (overtakenRun 0)).length := by
  obtain ⟨s, hrun, hleft, hquiet⟩ := exists_run_of_any
    (P := fun s => s.msglist = [9] ∧ s.Quiet)
    (show (run step (init invalidSocket 1) (overtakenRun 0)).any _ = true by
      decide)
  exact ⟨s, hrun, hleft, left_behind_eq hrun (by decide) hquiet⟩

end CorrectGps.CclientManager
