/-
Is a queued descriptor served for the connection that queued it?

The queue carries bare numbers and `DoKill` does not purge it, while the
kernel hands a closed number to the next caller of `accept`. An element
that outlives its connection is then served for whoever has the number
now, who may not have sent a byte yet (`not_servedForPusher`).

Nothing else goes wrong. An element is pending from its push to the end
of the turn of the worker that popped it; as long as `accept` returns no
number of a pending element, the entry a worker finds is the pusher's
own (`serve_finds_pusher`). The invariant is the statement itself, for
every pending element, plus the same for the number the main thread is
about to insert.
-/
import CorrectGps.Proofs.Server

namespace CorrectGps.Server

open Lib

variable {n : Nat} {maxClients : Nat} {s s' : State n}

-- ====================================================== pending elements

/-- Worker `w` has popped `m` and has not looked it up yet. -/
def State.InHand (s : State n) (w : Fin n) (m : Msg) : Prop :=
  (s.wake.worker w).pos = .popped true ∧ (s.wake.worker w).fd = m

instance (s : State n) (w : Fin n) (m : Msg) : Decidable (s.InHand w m) :=
  inferInstanceAs (Decidable (_ ∧ _))

/-- Elements pushed and not looked up yet: on `msglist`, or in the hand
of a worker. -/
def State.Pending (s : State n) (m : Msg) : Prop :=
  m ∈ s.wake.msglist ∨ ∃ w, s.InHand w m

/-- A worker that has nothing in its hand after its step leaves what the
others hold. -/
theorem State.Pending.of_moved {m : Msg} (hp : s'.Pending m) {w : Fin n}
    {x : CclientManager.Worker Msg}
    (hm : s'.wake.msglist = s.wake.msglist)
    (hw : s'.wake.worker = Function.update s.wake.worker w x)
    (hx : x.pos ≠ .popped true) : s.Pending m := by
  rcases hp with hin | ⟨v, hpos, hfd⟩
  · rw [hm] at hin
    exact Or.inl hin
  · by_cases hv : v = w
    · subst hv
      rw [hw, Function.update_self] at hpos
      exact absurd hpos hx
    · rw [hw, Function.update_of_ne hv] at hpos hfd
      exact Or.inr ⟨v, hpos, hfd⟩

/-- A protocol step that is not a push makes nothing pending. -/
theorem pending_of_step {l : CclientManager.Label Msg n}
    (h : CclientManager.step s.wake l = some s'.wake) {m : Msg}
    (hp : s'.Pending m) : s.Pending m ∨ l = .push m := by
  cases l with
  | push g =>
      have hs' := CclientManager.push_inv h
      rcases hp with hin | ⟨v, hpos, hfd⟩
      · rw [hs'] at hin
        rcases List.mem_append.mp hin with hin | hin
        · exact Or.inl (Or.inl hin)
        · exact Or.inr (by rw [List.mem_singleton.mp hin])
      · rw [hs'] at hpos hfd
        exact Or.inl (Or.inr ⟨v, hpos, hfd⟩)
  | pop w =>
      obtain ⟨-, ⟨g, rest, hm, hs'⟩ | ⟨-, hs'⟩⟩ := CclientManager.pop_inv h
      · -- the head of the queue goes into the hand of `w`
        refine Or.inl ?_
        rcases hp with hin | ⟨v, hpos, hfd⟩
        · rw [hs'] at hin
          exact Or.inl (by rw [hm]; exact List.mem_cons_of_mem g hin)
        · have hw : s'.wake.worker
              = Function.update s.wake.worker w ⟨.popped true, g⟩ := by
            rw [hs']
            rfl
          by_cases hv : v = w
          · subst hv
            rw [hw, Function.update_self] at hfd
            exact Or.inl (by rw [hm, ← hfd]; exact List.mem_cons_self)
          · rw [hw, Function.update_of_ne hv] at hpos hfd
            exact Or.inr ⟨v, hpos, hfd⟩
      · have hw : s'.wake.worker = Function.update s.wake.worker w
            ⟨.popped false, (s.wake.worker w).fd⟩ := by
          rw [hs']
          rfl
        exact Or.inl (hp.of_moved (by rw [hs']; rfl) hw (by simp))
  | _ =>
      obtain ⟨hm, hw | ⟨w, x, hw, hx⟩⟩ :=
        CclientManager.moves_one h (by simp) (by simp)
      · refine Or.inl ?_
        unfold State.Pending State.InHand at hp ⊢
        rw [hm, hw] at hp
        exact hp
      · exact Or.inl (hp.of_moved hm hw (hx true))

/-- Only a complete request makes an element pending. -/
theorem pending_step {a : Label n} (hstep : step maxClients s a = some s')
    {m : Msg} (hp : s'.Pending m) :
    s.Pending m ∨ ∃ fd serial, a = .complete fd m serial := by
  have hwake := wake_step hstep
  cases hl : wakeLabel a with
  | none =>
      rw [hl, stepOpt, Option.some.injEq] at hwake
      unfold State.Pending State.InHand at hp ⊢
      rw [← hwake] at hp
      exact Or.inl hp
  | some l =>
      rw [hl] at hwake
      rcases pending_of_step hwake hp with hold | hpush
      · exact Or.inl hold
      · subst hpush
        cases a with
        | complete fd m' serial =>
            cases hl
            exact Or.inr ⟨fd, serial, rfl⟩
        | thread w l' =>
            -- a worker's own step is never a push
            cases hl
            have := (thread_inv hstep).1
            simp [ownStep] at this
        | _ => simp [wakeLabel] at hl

-- ============================================ served for another client

/-- Any popped element a worker can look up now, it looks up to the
connection whose parse pushed it. -/
def State.ServesPushers (maxClients : Nat) (s : State n) : Prop :=
  ∀ (s' : State n) (w : Fin n) (m : Msg) (out : Option Nat) (c : Nat),
    step maxClients s (.serve w m out) = some s' → s.InHand w m →
    s.clientqueue.lookup m.fd = some c → c = m.pusher

/-- With `n` workers that is so in every state reached. -/
def ServedForPusher (n : Nat) : Prop :=
  ∀ (maxClients : Nat) (labels : List (Label n)) (s : State n),
    run (step maxClients) (init n) labels = some s →
    s.ServesPushers maxClients

/-- Connection 0 queues number 5 and closes; connection 1 is accepted
as 5 before the worker pops. -/
def reusedRun (w : Fin n) : List (Label n) :=
  [.accept 5, .create, .insert, .complete 5 ⟨5, 0⟩ [49], .notify none,
    .kill 5, .accept 5, .create, .insert, .thread w (.loop w),
    .thread w (.enter w), .thread w (.pop w)]

theorem not_servedForPusher : ¬ ServedForPusher 1 := by
  intro hall
  have hend : ∃ s, run (step 4) (init 1) (reusedRun 0) = some s
      ∧ (step 4 s (.serve 0 ⟨5, 0⟩ none)).isSome = true
      ∧ s.InHand 0 ⟨5, 0⟩ ∧ s.clientqueue.lookup 5 = some 1 :=
    exists_run_of_any (by decide)
  obtain ⟨s, hrun, hserve, hhand, hlook⟩ := hend
  obtain ⟨s', hstep⟩ := Option.isSome_iff_exists.mp hserve
  have hpusher := hall 4 (reusedRun 0) s hrun s' 0 ⟨5, 0⟩ none 1 hstep hhand
    hlook
  exact absurd hpusher (by decide)

/-- `accept` returns no number of a pending element. -/
def FreshNumber (s : State n) : Label n → Prop
  | .accept fd => (∀ m ∈ s.wake.msglist, m.fd ≠ fd)
      ∧ ∀ w, (s.wake.worker w).pos = .popped true →
        (s.wake.worker w).fd.fd ≠ fd
  | _ => True

instance (s : State n) (a : Label n) : Decidable (FreshNumber s a) :=
  match a with
  | .accept _ => inferInstanceAs (Decidable (_ ∧ _))
  | .create => isTrue trivial
  | .insert => isTrue trivial
  | .readGone _ => isTrue trivial
  | .readMore _ => isTrue trivial
  | .complete _ _ _ => isTrue trivial
  | .notify _ => isTrue trivial
  | .kill _ => isTrue trivial
  | .thread _ _ => isTrue trivial
  | .serve _ _ _ => isTrue trivial
  | .eval _ _ => isTrue trivial
  | .finish _ => isTrue trivial

/-- A pending element's number is its pusher's or nobody's, and is not
about to become somebody's. -/
structure PusherInv (s : State n) : Prop where
  entry : ∀ m, s.Pending m → ∀ c, s.clientqueue.lookup m.fd = some c →
    c = m.pusher
  entering : ∀ m, s.Pending m → s.main.entering ≠ some m.fd

/-- A step after which no number has a new entry and no number is newly
about to be inserted keeps the invariant if it pushes nothing. -/
theorem PusherInv.keep (hinv : PusherInv s)
    (hpend : ∀ m, s'.Pending m → s.Pending m)
    (hentry : ∀ fd c, s'.clientqueue.lookup fd = some c →
      s.clientqueue.lookup fd = some c)
    (hentering : s'.main.entering = s.main.entering
      ∨ s'.main.entering = none) : PusherInv s' where
  entry := fun m hm c hc => hinv.entry m (hpend m hm) c (hentry _ _ hc)
  entering := fun m hm => by
    rcases hentering with he | he
    · rw [he]
      exact hinv.entering m (hpend m hm)
    · rw [he]
      simp

/-- Every label keeps it, except an `accept` of a pending number. -/
theorem pusherInv_step {a : Label n} (hbase : Inv s) (hinv : PusherInv s)
    (hok : FreshNumber s a) (hstep : step maxClients s a = some s') :
    PusherInv s' := by
  have hpend : (∀ fd m serial, a ≠ .complete fd m serial) →
      ∀ m, s'.Pending m → s.Pending m := by
    intro hne m hm
    rcases pending_step hstep hm with h | ⟨fd, serial, rfl⟩
    · exact h
    · exact absurd rfl (hne fd m serial)
  cases a with
  | accept fd =>
      obtain ⟨-, -, -, hs'⟩ := accept_inv hstep
      have hp := hpend (by simp)
      refine ⟨fun m hm c hc => ?_, fun m hm => ?_⟩
      · rw [hs'] at hc
        exact hinv.entry m (hp m hm) c hc
      · rw [hs']
        intro hfd
        rcases hp m hm with hin | ⟨w, hpos, hin⟩
        · exact hok.1 m hin (Option.some.inj hfd).symm
        · exact hok.2 w hpos (hin ▸ (Option.some.inj hfd).symm)
  | create =>
      obtain ⟨fd, c, hm, ⟨-, hs'⟩ | ⟨-, hs'⟩⟩ := create_inv hstep
      · refine hinv.keep (hpend (by simp)) (fun _ _ h => by rwa [hs'] at h)
          (Or.inl ?_)
        rw [hs', hm]
        rfl
      · refine hinv.keep (hpend (by simp)) (fun _ _ h => by rwa [hs'] at h)
          (Or.inr ?_)
        rw [hs']
        rfl
  | insert =>
      obtain ⟨fd, c, hm, hs'⟩ := hbase.insert_step hstep
      have hp := hpend (by simp)
      refine ⟨fun m hm' c' hc => ?_, fun m _ => by
        rw [hs']
        simp [Main.entering]⟩
      -- the new entry is no pending element's
      have hne : m.fd ≠ fd := by
        intro he
        refine hinv.entering m (hp m hm') ?_
        rw [hm, he]
        rfl
      have hq : s'.clientqueue = s.clientqueue.insert fd c := by rw [hs']
      rw [hq, AList.lookup_insert_ne hne] at hc
      exact hinv.entry m (hp m hm') c' hc
  | readGone fd =>
      have hp := hpend (by simp)
      rcases hbase.readGone_step hstep with hs' | hs'
      · obtain ⟨-, -, hmain, -⟩ := doKill_frame s fd
        refine hinv.keep hp (fun _ _ h => ?_) (Or.inl (by rw [hs', hmain]))
        rw [hs'] at h
        exact lookup_of_doKill h
      · rw [hs']
        exact hinv
  | readMore fd =>
      rw [readMore_inv hstep]
      exact hinv
  | complete fd m serial =>
      obtain ⟨hm, hlook, o, wake, ho, hofd, hw, hs'⟩ := complete_inv hstep
      -- the client found under `fd` pushes its own number, which is `fd`
      have hfd : m.fd = fd := by
        have h1 := (hbase.entry fd m.pusher hlook).1
        unfold State.fdOf at h1
        rw [ho, Option.map_some, hofd] at h1
        exact Option.some.inj h1
      refine ⟨fun m' hm' c hc => ?_, fun m' _ => by
        rw [hs']
        simp [Main.entering]⟩
      rw [hs'] at hc
      rcases pending_step hstep hm' with hold | ⟨fd', serial', heq⟩
      · exact hinv.entry m' hold c hc
      · cases heq
        rw [hfd, hlook] at hc
        exact (Option.some.inj hc).symm
  | notify woken =>
      obtain ⟨-, wake, -, hs'⟩ := notify_inv hstep
      refine hinv.keep (hpend (by simp)) (fun _ _ h => by rwa [hs'] at h)
        (Or.inr ?_)
      rw [hs']
      rfl
  | kill fd =>
      have hs' := (kill_inv hstep).2
      obtain ⟨-, -, hmain, -⟩ := doKill_frame s fd
      refine hinv.keep (hpend (by simp)) (fun _ _ h => ?_)
        (Or.inl (by rw [hs', hmain]))
      rw [hs'] at h
      exact lookup_of_doKill h
  | thread w l =>
      obtain ⟨-, -, wake, -, hs'⟩ := thread_inv hstep
      exact hinv.keep (hpend (by simp)) (fun _ _ h => by rwa [hs'] at h)
        (Or.inl (by rw [hs']))
  | serve w m out =>
      have hp := hpend (by simp)
      obtain ⟨-, wake, -, ⟨c, o, -, -, -, hs'⟩ | ⟨-, -, hs'⟩⟩ :=
        serve_inv hstep
      · obtain ⟨-, hq, -, -, hm, -⟩ :=
          serveClient_frame { s with wake := wake } w c o
        rw [← hs'] at hq hm
        exact hinv.keep hp (fun _ _ h => by rwa [hq] at h)
          (Or.inl (by rw [hm]))
      · exact hinv.keep hp (fun _ _ h => by rwa [hs'] at h)
          (Or.inl (by rw [hs']))
  | eval w fd =>
      obtain ⟨pc, -, -, hs'⟩ := eval_inv hstep
      exact hinv.keep (hpend (by simp)) (fun _ _ h => by rwa [hs'] at h)
        (Or.inl (by rw [hs']))
  | finish w =>
      obtain ⟨fd, pc, -, hs'⟩ := finish_inv hstep
      obtain ⟨-, -, hmain, -⟩ := doKill_frame s fd
      refine hinv.keep (hpend (by simp)) (fun _ _ h => ?_)
        (Or.inl (by rw [hs']; exact congrArg _ hmain))
      rw [hs'] at h
      exact lookup_of_doKill h

/-- In a run in which `accept` returns no pending number, every popped
element finds the connection that pushed it, or none. -/
theorem serve_finds_pusher {labels : List (Label n)}
    (hrun : run (step maxClients) (init n) labels = some s)
    (hok : Meets (step maxClients) FreshNumber (init n) labels) :
    s.ServesPushers maxClients := by
  have hnothing : ∀ m, ¬ (init n).Pending m := by
    rintro m (hin | ⟨w, hpos, -⟩)
    · cases hin
    · cases hpos
  have hinv := run_inv (I := fun _ s => Inv s ∧ PusherInv s)
    (fun hI hg hs => ⟨inv_step hI.1 hs, pusherInv_step hI.1 hI.2 hg hs⟩)
    ⟨inv_init n, ⟨fun m hm => absurd hm (hnothing m),
      fun m hm => absurd hm (hnothing m)⟩⟩ hok hrun (h := [])
  intro s' w m out c _ hhand hlook
  exact hinv.2.entry m (Or.inr ⟨w, hhand⟩) c hlook

/-- Number 5 is used twice, the second time after its element has been
served. -/
def reusedLaterRun (w : Fin n) : List (Label n) :=
  [.accept 5, .create, .insert, .complete 5 ⟨5, 0⟩ [], .notify none,
    .thread w (.loop w), .thread w (.enter w), .thread w (.pop w),
    .serve w ⟨5, 0⟩ none, .kill 5, .accept 5, .create, .insert,
    .complete 5 ⟨5, 1⟩ [49], .notify none, .thread w (.loop w),
    .thread w (.enter w), .thread w (.pop w)]

theorem reusedLaterRun_finds_pusher :
    ∃ s s' c, run (step 4) (init 1) (reusedLaterRun 0) = some s
      ∧ step 4 s (.serve 0 ⟨5, 1⟩ (some 1)) = some s'
      ∧ s.clientqueue.lookup 5 = some c ∧ c = 1 := by
  have hend : ∃ s, run (step 4) (init 1) (reusedLaterRun 0) = some s
      ∧ (step 4 s (.serve 0 ⟨5, 1⟩ (some 1))).isSome = true
      ∧ (s.clientqueue.lookup 5).isSome = true ∧ s.InHand 0 ⟨5, 1⟩ :=
    exists_run_of_any (by decide)
  obtain ⟨s, hrun, hserve, hlook, hhand⟩ := hend
  obtain ⟨s', hstep⟩ := Option.isSome_iff_exists.mp hserve
  obtain ⟨c, hc⟩ := Option.isSome_iff_exists.mp hlook
  exact ⟨s, s', c, hrun, hstep, hc,
    serve_finds_pusher hrun (by decide) s' 0 ⟨5, 1⟩ (some 1) c hstep
      hhand hc⟩

end CorrectGps.Server
