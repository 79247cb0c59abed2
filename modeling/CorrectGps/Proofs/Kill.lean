/-
Does the final `DoKill` hit the client just served?

A worker that has forwarded leaves `mmutex` with the pointer `pc`, reads
`pc->fd` and calls `DoKill` with it. In between the peer may hang up, or
another worker may finish with the same client: the object is deleted
and the read is of freed memory (`not_finalKillHits`). And once the number
is read, it may be closed, accepted again and inserted before `DoKill`
runs, which then closes somebody else.

Those are the two ways it fails. If no `DoKill` deletes a client a
worker has in `pc`, and `accept` returns no number a worker is about to
kill, both halves hold in every run (`finish_kills_served`).
-/
import CorrectGps.Proofs.Server

namespace CorrectGps.Server

open Lib

variable {n : Nat} {maxClients : Nat} {s s' : State n}

-- ============================================================ the promise

/-- A worker that can read `pc->fd` now reads a live client, and one
that can call `DoKill` now erases `pc` or nothing. -/
def State.KillsServed (maxClients : Nat) (s : State n) : Prop :=
  (∀ (s' : State n) (w : Fin n) (fd : Int) (pc : Nat),
    step maxClients s (.eval w fd) = some s' → s.phase w = .serving pc →
    (s.client pc).isSome = true)
  ∧ ∀ (s' : State n) (w : Fin n) (fd : Int) (pc c : Nat),
    step maxClients s (.finish w) = some s' →
    s.phase w = .killing fd pc → s.clientqueue.lookup fd = some c → c = pc

/-- With `n` workers that is so in every state reached. -/
def FinalKillHits (n : Nat) : Prop :=
  ∀ (maxClients : Nat) (labels : List (Label n)) (s : State n),
    run (step maxClients) (init n) labels = some s →
    s.KillsServed maxClients

/-- The peer hangs up between the forward and the reading of `pc->fd`. -/
def hangUpRun (w : Fin n) : List (Label n) :=
  [.accept 5, .create, .insert, .complete 5 ⟨5, 0⟩ [49], .notify none,
    .thread w (.loop w), .thread w (.enter w), .thread w (.pop w),
    .serve w ⟨5, 0⟩ (some 0), .kill 5]

/-- The number is read, the peer hangs up, and the number is accepted
again before `DoKill`. -/
def reacceptRun (w : Fin n) : List (Label n) :=
  [.accept 5, .create, .insert, .complete 5 ⟨5, 0⟩ [49], .notify none,
    .thread w (.loop w), .thread w (.enter w), .thread w (.pop w),
    .serve w ⟨5, 0⟩ (some 0), .eval w 5, .kill 5, .accept 5, .create,
    .insert]

/-- Either half fails by itself. -/
theorem not_finalKillHits :
    ¬ FinalKillHits 1
      ∧ (∃ s s' : State 1, run (step 4) (init 1) (hangUpRun 0) = some s
        ∧ step 4 s (.eval 0 5) = some s' ∧ s.phase 0 = .serving 0
        ∧ s.client 0 = none)
      ∧ ∃ s s' : State 1, run (step 4) (init 1) (reacceptRun 0) = some s
        ∧ step 4 s (.finish 0) = some s' ∧ s.phase 0 = .killing 5 0
        ∧ s.clientqueue.lookup 5 = some 1 := by
  have hdangling : ∃ s s' : State 1,
      run (step 4) (init 1) (hangUpRun 0) = some s
        ∧ step 4 s (.eval 0 5) = some s' ∧ s.phase 0 = .serving 0
        ∧ s.client 0 = none := by
    have hend : ∃ s : State 1,
        run (step 4) (init 1) (hangUpRun 0) = some s
          ∧ (step 4 s (.eval 0 5)).isSome = true
          ∧ s.phase 0 = .serving 0 ∧ s.client 0 = none :=
      exists_run_of_any (by decide)
    obtain ⟨s, hrun, heval, hs⟩ := hend
    obtain ⟨s', hstep⟩ := Option.isSome_iff_exists.mp heval
    exact ⟨s, s', hrun, hstep, hs⟩
  have hother : ∃ s s' : State 1,
      run (step 4) (init 1) (reacceptRun 0) = some s
        ∧ step 4 s (.finish 0) = some s' ∧ s.phase 0 = .killing 5 0
        ∧ s.clientqueue.lookup 5 = some 1 := by
    have hend : ∃ s : State 1,
        run (step 4) (init 1) (reacceptRun 0) = some s
          ∧ (step 4 s (.finish 0)).isSome = true
          ∧ s.phase 0 = .killing 5 0 ∧ s.clientqueue.lookup 5 = some 1 :=
      exists_run_of_any (by decide)
    obtain ⟨s, hrun, hfinish, hs⟩ := hend
    obtain ⟨s', hstep⟩ := Option.isSome_iff_exists.mp hfinish
    exact ⟨s, s', hrun, hstep, hs⟩
  refine ⟨fun hall => ?_, hdangling, hother⟩
  obtain ⟨s, s', hrun, hstep, hphase, hgone⟩ := hdangling
  have halive := (hall 4 (hangUpRun 0) s hrun).1 s' 0 5 0 hstep hphase
  rw [hgone] at halive
  cases halive

-- ========================================================= the safe orders

/-- No worker has the client entered under `fd` in `pc`. -/
def State.Unserved (s : State n) (fd : Int) : Prop :=
  ∀ v, ∀ c ∈ s.clientqueue.lookup fd, s.phase v ≠ .serving c

instance (s : State n) (fd : Int) : Decidable (s.Unserved fd) := by
  unfold State.Unserved
  infer_instance

/-- Phase `p` has read `fd` and not killed it yet. -/
def Phase.Kills (fd : Int) : Phase → Prop
  | .killing fd' _ => fd' = fd
  | _ => False

instance (fd : Int) (p : Phase) : Decidable (p.Kills fd) :=
  match p with
  | .killing _ _ => inferInstanceAs (Decidable (_ = _))
  | .serving _ => isFalse id
  | .idle => isFalse id

/-- In phase `p` the next `DoKill` deletes nobody's `pc`. -/
def State.PhaseSpares (s : State n) : Phase → Prop
  | .killing fd _ => s.Unserved fd
  | _ => True

instance (s : State n) (p : Phase) : Decidable (s.PhaseSpares p) :=
  match p with
  | .killing fd _ => inferInstanceAs (Decidable (s.Unserved fd))
  | .serving _ => isTrue trivial
  | .idle => isTrue trivial

/-- No `DoKill` deletes a client a worker is serving, and `accept`
returns no number a worker is about to kill. -/
def SparesServed (s : State n) : Label n → Prop
  | .accept fd => ∀ v, ¬ (s.phase v).Kills fd
  | .kill fd => s.Unserved fd
  | .readGone fd => s.Unserved fd
  | .finish w => s.PhaseSpares (s.phase w)
  | _ => True

instance (s : State n) (a : Label n) : Decidable (SparesServed s a) :=
  match a with
  | .accept fd => inferInstanceAs (Decidable (∀ v, ¬ (s.phase v).Kills fd))
  | .kill fd => inferInstanceAs (Decidable (s.Unserved fd))
  | .readGone fd => inferInstanceAs (Decidable (s.Unserved fd))
  | .finish w => inferInstanceAs (Decidable (s.PhaseSpares (s.phase w)))
  | .create => isTrue trivial
  | .insert => isTrue trivial
  | .readMore _ => isTrue trivial
  | .complete _ _ _ => isTrue trivial
  | .notify _ => isTrue trivial
  | .thread _ _ => isTrue trivial
  | .serve _ _ _ => isTrue trivial
  | .eval _ _ => isTrue trivial

/-- A client in `pc` has its entry, a number read and not killed yet
names `pc` or nobody, and is not about to be inserted. -/
structure KillInv (s : State n) : Prop where
  serving : ∀ w pc, s.phase w = .serving pc →
    ∃ fd, s.clientqueue.lookup fd = some pc
  killing : ∀ w fd pc, s.phase w = .killing fd pc →
    ∀ c, s.clientqueue.lookup fd = some c → c = pc
  entering : ∀ fd, s.main.entering = some fd →
    ∀ v, ¬ (s.phase v).Kills fd

/-- A step that moves no worker, no entry and no newcomer. -/
theorem KillInv.keep (hinv : KillInv s) (hphase : s'.phase = s.phase)
    (hqueue : s'.clientqueue = s.clientqueue)
    (hentering : s'.main.entering = s.main.entering
      ∨ s'.main.entering = none) : KillInv s' where
  serving := fun w pc hw => by
    rw [hqueue]
    exact hinv.serving w pc (by rwa [hphase] at hw)
  killing := fun w fd pc hw c hc => by
    rw [hqueue] at hc
    exact hinv.killing w fd pc (by rwa [hphase] at hw) c hc
  entering := fun fd hfd v => by
    rw [hphase]
    rcases hentering with he | he
    · exact hinv.entering fd (by rwa [he] at hfd) v
    · rw [he] at hfd
      cases hfd

/-- A `DoKill` of an entry nobody serves. -/
theorem KillInv.doKill (hinv : KillInv s) {fd : Int}
    (hspare : s.Unserved fd) : KillInv (s.doKill fd) := by
  obtain ⟨-, -, hmain, hphase⟩ := doKill_frame s fd
  refine ⟨?_, ?_, ?_⟩
  · intro w pc hw
    rw [hphase] at hw
    obtain ⟨fd', hfd'⟩ := hinv.serving w pc hw
    have hne : fd' ≠ fd := by
      intro he
      rw [he] at hfd'
      exact hspare w pc hfd' hw
    refine ⟨fd', ?_⟩
    rw [doKill_lookup, if_neg hne]
    exact hfd'
  · intro w fd' pc hw c hc
    rw [hphase] at hw
    exact hinv.killing w fd' pc hw c (lookup_of_doKill hc)
  · intro fd' hfd' v
    rw [hphase]
    exact hinv.entering fd' (by rwa [hmain] at hfd') v

/-- The newcomer's number has no entry, and nobody is about to kill
it. -/
theorem KillInv.insert (hinv : KillInv s) (hbase : Inv s)
    (hstep : step maxClients s .insert = some s') : KillInv s' := by
  obtain ⟨fd, c, hm, hs'⟩ := hbase.insert_step hstep
  have hnone := (hbase.created fd c hm).1
  have hspare := hinv.entering fd (by rw [hm]; rfl)
  subst hs'
  refine ⟨?_, ?_, fun _ h => by cases h⟩
  · intro w pc hw
    obtain ⟨fd', hfd'⟩ := hinv.serving w pc hw
    have hne : fd' ≠ fd := by
      intro he
      rw [he, hnone] at hfd'
      cases hfd'
    exact ⟨fd', (AList.lookup_insert_ne hne).trans hfd'⟩
  · intro w fd' pc hw c' hc'
    have hne : fd' ≠ fd := by
      intro he
      have hkills := hspare w
      rw [show s.phase w = .killing fd' pc from hw] at hkills
      exact hkills he
    exact hinv.killing w fd' pc hw c'
      ((AList.lookup_insert_ne hne).symm.trans hc')

/-- A worker takes up the client it has just found. -/
theorem KillInv.serve (hinv : KillInv s) {w : Fin n} {fd : Int} {c : Nat}
    (hlook : s.clientqueue.lookup fd = some c)
    (hq : s'.clientqueue = s.clientqueue) (hm : s'.main = s.main)
    (hphase : s'.phase = Function.update s.phase w (.serving c)) :
    KillInv s' := by
  refine ⟨?_, ?_, ?_⟩
  · intro v pc hv
    rw [hq]
    by_cases hvw : v = w
    · subst hvw
      rw [hphase, Function.update_self] at hv
      cases hv
      exact ⟨fd, hlook⟩
    · rw [hphase, Function.update_of_ne hvw] at hv
      exact hinv.serving v pc hv
  · intro v fd' pc hv c' hc'
    rw [hq] at hc'
    have hold := phase_of_update hphase hv (by simp)
    exact hinv.killing v fd' pc hold c' hc'
  · intro fd' hfd' v
    rw [hm] at hfd'
    by_cases hvw : v = w
    · subst hvw
      rw [hphase, Function.update_self]
      exact id
    · rw [hphase, Function.update_of_ne hvw]
      exact hinv.entering fd' hfd' v

/-- The client in `pc` is entered, so the number read is its entry's. -/
theorem KillInv.eval (hinv : KillInv s) (hbase : Inv s) {w : Fin n}
    {fd : Int} (hstep : step maxClients s (.eval w fd) = some s') :
    KillInv s' := by
  obtain ⟨pc, hp, hread, hs'⟩ := eval_inv hstep
  obtain ⟨fd', hlook⟩ := hinv.serving w pc hp
  obtain ⟨o, ho, hofd⟩ :=
    Option.map_eq_some_iff.mp (hbase.entry fd' pc hlook).1
  have hfd : fd' = fd := by rw [← hofd, hread o ho]
  subst hfd
  have hphase : s'.phase
      = Function.update s.phase w (.killing fd' pc) := by rw [hs']
  have hq : s'.clientqueue = s.clientqueue := by rw [hs']
  refine ⟨?_, ?_, ?_⟩
  · intro v pc' hv
    rw [hq]
    exact hinv.serving v pc' (phase_of_update hphase hv (by simp))
  · intro v fd'' pc' hv c hc
    rw [hq] at hc
    by_cases hvw : v = w
    · subst hvw
      rw [hphase, Function.update_self] at hv
      cases hv
      rw [hlook] at hc
      exact (Option.some.inj hc).symm
    · rw [hphase, Function.update_of_ne hvw] at hv
      exact hinv.killing v fd'' pc' hv c hc
  · intro fd'' hfd'' v
    have hmain : s.main.entering = some fd'' := by rwa [hs'] at hfd''
    by_cases hvw : v = w
    · subst hvw
      rw [hphase, Function.update_self]
      intro he
      have hnone := hbase.entering_none hmain
      rw [← show fd' = fd'' from he, hlook] at hnone
      cases hnone
    · rw [hphase, Function.update_of_ne hvw]
      exact hinv.entering fd'' hmain v

/-- After its kill the worker holds nothing. -/
theorem KillInv.finish (hinv : KillInv s) {w : Fin n}
    (hok : SparesServed s (.finish w))
    (hstep : step maxClients s (.finish w) = some s') : KillInv s' := by
  obtain ⟨fd, pc, hp, hs'⟩ := finish_inv hstep
  have hspare : s.Unserved fd := by
    have hspares : s.PhaseSpares (s.phase w) := hok
    rw [hp] at hspares
    exact hspares
  have hkill := hinv.doKill hspare
  have hq : s'.clientqueue = (s.doKill fd).clientqueue := by rw [hs']
  obtain ⟨-, -, -, hsame⟩ := doKill_frame s fd
  have hphase : s'.phase
      = Function.update (s.doKill fd).phase w .idle := by
    rw [hs', hsame]
  refine ⟨?_, ?_, ?_⟩
  · intro v pc' hv
    rw [hq]
    exact hkill.serving v pc' (phase_of_update hphase hv (by simp))
  · intro v fd' pc' hv c hc
    rw [hq] at hc
    have hold := phase_of_update hphase hv (by simp)
    exact hkill.killing v fd' pc' hold c hc
  · intro fd' hfd' v
    have hmain : (s.doKill fd).main.entering = some fd' := by
      rwa [hs'] at hfd'
    by_cases hvw : v = w
    · rw [hvw, hphase, Function.update_self]
      exact id
    · rw [hphase, Function.update_of_ne hvw]
      exact hkill.entering fd' hmain v

/-- Every allowed label keeps it. -/
theorem killInv_step {a : Label n} (hbase : Inv s) (hinv : KillInv s)
    (hok : SparesServed s a) (hstep : step maxClients s a = some s') :
    KillInv s' := by
  cases a with
  | accept fd =>
      obtain ⟨-, -, -, hs'⟩ := accept_inv hstep
      subst hs'
      refine ⟨hinv.serving, hinv.killing, ?_⟩
      intro fd' hfd' v
      cases hfd'
      exact hok v
  | create =>
      obtain ⟨fd, c, hm, ⟨-, hs'⟩ | ⟨-, hs'⟩⟩ := create_inv hstep
      · refine hinv.keep (by rw [hs']) (by rw [hs']) (Or.inl ?_)
        rw [hs', hm]
        rfl
      · refine hinv.keep (by rw [hs']) (by rw [hs']) (Or.inr ?_)
        rw [hs']
        rfl
  | insert => exact hinv.insert hbase hstep
  | readGone fd =>
      rcases hbase.readGone_step hstep with hs' | hs'
      · rw [hs']
        exact hinv.doKill hok
      · rw [hs']
        exact hinv
  | readMore fd =>
      rw [readMore_inv hstep]
      exact hinv
  | complete fd m serial =>
      obtain ⟨-, -, o, wake, -, -, -, hs'⟩ := complete_inv hstep
      exact hinv.keep (by rw [hs']) (by rw [hs'])
        (Or.inr (by rw [hs']; rfl))
  | notify woken =>
      obtain ⟨-, wake, -, hs'⟩ := notify_inv hstep
      exact hinv.keep (by rw [hs']) (by rw [hs'])
        (Or.inr (by rw [hs']; rfl))
  | kill fd =>
      rw [(kill_inv hstep).2]
      exact hinv.doKill hok
  | thread w l =>
      obtain ⟨-, -, wake, -, hs'⟩ := thread_inv hstep
      exact hinv.keep (by rw [hs']) (by rw [hs']) (Or.inl (by rw [hs']))
  | serve w m out =>
      obtain ⟨-, wake, -, ⟨c, o, hlook, -, -, hs'⟩ | ⟨-, -, hs'⟩⟩ :=
        serve_inv hstep
      · obtain ⟨-, hq, -, -, hm, -⟩ :=
          serveClient_frame { s with wake := wake } w c o
        rw [← hs'] at hq hm
        by_cases hserial : o.serial = []
        · refine hinv.keep ?_ hq (Or.inl (by rw [hm]))
          rw [hs']
          exact serveClient_phase_silent _ w c hserial
        · have hphase : s'.phase
              = Function.update s.phase w (.serving c) := by
            rw [hs']
            exact serveClient_phase_forward _ w c hserial
          exact hinv.serve hlook hq hm hphase
      · exact hinv.keep (by rw [hs']) (by rw [hs']) (Or.inl (by rw [hs']))
  | eval w fd => exact hinv.eval hbase hstep
  | finish w => exact hinv.finish hok hstep

/-- In a run of safe orders the final kill hits the client just served
or nobody, and `pc` never dangles. -/
theorem finish_kills_served {labels : List (Label n)}
    (hrun : run (step maxClients) (init n) labels = some s)
    (hok : Meets (step maxClients) SparesServed (init n) labels) :
    s.KillsServed maxClients := by
  have hinit : KillInv (init n) :=
    ⟨fun _ _ h => (by cases h), fun _ _ _ h => (by cases h),
      fun _ h => (by cases h)⟩
  have hinv := run_inv (I := fun _ s => Inv s ∧ KillInv s)
    (fun hI hg hs => ⟨inv_step hI.1 hs, killInv_step hI.1 hI.2 hg hs⟩)
    ⟨inv_init n, hinit⟩ hok hrun (h := [])
  refine ⟨?_, ?_⟩
  · intro s' w fd pc _ hw
    obtain ⟨fd', hlook⟩ := hinv.2.serving w pc hw
    obtain ⟨o, ho, -⟩ :=
      Option.map_eq_some_iff.mp (hinv.1.entry fd' pc hlook).1
    rw [ho]
    rfl
  · intro s' w fd pc c _ hw hc
    exact hinv.2.killing w fd pc hw c hc

/-- The peer hangs up while the worker is about to kill; its number is
accepted again only afterwards. -/
def hangUpLaterRun (w : Fin n) : List (Label n) :=
  [.accept 5, .create, .insert, .complete 5 ⟨5, 0⟩ [49], .notify none,
    .thread w (.loop w), .thread w (.enter w), .thread w (.pop w),
    .serve w ⟨5, 0⟩ (some 0), .eval w 5, .kill 5, .accept 6, .create,
    .insert]

theorem hangUpLaterRun_kills_served :
    ∃ s : State 1, run (step 4) (init 1) (hangUpLaterRun 0) = some s
      ∧ s.phase 0 = .killing 5 0 ∧ s.KillsServed 4 := by
  have hend : ∃ s : State 1,
      run (step 4) (init 1) (hangUpLaterRun 0) = some s
        ∧ s.phase 0 = .killing 5 0 := exists_run_of_any (by decide)
  obtain ⟨s, hrun, hs⟩ := hend
  exact ⟨s, hrun, hs, finish_kills_served hrun (by decide)⟩

end CorrectGps.Server
