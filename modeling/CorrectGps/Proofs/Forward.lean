/-
Is a connection forwarded at most once?

A client stays in the map between the section that forwards it and the
`DoKill` that follows, and every complete request queues its number
again. A second worker that pops the second copy inside that window
forwards the client again, and nothing prevents it: with two workers or
more some run forwards twice, with one worker none does
(`forwards_le_one_iff`). With any number of workers a run is safe if
nobody serves a client another worker has forwarded and not killed yet.

The invariant (`ForwardInv`) is that a forwarded client still in the map
is held by the worker that forwarded it: as `pc`, and from the reading
of `pc->fd` on under the number it is still entered by.
-/
import CorrectGps.Proofs.Server

namespace CorrectGps.Server

open Lib

variable {n : Nat} {maxClients : Nat} {s s' : State n}

-- ============================================================== forwards

/-- Calls of `Send2CarServer` for client `c` in a run. -/
def forwards (c : Nat) (labels : List (Label n)) : Nat :=
  labels.countP fun a =>
    match a with
    | .serve _ _ (some d) => d == c
    | _ => false

/-- With `n` workers, no connection is forwarded twice, in any run. -/
def AtMostOneForward (n : Nat) : Prop :=
  ∀ (maxClients : Nat) (labels : List (Label n)) (s : State n),
    run (step maxClients) (init n) labels = some s →
    ∀ c, forwards c labels ≤ 1

/-- Two workers wait, two requests arrive, each wakes one; both reach
the map before either kills the client. -/
def twiceRun (v w : Fin n) : List (Label n) :=
  [.thread v (.loop v), .thread v (.enter v), .thread w (.loop w),
    .thread w (.enter w), .accept 5, .create, .insert,
    .complete 5 ⟨5, 0⟩ [49], .notify (some v), .complete 5 ⟨5, 0⟩ [49],
    .notify (some w), .thread v (.wake v .signal), .thread v (.pop v),
    .thread w (.wake w .signal), .thread w (.pop w),
    .serve v ⟨5, 0⟩ (some 0), .serve w ⟨5, 0⟩ (some 0)]

theorem twiceRun_runs {v w : Fin n} (hne : v ≠ w) :
    (run (step 1) (init n) (twiceRun v w)).isSome = true := by
  simp [run, twiceRun, step, ownStep, init, CclientManager.step,
    CclientManager.init, CclientManager.State.moveTo,
    CclientManager.State.put, CclientManager.State.clear,
    State.insertClient, State.serveClient, forwarded,
    Function.update_of_ne, hne, hne.symm, -AList.insert_empty]

/-- Two workers are enough to forward a connection twice. -/
theorem exists_two_forwards {v w : Fin n} (hne : v ≠ w) :
    ¬ AtMostOneForward n := by
  intro hall
  obtain ⟨s, hrun⟩ := Option.isSome_iff_exists.mp (twiceRun_runs hne)
  have hle := hall 1 (twiceRun v w) s hrun 0
  have htwo : forwards 0 (twiceRun v w) = 2 := rfl
  omega

theorem not_atMostOneForward : ¬ AtMostOneForward 2 := by
  intro hall
  obtain ⟨s, hrun⟩ := Option.isSome_iff_exists.mp
    (twiceRun_runs (show (0 : Fin 2) ≠ 1 by decide))
  have hle := hall 1 (twiceRun 0 1) s hrun 0
  exact absurd hle (by decide)

-- ============================================================= the holder

/-- Phase `p` holds client `c`: served it, and has not killed it. -/
def Phase.Holds (c : Nat) : Phase → Prop
  | .idle => False
  | .serving pc => pc = c
  | .killing _ pc => pc = c

instance (c : Nat) (p : Phase) : Decidable (p.Holds c) :=
  match p with
  | .idle => isFalse id
  | .serving _ => inferInstanceAs (Decidable (_ = _))
  | .killing _ _ => inferInstanceAs (Decidable (_ = _))

/-- Nobody serves a client that another worker holds. -/
def HeldByNobody (s : State n) : Label n → Prop
  | .serve w m _ => ∀ v, v ≠ w →
      ∀ c ∈ s.clientqueue.lookup m.fd, ¬ (s.phase v).Holds c
  | _ => True

instance (s : State n) (a : Label n) : Decidable (HeldByNobody s a) :=
  match a with
  | .serve _ _ _ => by unfold HeldByNobody; infer_instance
  | .accept _ => isTrue trivial
  | .create => isTrue trivial
  | .insert => isTrue trivial
  | .readGone _ => isTrue trivial
  | .readMore _ => isTrue trivial
  | .complete _ _ _ => isTrue trivial
  | .notify _ => isTrue trivial
  | .kill _ => isTrue trivial
  | .thread _ _ => isTrue trivial
  | .eval _ _ => isTrue trivial
  | .finish _ => isTrue trivial

/-- The worker in phase `p` will erase the entry `fd` of client `c`:
it holds `c` and has not read another number. -/
def Phase.Awaits (fd : Int) (c : Nat) : Phase → Prop
  | .idle => False
  | .serving pc => pc = c
  | .killing fd' pc => pc = c ∧ fd' = fd

theorem Phase.Awaits.holds {fd : Int} {c : Nat} {p : Phase}
    (h : p.Awaits fd c) : p.Holds c := by
  cases p with
  | idle => exact h
  | serving pc => exact h
  | killing fd' pc => exact h.1

/-- Nobody is forwarded twice, a forwarded client still in the map has
its holder, and newcomers have not been forwarded. -/
structure ForwardInv (h : List (Label n)) (s : State n) : Prop where
  once : ∀ c, forwards c h ≤ 1
  held : ∀ fd c, s.clientqueue.lookup fd = some c →
    forwards c h = 0 ∨ ∃ v, (s.phase v).Awaits fd c
  fresh : ∀ c, s.next ≤ c → forwards c h = 0
  newcomer : ∀ c, s.main.newcomer = some c → forwards c h = 0

/-- A label that forwards nobody adds to nobody's count. -/
theorem forwards_quiet {a : Label n}
    (hne : ∀ w m c, a ≠ .serve w m (some c)) (c : Nat)
    (h : List (Label n)) : forwards c (h ++ [a]) = forwards c h := by
  unfold forwards
  rw [List.countP_append]
  cases a with
  | serve w m out =>
      cases out with
      | some d => exact absurd rfl (hne w m d)
      | none => simp
  | _ => simp

theorem forwards_serve (w : Fin n) (m : Msg) (d c : Nat)
    (h : List (Label n)) :
    forwards c (h ++ [.serve w m (some d)])
      = forwards c h + if d = c then 1 else 0 := by
  unfold forwards
  rw [List.countP_append]
  simp [List.countP_cons]

/-- A label that forwards nobody keeps the invariant if every entry was
there before with its holder, and newcomers are old or just numbered. -/
theorem ForwardInv.quiet {h : List (Label n)} {a : Label n}
    (hinv : ForwardInv h s) (hne : ∀ w m c, a ≠ .serve w m (some c))
    (hnext : s.next ≤ s'.next)
    (hheld : ∀ fd c, s'.clientqueue.lookup fd = some c →
      forwards c h = 0 ∨ ∃ v, (s'.phase v).Awaits fd c)
    (hnew : ∀ c, s'.main.newcomer = some c →
      s.next ≤ c ∨ s.main.newcomer = some c) :
    ForwardInv (h ++ [a]) s' where
  once := fun c => by
    rw [forwards_quiet hne]
    exact hinv.once c
  held := fun fd c hc => by
    rw [forwards_quiet hne]
    exact hheld fd c hc
  fresh := fun c hc => by
    rw [forwards_quiet hne]
    exact hinv.fresh c (Nat.le_trans hnext hc)
  newcomer := fun c hc => by
    rw [forwards_quiet hne]
    rcases hnew c hc with hn | hn
    · exact hinv.fresh c hn
    · exact hinv.newcomer c hn

/-- `DoKill` by the main thread: the entries left keep their holders. -/
theorem ForwardInv.doKill {h : List (Label n)} {a : Label n}
    (hinv : ForwardInv h s) (hne : ∀ w m c, a ≠ .serve w m (some c))
    (fd : Int) : ForwardInv (h ++ [a]) (s.doKill fd) := by
  obtain ⟨-, hnext, hmain, hphase⟩ := doKill_frame s fd
  refine hinv.quiet hne (Nat.le_of_eq hnext.symm) ?_ ?_
  · intro fd' c hc
    rw [doKill_lookup] at hc
    split at hc
    · cases hc
    · rw [hphase]
      exact hinv.held fd' c hc
  · intro c hc
    exact Or.inr (by rwa [hmain] at hc)

/-- One worker goes on: the others hold what they held, and it still
waits for the entries it waited for. -/
theorem ForwardInv.rephase {h : List (Label n)} {a : Label n} {w : Fin n}
    {p : Phase} (hinv : ForwardInv h s)
    (hne : ∀ w m c, a ≠ .serve w m (some c)) (hnext : s'.next = s.next)
    (hmain : s'.main.newcomer = s.main.newcomer)
    (hphase : s'.phase = Function.update s.phase w p)
    (hqueue : ∀ fd c, s'.clientqueue.lookup fd = some c →
      s.clientqueue.lookup fd = some c)
    (hwait : ∀ fd c, s'.clientqueue.lookup fd = some c →
      (s.phase w).Awaits fd c → p.Awaits fd c) :
    ForwardInv (h ++ [a]) s' := by
  refine hinv.quiet hne (Nat.le_of_eq hnext.symm) ?_ ?_
  · intro fd c hc
    rcases hinv.held fd c (hqueue fd c hc) with hz | ⟨v, hv⟩
    · exact Or.inl hz
    refine Or.inr ⟨v, ?_⟩
    by_cases hvw : v = w
    · subst hvw
      rw [hphase, Function.update_self]
      exact hwait fd c hc hv
    · rw [hphase, Function.update_of_ne hvw]
      exact hv
  · intro c hc
    exact Or.inr (by rwa [hmain] at hc)

/-- The service of a client nobody holds is its first: the worker that
forwards it is now its holder. -/
theorem ForwardInv.serve {h : List (Label n)} {w : Fin n} {m : Msg} {c : Nat}
    (hinv : ForwardInv h s) (hbase : Inv s)
    (hlook : s.clientqueue.lookup m.fd = some c)
    (hidle : s.phase w = .idle)
    (hnobody : ∀ v, v ≠ w → ¬ (s.phase v).Holds c)
    (hq : s'.clientqueue = s.clientqueue) (hx : s'.next = s.next)
    (hm : s'.main = s.main)
    (hphase : s'.phase = Function.update s.phase w (.serving c)) :
    ForwardInv (h ++ [.serve w m (some c)]) s' := by
  -- an idle worker holds nothing
  have hother : ∀ v fd' c', (s.phase v).Awaits fd' c' → v ≠ w := by
    rintro v fd' c' hv rfl
    rw [hidle] at hv
    exact hv
  have hzero : forwards c h = 0 := by
    rcases hinv.held m.fd c hlook with hz | ⟨v, hv⟩
    · exact hz
    · exact absurd hv.holds (hnobody v (hother v _ _ hv))
  refine ⟨?_, ?_, ?_, ?_⟩
  · intro c'
    rw [forwards_serve]
    split
    · next he => rw [← he, hzero]
    · exact hinv.once c'
  · intro fd' c' hc'
    rw [hq] at hc'
    rw [forwards_serve]
    by_cases hcc : c = c'
    · refine Or.inr ⟨w, ?_⟩
      rw [hphase, Function.update_self]
      exact hcc
    · rw [if_neg hcc]
      rcases hinv.held fd' c' hc' with hz | ⟨v, hv⟩
      · exact Or.inl hz
      · refine Or.inr ⟨v, ?_⟩
        rw [hphase, Function.update_of_ne (hother v _ _ hv)]
        exact hv
  · intro c' hc'
    rw [hx] at hc'
    rw [forwards_serve, hinv.fresh c' hc', if_neg]
    rintro rfl
    -- an entry's client is numbered
    have hlive := (hbase.entry m.fd c hlook).1
    unfold State.fdOf at hlive
    rw [hbase.fresh c hc'] at hlive
    cases hlive
  · intro c' hc'
    rw [hm] at hc'
    rw [forwards_serve, hinv.newcomer c' hc', if_neg]
    rintro rfl
    exact hbase.newcomer_no_entry hc' hlook

/-- Every label keeps it, except a second service of a held client. -/
theorem forwardInv_step {h : List (Label n)} {a : Label n}
    (hbase : Inv s) (hinv : ForwardInv h s) (hok : HeldByNobody s a)
    (hstep : step maxClients s a = some s') :
    ForwardInv (h ++ [a]) s' := by
  cases a with
  | accept fd =>
      obtain ⟨-, -, -, hs'⟩ := accept_inv hstep
      subst hs'
      refine hinv.quiet (by simp) (Nat.le_succ _) hinv.held ?_
      intro c hc
      exact Or.inl (Nat.le_of_eq (Option.some.inj hc))
  | create =>
      obtain ⟨fd, c, hm, ⟨-, hs'⟩ | ⟨-, hs'⟩⟩ := create_inv hstep
      · subst hs'
        refine hinv.quiet (by simp) (Nat.le_refl _) hinv.held ?_
        intro c' hc'
        refine Or.inr ?_
        rw [hm]
        exact hc'
      · subst hs'
        exact hinv.quiet (by simp) (Nat.le_refl _) hinv.held
          (fun c' hc' => by cases hc')
  | insert =>
      obtain ⟨fd, c, hm, hs'⟩ := hbase.insert_step hstep
      subst hs'
      refine hinv.quiet (by simp) (Nat.le_refl _) ?_
        (fun c' hc' => by cases hc')
      intro fd' c' hc'
      have hl : (s.clientqueue.insert fd c).lookup fd' = some c' := hc'
      by_cases hfd : fd' = fd
      · subst hfd
        rw [AList.lookup_insert] at hl
        cases hl
        exact Or.inl (hinv.newcomer c (by rw [hm]; rfl))
      · rw [AList.lookup_insert_ne hfd] at hl
        exact hinv.held fd' c' hl
  | readGone fd =>
      rcases hbase.readGone_step hstep with hs' | hs'
      · rw [hs']
        exact hinv.doKill (by simp) fd
      · rw [hs']
        exact hinv.quiet (by simp) (Nat.le_refl _) hinv.held
          (fun c' hc' => Or.inr hc')
  | readMore fd =>
      rw [readMore_inv hstep]
      exact hinv.quiet (by simp) (Nat.le_refl _) hinv.held
        (fun c' hc' => Or.inr hc')
  | complete fd m serial =>
      obtain ⟨-, -, o, wake, -, -, -, hs'⟩ := complete_inv hstep
      subst hs'
      exact hinv.quiet (by simp) (Nat.le_refl _) hinv.held
        (fun c' hc' => by cases hc')
  | notify woken =>
      obtain ⟨-, wake, -, hs'⟩ := notify_inv hstep
      subst hs'
      exact hinv.quiet (by simp) (Nat.le_refl _) hinv.held
        (fun c' hc' => by cases hc')
  | kill fd =>
      rw [(kill_inv hstep).2]
      exact hinv.doKill (by simp) fd
  | thread w l =>
      obtain ⟨-, -, wake, -, hs'⟩ := thread_inv hstep
      subst hs'
      exact hinv.quiet (by simp) (Nat.le_refl _) hinv.held
        (fun c' hc' => Or.inr hc')
  | serve w m out =>
      obtain ⟨hidle, wake, -, ⟨c, o, hlook, -, hout, hs'⟩ | ⟨-, hout, hs'⟩⟩ :=
        serve_inv hstep
      · obtain ⟨-, hq, -, hx, hm, -⟩ :=
          serveClient_frame { s with wake := wake } w c o
        rw [← hs'] at hq hx hm
        by_cases hserial : o.serial = []
        · -- nothing to forward: only the status changed
          have hphase : s'.phase = s.phase := by
            rw [hs']
            exact serveClient_phase_silent _ w c hserial
          rw [hout, forwarded, if_pos hserial]
          refine hinv.quiet (by simp) (Nat.le_of_eq hx.symm) ?_ ?_
          · intro fd' c' hc'
            rw [hphase]
            exact hinv.held fd' c' (by rwa [hq] at hc')
          · intro c' hc'
            exact Or.inr (by rwa [hm] at hc')
        · have hphase : s'.phase
              = Function.update s.phase w (.serving c) := by
            rw [hs']
            exact serveClient_phase_forward _ w c hserial
          rw [hout, forwarded, if_neg hserial]
          exact hinv.serve hbase hlook hidle
            (fun v hvw => hok v hvw c hlook) hq hx hm hphase
      · rw [hout]
        subst hs'
        exact hinv.quiet (by simp) (Nat.le_refl _) hinv.held
          (fun c' hc' => Or.inr hc')
  | eval w fd =>
      obtain ⟨pc, hp, hread, hs'⟩ := eval_inv hstep
      subst hs'
      refine hinv.rephase (by simp) rfl rfl rfl (fun _ _ hc => hc) ?_
      intro fd' c' hc' hv
      -- the number read is the one the client is entered by
      obtain ⟨o, ho, hofd⟩ :=
        Option.map_eq_some_iff.mp (hbase.entry fd' c' hc').1
      rw [hp] at hv
      have hpc : pc = c' := hv
      exact ⟨hpc, by rw [← hread o (by rw [hpc]; exact ho), hofd]⟩
  | finish w =>
      obtain ⟨fd, pc, hp, hs'⟩ := finish_inv hstep
      obtain ⟨-, hnext, hmain, -⟩ := doKill_frame s fd
      subst hs'
      refine hinv.rephase (by simp) hnext (by rw [hmain]) rfl ?_ ?_
      · intro fd' c' hc'
        have hl : (s.doKill fd).clientqueue.lookup fd' = some c' := hc'
        rw [doKill_lookup] at hl
        split at hl
        · cases hl
        · exact hl
      · intro fd' c' hc' hv
        -- its entry has been taken out
        have hl : (s.doKill fd).clientqueue.lookup fd' = some c' := hc'
        rw [hp] at hv
        rw [doKill_lookup, if_pos hv.2.symm] at hl
        cases hl

/-- A run in which nobody serves a client another worker holds forwards
every connection at most once. -/
theorem forwardInv_run {labels : List (Label n)}
    (hrun : run (step maxClients) (init n) labels = some s)
    (hok : Meets (step maxClients) HeldByNobody (init n) labels) :
    ForwardInv labels s := by
  have hinit : ForwardInv [] (init n) :=
    ⟨fun _ => Nat.zero_le _, fun fd c h => by simp [init] at h,
      fun _ _ => rfl, fun _ _ => rfl⟩
  have hinv := run_inv (I := fun h s => Inv s ∧ ForwardInv h s)
    (fun hI hg hs => ⟨inv_step hI.1 hs, forwardInv_step hI.1 hI.2 hg hs⟩)
    ⟨inv_init n, hinit⟩ hok hrun
  exact hinv.2

/-- A connection is forwarded at most once exactly when there is one
worker (or none); with more, in every run in which nobody serves a
client another worker holds. -/
theorem forwards_le_one_iff (n : Nat) :
    (AtMostOneForward n ↔ n ≤ 1)
      ∧ ∀ (maxClients : Nat) (labels : List (Label n)) (s : State n),
        run (step maxClients) (init n) labels = some s →
        Meets (step maxClients) HeldByNobody (init n) labels →
        ∀ c, forwards c labels ≤ 1 := by
  have hheld : ∀ (maxClients : Nat) (labels : List (Label n)) (s : State n),
      run (step maxClients) (init n) labels = some s →
      Meets (step maxClients) HeldByNobody (init n) labels →
      ∀ c, forwards c labels ≤ 1 :=
    fun _ _ _ hrun hok => (forwardInv_run hrun hok).once
  refine ⟨⟨fun hall => ?_, fun hone => ?_⟩, hheld⟩
  · -- two workers: the run that forwards twice
    by_contra hmany
    have hne : (⟨0, by omega⟩ : Fin n) ≠ ⟨1, by omega⟩ := by simp
    exact exists_two_forwards hne hall
  · -- one worker: there is no other worker to hold anything
    intro maxClients labels s hrun
    refine hheld maxClients labels s hrun (meets_of_forall ?_ labels _)
    intro s a
    cases a with
    | serve w m out =>
        intro v hv
        exact absurd (Fin.ext (by omega)) hv
    | _ => trivial

/-- The same two requests, but the second is looked up after the first
worker's kill. -/
def onceRun (v w : Fin n) : List (Label n) :=
  [.thread v (.loop v), .thread v (.enter v), .thread w (.loop w),
    .thread w (.enter w), .accept 5, .create, .insert,
    .complete 5 ⟨5, 0⟩ [49], .notify (some v), .complete 5 ⟨5, 0⟩ [49],
    .notify (some w), .thread v (.wake v .signal), .thread v (.pop v),
    .thread w (.wake w .signal), .thread w (.pop w),
    .serve v ⟨5, 0⟩ (some 0), .eval v 5, .finish v, .serve w ⟨5, 0⟩ none]

theorem onceRun_forwards_le :
    forwards 0 (onceRun 0 1 : List (Label 2)) ≤ 1 := by
  have hend : (run (step 1) (init 2) (onceRun 0 1)).isSome = true := by
    decide
  obtain ⟨s, hrun⟩ := Option.isSome_iff_exists.mp hend
  exact (forwards_le_one_iff 2).2 1 (onceRun 0 1) s hrun (by decide) 0

end CorrectGps.Server
