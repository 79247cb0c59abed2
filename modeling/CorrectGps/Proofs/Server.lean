/-
The client map under interleaving: what every run of the server keeps.

# The base invariant

`Inv` ties the map to the heap and to the kernel's table: an entry's
client is alive, carries the entry's number, and that number is open and
its own; numbers not handed out yet name nothing; the number the main
thread is about to insert has no entry. It holds in every run
(`inv_run`) and makes the replacing branch of `AddToQueue` dead here.

# The embedded protocol

Seen through `wake`, a run of the server is a run of the wake-up
protocol (`wake_run`), so what is proved of the protocol over any
element type holds of the server's queue.
-/
import CorrectGps.Proofs.Wake
import CorrectGps.Server

namespace CorrectGps.Server

open Lib

variable {n : Nat} {maxClients : Nat}

-- ==================================================== the base invariant

/-- The `fd` member of a live client. -/
def State.fdOf (s : State n) (c : Nat) : Option Int :=
  (s.client c).map Client.fd

/-- What ties the map, the heap, the kernel's table and the main
thread's place together. -/
structure Inv (s : State n) : Prop where
  entry : ∀ fd c, s.clientqueue.lookup fd = some c →
    s.fdOf c = some fd ∧ s.sock fd = some c
  fresh : ∀ c, s.next ≤ c → s.client c = none
  accepted : ∀ fd c, s.main = .accepted fd c →
    s.clientqueue.lookup fd = none ∧ s.sock fd = some c
      ∧ s.client c = none ∧ c < s.next
  created : ∀ fd c, s.main = .created fd c →
    s.clientqueue.lookup fd = none ∧ s.sock fd = some c
      ∧ s.fdOf c = some fd ∧ c < s.next

theorem inv_init (n : Nat) : Inv (init n) where
  entry := fun fd c h => by simp [init] at h
  fresh := fun _ _ => rfl
  accepted := fun _ _ h => by cases h
  created := fun _ _ h => by cases h

variable {s s' : State n}

/-- A client has one entry at most: the one under its own number. -/
theorem Inv.entry_unique (hinv : Inv s) {fd fd' : Int} {c : Nat}
    (h : s.clientqueue.lookup fd = some c)
    (h' : s.clientqueue.lookup fd' = some c) : fd = fd' := by
  have h1 := (hinv.entry fd c h).1
  rw [(hinv.entry fd' c h').1] at h1
  exact (Option.some.inj h1).symm

/-- `DoKill(fd)` closes `fd` if it has an entry, and nothing else. -/
theorem doKill_sock (hinv : Inv s) (fd fd' : Int) :
    (s.doKill fd).sock fd'
      = if fd' = fd ∧ (s.clientqueue.lookup fd).isSome then none
        else s.sock fd' := by
  unfold State.doKill
  split
  · next c hc =>
    obtain ⟨o, ho, hofd⟩ := Option.map_eq_some_iff.mp (hinv.entry fd c hc).1
    show (s.deleteClient c).sock fd' = _
    unfold State.deleteClient
    rw [ho, hc]
    simp only [hofd, Option.isSome_some, and_true]
    by_cases hfd : fd' = fd
    · rw [if_pos hfd, hfd, Function.update_self]
    · rw [if_neg hfd, Function.update_of_ne hfd]
  · next hnone => simp [hnone]

/-- A step that changes no descriptor, no entry and no number keeps the
invariant. -/
theorem Inv.keep (hinv : Inv s)
    (hqueue : s'.clientqueue = s.clientqueue) (hsock : s'.sock = s.sock)
    (hnext : s'.next = s.next) (hfd : ∀ c, s'.fdOf c = s.fdOf c)
    (hmain : s'.main = s.main
      ∨ ∀ fd c, s'.main ≠ .accepted fd c ∧ s'.main ≠ .created fd c) :
    Inv s' where
  entry := fun fd c h => by
    rw [hfd, hsock]
    exact hinv.entry fd c (by rwa [hqueue] at h)
  fresh := fun c hc => by
    have hnone := hinv.fresh c (by rwa [hnext] at hc)
    have := hfd c
    simpa [State.fdOf, hnone] using this
  accepted := fun fd c h => by
    rcases hmain with hm | hm
    · obtain ⟨h1, h2, h3, h4⟩ := hinv.accepted fd c (by rwa [hm] at h)
      refine ⟨by rw [hqueue, h1], by rw [hsock, h2], ?_,
        by rw [hnext]; exact h4⟩
      have := hfd c
      simpa [State.fdOf, h3] using this
    · exact absurd h (hm fd c).1
  created := fun fd c h => by
    rcases hmain with hm | hm
    · obtain ⟨h1, h2, h3, h4⟩ := hinv.created fd c (by rwa [hm] at h)
      exact ⟨by rw [hqueue, h1], by rw [hsock, h2], by rw [hfd, h3],
        by rw [hnext]; exact h4⟩
    · exact absurd h (hm fd c).2

/-- `DoKill` keeps the invariant. -/
theorem Inv.doKill (hinv : Inv s) (fd : Int) : Inv (s.doKill fd) := by
  obtain ⟨-, hnext, hmain, -⟩ := doKill_frame s fd
  have hsock := doKill_sock hinv fd
  -- an entry that survives is another number's, hence another client's
  have hother : ∀ fd' c, fd' ≠ fd → s.clientqueue.lookup fd' = some c →
      s.clientqueue.lookup fd ≠ some c := by
    intro fd' c hne h h'
    exact hne (hinv.entry_unique h h')
  refine ⟨?_, ?_, ?_, ?_⟩
  · intro fd' c h
    rw [doKill_lookup] at h
    split at h
    · cases h
    · next hne =>
      obtain ⟨h1, h2⟩ := hinv.entry fd' c h
      rw [hsock, if_neg (fun hc => hne hc.1)]
      refine ⟨?_, h2⟩
      unfold State.fdOf
      rw [doKill_client, if_neg (hother fd' c hne h)]
      exact h1
  · intro c hc
    rw [hnext] at hc
    rw [doKill_client, hinv.fresh c hc]
    split <;> rfl
  · intro fd' c h
    rw [hmain] at h
    obtain ⟨h1, h2, h3, h4⟩ := hinv.accepted fd' c h
    refine ⟨?_, ?_, ?_, by rw [hnext]; exact h4⟩
    · rw [doKill_lookup, h1]
      split <;> rfl
    · rw [hsock, if_neg, h2]
      rintro ⟨rfl, hsome⟩
      rw [h1] at hsome
      cases hsome
    · rw [doKill_client, h3]
      split <;> rfl
  · intro fd' c h
    rw [hmain] at h
    obtain ⟨h1, h2, h3, h4⟩ := hinv.created fd' c h
    refine ⟨?_, ?_, ?_, by rw [hnext]; exact h4⟩
    · rw [doKill_lookup, h1]
      split <;> rfl
    · rw [hsock, if_neg, h2]
      rintro ⟨rfl, hsome⟩
      rw [h1] at hsome
      cases hsome
    · unfold State.fdOf
      rw [doKill_client, if_neg]
      · exact h3
      · intro hc
        have h5 := (hinv.entry fd c hc).1
        rw [h3] at h5
        have hfd := Option.some.inj h5
        subst hfd
        rw [h1] at hc
        cases hc

/-- Updating a client in place does not move its descriptor. -/
theorem fdOf_update {c : Nat} {o : Client} (o' : Client)
    (ho : s.client c = some o) (hfd : o'.fd = o.fd)
    (hclient : s'.client = Function.update s.client c (some o'))
    (c' : Nat) :
    s'.fdOf c' = s.fdOf c' := by
  unfold State.fdOf
  rw [hclient]
  by_cases hc : c' = c
  · subst hc
    rw [Function.update_self, ho, Option.map_some, Option.map_some, hfd]
  · rw [Function.update_of_ne hc]

/-- A worker found in another phase than the one just set was in it
before. -/
theorem phase_of_update {v w : Fin n} {p q : Phase}
    (h : s'.phase = Function.update s.phase w p) (hv : s'.phase v = q)
    (hpq : p ≠ q) : s.phase v = q := by
  rw [h] at hv
  by_cases hvw : v = w
  · subst hvw
    rw [Function.update_self] at hv
    exact absurd hv hpq
  · rwa [Function.update_of_ne hvw] at hv

/-- Serving a client changes its status and the worker's phase. -/
theorem serveClient_frame (s : State n) (w : Fin n) (c : Nat)
    (o : Client) :
    (s.serveClient w c o).wake = s.wake
      ∧ (s.serveClient w c o).clientqueue = s.clientqueue
      ∧ (s.serveClient w c o).sock = s.sock
      ∧ (s.serveClient w c o).next = s.next
      ∧ (s.serveClient w c o).main = s.main
      ∧ (s.serveClient w c o).client
        = Function.update s.client c (some { o with status := 2 }) := by
  unfold State.serveClient
  dsimp only
  split <;> exact ⟨rfl, rfl, rfl, rfl, rfl, rfl⟩

/-- Without a serial the worker goes on at once. -/
theorem serveClient_phase_silent (s : State n) (w : Fin n) (c : Nat)
    {o : Client} (h : o.serial = []) :
    (s.serveClient w c o).phase = s.phase := by
  unfold State.serveClient
  rw [if_pos h]

/-- With one it takes up the client. -/
theorem serveClient_phase_forward (s : State n) (w : Fin n) (c : Nat)
    {o : Client} (h : ¬ o.serial = []) :
    (s.serveClient w c o).phase
      = Function.update s.phase w (.serving c) := by
  unfold State.serveClient
  rw [if_neg h]

/-- What is in the map after `DoKill` was in it before. -/
theorem lookup_of_doKill {fd fd' : Int} {c : Nat}
    (h : (s.doKill fd).clientqueue.lookup fd' = some c) :
    s.clientqueue.lookup fd' = some c := by
  rw [doKill_lookup] at h
  split at h
  · cases h
  · exact h

/-- The locked section of `AddToQueue` never finds an entry to replace. -/
theorem Inv.insert_step (hinv : Inv s)
    (hstep : step maxClients s .insert = some s') :
    ∃ fd c, s.main = .created fd c
      ∧ s' = { s with
          clientqueue := s.clientqueue.insert fd c
          main := .idle } := by
  obtain ⟨fd, c, hm, hs'⟩ := insert_inv hstep
  refine ⟨fd, c, hm, ?_⟩
  rw [hs']
  unfold State.insertClient
  rw [(hinv.created fd c hm).1]

/-- A read that ends in `DoKill` kills the descriptor it was called
for. -/
theorem Inv.readGone_step (hinv : Inv s) {fd : Int}
    (hstep : step maxClients s (.readGone fd) = some s') :
    s' = s.doKill fd ∨ s' = s := by
  rcases (readGone_inv hstep).2 with ⟨c, o, hc, ho, hs'⟩ | hs'
  · have hfd := (hinv.entry fd c hc).1
    unfold State.fdOf at hfd
    rw [ho, Option.map_some] at hfd
    exact Or.inl (by rw [hs', Option.some.inj hfd])
  · exact Or.inr hs'

/-- Every label keeps the invariant. -/
theorem inv_step {a : Label n} (hinv : Inv s)
    (hstep : step maxClients s a = some s') : Inv s' := by
  cases a with
  | accept fd =>
      obtain ⟨hm, -, hfree, hs'⟩ := accept_inv hstep
      have hnone : s.clientqueue.lookup fd = none := by
        cases hl : s.clientqueue.lookup fd with
        | none => rfl
        | some c =>
            have := (hinv.entry fd c hl).2
            rw [hfree] at this
            cases this
      subst hs'
      refine ⟨?_, ?_, ?_, fun _ _ h => by cases h⟩
      · intro fd' c h
        obtain ⟨h1, h2⟩ := hinv.entry fd' c h
        refine ⟨h1, ?_⟩
        have hne : fd' ≠ fd := by
          rintro rfl
          rw [hfree] at h2
          cases h2
        exact (Function.update_of_ne hne ..).trans h2
      · intro c hc
        exact hinv.fresh c (Nat.le_of_succ_le hc)
      · intro fd' c h
        cases h
        exact ⟨hnone, Function.update_self .., hinv.fresh _ (Nat.le_refl _),
          Nat.lt_succ_self _⟩
  | create =>
      obtain ⟨fd, c, hm, ⟨-, hs'⟩ | ⟨-, hs'⟩⟩ := create_inv hstep
      · obtain ⟨h1, h2, h3, h4⟩ := hinv.accepted fd c hm
        subst hs'
        refine ⟨?_, ?_, fun _ _ h => (by cases h), ?_⟩
        · intro fd' c' h
          obtain ⟨h5, h6⟩ := hinv.entry fd' c' h
          refine ⟨?_, h6⟩
          have hne : c' ≠ c := by
            rintro rfl
            unfold State.fdOf at h5
            rw [h3] at h5
            cases h5
          unfold State.fdOf
          exact (congrArg _ (Function.update_of_ne hne ..)).trans h5
        · intro c' hc'
          have hne : c' ≠ c := fun he => by
            have : s.next ≤ c' := hc'
            omega
          exact (Function.update_of_ne hne ..).trans (hinv.fresh c' hc')
        · intro fd' c' h
          cases h
          refine ⟨h1, h2, ?_, h4⟩
          unfold State.fdOf
          exact congrArg _ (Function.update_self ..)
      · subst hs'
        exact hinv.keep rfl rfl rfl (fun _ => rfl)
          (Or.inr fun _ _ => ⟨by simp, by simp⟩)
  | insert =>
      obtain ⟨fd, c, hm, hs'⟩ := hinv.insert_step hstep
      obtain ⟨h1, h2, h3, h4⟩ := hinv.created fd c hm
      subst hs'
      refine ⟨?_, hinv.fresh, fun _ _ h => (by cases h),
        fun _ _ h => (by cases h)⟩
      intro fd' c' h
      have hl : (s.clientqueue.insert fd c).lookup fd' = some c' := h
      by_cases hfd : fd' = fd
      · subst hfd
        rw [AList.lookup_insert] at hl
        cases hl
        exact ⟨h3, h2⟩
      · rw [AList.lookup_insert_ne hfd] at hl
        exact hinv.entry fd' c' hl
  | readGone fd =>
      rcases hinv.readGone_step hstep with hs' | hs'
      · rw [hs']
        exact hinv.doKill fd
      · rw [hs']
        exact hinv
  | readMore fd =>
      rw [readMore_inv hstep]
      exact hinv
  | complete fd m serial =>
      obtain ⟨hm, -, o, wake, ho, -, -, hs'⟩ := complete_inv hstep
      refine hinv.keep (by rw [hs']) (by rw [hs']) (by rw [hs'])
        (fdOf_update { o with status := 1, serial := serial } ho
          rfl (by rw [hs'])) (Or.inr fun _ _ => ?_)
      rw [hs']
      exact ⟨by simp, by simp⟩
  | notify woken =>
      obtain ⟨hm, wake, -, hs'⟩ := notify_inv hstep
      rw [hs']
      exact hinv.keep rfl rfl rfl (fun _ => rfl)
        (Or.inr fun _ _ => ⟨by simp, by simp⟩)
  | kill fd =>
      rw [(kill_inv hstep).2]
      exact hinv.doKill fd
  | thread w l =>
      obtain ⟨-, -, wake, -, hs'⟩ := thread_inv hstep
      rw [hs']
      exact hinv.keep rfl rfl rfl (fun _ => rfl) (Or.inl rfl)
  | serve w m out =>
      obtain ⟨-, wake, -, ⟨c, o, -, ho, -, hs'⟩ | ⟨-, -, hs'⟩⟩ :=
        serve_inv hstep
      · obtain ⟨-, hq, hk, hx, hm, hc⟩ :=
          serveClient_frame { s with wake := wake } w c o
        rw [← hs'] at hq hk hx hm hc
        exact hinv.keep hq hk hx
          (fdOf_update { o with status := 2 } ho rfl hc)
          (Or.inl hm)
      · rw [hs']
        exact hinv.keep rfl rfl rfl (fun _ => rfl) (Or.inl rfl)
  | eval w fd =>
      obtain ⟨pc, -, -, hs'⟩ := eval_inv hstep
      rw [hs']
      exact hinv.keep rfl rfl rfl (fun _ => rfl) (Or.inl rfl)
  | finish w =>
      obtain ⟨fd, pc, -, hs'⟩ := finish_inv hstep
      rw [hs']
      exact (hinv.doKill fd).keep rfl rfl rfl (fun _ => rfl) (Or.inl rfl)

/-- The invariant holds in every state the server reaches. -/
theorem inv_run {labels : List (Label n)}
    (hrun : run (step maxClients) (init n) labels = some s) : Inv s :=
  run_inv (I := fun _ s => Inv s) (g := fun _ _ => True)
    (fun hI _ hs => inv_step hI hs) (inv_init n)
    (meets_of_forall (fun _ _ => trivial) labels _) hrun (h := [])

-- ======================================================== the newcomer

/-- The connection the main thread is bringing into the map. -/
def Main.newcomer : Main → Option Nat
  | .accepted _ c => some c
  | .created _ c => some c
  | _ => none

/-- The number it is about to insert. -/
def Main.entering : Main → Option Int
  | .accepted fd _ => some fd
  | .created fd _ => some fd
  | _ => none

/-- The number about to be inserted has no entry. -/
theorem Inv.entering_none (hinv : Inv s) {fd : Int}
    (h : s.main.entering = some fd) : s.clientqueue.lookup fd = none := by
  cases hm : s.main with
  | accepted fd' c =>
      rw [hm] at h
      cases h
      exact (hinv.accepted fd c hm).1
  | created fd' c =>
      rw [hm] at h
      cases h
      exact (hinv.created fd c hm).1
  | _ => rw [hm] at h; cases h

/-- A newcomer has no entry yet. -/
theorem Inv.newcomer_no_entry (hinv : Inv s) {c : Nat}
    (hnew : s.main.newcomer = some c) {fd : Int} :
    s.clientqueue.lookup fd ≠ some c := by
  intro hlook
  have hlive := (hinv.entry fd c hlook).1
  cases hm : s.main with
  | accepted fd' c' =>
      rw [hm] at hnew
      cases hnew
      unfold State.fdOf at hlive
      rw [(hinv.accepted fd' c hm).2.2.1] at hlive
      cases hlive
  | created fd' c' =>
      rw [hm] at hnew
      cases hnew
      obtain ⟨hnone, -, hfd, -⟩ := hinv.created fd' c hm
      rw [hlive] at hfd
      rw [← Option.some.inj hfd, hlook] at hnone
      cases hnone
  | _ => rw [hm] at hnew; cases hnew

-- ================================================ the embedded protocol

/-- The protocol step a label performs, if any. -/
def wakeLabel : Label n → Option (CclientManager.Label Msg n)
  | .complete _ m _ => some (.push m)
  | .notify woken => some (.notify woken)
  | .thread _ l => some l
  | .serve w m _ => some (.lookup w m)
  | _ => none

/-- A label performs its protocol step on `wake`, or leaves it alone. -/
theorem wake_step {a : Label n} (hstep : step maxClients s a = some s') :
    stepOpt CclientManager.step s.wake (wakeLabel a) = some s'.wake := by
  cases a with
  | accept fd =>
      obtain ⟨-, -, -, hs'⟩ := accept_inv hstep
      rw [hs']
      rfl
  | create =>
      obtain ⟨fd, c, -, ⟨-, hs'⟩ | ⟨-, hs'⟩⟩ := create_inv hstep <;>
        rw [hs'] <;> rfl
  | insert =>
      obtain ⟨fd, c, -, hs'⟩ := insert_inv hstep
      rw [hs']
      show some s.wake = some (s.insertClient fd c).wake
      unfold State.insertClient
      split
      · exact congrArg some (deleteClient_frame s _).1.symm
      · rfl
  | readGone fd =>
      rcases (readGone_inv hstep).2 with ⟨c, o, -, -, hs'⟩ | hs'
      · rw [hs']
        exact congrArg some (doKill_frame s o.fd).1.symm
      · rw [hs']
        rfl
  | readMore fd =>
      rw [readMore_inv hstep]
      rfl
  | complete fd m serial =>
      obtain ⟨-, -, o, wake, -, -, hw, hs'⟩ := complete_inv hstep
      rw [hs']
      exact hw
  | notify woken =>
      obtain ⟨-, wake, hw, hs'⟩ := notify_inv hstep
      rw [hs']
      exact hw
  | kill fd =>
      rw [(kill_inv hstep).2]
      exact congrArg some (doKill_frame s fd).1.symm
  | thread w l =>
      obtain ⟨-, -, wake, hw, hs'⟩ := thread_inv hstep
      rw [hs']
      exact hw
  | serve w m out =>
      obtain ⟨-, wake, hw, ⟨c, o, -, -, -, hs'⟩ | ⟨-, -, hs'⟩⟩ :=
        serve_inv hstep
      · have hwake := (serveClient_frame { s with wake := wake } w c o).1
        rw [← hs'] at hwake
        rw [hwake]
        exact hw
      · rw [hs']
        exact hw
  | eval w fd =>
      obtain ⟨pc, -, -, hs'⟩ := eval_inv hstep
      rw [hs']
      rfl
  | finish w =>
      obtain ⟨fd, pc, -, hs'⟩ := finish_inv hstep
      rw [hs']
      exact congrArg some (doKill_frame s fd).1.symm

/-- A run of the server is, on `wake`, a run of the protocol. -/
theorem wake_run {labels : List (Label n)}
    (hrun : run (step maxClients) (init n) labels = some s) :
    run CclientManager.step (CclientManager.init noMsg n)
      (labels.filterMap wakeLabel) = some s.wake :=
  run_project State.wake wakeLabel wake_step hrun

/-- The accounting law of the queue in the server: in a run whose
protocol steps waste no signal, a quiet server has an empty queue. -/
theorem server_msglist_nil {labels : List (Label n)}
    (hrun : run (step maxClients) (init n) labels = some s)
    (hok : Meets CclientManager.step CclientManager.WakeNotLost
      (CclientManager.init noMsg n) (labels.filterMap wakeLabel))
    (hexit : s.wake.allExitFlag = false) (hquiet : s.wake.Quiet) :
    s.wake.msglist = [] := by
  have hinv := CclientManager.wakeInv_run hok (wake_run hrun) hexit
  have hdue := hinv.due
  rw [CclientManager.due_of_quiet hquiet] at hdue
  exact List.eq_nil_of_length_eq_zero (Nat.le_zero.mp hdue)

end CorrectGps.Server
