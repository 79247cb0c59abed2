/-
Does `curfds` count the descriptors in the epoll set?

# Surplus

`registerForEvent` and `unRegisterForEvent` change the count with the
set. A close takes a registered descriptor out of the set and leaves the
count: then `curfds` exceeds what it stands for by one more, and nothing
ever makes up for it (`kept`, `risen`). So the count is right at the end
of a run exactly if no close of the run has hit a registered descriptor
(`tallied_iff`).
-/
import CorrectGps.Proofs.EventLoop

namespace CorrectGps.EventLoop

open Lib

variable {maxClients : Nat} {sockfd : Int} {s s' : State} {a : Label}

/-- `curfds` is one more than the number of registered descriptors, and
no greater than `events` is long as long as there is room for one
more. -/
def Tallied (s : State) : Prop :=
  s.curfds = 1 + s.fds.watched.card
    ∧ (s.fds.watched.card < MAXDESCRIPTORS → s.curfds ≤ MAXDESCRIPTORS)

/-- What a label closes is not registered. -/
def ClosesUnregistered (s : State) (a : Label) : Prop :=
  ∀ p ∈ s.closing a, p.1 ∉ s.fds.watched

instance (s : State) (a : Label) : Decidable (ClosesUnregistered s a) :=
  inferInstanceAs (Decidable (∀ p ∈ s.closing a, p.1 ∉ s.fds.watched))

theorem tallied_iff_surplus : Tallied s ↔ s.surplus = 1 := by
  unfold Tallied State.surplus
  omega

-- ============================================================= one step

/-- `DoKill` closes what it is said to close. -/
theorem kills_cases (s : State) (fd : Int) :
    (s.kills fd = none ∧ (s.doKill fd).surplus = s.surplus)
      ∨ ∃ d o, s.kills fd = some (d, o)
        ∧ (s.doKill fd).fds = s.fds.close d
        ∧ (s.doKill fd).curfds = s.curfds := by
  have hfds := doKill_fds s fd
  have hcurfds := (doKill_frame s fd).2.1
  cases hk : s.kills fd with
  | none =>
      rw [hk] at hfds
      refine Or.inl ⟨rfl, ?_⟩
      simp only [State.surplus, hcurfds, hfds, Option.map_none,
        Option.elim_none]
  | some p =>
      obtain ⟨d, o⟩ := p
      rw [hk] at hfds
      exact Or.inr ⟨d, o, rfl, hfds, hcurfds⟩

/-- A label closes nothing and keeps the surplus, or it closes one
descriptor and leaves the count. -/
theorem closing_cases (h : step maxClients sockfd s a = some s') :
    (s.closing a = none ∧ s'.surplus = s.surplus)
      ∨ ∃ d o, s.closing a = some (d, o) ∧ s'.fds = s.fds.close d
        ∧ s'.curfds = s.curfds := by
  by_cases hq : a.quiet = true
  · refine Or.inl ⟨?_, (quiet_inv hq h).1.surplus⟩
    cases a <;> first | rfl | simp [Label.quiet] at hq
  · cases a with
    | accept fd =>
        obtain ⟨_, _, _, _, _, rfl⟩ := accept_inv h
        exact Or.inl ⟨rfl, rfl⟩
    | getNewClient =>
        obtain ⟨_, _, _, _, ⟨_, rfl⟩ | rfl⟩ := getNewClient_inv h
        · exact Or.inl ⟨rfl, rfl⟩
        · exact Or.inl ⟨rfl, rfl⟩
    | insert =>
        obtain ⟨fd, c, rest, hm, rfl⟩ := insert_inv h
        have hclosing : s.closing .insert = s.kills fd := by
          simp [State.closing, hm]
        rw [hclosing, insertClient_eq]
        exact kills_cases s fd
    | doKill =>
        obtain ⟨fd, m, rfl, hclosing, -⟩ := doKill_inv h
        rw [hclosing]
        exact kills_cases s fd
    | close =>
        obtain ⟨e, rest, hm, rfl⟩ := close_inv h
        refine Or.inr ⟨e.fd, e.owner, ?_, rfl, rfl⟩
        simp [State.closing, hm]
    | workerKill fd =>
        cases workerKill_inv h
        exact kills_cases s fd
    | socket fd =>
        obtain ⟨_, rfl⟩ := socket_inv h
        exact Or.inl ⟨rfl, rfl⟩
    | senderClose k =>
        obtain ⟨fd, hk, rfl⟩ := senderClose_inv h
        refine Or.inr ⟨fd, .sender k, ?_, rfl, rfl⟩
        simp [State.closing, hk]
    | _ => simp [Label.quiet] at hq

theorem kept (hp : ClosesUnregistered s a)
    (h : step maxClients sockfd s a = some s') :
    s'.surplus = s.surplus := by
  obtain ⟨-, hsame⟩ | ⟨d, o, hclosing, hfds, hcurfds⟩ := closing_cases h
  · exact hsame
  · have hwatched := Fds.close_watched (hp (d, o) hclosing)
    simp only [State.surplus, hfds, hcurfds, hwatched]

theorem risen (hp : ¬ ClosesUnregistered s a)
    (h : step maxClients sockfd s a = some s') :
    s.surplus < s'.surplus := by
  unfold ClosesUnregistered at hp
  push Not at hp
  obtain ⟨⟨d, o⟩, hclosing, hd⟩ := hp
  rw [Option.mem_def] at hclosing
  obtain ⟨hnone, -⟩ | ⟨d', o', hclosing', hfds, hcurfds⟩ :=
    closing_cases h
  · rw [hnone] at hclosing
    cases hclosing
  · rw [hclosing'] at hclosing
    cases hclosing
    have hcard : (s.fds.close d).watched.card + 1 = s.fds.watched.card :=
      Fds.card_close hd
    simp only [State.surplus, hfds, hcurfds]
    omega

-- =============================================================== the run

theorem init_surplus (sockfd : Int) : (init sockfd).surplus = 1 := by
  have hopen : ((Fds.empty.give sockfd Owner.listener).owner
      sockfd).isSome := by
    simp [Fds.give_owner]
  have hcard := Fds.card_watch hopen (Finset.notMem_empty sockfd)
  show (2 : Int) - ((Fds.watch _ sockfd).watched.card : Int) = 1
  rw [hcard]
  rfl

/-- At the end of a run `curfds` is right exactly if what the run has
closed was not registered. -/
theorem tallied_iff (as : List Label)
    (hrun : run (step maxClients sockfd) (init sockfd) as = some s) :
    Tallied s ↔
      Meets (step maxClients sockfd) ClosesUnregistered (init sockfd) as := by
  have hsurplus := run_eq_iff_meets (f := State.surplus) kept risen hrun
  rw [tallied_iff_surplus, ← hsurplus, init_surplus]

/-- The request of an accepted connection is read, and it is registered
again. -/
def requestRun : List Label :=
  acceptRun ++ [.getEvents [⟨5, .conn 0, true, false⟩], .unRegister true,
    .find, .recvData, .setsockopt true, .setsockopt true, .add true]

/-- The peer hangs up before a worker comes to the request. -/
def hangupRun : List Label :=
  requestRun ++ [.getEvents [⟨5, .conn 0, false, true⟩], .unRegister true,
    .unRegister true, .doKill]

theorem hangupRun_tallied :
    ∃ s, run (step 1 3) (init 3) hangupRun = some s ∧ Tallied s := by
  obtain ⟨s, hrun, -⟩ := exists_run_of_any (P := fun _ => True)
    (show (run (step 1 3) (init 3) hangupRun).any _ = true by decide)
  exact ⟨s, hrun, (tallied_iff hangupRun hrun).mpr (by decide)⟩

/-- A worker that has served the request kills a registered client. -/
theorem not_tallied :
    ¬ ∀ (maxClients : Nat) (sockfd : Int) (as : List Label) (s : State)
      (rest : List Event),
      run (step maxClients sockfd) (init sockfd) as = some s →
      s.main = .between rest → Tallied s := by
  intro hall
  obtain ⟨s, hrun, hmain, hcurfds, hcard⟩ := exists_run_of_any
    (P := fun s => s.main = .between [] ∧ s.curfds = 3
      ∧ s.fds.watched.card = 1)
    (show (run (step 1 3) (init 3)
      (requestRun ++ [.workerKill 5])).any _ = true by decide)
  have hcount := (hall 1 3 _ s [] hrun hmain).1
  rw [hcurfds, hcard] at hcount
  exact absurd hcount (by decide)

end CorrectGps.EventLoop
