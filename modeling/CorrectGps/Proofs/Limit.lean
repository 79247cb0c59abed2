/-
Are there never more open connections than `max_clients`?

# The map and the kernel

`GetNewClient` keeps the map within the limit: only the main thread
enters anything, so what is checked outside the lock still holds inside.
An open connection is in the map, as long as `AddToQueue` is done with
it and has not refused it (`Counted`); the map may also keep numbers that
are closed. But a refused connection is handed to `registerForEvent` like
any other. If both `setsockopt` succeed, it gets as far as `epoll_ctl`,
and then nobody ever closes it: between two events the limit holds, with
no refused connection open, exactly if this does not happen
(`limited_iff`).
-/
import CorrectGps.Proofs.EventLoop

namespace CorrectGps.EventLoop

open Lib

variable {maxClients : Nat} {sockfd : Int} {s s' : State} {a : Label}
variable {fd d : Int} {c : Nat}

/-- No more than `maxClients` sockets that `accept` has returned are
open, and none that `AddToQueue` has refused: so none of these is left
registered either. -/
def Bounded (maxClients : Nat) (s : State) : Prop :=
  (∀ F : Finset Int, (∀ d ∈ F, ∃ c, s.fds.owner d = some (.conn c)) →
      F.card ≤ maxClients)
    ∧ ∀ c ∈ s.refused, ∀ d, s.fds.owner d ≠ some (.conn c)

/-- A step after which this holds, if it ends an event. -/
def Limited (maxClients : Nat) (sockfd : Int) (s : State) (a : Label) :
    Prop :=
  ∀ s', step maxClients sockfd s a = some s' →
    ∀ rest, s'.main = .between rest → Bounded maxClients s'

/-- A refused connection is not open any more when `registerForEvent`
gets as far as `epoll_ctl` with it. -/
def ClosedBeforeAdd (s : State) (a : Label) : Prop :=
  ∀ willing, a = .add willing →
    ∀ e rest, s.main = .registering .add e rest →
      ∀ c ∈ s.refused, e.owner = .conn c →
        s.fds.owner e.fd ≠ some (.conn c)

-- ========================================================= the invariant

/-- Every open connection is accounted for: in the map, or in the hands
of `AddToQueue`, or refused and in those of `registerForEvent`. -/
structure Counted (maxClients : Nat) (s : State) : Prop where
  base : Base s
  room : s.clientqueue.keys.length ≤ maxClients
  free : ∀ d c rest, s.main = .created d c rest →
    s.clientqueue.keys.length < maxClients
  mapped : ∀ d c, s.fds.owner d = some (.conn c) → c ∉ s.refused →
    d ∈ s.clientqueue ∨ s.main.accepting = some (d, c)
  held : ∀ d c, s.fds.owner d = some (.conn c) → c ∈ s.refused →
    ∃ e, s.main.registers = some e ∧ e.fd = d ∧ e.owner = .conn c
      ∧ e.hangup = false

theorem counted_init (maxClients : Nat) (sockfd : Int) :
    Counted maxClients (init sockfd) where
  base := base_init sockfd
  room := Nat.zero_le _
  free := fun d c rest h => by cases h
  mapped := fun d c h => by
    rw [init_owner] at h
    split at h <;> cases h
  held := fun d c _ h => by cases h

/-- Where nothing is being registered, no refused connection is open. -/
theorem Counted.gone (hc : Counted maxClients s)
    (h : s.main.registers = none) :
    ∀ c ∈ s.refused, ∀ d, s.fds.owner d ≠ some (.conn c) := by
  intro c href d hd
  obtain ⟨e, he, -⟩ := hc.held d c hd href
  rw [h] at he
  cases he

/-- Between two events every open connection is in the map. -/
theorem Counted.bounded (hc : Counted maxClients s) {rest : List Event}
    (hm : s.main = .between rest) : Bounded maxClients s := by
  have hgone := hc.gone (by rw [hm]; rfl)
  refine ⟨?_, hgone⟩
  intro F hF
  have hsub : F ⊆ s.clientqueue.keys.toFinset := by
    intro d hd
    obtain ⟨c, hopen⟩ := hF d hd
    have hnot : c ∉ s.refused := fun href => hgone c href d hopen
    rw [List.mem_toFinset]
    rcases hc.mapped d c hopen hnot with hmem | hacc
    · exact hmem
    · rw [hm] at hacc
      cases hacc
  calc F.card ≤ s.clientqueue.keys.toFinset.card :=
        Finset.card_le_card hsub
    _ ≤ s.clientqueue.keys.length := List.toFinset_card_le _
    _ ≤ maxClients := hc.room

-- ============================================================== the steps

/-- A step that leaves the map alone and opens no connection keeps the
invariant, if it leaves a refused connection where it is. -/
theorem Counted.keep (hc : Counted maxClients s) (hb : Base s')
    (hqueue : s'.clientqueue = s.clientqueue)
    (hrefused : s'.refused = s.refused)
    (howner : ∀ d c, s'.fds.owner d = some (.conn c) →
      s.fds.owner d = some (.conn c))
    (hmain : s'.main = s.main ∨ s'.main.accepting = none)
    (hacc : s'.main.accepting = s.main.accepting)
    (hreg : ∀ c ∈ s.refused, ∀ d, s'.fds.owner d = some (.conn c) →
      s'.main.registers = s.main.registers) : Counted maxClients s' where
  base := hb
  room := by
    rw [hqueue]
    exact hc.room
  free := fun d c rest h => by
    rw [hqueue]
    rcases hmain with hm | hm
    · rw [hm] at h
      exact hc.free d c rest h
    · rw [h] at hm
      cases hm
  mapped := fun d c h hnot => by
    rw [hrefused] at hnot
    rw [hqueue, hacc]
    exact hc.mapped d c (howner d c h) hnot
  held := fun d c h href => by
    rw [hrefused] at href
    rw [hreg c href d h]
    exact hc.held d c (howner d c h) href

theorem Counted.accept (hc : Counted maxClients s)
    (h : step maxClients sockfd s (.accept fd) = some s') :
    Counted maxClients s' := by
  have hb := hc.base.accept h
  obtain ⟨e, rest, hm, -, -, rfl⟩ := accept_inv h
  have hgone := hc.gone (by rw [hm]; rfl)
  refine ⟨hb, hc.room, ?_, ?_, ?_⟩
  · intro d c rest' hd
    cases hd
  · intro d c hd hnot
    rcases Fds.owner_of_give hd with ⟨hdfd, hnew⟩ | hold
    · cases hnew
      rw [hdfd]
      exact Or.inr rfl
    · rcases hc.mapped d c hold hnot with hmem | hacc
      · exact Or.inl hmem
      · rw [hm] at hacc
        cases hacc
  · intro d c hd href
    rcases Fds.owner_of_give hd with ⟨-, hnew⟩ | hold
    · cases hnew
      exact absurd (hc.base.refused s.next href).1 (Nat.lt_irrefl _)
    · exact absurd hold (hgone c href d)

/-- What is refused goes to `registerForEvent`. -/
theorem Counted.getNewClient (hc : Counted maxClients s)
    (h : step maxClients sockfd s .getNewClient = some s') :
    Counted maxClients s' := by
  have hb := hc.base.getNewClient h
  obtain ⟨fd, c, rest, hm, hcase⟩ := getNewClient_inv h
  have hacc : s.main.accepting = some (fd, c) := by
    rw [hm]
    rfl
  have hgone := hc.gone (by rw [hm]; rfl)
  obtain ⟨hroom, rfl⟩ | rfl := hcase
  · refine ⟨hb, hc.room, ?_, ?_, ?_⟩
    · intro d c' rest' _
      exact hroom
    · intro d c' hd hnot
      have hmapped := hc.mapped d c' hd hnot
      rw [hacc] at hmapped
      exact hmapped
    · intro d c' hd href
      exact absurd hd (hgone c' href d)
  · refine ⟨hb, hc.room, ?_, ?_, ?_⟩
    · intro d c' rest' hd
      cases hd
    · intro d c' hd hnot
      rw [List.mem_cons, not_or] at hnot
      rcases hc.mapped d c' hd hnot.2 with hmem | hnew
      · exact Or.inl hmem
      · rw [hacc] at hnew
        cases hnew
        exact absurd rfl hnot.1
    · intro d c' hd href
      rcases List.mem_cons.mp href with hcc | hold
      · rw [hcc] at hd ⊢
        refine ⟨newcomer fd c, rfl, ?_, rfl, rfl⟩
        exact (hc.base.placed fd c hacc d hd).symm
      · exact absurd hd (hgone c' hold d)

/-- The new entry makes one more at most, and there was room for it. -/
theorem Counted.insert (hc : Counted maxClients s)
    (h : step maxClients sockfd s .insert = some s') :
    Counted maxClients s' := by
  have hb := hc.base.insert h
  obtain ⟨fd, c, rest, hm, rfl⟩ := insert_inv h
  have hfree := hc.free fd c rest hm
  have hgone := hc.gone (by rw [hm]; rfl)
  have hrefused := (doKill_frame s fd).2.2.2.1
  have hopen : ∀ d c', (s.doKill fd).fds.owner d = some (.conn c') →
      s.fds.owner d = some (.conn c') :=
    fun d c' hd => (hc.base.owner_of_doKill hd).2
  rw [insertClient_eq] at hb ⊢
  refine ⟨hb, ?_, ?_, ?_, ?_⟩
  · show (s.clientqueue.insert fd c).keys.length ≤ _
    rw [AList.keys_insert, List.length_cons]
    have hle := (s.clientqueue.keys.erase_sublist (a := fd)).length_le
    omega
  · intro d c' rest' hd
    cases hd
  · intro d c' hd hnot
    change c' ∉ (s.doKill fd).refused at hnot
    rw [hrefused] at hnot
    show d ∈ s.clientqueue.insert fd c ∨ _
    rw [AList.mem_insert]
    rcases hc.mapped d c' (hopen d c' hd) hnot with hmem | hnew
    · exact Or.inl (Or.inr hmem)
    · rw [hm] at hnew
      cases hnew
      exact Or.inl (Or.inl rfl)
  · intro d c' hd href
    change c' ∈ (s.doKill fd).refused at href
    rw [hrefused] at href
    exact absurd (hopen d c' hd) (hgone c' href d)

/-- `DoKill` closes the number it takes out of the map. -/
theorem Counted.doKill (hc : Counted maxClients s) (fd : Int) :
    Counted maxClients (s.doKill fd) := by
  obtain ⟨-, -, -, hrefused, hmain⟩ := doKill_frame s fd
  have hlen : (s.doKill fd).clientqueue.keys.length
      ≤ s.clientqueue.keys.length := by
    unfold State.doKill
    split
    · show (s.clientqueue.erase fd).keys.length ≤ _
      rw [AList.keys_erase]
      exact (List.erase_sublist ..).length_le
    · exact le_refl _
  refine ⟨hc.base.doKill fd, le_trans hlen hc.room, ?_, ?_, ?_⟩
  · intro d c rest h
    rw [hmain] at h
    exact lt_of_le_of_lt hlen (hc.free d c rest h)
  · intro d c hd hnot
    obtain ⟨hclosed, hopen⟩ := hc.base.owner_of_doKill hd
    rw [hrefused] at hnot
    rw [hmain]
    rcases hc.mapped d c hopen hnot with hmem | hacc
    · refine Or.inl ?_
      have hentry : (s.clientqueue.lookup d).isSome :=
        AList.lookup_isSome.mpr hmem
      rw [← AList.lookup_isSome, doKill_lookup, if_neg]
      · exact hentry
      · intro hdfd
        rw [hdfd] at hentry
        exact hclosed ⟨hdfd, hentry⟩
    · exact Or.inr hacc
  · intro d c hd href
    rw [hrefused] at href
    rw [hmain]
    exact hc.held d c (hc.base.owner_of_doKill hd).2 href

/-- What reaches `epoll_ctl` is not refused, or not open. -/
theorem Counted.add (hc : Counted maxClients s) {willing : Bool}
    (hg : ClosedBeforeAdd s (.add willing))
    (h : step maxClients sockfd s (.add willing) = some s') :
    Counted maxClients s' := by
  have hb := hc.base.step h
  obtain ⟨hf, hnone, hnone', -⟩ := quiet_inv rfl h
  obtain ⟨e, rest, hm, -⟩ := add_inv h
  refine hc.keep hb hf.clientqueue hf.refused ?_ (Or.inr hnone') ?_ ?_
  · intro d c hd
    rw [hf.owner] at hd
    exact hd
  · rw [hnone, hnone']
  · intro c href d hd
    rw [hf.owner] at hd
    obtain ⟨e', he', hfd, howner, -⟩ := hc.held d c hd href
    rw [hm] at he'
    cases he'
    rw [← hfd] at hd
    exact absurd hd (hg willing rfl e rest hm c href howner)

/-- Every step that registers no refused connection keeps the
invariant. -/
theorem Counted.step (hc : Counted maxClients s) (hg : ClosedBeforeAdd s a)
    (h : step maxClients sockfd s a = some s') :
    Counted maxClients s' := by
  have hb := hc.base.step h
  by_cases hq : a.quiet = true
  · by_cases hadd : ∃ willing, a = .add willing
    · obtain ⟨willing, rfl⟩ := hadd
      exact hc.add hg h
    · obtain ⟨hf, hnone, hnone', -⟩ := quiet_inv hq h
      refine hc.keep hb hf.clientqueue hf.refused ?_ (Or.inr hnone') ?_ ?_
      · intro d c hd
        rw [hf.owner] at hd
        exact hd
      · rw [hnone, hnone']
      · intro c href d hd
        rw [hf.owner] at hd
        obtain ⟨e, he, -⟩ := hc.held d c hd href
        rcases quiet_registers hq (fun w hw => hadd ⟨w, hw⟩) h with hr | hr
        · rw [hr] at he
          cases he
        · exact hr
  · cases a with
    | accept fd => exact hc.accept h
    | getNewClient => exact hc.getNewClient h
    | insert => exact hc.insert h
    | doKill =>
        obtain ⟨fd, m, rfl, -, hnone', hnone, hreg, -⟩ := doKill_inv h
        have hkill := hc.doKill fd
        obtain ⟨-, -, -, -, hmain⟩ := doKill_frame s fd
        apply hkill.keep hb rfl rfl (fun _ _ hd => hd) (Or.inr hnone')
        · rw [hmain, hnone]
          exact hnone'
        · intro c href d hd
          obtain ⟨e, he, -⟩ := hkill.held d c hd href
          rw [hmain, hreg] at he
          cases he
    | close =>
        obtain ⟨e, rest, hm, rfl⟩ := close_inv h
        refine hc.keep hb rfl rfl (fun d c hd => (Fds.owner_of_close hd).2)
          (Or.inr (afterRead_accepting e rest)) ?_ ?_
        · rw [hm]
          exact afterRead_accepting e rest
        · intro c href d hd
          obtain ⟨hne, hopen⟩ := Fds.owner_of_close hd
          obtain ⟨e', he', hfd, -⟩ := hc.held d c hopen href
          rw [hm] at he'
          cases he'
          exact absurd hfd.symm hne
    | workerKill fd =>
        cases workerKill_inv h
        exact hc.doKill fd
    | socket fd =>
        obtain ⟨-, rfl⟩ := socket_inv h
        refine hc.keep hb rfl rfl ?_ (Or.inl rfl) rfl (fun _ _ _ _ => rfl)
        intro d c hd
        rcases Fds.owner_of_give hd with ⟨-, hnew⟩ | hold
        · cases hnew
        · exact hold
    | senderClose k =>
        obtain ⟨fd, -, rfl⟩ := senderClose_inv h
        exact hc.keep hb rfl rfl (fun d c hd => (Fds.owner_of_close hd).2)
          (Or.inl rfl) rfl (fun _ _ _ _ => rfl)
    | _ => simp [Label.quiet] at hq

-- ============================================================ the condition

/-- With a refused connection, `epoll_ctl` ends the event and leaves it
open. -/
theorem Counted.closedBeforeAdd (hc : Counted maxClients s)
    (h : Limited maxClients sockfd s a) : ClosedBeforeAdd s a := by
  intro willing ha e rest hm c href howner hopen
  obtain ⟨e', he', -, -, hhangup⟩ := hc.held e.fd c hopen href
  rw [hm] at he'
  cases he'
  have hstep : EventLoop.step maxClients sockfd s a
      = some { s.addForEvent e.fd willing with
          main := afterRead e rest } := by
    rw [ha]
    simp only [EventLoop.step, hm]
  have hend : afterRead e rest = .between rest := by
    unfold afterRead
    rw [hhangup]
    rfl
  have hf := add_frame s e.fd willing (afterRead e rest)
  have hgone := (h _ hstep rest hend).2
  apply hgone c _ e.fd
  · rw [hf.owner]
    exact hopen
  · rw [hf.refused]
    exact href

theorem Counted.limited (hc : Counted maxClients s) :
    Limited maxClients sockfd s a ↔ ClosedBeforeAdd s a := by
  constructor
  · exact hc.closedBeforeAdd
  · intro hg s' h rest hm
    exact (hc.step hg h).bounded hm

/-- In a run the limit holds between the events, and no refused
connection is left open, exactly if none gets as far as `epoll_ctl`. -/
theorem limited_iff (maxClients : Nat) (sockfd : Int) (as : List Label) :
    Meets (step maxClients sockfd) (Limited maxClients sockfd)
        (init sockfd) as ↔
      Meets (step maxClients sockfd) ClosedBeforeAdd (init sockfd) as := by
  apply meets_iff (I := Counted maxClients)
  · exact fun hc => hc.limited
  · exact fun hc hp h => hc.step (hc.limited.mp hp) h
  · exact counted_init maxClients sockfd

/-- A second connection is accepted as 6, refused, and about to be
registered. -/
def secondRun : List Label :=
  acceptRun ++ [.getEvents [⟨3, .listener, true, false⟩], .accept 6,
    .getNewClient, .setsockopt true, .setsockopt true]

/-- With a limit of one, both are open in the end. -/
theorem not_limited :
    ¬ ∀ (maxClients : Nat) (sockfd : Int) (as : List Label),
      Meets (step maxClients sockfd) (Limited maxClients sockfd)
        (init sockfd) as := by
  intro hall
  obtain ⟨s, hrun, hany⟩ := exists_run_of_any
    (P := fun s => (step 1 3 s (.add true)).any (fun s' =>
      decide (s'.main = .between [] ∧ s'.fds.owner 5 = some (.conn 0)
        ∧ s'.fds.owner 6 = some (.conn 1))) = true)
    (show (run (step 1 3) (init 3) secondRun).any _ = true by decide)
  obtain ⟨s', hstep, hend⟩ := (Option.any_eq_true ..).mp hany
  obtain ⟨hm, hfive, hsix⟩ := of_decide_eq_true hend
  have hlast := meets_append (hall 1 3 (secondRun ++ [.add true])) hrun
  have hcard := (hlast.1 s' hstep [] hm).1 {5, 6} (by
    intro d hd
    rcases Finset.mem_insert.mp hd with rfl | hd
    · exact ⟨0, hfive⟩
    · rw [Finset.mem_singleton.mp hd]
      exact ⟨1, hsix⟩)
  exact absurd hcard (by decide)

end CorrectGps.EventLoop
