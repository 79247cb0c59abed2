/-
Does the main thread ever sleep on input?

# The listener

Its number is no client's and no sender's, and nobody closes it or takes
it out of the set (`listening_step`).

# Heard

Whatever is watched and has something to read is in the kernel's ready
list, or among the events the main thread has not come to. An event that
it takes up leaves its hands, but `unRegisterForEvent` has taken the
descriptor out of the epoll set before, and `registerForEvent` will put
it back, whatever the read has left (`heard_step`).

# Input and connections

A client in the map is watched when the main thread is at work on
nothing, so no client is left out of the above. The listener is not put
back, and one connection is accepted for each of its events. For it the
above holds only as long as no `accept` leaves a connection behind
(`connection_missed`). An event behind the end of `events` is lost for
good; so `epoll_wait` is to return no more than there is room for.
-/
import CorrectGps.Watch
import CorrectGps.Proofs.Covered

namespace CorrectGps.EventLoop

open Lib

variable {maxClients : Nat} {sockfd : Int} {s s' : State} {a : Label}
variable {fd : Int}

-- ============================================================== listener

/-- The listener is open and watched, and its number is nobody else's. -/
structure Listening (sockfd : Int) (s : State) : Prop where
  listener : s.fds.owner sockfd = some .listener
  watched : sockfd ∈ s.fds.watched
  unmapped : s.clientqueue.lookup sockfd = none
  senders : ∀ k, s.sender k ≠ some sockfd
  handling : s.main.handling ≠ some sockfd

theorem listening_init (sockfd : Int) : Listening sockfd (init sockfd) where
  listener := by rw [init_owner, if_pos rfl]
  watched := by
    show sockfd ∈ (Fds.watch _ sockfd).watched
    rw [Fds.watch_watched (by simp [Fds.give_owner])]
    exact Finset.mem_insert_self ..
  unmapped := rfl
  senders := fun k h => by cases h
  handling := fun h => by cases h

/-- A move of the main thread alone. -/
theorem Listening.move (hl : Listening sockfd s) {m : Main}
    (hm : m.handling ≠ some sockfd) :
    Listening sockfd { s with main := m } :=
  ⟨hl.listener, hl.watched, hl.unmapped, hl.senders, hm⟩

/-- A free number is not the listener's. -/
theorem Listening.ne (hl : Listening sockfd s)
    (hfree : s.fds.owner fd = none) : fd ≠ sockfd := by
  intro hfd
  rw [hfd, hl.listener] at hfree
  cases hfree

theorem Listening.give (hl : Listening sockfd s)
    (hfree : s.fds.owner fd = none) (o : Owner) :
    (s.fds.give fd o).owner sockfd = some .listener :=
  Fds.give_other hfree hl.listener

theorem Listening.close (hl : Listening sockfd s) (hfd : fd ≠ sockfd) :
    (s.fds.close fd).owner sockfd = some .listener
      ∧ sockfd ∈ (s.fds.close fd).watched := by
  refine ⟨?_, Finset.mem_erase.mpr ⟨hfd.symm, hl.watched⟩⟩
  rw [Fds.close_owner, if_neg hfd.symm]
  exact hl.listener

/-- `DoKill` closes the number of a key, so not the listener's. -/
theorem Listening.doKill (hb : Base s) (hl : Listening sockfd s)
    (fd : Int) : Listening sockfd (s.doKill fd) := by
  obtain ⟨hsender, -, -, -, hmain⟩ := doKill_frame s fd
  have hfds : (s.doKill fd).fds.owner sockfd = some .listener
      ∧ sockfd ∈ (s.doKill fd).fds.watched := by
    rw [doKill_fds, hb.kills]
    cases hc : s.clientqueue.lookup fd with
    | none => exact ⟨hl.listener, hl.watched⟩
    | some c =>
        refine hl.close fun hfd => ?_
        change fd = sockfd at hfd
        rw [hfd, hl.unmapped] at hc
        cases hc
  refine ⟨hfds.1, hfds.2, ?_, ?_, ?_⟩
  · rw [doKill_lookup, hl.unmapped, ite_self]
  · rw [hsender]
    exact hl.senders
  · rw [hmain]
    exact hl.handling

theorem Listening.unRegister (hl : Listening sockfd s)
    (hfd : fd ≠ sockfd) (willing : Bool) :
    Listening sockfd (s.unRegisterForEvent fd willing) := by
  unfold State.unRegisterForEvent
  split
  · exact ⟨hl.listener, Finset.mem_erase.mpr ⟨hfd.symm, hl.watched⟩,
      hl.unmapped, hl.senders, hl.handling⟩
  · exact hl

theorem Listening.add (hl : Listening sockfd s) (willing : Bool) :
    Listening sockfd (s.addForEvent fd willing) := by
  unfold State.addForEvent
  split
  · next hg =>
    refine ⟨?_, ?_, hl.unmapped, hl.senders, hl.handling⟩
    · show (s.fds.watch fd).owner sockfd = _
      rw [Fds.watch_owner]
      exact hl.listener
    · show sockfd ∈ (s.fds.watch fd).watched
      rw [Fds.watch_watched hg.2.1]
      exact Finset.mem_insert_of_mem hl.watched
  · exact hl

theorem afterRead_ne {e : Event} (he : e.fd ≠ sockfd)
    (rest : List Event) : (afterRead e rest).handling ≠ some sockfd := by
  rw [afterRead_handling]
  split
  · exact fun h => he (Option.some.inj h)
  · exact fun h => by cases h

theorem listening_step (hb : Base s) (hl : Listening sockfd s)
    (h : step maxClients sockfd s a = some s') : Listening sockfd s' := by
  have hwork := hl.handling
  cases a with
  | getEvents events =>
      obtain ⟨hm, -, rfl⟩ := getEvents_inv h
      exact hl.move fun h => by cases h
  | acceptFail =>
      obtain ⟨e, rest, hm, rfl⟩ := passOver_inv (Or.inl rfl) h
      exact hl.move fun h => by cases h
  | skip =>
      obtain ⟨e, rest, hm, rfl⟩ := passOver_inv (Or.inr rfl) h
      exact hl.move fun h => by cases h
  | accept fd =>
      obtain ⟨e, rest, hm, -, hfree, rfl⟩ := accept_inv h
      exact ⟨hl.give hfree _, hl.watched, hl.unmapped, hl.senders,
        fun h => hl.ne hfree (Option.some.inj h)⟩
  | getNewClient =>
      obtain ⟨fd, c, rest, hm, ⟨-, rfl⟩ | rfl⟩ := getNewClient_inv h
      · rw [hm] at hwork
        exact ⟨hl.listener, hl.watched, hl.unmapped, hl.senders, hwork⟩
      · rw [hm] at hwork
        exact ⟨hl.listener, hl.watched, hl.unmapped, hl.senders, hwork⟩
  | insert =>
      obtain ⟨fd, c, rest, hm, rfl⟩ := insert_inv h
      rw [hm] at hwork
      have hfd : sockfd ≠ fd := fun heq => hwork (by rw [heq]; rfl)
      have hkill := hl.doKill hb fd
      rw [insertClient_eq]
      refine ⟨hkill.listener, hkill.watched, ?_, hkill.senders, hwork⟩
      show (s.clientqueue.insert fd c).lookup sockfd = none
      rw [AList.lookup_insert_ne hfd]
      exact hl.unmapped
  | unRegister willing =>
      rcases unRegister_cases h with ⟨e, rest, hm, hne, -, rfl⟩
        | ⟨fd, rest, hm, rfl⟩
      · refine (hl.unRegister hne willing).move ?_
        split
        · exact fun h => hne (Option.some.inj h)
        · exact afterRead_ne hne rest
      · rw [hm] at hwork
        exact (hl.unRegister (fun heq => hwork (by rw [← heq]; rfl))
          willing).move hwork
  | find =>
      obtain ⟨e, rest, m, hm, rfl, rfl | ⟨c, rfl⟩⟩ := find_inv h
      all_goals
        rw [hm] at hwork
        exact hl.move hwork
  | recvData =>
      obtain ⟨c, e, rest, hm, rfl⟩ := recvData_inv h
      rw [hm] at hwork
      exact hl.move hwork
  | recvGone fd =>
      obtain ⟨c, e, rest, hm, rfl⟩ := recvGone_inv h
      rw [hm] at hwork
      exact hl.move hwork
  | doKill =>
      rcases doKill_cases h with ⟨fd, e, rest, hm, rfl⟩ | ⟨fd, rest, hm, rfl⟩
      · rw [hm] at hwork
        exact (hl.doKill hb fd).move hwork
      · exact (hl.doKill hb fd).move fun h => by cases h
  | setsockopt willing =>
      obtain ⟨stage, stage', e, rest, hm, rfl⟩ := setsockopt_inv h
      rw [hm] at hwork
      exact hl.move hwork
  | close =>
      obtain ⟨e, rest, hm, rfl⟩ := close_inv h
      rw [hm] at hwork
      have he : e.fd ≠ sockfd := fun heq => hwork (by rw [← heq]; rfl)
      exact ⟨(hl.close he).1, (hl.close he).2, hl.unmapped, hl.senders,
        afterRead_ne he rest⟩
  | add willing =>
      obtain ⟨e, rest, hm, rfl⟩ := add_inv h
      rw [hm] at hwork
      have he : e.fd ≠ sockfd := fun heq => hwork (by rw [← heq]; rfl)
      exact (hl.add willing).move (afterRead_ne he rest)
  | workerKill fd =>
      rw [workerKill_inv h]
      exact hl.doKill hb fd
  | socket fd =>
      obtain ⟨hfree, rfl⟩ := socket_inv h
      refine ⟨hl.give hfree _, hl.watched, hl.unmapped, fun k hk => ?_,
        hl.handling⟩
      change Function.update s.sender s.next (some fd) k = some sockfd at hk
      rw [Function.update_apply] at hk
      split at hk
      · exact hl.ne hfree (Option.some.inj hk)
      · exact hl.senders k hk
  | senderClose k =>
      obtain ⟨fd, hk, rfl⟩ := senderClose_inv h
      have hfd : fd ≠ sockfd := fun heq => hl.senders k (by rw [hk, heq])
      refine ⟨(hl.close hfd).1, (hl.close hfd).2, hl.unmapped,
        fun k' hk' => ?_, hl.handling⟩
      change Function.update s.sender k none k' = some sockfd at hk'
      rw [Function.update_apply] at hk'
      split at hk'
      · cases hk'
      · exact hl.senders k' hk'

end CorrectGps.EventLoop

namespace CorrectGps.Watch

open Lib
open EventLoop (Base Proper Covered Flagged Listening Event)

variable {maxClients : Nat} {sockfd : Int} {s s' : State}
variable {of : Int → Prop}

-- =============================================================== the step

/-- No input is lost on the main thread: what holds of the loop, and what
the kernel has announced of the descriptors `of` interest. -/
structure Inv (sockfd : Int) (of : Int → Prop) (s : State) : Prop where
  base : Base s.loop
  proper : Proper sockfd s.loop
  flagged : Flagged s.loop
  covered : Covered s.loop
  listening : Listening sockfd s.loop
  heard : s.edge.Heard s.loop.fds.watched of
    (s.loop.main.rest.map Event.fd)

/-- A run starts with nothing to read. -/
theorem inv_init (sockfd : Int) : Inv sockfd of (init sockfd) where
  base := EventLoop.base_init sockfd
  proper := EventLoop.proper_init sockfd
  flagged := fun e he => by cases he
  covered := fun d c h => by cases h
  listening := EventLoop.listening_init sockfd
  heard := Edge.heard_quiet

/-- What the kernel keeps for the events the main thread may hold after a
step of the program. -/
theorem heard_react {a : EventLoop.Label} {drained : Option Int}
    {l : EventLoop.State} {hands : List Int}
    (hheard : match a with
      | .getEvents events => (s.edge.take (events.map Event.fd)).Heard
          s.loop.fds.watched of hands
      | _ => s.edge.Heard s.loop.fds.watched of hands) :
    (s.react a drained l).Heard l.fds.watched of hands := by
  unfold State.react
  refine Edge.heard_follow ?_ _
  cases drained with
  | none => cases a <;> exact hheard
  | some d => cases a <;> exact Edge.heard_drain hheard d

theorem heard_step {a : EventLoop.Label} {drained : Option Int}
    (hI : Inv sockfd of s) (hg : Obliging s (.loop a drained))
    (hof : of sockfd → AcceptsAll sockfd s (.loop a drained))
    (h : step maxClients sockfd s (.loop a drained) = some s') :
    s'.edge.Heard s'.loop.fds.watched of
      (s'.loop.main.rest.map Event.fd) := by
  obtain ⟨-, hloop, hedge⟩ := loop_inv h
  rw [hedge]
  by_cases hget : ∃ events, a = .getEvents events
  · obtain ⟨events, rfl⟩ := hget
    obtain ⟨hm, -, hs'⟩ := EventLoop.getEvents_inv hloop
    have hall : EventLoop.described events = events :=
      List.take_of_length_le hg
    rw [hs', hall]
    refine heard_react ?_
    have hheard := hI.heard
    rw [hm] at hheard
    exact Edge.heard_take hheard _
  · have hne : ∀ events, a ≠ .getEvents events :=
      fun events ha => hget ⟨events, ha⟩
    have hall : (s.react a drained s'.loop).Heard s'.loop.fds.watched of
        (s.loop.main.rest.map Event.fd) := by
      refine heard_react ?_
      cases a with
      | getEvents events => exact absurd rfl (hne events)
      | _ => exact hI.heard
    have hwilling : ∀ w, a = .unRegister w → w = true := by
      rintro w rfl
      exact hg
    rcases EventLoop.rest_step hI.proper hwilling hne hloop with hsame
      | ⟨e, hrest, hlet⟩
    · rw [hsame]
      exact hall
    · rw [hrest, List.map_cons] at hall
      rcases hlet with hun | ⟨hfd, hacc⟩
      · exact Edge.heard_let_go hall fun hd => absurd hd hun
      · refine Edge.heard_let_go hall fun _ hofe => ?_
        rw [hfd] at hofe ⊢
        have hempty : drained = some sockfd := by
          rcases hacc with rfl | ⟨fd, rfl⟩
          · exact hof hofe
          · exact hof hofe
        rw [hempty]
        exact Edge.level_follow_drain _

theorem proper_step {a : EventLoop.Label} {l : EventLoop.State}
    {drained : Option Int} (hb : Base s.loop) (hp : Proper sockfd s.loop)
    (hg : Obliging s (.loop a drained))
    (h : EventLoop.step maxClients sockfd s.loop a = some l) :
    Proper sockfd l := by
  intro d o hd
  rcases EventLoop.owner_step hb h hd with hold | ⟨-, rfl⟩ | rfl
  · exact hp d o hold
  · exact Or.inl hg
  · exact Or.inl hg

theorem flagged_step {a : EventLoop.Label} {l : EventLoop.State}
    {drained : Option Int} (hp : Proper sockfd s.loop)
    (hf : Flagged s.loop) (hg : Obliging s (.loop a drained))
    (ha : s.announced a)
    (h : EventLoop.step maxClients sockfd s.loop a = some l) :
    Flagged l := by
  by_cases hget : ∃ events, a = .getEvents events
  · obtain ⟨events, rfl⟩ := hget
    obtain ⟨-, -, rfl⟩ := EventLoop.getEvents_inv h
    exact fun e he => (ha e (List.mem_of_mem_take he)).2
  · have hne : ∀ events, a ≠ .getEvents events :=
      fun events ha => hget ⟨events, ha⟩
    have hwilling : ∀ w, a = .unRegister w → w = true := by
      rintro w rfl
      exact hg
    rcases EventLoop.rest_step hp hwilling hne h with hsame | ⟨e, hrest, -⟩
    · intro e he
      rw [hsame] at he
      exact hf e he
    · intro e' he'
      refine hf e' ?_
      rw [hrest]
      exact List.mem_cons_of_mem e he'

theorem inv_step {a : Label} (hI : Inv sockfd of s) (hg : Obliging s a)
    (hof : of sockfd → AcceptsAll sockfd s a)
    (h : step maxClients sockfd s a = some s') : Inv sockfd of s' := by
  cases a with
  | arrive d =>
      rw [arrive_inv h]
      exact ⟨hI.base, hI.proper, hI.flagged, hI.covered, hI.listening,
        Edge.heard_arrive hI.heard d⟩
  | loop a drained =>
      obtain ⟨hann, hloop, -⟩ := loop_inv h
      have hadd : ∀ w, a = .add w → w = true := by
        rintro w rfl
        exact hg
      exact ⟨hI.base.step hloop, proper_step hI.base hI.proper hg hloop,
        flagged_step hI.proper hI.flagged hg hann hloop,
        EventLoop.covered_step hI.base hI.covered hI.flagged hadd hloop,
        EventLoop.listening_step hI.base hI.listening hloop,
        heard_step hI hg hof h⟩

/-- The guard of a run in which the descriptors `of` interest are heard
of. -/
def Allowed (sockfd : Int) (of : Int → Prop) (s : State) (a : Label) :
    Prop :=
  Obliging s a ∧ (of sockfd → AcceptsAll sockfd s a)

theorem inv_run {as : List Label}
    (hallowed : Meets (step maxClients sockfd) (Allowed sockfd of)
      (init sockfd) as)
    (hrun : run (step maxClients sockfd) (init sockfd) as = some s) :
    Inv sockfd of s :=
  run_inv (h := []) (I := fun _ => Inv sockfd of)
    (fun hI hg hs => inv_step hI hg.1 hg.2 hs) (inv_init sockfd) hallowed
    hrun

/-- When the main thread sleeps, there is nothing to read from what is
watched, and every open client is watched. -/
theorem Inv.nothing (hI : Inv sockfd of s) (hblocked : s.Blocked) {d : Int}
    (hd : d ∈ s.loop.fds.watched) (hof : of d) :
    s.edge.level d = false := by
  obtain ⟨hmain, hready⟩ := hblocked
  have hheard := hI.heard
  rw [hmain] at hheard
  exact hheard.nothing hready hd hof

theorem Inv.client (hI : Inv sockfd of s) (hblocked : s.Blocked) {d : Int}
    {c : Nat} (hd : s.loop.clientqueue.lookup d = some c)
    (ho : s.loop.fds.owner d = some (.conn c)) :
    d ∈ s.loop.fds.watched ∧ d ≠ sockfd := by
  constructor
  · refine (hI.covered d c hd ho).resolve_right fun hwork => ?_
    rw [hblocked.1] at hwork
    cases hwork
  · intro heq
    rw [heq, hI.listening.unmapped] at hd
    cases hd

-- =============================================================== the run

/-- The listener stays open and in the epoll set, whatever is closed. -/
theorem listener_stays (as : List EventLoop.Label) (l : EventLoop.State)
    (hrun : run (EventLoop.step maxClients sockfd) (EventLoop.init sockfd)
      as = some l) :
    l.fds.owner sockfd = some .listener ∧ sockfd ∈ l.fds.watched
      ∧ l.clientqueue.lookup sockfd = none := by
  have hI := run_inv (h := [])
    (I := fun _ l => Base l ∧ Listening sockfd l)
    (fun hI _ hs =>
      ⟨hI.1.step hs, EventLoop.listening_step hI.1 hI.2 hs⟩)
    ⟨EventLoop.base_init sockfd, EventLoop.listening_init sockfd⟩
    (meets_of_forall (g := fun _ _ => True) (fun _ _ => trivial) as _) hrun
  exact ⟨hI.2.listener, hI.2.watched, hI.2.unmapped⟩

/-- A worker kills a client, and its number is given to a sender and
closed. -/
def reusedRun : List EventLoop.Label :=
  EventLoop.acceptRun ++ [.workerKill 5, .socket 5, .senderClose 1]

theorem reusedRun_listener :
    ∃ l, run (EventLoop.step 1 3) (EventLoop.init 3) reusedRun = some l
      ∧ l.fds.owner 3 = some .listener ∧ 3 ∈ l.fds.watched
      ∧ l.clientqueue.lookup 3 = none := by
  obtain ⟨l, hrun, -⟩ := exists_run_of_any (P := fun _ => True)
    (show (run (EventLoop.step 1 3) (EventLoop.init 3) reusedRun).any _
      = true by decide)
  exact ⟨l, hrun, listener_stays _ l hrun⟩

/-- The main thread never sleeps on what a client has sent: a client whose
descriptor is open is in the epoll set, and nothing is left to read. -/
theorem no_input_missed (as : List Label)
    (hobliging : Meets (step maxClients sockfd) Obliging (init sockfd) as)
    (hrun : run (step maxClients sockfd) (init sockfd) as = some s)
    (hblocked : s.Blocked) {d : Int} {c : Nat}
    (hd : s.loop.clientqueue.lookup d = some c)
    (ho : s.loop.fds.owner d = some (.conn c)) :
    d ∈ s.loop.fds.watched ∧ s.edge.level d = false := by
  -- of every number but the listener's
  have hI : Inv sockfd (· ≠ sockfd) s := by
    refine inv_run ?_ hrun
    exact (meets_congr (I := fun _ => True) (r := Obliging)
      (fun _ hob => ⟨fun _ => hob, fun hob => ⟨hob, fun h => absurd rfl h⟩⟩)
      (fun _ _ _ => trivial) trivial hobliging).mpr hobliging
  obtain ⟨hwatched, hne⟩ := hI.client hblocked hd ho
  exact ⟨hwatched, hI.nothing hblocked hwatched hne⟩

/-- A connection is accepted, and its request is read in two pieces. -/
def twiceRun : List Label :=
  [.arrive 3, .loop (.getEvents [⟨3, .listener, true, false⟩]) none,
    .loop (.accept 5) (some 3), .loop .getNewClient none,
    .loop .insert none, .loop (.setsockopt true) none,
    .loop (.setsockopt true) none, .loop (.add true) none, .arrive 5,
    .loop (.getEvents [⟨5, .conn 0, true, false⟩]) none,
    .loop (.unRegister true) none, .loop .find none,
    .loop .recvData none, .loop (.setsockopt true) none,
    .loop (.setsockopt true) none, .loop (.add true) none,
    .loop (.getEvents [⟨5, .conn 0, true, false⟩]) none,
    .loop (.unRegister true) none, .loop .find none,
    .loop .recvData (some 5), .loop (.setsockopt true) none,
    .loop (.setsockopt true) none, .loop (.add true) none]

theorem twiceRun_read :
    ∃ s, run (step 1 3) (init 3) twiceRun = some s
      ∧ 5 ∈ s.loop.fds.watched ∧ s.edge.level 5 = false := by
  obtain ⟨s, hrun, hblocked, hd, ho⟩ := exists_run_of_any
    (P := fun s => s.Blocked ∧ s.loop.clientqueue.lookup 5 = some 0
      ∧ s.loop.fds.owner 5 = some (.conn 0))
    (show (run (step 1 3) (init 3) twiceRun).any _ = true by decide)
  exact ⟨s, hrun, no_input_missed twiceRun (by decide) hrun hblocked hd ho⟩

/-- Two connections come for one event: the second is left waiting. -/
theorem connection_missed :
    ∃ as s, Meets (step 2 3) Obliging (init 3) as
      ∧ run (step 2 3) (init 3) as = some s ∧ s.Blocked
      ∧ s.edge.level 3 = true := by
  obtain ⟨s, hrun, hend⟩ := exists_run_of_any
    (P := fun s => s.Blocked ∧ s.edge.level 3 = true)
    (show (run (step 2 3) (init 3)
      [.arrive 3, .arrive 3,
        .loop (.getEvents [⟨3, .listener, true, false⟩]) none,
        .loop (.accept 5) none, .loop .getNewClient none,
        .loop .insert none, .loop (.setsockopt true) none,
        .loop (.setsockopt true) none, .loop (.add true) none]).any _
      = true by decide)
  exact ⟨_, s, by decide, hrun, hend⟩

end CorrectGps.Watch
