/-
The program refines the server: in a civil run of the event loop and the
workers together, each step is one of Server.lean or is not seen there.

# The two levels

Server.lean sees the connections numbered in order of acceptance, without
the `Csender`s, and the main thread between two events or in `AddToQueue`
(`Mirrors`). A section of the main thread or of a worker does the same on
both levels, where a parse is one step with its push; the system calls
between them are not seen.

# What it is for

What is proved of every run of Server.lean holds of what it sees of a
civil run of the program. What the map leads a worker to is an example
(`lookup_own`). A run that is not civil is not seen right
(`failedRun_not_seen`).
-/
import CorrectGps.Proofs.Replies
import CorrectGps.Proofs.Program

namespace CorrectGps.Program

open Lib
open Server (Msg Phase)

variable {n : Nat} {k : Setup} {s s' : State n} {t t' : Server.State n}
variable {a : Label n} {l : EventLoop.State} {c d : Nat} {fd : Int}

-- ========================================================== what is seen

/-- The worker's phase, with the connections in order of acceptance. -/
def State.turn (s : State n) : Phase → Phase
  | .idle => .idle
  | .serving pc => .serving (s.num pc)
  | .killing fd pc => .killing fd (s.num pc)

/-- Where Server.lean sees the main thread. -/
def State.place (s : State n) : Server.Main :=
  match s.loop.main with
  | .accepted fd c _ => .accepted fd (s.num c)
  | .created fd c _ => .created fd (s.num c)
  | _ => if s.notifying then .notifying else .idle

/-- The object of Server.lean. -/
def State.shown (s : State n) (c : Nat) : Option Server.Client :=
  (s.loop.client c).map fun fd =>
    ⟨fd, (s.object c).status, (s.object c).str .serial⟩

/-- The map, the heap and the kernel's table are seen right. -/
structure Agree (s : State n) (t : Server.State n) : Prop where
  keys : t.clientqueue.keys = s.loop.clientqueue.keys
  lookup : ∀ fd,
    t.clientqueue.lookup fd = (s.loop.clientqueue.lookup fd).map s.num
  client : ∀ c ∈ s.accepted, t.client (s.num c) = s.shown c
  sock : ∀ fd, t.sock fd = (connOf s.loop fd).map s.num
  next : t.next = s.accepted.length

/-- `t` is what Server.lean sees of `s`. -/
structure Mirrors (s : State n) (t : Server.State n) : Prop where
  agree : Agree s t
  wake : t.wake = s.wake
  main : t.main = s.place
  phase : ∀ w, t.phase w = s.turn (s.phase w)

theorem agree_init (k : Setup) (memory : Nat → CClient) (n : Nat) :
    Agree (init k memory n) (Server.init n) where
  keys := rfl
  lookup := fun _ => rfl
  client := fun _ hc => by cases hc
  sock := fun fd => by
    cases hc : connOf (init k memory n).loop fd with
    | none => rfl
    | some c => cases (inv_init k memory n).owned fd c hc
  next := rfl

theorem mirrors_init (k : Setup) (memory : Nat → CClient) (n : Nat) :
    Mirrors (init k memory n) (Server.init n) :=
  ⟨agree_init k memory n, rfl, rfl, fun _ => rfl⟩

theorem num_inj (hc : c ∈ s.accepted) : s.num c = s.num d ↔ c = d :=
  List.idxOf_inj hc

/-- Outside `AddToQueue` the main thread is notifying or idle. -/
theorem place_of_none (h : s.loop.main.accepting = none) :
    s.place = if s.notifying then .notifying else .idle := by
  unfold State.place
  cases hm : s.loop.main with
  | accepted fd c rest =>
      rw [hm] at h
      cases h
  | created fd c rest =>
      rw [hm] at h
      cases h
  | _ => rfl

theorem place_of_accepted {rest : List EventLoop.Event}
    (h : s.loop.main = .accepted fd c rest) :
    s.place = .accepted fd (s.num c) := by
  rw [State.place, h]

theorem place_of_created {rest : List EventLoop.Event}
    (h : s.loop.main = .created fd c rest) :
    s.place = .created fd (s.num c) := by
  rw [State.place, h]

/-- It depends on what is seen of the map, the heap and the table. -/
theorem Agree.keep (ha : Agree s t)
    (hqueue : s'.loop.clientqueue = s.loop.clientqueue)
    (hshown : ∀ c, s'.shown c = s.shown c)
    (hconn : ∀ fd, connOf s'.loop fd = connOf s.loop fd)
    (haccepted : s'.accepted = s.accepted)
    (ht : t'.clientqueue = t.clientqueue ∧ t'.client = t.client
      ∧ t'.sock = t.sock ∧ t'.next = t.next) : Agree s' t' := by
  obtain ⟨hq, ho, hk, hx⟩ := ht
  have hnum : s'.num = s.num := by
    funext c
    rw [State.num, haccepted, State.num]
  refine ⟨?_, fun fd => ?_, fun c hc => ?_, fun fd => ?_, ?_⟩
  · rw [hq, hqueue]
    exact ha.keys
  · rw [hq, hqueue, hnum]
    exact ha.lookup fd
  · rw [haccepted] at hc
    rw [ho, hnum, hshown]
    exact ha.client c hc
  · rw [hk, hconn, hnum]
    exact ha.sock fd
  · rw [hx, haccepted]
    exact ha.next

/-- `DoKill` does the same on both levels. -/
theorem Agree.doKill (ha : Agree s t) (hi : Inv s) (ht : Server.Inv t)
    (fd : Int) :
    Agree { s with loop := s.loop.doKill fd } (t.doKill fd) where
  keys := by
    have hl := ha.lookup fd
    show _ = (s.loop.doKill fd).clientqueue.keys
    unfold Server.State.doKill EventLoop.State.doKill
    cases hc : s.loop.clientqueue.lookup fd with
    | none =>
        rw [hc, Option.map_none] at hl
        simp only [hl]
        exact ha.keys
    | some c =>
        rw [hc, Option.map_some] at hl
        simp only [hl, AList.keys_erase, ha.keys]
  lookup := fun fd' => by
    show _ = ((s.loop.doKill fd).clientqueue.lookup fd').map s.num
    rw [Server.doKill_lookup, EventLoop.doKill_lookup]
    split
    · rfl
    · exact ha.lookup fd'
  client := fun c hc => by
    have hiff : t.clientqueue.lookup fd = some (s.num c)
        ↔ s.loop.clientqueue.lookup fd = some c := by
      rw [ha.lookup fd]
      constructor
      · intro h
        obtain ⟨c', hc', hnum⟩ := Option.map_eq_some_iff.mp h
        rw [hc', (num_inj (hi.entry hc').1).mp hnum]
      · intro h
        rw [h, Option.map_some]
    show (t.doKill fd).client (s.num c)
      = ((s.loop.doKill fd).client c).map _
    rw [Server.doKill_client, EventLoop.doKill_client]
    simp only [hiff]
    split
    · rfl
    · exact ha.client c hc
  sock := fun fd' => by
    show _ = (connOf (s.loop.doKill fd) fd').map s.num
    rw [Server.doKill_sock ht, connOf_doKill hi.base, ha.lookup fd,
      Option.isSome_map]
    split
    · rfl
    · exact ha.sock fd'
  next := (Server.doKill_frame t fd).2.1.trans ha.next

/-- So does an assignment to a client. -/
theorem Agree.set (ha : Agree s t) (c : Nat) (fd : Int) (o : CClient)
    (hqueue : s'.loop.clientqueue = s.loop.clientqueue)
    (hclient : ∀ c',
      s'.loop.client c' = if c' = c then some fd else s.loop.client c')
    (hconn : ∀ fd, connOf s'.loop fd = connOf s.loop fd)
    (hobject : s'.object = Function.update s.object c o)
    (haccepted : s'.accepted = s.accepted)
    (hnew : t'.client = Function.update t.client (s.num c)
      (some ⟨fd, o.status, o.str .serial⟩))
    (ht : t'.clientqueue = t.clientqueue ∧ t'.sock = t.sock
      ∧ t'.next = t.next) : Agree s' t' := by
  obtain ⟨hq, hk, hx⟩ := ht
  have hnum : s'.num = s.num := by
    funext c
    rw [State.num, haccepted, State.num]
  refine ⟨?_, fun fd => ?_, fun c' hc' => ?_, fun fd => ?_, ?_⟩
  · rw [hq, hqueue]
    exact ha.keys
  · rw [hq, hqueue, hnum]
    exact ha.lookup fd
  · rw [haccepted] at hc'
    rw [hnew, hnum, State.shown, hclient, hobject]
    by_cases hcc : c' = c
    · rw [hcc, if_pos rfl, Function.update_self, Function.update_self]
      rfl
    · have hne : s.num c' ≠ s.num c := fun h => hcc ((num_inj hc').mp h)
      rw [if_neg hcc, Function.update_of_ne hne, Function.update_of_ne hcc]
      exact ha.client c' hc'
  · rw [hk, hconn, hnum]
    exact ha.sock fd
  · rw [hx, haccepted]
    exact ha.next

-- ======================================================= the main thread

/-- Server.lean has the main thread idle outside `AddToQueue`. -/
theorem Mirrors.idle (hm : Mirrors s t)
    (hnone : s.loop.main.accepting = none) (hnot : s.notifying = false) :
    t.main = .idle := by
  rw [hm.main, place_of_none hnone, hnot]
  rfl

theorem Same.shown (hs : Same s.loop l) (c : Nat) :
    { s with loop := l }.shown c = s.shown c := by
  rw [State.shown, State.shown, hs.client]

/-- What is not seen changes nothing. -/
theorem Mirrors.same (hm : Mirrors s t) (hs : Same s.loop l) :
    Mirrors { s with loop := l } t where
  agree := hm.agree.keep hs.clientqueue hs.shown hs.conn rfl
    ⟨rfl, rfl, rfl, rfl⟩
  wake := hm.wake
  main := by
    rw [hm.main]
    rcases hs.main with hmain | ⟨hnone, hnone'⟩
    · unfold State.place
      rw [hmain]
      rfl
    · rw [place_of_none hnone, place_of_none hnone']
  phase := hm.phase

theorem turn_congr {p : Phase}
    (h : ∀ c, pointer p = some c → s'.num c = s.num c) :
    s'.turn p = s.turn p := by
  cases p with
  | idle => rfl
  | serving pc => rw [State.turn, State.turn, h pc rfl]
  | killing fd pc => rw [State.turn, State.turn, h pc rfl]

/-- The numbers given so far stay. -/
theorem num_accept (hc : c ∈ s.accepted) :
    (s.advance (.accept fd) l).num c = s.num c :=
  List.idxOf_append_of_mem hc

/-- The new connection's is the next one. -/
theorem Inv.num_accept (hi : Inv s) :
    (s.advance (.accept fd) l).num s.loop.next = s.accepted.length := by
  have hfresh : s.loop.next ∉ s.accepted :=
    fun hc => Nat.lt_irrefl _ (hi.below _ hc)
  show (s.accepted ++ [s.loop.next]).idxOf s.loop.next = _
  rw [List.idxOf_append_of_notMem hfresh, List.idxOf_cons_self,
    Nat.add_zero]

theorem Mirrors.accept (hm : Mirrors s t) (hi : Inv s)
    (ht : Server.Inv t) (hallow : s.allows (.accept fd) = true)
    (h : EventLoop.step k.maxClients k.sockfd s.loop (.accept fd)
      = some l) :
    ∃ t', Server.step k.maxClients t (.accept fd) = some t'
      ∧ Mirrors (s.advance (.accept fd) l) t' := by
  obtain ⟨e, rest, hmain, hpos, hfree, hl⟩ := EventLoop.accept_inv h
  have hidle : t.main = .idle :=
    hm.idle (by rw [hmain]; rfl) (by simpa [State.allows] using hallow)
  have hsock : t.sock fd = none := by
    rw [hm.agree.sock, connOf, hfree]
    rfl
  have hnext : (s.advance (.accept fd) l).num s.loop.next = t.next :=
    hi.num_accept.trans hm.agree.next.symm
  have hconn : ∀ fd', connOf l fd'
      = if fd' = fd then some s.loop.next else connOf s.loop fd' := by
    intro fd'
    rw [hl, connOf, Fds.give_owner]
    split
    · rfl
    · rfl
  refine ⟨_, by simp only [Server.step, hidle, hpos, hsock]; rfl, ?_⟩
  refine ⟨⟨?_, fun fd' => ?_, fun c hc => ?_, fun fd' => ?_, ?_⟩,
    hm.wake, ?_, fun w => ?_⟩
  · show t.clientqueue.keys = l.clientqueue.keys
    rw [hl]
    exact hm.agree.keys
  · show t.clientqueue.lookup fd' = (l.clientqueue.lookup fd').map _
    rw [hl, hm.agree.lookup]
    exact Option.map_congr fun c hc => (num_accept (hi.entry hc).1).symm
  · show t.client _ = (l.client c).map _
    rw [show l.client = s.loop.client by rw [hl]]
    rcases List.mem_append.mp hc with hc | hc
    · rw [num_accept hc]
      exact hm.agree.client c hc
    · rw [List.mem_singleton.mp hc, hnext, ht.fresh _ (Nat.le_refl _)]
      cases hclient : s.loop.client s.loop.next with
      | none => rfl
      | some d =>
          exact absurd (hi.below _ (hi.alive _ d hclient).1)
            (Nat.lt_irrefl _)
  · show Function.update t.sock fd (some t.next) fd' = (connOf l fd').map _
    rw [hconn]
    split
    · next hfd => rw [hfd, Function.update_self, Option.map_some, hnext]
    · next hfd =>
      rw [Function.update_of_ne hfd, hm.agree.sock]
      exact Option.map_congr fun c hc =>
        (num_accept (hi.owned fd' c hc)).symm
  · show t.next + 1 = (s.accepted ++ [s.loop.next]).length
    rw [hm.agree.next, List.length_append, List.length_singleton]
  · have hplace : (s.advance (.accept fd) l).loop.main
        = .accepted fd s.loop.next rest := by
      show l.main = _
      rw [hl]
    rw [place_of_accepted hplace, hnext]
  · rw [hm.phase]
    exact (turn_congr fun c hc => num_accept (hi.held w c hc)).symm

theorem Mirrors.getNewClient (hm : Mirrors s t)
    (hallow : s.allows .getNewClient = true)
    (h : EventLoop.step k.maxClients k.sockfd s.loop .getNewClient
      = some l) :
    ∃ t', Server.step k.maxClients t .create = some t'
      ∧ Mirrors (s.advance .getNewClient l) t' := by
  obtain ⟨fd, c, rest, hmain, -⟩ := EventLoop.getNewClient_inv h
  have hnot : s.notifying = false := by simpa [State.allows] using hallow
  have hplace : t.main = .accepted fd (s.num c) := by
    rw [hm.main, place_of_accepted hmain]
  simp only [EventLoop.step, hmain] at h
  split at h
  · next hroom =>
    cases h
    refine ⟨_, by simp only [Server.step, hplace, hm.agree.keys,
      if_pos hroom]; rfl, ?_⟩
    refine ⟨?_, hm.wake, ?_, hm.phase⟩
    · exact hm.agree.set c fd ((s.object c).ini fd) rfl
        (fun c' => Function.update_apply ..) (fun _ => rfl) rfl rfl rfl
        ⟨rfl, rfl, rfl⟩
    · rfl
  · next hroom =>
    cases h
    refine ⟨_, by simp only [Server.step, hplace, hm.agree.keys,
      if_neg hroom]; rfl, ?_⟩
    refine ⟨hm.agree.keep rfl (fun _ => rfl) (fun _ => rfl) rfl
      ⟨rfl, rfl, rfl, rfl⟩, hm.wake, ?_, hm.phase⟩
    rw [place_of_none rfl]
    show _ = if s.notifying then _ else _
    rw [hnot]
    rfl

theorem Mirrors.insert (hm : Mirrors s t) (ht : Server.Inv t)
    (hallow : s.allows .insert = true)
    (h : EventLoop.step k.maxClients k.sockfd s.loop .insert = some l) :
    ∃ t', Server.step k.maxClients t .insert = some t'
      ∧ Mirrors (s.advance .insert l) t' := by
  obtain ⟨fd, c, rest, hmain, rfl⟩ := EventLoop.insert_inv h
  have hnot : s.notifying = false := by simpa [State.allows] using hallow
  have hplace : t.main = .created fd (s.num c) := by
    rw [hm.main, place_of_created hmain]
  -- no entry is replaced, on either level
  have hfree' : t.clientqueue.lookup fd = none :=
    (ht.created fd _ hplace).1
  have hfree : s.loop.clientqueue.lookup fd = none := by
    rw [hm.agree.lookup] at hfree'
    exact Option.map_eq_none_iff.mp hfree'
  have hloop : s.loop.insertClient fd c = { s.loop with
      clientqueue := s.loop.clientqueue.insert fd c } := by
    rw [EventLoop.State.insertClient, hfree]
  rw [hloop]
  refine ⟨{ t with
    clientqueue := t.clientqueue.insert fd (s.num c)
    main := .idle }, ?_, ⟨?_, fun fd' => ?_, hm.agree.client,
      hm.agree.sock, hm.agree.next⟩, hm.wake, ?_, hm.phase⟩
  · simp only [Server.step, hplace, Server.State.insertClient, hfree']
  · show (t.clientqueue.insert fd (s.num c)).keys
      = (s.loop.clientqueue.insert fd c).keys
    rw [AList.keys_insert, AList.keys_insert, hm.agree.keys]
  · show (t.clientqueue.insert fd (s.num c)).lookup fd'
      = ((s.loop.clientqueue.insert fd c).lookup fd').map s.num
    by_cases hfd : fd' = fd
    · rw [hfd, AList.lookup_insert, AList.lookup_insert, Option.map_some]
    · rw [AList.lookup_insert_ne hfd, AList.lookup_insert_ne hfd]
      exact hm.agree.lookup fd'
  · rw [place_of_none rfl]
    show _ = if s.notifying then _ else _
    rw [hnot]
    rfl

theorem Mirrors.doKill (hm : Mirrors s t) (hi : Inv s)
    (ht : Server.Inv t) (hallow : s.allows .doKill = true)
    (h : EventLoop.step k.maxClients k.sockfd s.loop .doKill = some l) :
    ∃ t', stepOpt (Server.step k.maxClients) t (s.served (.loop .doKill))
        = some t'
      ∧ Mirrors (s.advance .doKill l) t' := by
  have hnot : s.notifying = false := by simpa [State.allows] using hallow
  obtain ⟨-, m, -, -, -, hnone, -⟩ := EventLoop.doKill_inv h
  have hidle := hm.idle hnone hnot
  have hkill : ∀ fd m, m.accepting = none →
      Mirrors { s with loop := { s.loop.doKill fd with main := m } }
        (t.doKill fd) := by
    intro fd m hm'
    obtain ⟨hwake, -, hmain, hphase⟩ := Server.doKill_frame t fd
    refine ⟨?_, hwake.trans hm.wake, ?_, fun w => ?_⟩
    · exact (hm.agree.doKill hi ht fd).keep rfl (fun _ => rfl)
          (fun _ => rfl) rfl
        ⟨rfl, rfl, rfl, rfl⟩
    · rw [hmain, hidle, place_of_none hm', hnot]
      rfl
    · rw [hphase]
      exact hm.phase w
  simp only [EventLoop.step] at h
  split at h
  case h_1 fd e rest hmain =>
    cases h
    refine ⟨t.doKill fd, ?_, hkill fd _ rfl⟩
    simp [State.served, killing, hmain, stepOpt, Server.step, hidle]
  case h_2 fd rest hmain =>
    cases h
    refine ⟨t.doKill fd, ?_, hkill fd _ rfl⟩
    simp [State.served, killing, hmain, stepOpt, Server.step, hidle]
  case h_3 => cases h

theorem mirrors_loop {a : EventLoop.Label} (hm : Mirrors s t)
    (hi : Inv s) (ht : Server.Inv t) (hc : Civil s (.loop a))
    (hallow : s.allows a = true)
    (h : EventLoop.step k.maxClients k.sockfd s.loop a = some l) :
    ∃ t', stepOpt (Server.step k.maxClients) t (s.served (.loop a)) = some t'
      ∧ Mirrors (s.advance a l) t' := by
  by_cases hu : unseen a = true
  · have hs := same_of_unseen hu hc h
    rw [advance_of_unseen hu]
    refine ⟨t, ?_, hm.same hs⟩
    cases a with
    | accept fd => cases hu
    | getNewClient => cases hu
    | insert => cases hu
    | doKill => cases hu
    | _ => rfl
  · cases a with
    | accept fd => exact hm.accept hi ht hallow h
    | getNewClient => exact hm.getNewClient hallow h
    | insert => exact hm.insert ht hallow h
    | doKill => exact hm.doKill hi ht hallow h
    | workerKill fd => cases hallow
    | _ => simp [unseen] at hu

/-- `recv` is not called in `AddToQueue`. -/
theorem recvData_accepting {maxClients : Nat} {sockfd : Int}
    {l' : EventLoop.State}
    (h : EventLoop.step maxClients sockfd l .recvData = some l') :
    l.main.accepting = none ∧ l'.main.accepting = none := by
  obtain ⟨c, e, rest, hmain, rfl⟩ := EventLoop.recvData_inv h
  exact ⟨by rw [hmain]; rfl, rfl⟩

/-- What the main thread receives for is in the map, and knows its
number. -/
theorem Inv.receiving (hi : Inv s) {tm : Tm} {chunk : List UInt8}
    {o : CClient} {r : Option Int} (hc : Civil s (.receive tm chunk))
    (hp : s.parsed tm chunk = some (c, o, r)) :
    ∃ fd, s.loop.client c = some fd ∧ (s.object c).fd = fd
      ∧ s.loop.clientqueue.lookup fd = some c := by
  obtain ⟨e, rest, effects, hmain, -⟩ := parsed_inv hp
  have halive : (s.loop.client c).isSome := by
    simpa [Civil, State.civil, hmain] using hc
  obtain ⟨fd, hfd⟩ := Option.isSome_iff_exists.mp halive
  refine ⟨fd, hfd, (hi.alive c fd hfd).2, ?_⟩
  rcases hi.mapped c fd hfd with hq | hq
  · exact hq
  · rw [hmain] at hq
    cases hq

/-- A chunk that completes a request is a step of Server.lean. -/
theorem Mirrors.complete {tm : Tm} {chunk : List UInt8} {o : CClient}
    {fd : Int} {wake : CclientManager.State Msg n}
    (hm : Mirrors s t) (hi : Inv s) (hc : Civil s (.receive tm chunk))
    (hnot : s.notifying = false)
    (hp : s.parsed tm chunk = some (c, o, some fd))
    (hw : CclientManager.step s.wake (.push ⟨fd, s.num c⟩) = some wake) :
    ∃ t', Server.step k.maxClients t
        (.complete fd ⟨fd, s.num c⟩ (o.str .serial)) = some t'
      ∧ Mirrors { s with
          object := Function.update s.object c o
          wake := wake
          notifying := true } t' := by
  obtain ⟨e, rest, effects, hmain, -, -, hok, hr⟩ := parsed_inv hp
  obtain ⟨d, hclient, hd, hq⟩ := hi.receiving hc hp
  obtain ⟨-, ⟨hnotified, hstatus⟩ | ⟨hno, -, -⟩⟩ :=
    receive_cases (CClient.receive_of_logged hok)
  · -- the client notifies with the number it is entered under
    have hfd : fd = d := by
      rw [← hr, hd] at hnotified
      exact Option.some.inj hnotified
    subst hfd
    have hnone : s.loop.main.accepting = none := by
      rw [hmain]
      rfl
    have hidle := hm.idle hnone hnot
    have hlook : t.clientqueue.lookup fd = some (s.num c) := by
      rw [hm.agree.lookup, hq]
      rfl
    have hshown : t.client (s.num c) = some
        ⟨fd, (s.object c).status, (s.object c).str .serial⟩ := by
      rw [hm.agree.client c (hi.entry hq).1, State.shown, hclient]
      rfl
    rw [← hm.wake] at hw
    refine ⟨{ t with
      wake := wake
      client := Function.update t.client (s.num c)
        (some ⟨fd, 1, o.str .serial⟩)
      main := .notifying }, ?_, ⟨?_, rfl, ?_, hm.phase⟩⟩
    · simp [Server.step, hidle, hlook, hshown, hw]
    · refine hm.agree.set c fd o rfl (fun c' => ?_) (fun _ => rfl) rfl rfl
        (by rw [hstatus]) ⟨rfl, rfl, rfl⟩
      split
      · next hcc => rw [hcc, hclient]
      · rfl
    · refine ((place_of_none ?_).trans ?_).symm
      · exact hnone
      · rfl
  · rw [hno] at hr
    cases hr

/-- A chunk that is kept is not seen. -/
theorem Mirrors.more {tm : Tm} {chunk : List UInt8} {o : CClient}
    (hm : Mirrors s t) (hp : s.parsed tm chunk = some (c, o, none))
    (hl : EventLoop.step k.maxClients k.sockfd s.loop .recvData = some l) :
    Mirrors { s with
      object := Function.update s.object c o
      loop := l } t := by
  obtain ⟨e, rest, effects, -, -, -, hok, hr⟩ := parsed_inv hp
  obtain ⟨-, ⟨hnotified, -⟩ | ⟨-, hstatus, hserial⟩⟩ :=
    receive_cases (CClient.receive_of_logged hok)
  · rw [hnotified] at hr
    cases hr
  · have hs : Same s.loop l := same_of_quiet rfl hl
    obtain ⟨hnone, hnone'⟩ := recvData_accepting hl
    refine ⟨hm.agree.keep hs.clientqueue (fun c' => ?_) hs.conn rfl
      ⟨rfl, rfl, rfl, rfl⟩, hm.wake, ?_, hm.phase⟩
    · have hsame : (Function.update s.object c o c').status
            = (s.object c').status
          ∧ (Function.update s.object c o c').str .serial
            = (s.object c').str .serial := by
        by_cases hcc : c' = c
        · rw [hcc, Function.update_self]
          exact ⟨hstatus, hserial⟩
        · rw [Function.update_of_ne hcc]
          exact ⟨rfl, rfl⟩
      show (l.client c').map (fun fd => Server.Client.mk fd
        (Function.update s.object c o c').status
        ((Function.update s.object c o c').str .serial)) = _
      rw [hs.client, hsame.1, hsame.2]
      rfl
    · rw [hm.main, place_of_none hnone, place_of_none hnone']

theorem Mirrors.notify {woken : Option (Fin n)} (hm : Mirrors s t)
    (h : step k s (.notify woken) = some s') :
    ∃ t', Server.step k.maxClients t (.notify woken) = some t'
      ∧ Mirrors s' t' := by
  obtain ⟨hyes, wake, l, hw, hl, rfl⟩ := notify_inv h
  have hs : Same s.loop l := same_of_quiet rfl hl
  obtain ⟨hnone, hnone'⟩ := recvData_accepting hl
  have hnotifying : t.main = .notifying := by
    rw [hm.main, place_of_none hnone, if_pos hyes]
  rw [← hm.wake] at hw
  refine ⟨{ t with wake := wake, main := .idle }, ?_,
    ⟨?_, rfl, ?_, hm.phase⟩⟩
  · simp [Server.step, hnotifying, hw]
  · exact hm.agree.keep hs.clientqueue hs.shown hs.conn rfl
      ⟨rfl, rfl, rfl, rfl⟩
  · rw [place_of_none hnone']
    rfl

-- ============================================================ the workers

/-- A worker moves in the protocol or in its turn. -/
theorem Mirrors.still (hm : Mirrors s t)
    {x y : CclientManager.State Msg n} {p q : Fin n → Phase}
    (hwake : y = x) (hphase : ∀ w, q w = s.turn (p w)) :
    Mirrors { s with wake := x, phase := p }
      { t with wake := y, phase := q } where
  agree := ⟨hm.agree.keys, hm.agree.lookup, hm.agree.client,
    hm.agree.sock, hm.agree.next⟩
  wake := hwake
  main := hm.main
  phase := hphase

/-- The same worker goes on on both levels. -/
theorem Mirrors.turn_update (hm : Mirrors s t) (w : Fin n) (p : Phase)
    (v : Fin n) :
    Function.update t.phase w (s.turn p) v
      = s.turn (Function.update s.phase w p v) := by
  by_cases hv : v = w
  · rw [hv, Function.update_self, Function.update_self]
  · rw [Function.update_of_ne hv, Function.update_of_ne hv]
    exact hm.phase v

/-- The same client is forwarded, or none is. -/
theorem forwarded_num {m : Msg}
    (hq : s.loop.clientqueue.lookup m.fd = some c) :
    s.forwarded m = Server.forwarded (s.num c)
      ⟨m.fd, (s.object c).status, (s.object c).str .serial⟩ := by
  rw [State.forwarded, hq]
  rfl

/-- A client that is corrected is sent on if it has a serial. -/
theorem sentOf_isSome {o : CClient} (h : o.status = 2) :
    (sentOf o).isSome ↔ o.str .serial ≠ [] := by
  unfold sentOf
  by_cases hserial : o.str .serial = []
  · simp [hserial]
  · simp [hserial, h]

theorem Mirrors.thread {w : Fin n} {b : CclientManager.Label Msg n}
    (hm : Mirrors s t) (h : step k s (.thread w b) = some s') :
    ∃ t', Server.step k.maxClients t (.thread w b) = some t'
      ∧ Mirrors s' t' := by
  obtain ⟨hown, hp, wake, hw, rfl⟩ := thread_inv h
  have hidle : t.phase w = .idle := by
    rw [hm.phase, hp]
    rfl
  rw [← hm.wake] at hw
  refine ⟨{ t with wake := wake }, ?_, hm.still rfl hm.phase⟩
  simp [Server.step, hown, hidle, hw]

/-- The section that finds a client. -/
theorem Mirrors.serveClient {w : Fin n} {m : Msg} {o : CClient}
    (hm : Mirrors s t) (hi : Inv s)
    (hq : s.loop.clientqueue.lookup m.fd = some c)
    (hstatus : o.status = 2)
    (hserial : o.str .serial = (s.object c).str .serial) :
    Mirrors (s.serveClient w c o) (t.serveClient w (s.num c)
      ⟨m.fd, (s.object c).status, (s.object c).str .serial⟩) := by
  have hclient := (hi.base.entry m.fd c hq).1
  obtain ⟨hwake, hqueue, hsock, hnext, hmain, hobjects⟩ :=
    Server.serveClient_frame t w (s.num c)
      ⟨m.fd, (s.object c).status, (s.object c).str .serial⟩
  refine ⟨?_, hwake.trans hm.wake, hmain.trans hm.main, fun v => ?_⟩
  · refine hm.agree.set c m.fd o rfl (fun c' => ?_) (fun _ => rfl) rfl rfl
      ?_ ⟨hqueue, hsock, hnext⟩
    · split
      · next hcc => rw [hcc]; exact hclient
      · rfl
    · rw [hobjects, hstatus, hserial]
  · by_cases hnil : (s.object c).str .serial = []
    · have hno : ¬ (sentOf o).isSome := by
        rw [sentOf_isSome hstatus, hserial]
        exact not_not.mpr hnil
      rw [Server.serveClient_phase_silent _ _ _ hnil]
      show t.phase v = s.turn ((if _ then _ else _ : Fin n → Phase) v)
      rw [if_neg hno]
      exact hm.phase v
    · have hyes : (sentOf o).isSome := by
        rw [sentOf_isSome hstatus, hserial]
        exact hnil
      rw [Server.serveClient_phase_forward _ _ _ hnil]
      show Function.update t.phase w (s.turn (.serving c)) v
        = s.turn ((if _ then _ else _ : Fin n → Phase) v)
      rw [if_pos hyes]
      exact hm.turn_update w (.serving c) v

theorem Mirrors.serve {w : Fin n} {m : Msg} {gpsxy : CPOI}
    (hm : Mirrors s t) (hi : Inv s)
    (h : step k s (.serve w m gpsxy) = some s') :
    ∃ t', Server.step k.maxClients t (.serve w m (s.forwarded m)) = some t'
      ∧ Mirrors s' t' := by
  obtain ⟨hp, wake, hw, hcase⟩ := serve_inv h
  have hidle : t.phase w = .idle := by
    rw [hm.phase, hp]
    rfl
  rw [← hm.wake] at hw
  have hlook := hm.agree.lookup m.fd
  rcases hcase with ⟨c, o, hq, ho, rfl⟩ | ⟨hq, rfl⟩
  · have hclient := (hi.base.entry m.fd c hq).1
    obtain ⟨-, hstatus, hserial⟩ := worker_cases ho
    have hshown : t.client (s.num c) = some
        ⟨m.fd, (s.object c).status, (s.object c).str .serial⟩ := by
      rw [hm.agree.client c (hi.entry hq).1, State.shown, hclient]
      rfl
    rw [hq, Option.map_some] at hlook
    refine ⟨{ t with wake := wake }.serveClient w (s.num c)
      ⟨m.fd, (s.object c).status, (s.object c).str .serial⟩, ?_, ?_⟩
    · simp [Server.step, hidle, hw, hlook, hshown, forwarded_num hq]
    · have hm' : Mirrors { s with wake := wake } { t with wake := wake } :=
        hm.still rfl hm.phase
      have hi' : Inv { s with wake := wake } :=
        ⟨hi.base, hi.mapped, hi.below, hi.owned, hi.alive, hi.accepting,
          hi.held⟩
      exact hm'.serveClient hi' hq hstatus hserial
  · have hnone : s.forwarded m = none := by
      rw [State.forwarded, hq]
      rfl
    rw [hq, Option.map_none] at hlook
    refine ⟨{ t with wake := wake }, ?_, hm.still rfl hm.phase⟩
    simp [Server.step, hidle, hw, hlook, hnone]

theorem Mirrors.eval {w : Fin n} (hm : Mirrors s t) (hi : Inv s)
    (h : step k s (.eval w fd) = some s') :
    ∃ t', Server.step k.maxClients t (.eval w fd) = some t'
      ∧ Mirrors s' t' := by
  obtain ⟨pc, hp, hfd, rfl⟩ := eval_inv h
  have hserving : t.phase w = .serving (s.num pc) := by
    rw [hm.phase, hp]
    rfl
  have hpc : pc ∈ s.accepted := hi.held w pc (by rw [hp]; rfl)
  have hread : ∀ o, t.client (s.num pc) = some o → o.fd = fd := by
    intro o ho
    rw [hm.agree.client pc hpc, State.shown] at ho
    obtain ⟨d, hd, rfl⟩ := Option.map_eq_some_iff.mp ho
    exact hfd d hd
  refine ⟨{ t with
    phase := Function.update t.phase w (.killing fd (s.num pc)) }, ?_,
      hm.still hm.wake (hm.turn_update w (.killing fd pc))⟩
  simp only [Server.step, hserving, if_pos hread]

theorem Mirrors.finish {w : Fin n} (hm : Mirrors s t) (hi : Inv s)
    (ht : Server.Inv t)
    (h : step k s (.finish w) = some s') :
    ∃ t', Server.step k.maxClients t (.finish w) = some t'
      ∧ Mirrors s' t' := by
  obtain ⟨fd, pc, hp, rfl⟩ := finish_inv h
  have hkilling : t.phase w = .killing fd (s.num pc) := by
    rw [hm.phase, hp]
    rfl
  obtain ⟨hwake, -, hmain, -⟩ := Server.doKill_frame t fd
  refine ⟨{ t.doKill fd with phase := Function.update t.phase w .idle },
    ?_, ⟨?_, hwake.trans hm.wake, ?_, hm.turn_update w .idle⟩⟩
  · simp only [Server.step, hkilling]
  · exact (hm.agree.doKill hi ht fd).keep rfl (fun _ => rfl)
          (fun _ => rfl) rfl
      ⟨rfl, rfl, rfl, rfl⟩
  · show (t.doKill fd).main = _
    rw [hmain, hm.main, State.place, State.place]
    show _ = match (s.loop.doKill fd).main with
      | .accepted fd c _ => Server.Main.accepted fd (s.num c)
      | .created fd c _ => .created fd (s.num c)
      | _ => _
    rw [(EventLoop.doKill_frame s.loop fd).2.2.2.2]

-- ======================================================= the main results

/-- Each civil step is one of Server.lean, or is not seen there. -/
theorem mirrors_step (hm : Mirrors s t) (hi : Inv s) (ht : Server.Inv t)
    (hc : Civil s a) (h : step k s a = some s') :
    ∃ t', stepOpt (Server.step k.maxClients) t (s.served a) = some t'
      ∧ Mirrors s' t' := by
  cases a with
  | loop a =>
      obtain ⟨hallow, l, hl, rfl⟩ := loop_inv h
      exact mirrors_loop hm hi ht hc hallow hl
  | receive tm chunk =>
      obtain ⟨hnot, c, o, ⟨fd, wake, hp, hw, rfl⟩ | ⟨l, hp, hl, rfl⟩⟩ :=
        receive_inv h
      · simp only [State.served, hp]
        exact hm.complete (k := k) hi hc hnot hp hw
      · refine ⟨t, ?_, hm.more hp hl⟩
        simp only [State.served, hp, stepOpt]
  | notify woken => exact hm.notify h
  | thread w b => exact hm.thread h
  | serve w m gpsxy => exact hm.serve hi h
  | eval w fd => exact hm.eval hi h
  | finish w => exact hm.finish hi ht h

section Runs

variable {memory : Nat → CClient} {as : List (Label n)}

/-- A civil run is seen as a run of Server.lean, and the invariants hold
on both levels. -/
theorem refined_run (hrun : run (step k) (init k memory n) as = some s)
    (hcivil : Meets (step k) Civil (init k memory n) as) :
    ∃ t, run (Server.step k.maxClients) (Server.init n)
        (outputs (step k) State.served (init k memory n) as) = some t
      ∧ Inv s ∧ Server.Inv t ∧ Mirrors s t :=
  run_follow (R := fun s t => Inv s ∧ Server.Inv t ∧ Mirrors s t)
    State.served
    (fun hR hg hs => by
      obtain ⟨hi, ht, hm⟩ := hR
      obtain ⟨t', ht', hm'⟩ := mirrors_step hm hi ht hg hs
      exact ⟨t', ht', inv_step hi hg hs,
        stepOpt_inv Server.inv_step ht ht', hm'⟩)
    ⟨inv_init k memory n, Server.inv_init n, mirrors_init k memory n⟩
    hcivil hrun

/-- The program refines the server. -/
theorem server_refined
    (hrun : run (step k) (init k memory n) as = some s)
    (hcivil : Meets (step k) Civil (init k memory n) as) :
    ∃ t, run (Server.step k.maxClients) (Server.init n)
        (outputs (step k) State.served (init k memory n) as) = some t
      ∧ Mirrors s t := by
  obtain ⟨t, ht, -, -, hm⟩ := refined_run hrun hcivil
  exact ⟨t, ht, hm⟩

/-- One row is loaded, and there may be one client. -/
def shenzhenSetup : Setup where
  atof := atofHundredths
  info := ((getdbOf atofHundredths (onePage [shenzhen])).getD
    (INFO_MAP.empty, true)).1
  maxClients := 1
  sockfd := 3

/-- A client leaves in the middle of a request, the next one gets its
number, and is answered while a `Csender` has a socket open. -/
def answeredRun (w : Fin n) : List (Label n) :=
  [.thread w (.loop w), .thread w (.enter w),
    .loop (.getEvents [⟨3, .listener, true, false⟩]), .loop (.accept 5),
    .loop .getNewClient, .loop .insert, .loop (.setsockopt true),
    .loop (.setsockopt true), .loop (.add true),
    .loop (.getEvents [⟨5, .conn 0, true, false⟩]),
    .loop (.unRegister true), .loop .find,
    .receive Tm.epoch (Session.shenzhenMessage.text.take 30),
    .loop (.setsockopt true), .loop (.setsockopt true), .loop (.add true),
    .loop (.getEvents [⟨5, .conn 0, true, false⟩]),
    .loop (.unRegister true), .loop .find, .loop (.recvGone 5),
    .loop .doKill, .loop (.setsockopt true), .loop .close,
    .loop (.getEvents [⟨3, .listener, true, false⟩]), .loop (.accept 5),
    .loop .getNewClient, .loop .insert, .loop (.setsockopt true),
    .loop (.setsockopt true), .loop (.add true),
    .loop (.getEvents [⟨5, .conn 1, true, false⟩]),
    .loop (.unRegister true), .loop .find,
    .receive Tm.epoch Session.shenzhenMessage.text, .notify (some w),
    .thread w (.wake w .signal), .loop (.socket 6),
    .loop (.setsockopt true), .thread w (.pop w),
    .serve w ⟨5, 1⟩ ⟨0, 0⟩, .loop (.setsockopt true), .loop (.add true),
    .eval w 5, .loop (.senderClose 2), .finish w]

theorem answeredRun_refined :
    ∃ s t, run (step shenzhenSetup)
        (init shenzhenSetup (fun _ => CClient.blank) 1) (answeredRun 0)
        = some s
      ∧ s.accepted = [0, 1]
      ∧ run (Server.step 1) (Server.init 1)
        (outputs (step shenzhenSetup) State.served
          (init shenzhenSetup (fun _ => CClient.blank) 1)
          (answeredRun 0)) = some t
      ∧ Mirrors s t := by
  have hend : ∃ s, run (step shenzhenSetup)
        (init shenzhenSetup (fun _ => CClient.blank) 1) (answeredRun 0)
        = some s
      ∧ s.accepted = [0, 1] := exists_run_of_any (by decide +kernel)
  obtain ⟨s, hrun, haccepted⟩ := hend
  obtain ⟨t, ht, hm⟩ := server_refined hrun (by decide +kernel)
  exact ⟨s, t, hrun, haccepted, ht, hm⟩

/-- A connection is accepted, and `setsockopt` fails. -/
def failedRun : List (Label n) :=
  [.loop (.getEvents [⟨3, .listener, true, false⟩]), .loop (.accept 5),
    .loop .getNewClient, .loop .insert, .loop (.setsockopt false),
    .loop .close]

/-- The map keeps a closed number, which Server.lean never does. -/
theorem failedRun_not_seen :
    ∃ s : State 1, run (step shenzhenSetup)
        (init shenzhenSetup (fun _ => CClient.blank) 1) failedRun = some s
      ∧ ∀ t, Server.Inv t → ¬ Mirrors s t := by
  have hend : ∃ s : State 1, run (step shenzhenSetup)
        (init shenzhenSetup (fun _ => CClient.blank) 1) failedRun = some s
      ∧ s.loop.clientqueue.lookup 5 = some 0 ∧ connOf s.loop 5 = none :=
    exists_run_of_any (by decide +kernel)
  obtain ⟨s, hrun, hq, hclosed⟩ := hend
  refine ⟨s, hrun, fun t ht hm => ?_⟩
  have hlook : t.clientqueue.lookup 5 = some (s.num 0) := by
    rw [hm.agree.lookup, hq]
    rfl
  have hsock := (ht.entry 5 _ hlook).2
  rw [hm.agree.sock, hclosed] at hsock
  cases hsock

/-- What is in the map of a civil run is the connection that has the
number open, and its client holds what that has sent last. -/
theorem lookup_own (hrun : run (step k) (init k memory n) as = some s)
    (hcivil : Meets (step k) Civil (init k memory n) as)
    (hq : s.loop.clientqueue.lookup fd = some c) :
    connOf s.loop fd = some c
      ∧ (s.object c).str .serial = Server.lastSerial (s.num c)
        (outputs (step k) State.served (init k memory n) as) := by
  obtain ⟨t, ht, hi, hinv, hm⟩ := refined_run hrun hcivil
  have hlook : t.clientqueue.lookup fd = some (s.num c) := by
    rw [hm.agree.lookup, hq]
    rfl
  have hsock := (hinv.entry fd _ hlook).2
  rw [hm.agree.sock] at hsock
  obtain ⟨c', hconn, hnum⟩ := Option.map_eq_some_iff.mp hsock
  refine ⟨?_, ?_⟩
  · rw [hconn, (num_inj (hi.owned fd c' hconn)).mp hnum]
  · refine (Server.serialInv_run ht).live (s.num c)
      ⟨fd, (s.object c).status, (s.object c).str .serial⟩ ?_
    rw [hm.agree.client c (hi.entry hq).1, State.shown,
      (hi.base.entry fd c hq).1]
    rfl

end Runs

end CorrectGps.Program
