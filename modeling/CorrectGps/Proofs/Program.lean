/-
The event loop and the workers over one map: what every civil run of the
program keeps.

# Connections

A run of the program is one of EventLoop.lean (`loop_run`), so the map,
the heap and the kernel's table are as in every run of that. Every
connection that is open, alive, being accepted or pointed to has been
accepted (`inv_step`), so that its place in the order of acceptance is
its own.

# What is not seen

The labels of the main thread and of the `Csender`s that Server.lean does
not have change nothing that it sees, as long as they do what they are
meant to (`same_of_unseen`).
-/
import CorrectGps.Proofs.EventLoop
import CorrectGps.Proofs.Session
import CorrectGps.Program

namespace CorrectGps.Program

open Lib
open Server (Msg Phase)

variable {n : Nat} {k : Setup} {s s' : State n} {a : Label n}
variable {l l' : EventLoop.State} {c : Nat} {fd : Int}

-- ========================================================= the event loop

/-- A step of the program is one of the event loop, or leaves it
alone. -/
theorem looped_step (h : step k s a = some s') :
    stepOpt (EventLoop.step k.maxClients k.sockfd) s.loop (s.looped a)
      = some s'.loop := by
  cases a with
  | loop a =>
      obtain ⟨-, l, hl, rfl⟩ := loop_inv h
      exact hl
  | receive t chunk =>
      obtain ⟨-, c, o, ⟨fd, wake, hp, -, rfl⟩ | ⟨l, hp, hl, rfl⟩⟩ :=
        receive_inv h
      · simp [State.looped, hp, stepOpt]
      · simp only [State.looped, hp]
        exact hl
  | notify woken =>
      obtain ⟨-, wake, l, -, hl, rfl⟩ := notify_inv h
      exact hl
  | thread w l =>
      obtain ⟨-, -, wake, -, rfl⟩ := thread_inv h
      rfl
  | serve w m gpsxy =>
      obtain ⟨-, wake, -, ⟨c, o, -, -, rfl⟩ | ⟨-, rfl⟩⟩ := serve_inv h
      · rfl
      · rfl
  | eval w fd =>
      obtain ⟨pc, -, -, rfl⟩ := eval_inv h
      rfl
  | finish w =>
      obtain ⟨fd, pc, hp, rfl⟩ := finish_inv h
      simp [State.looped, hp, stepOpt, EventLoop.step]

/-- A run of the program is one of the event loop. -/
theorem loop_run {memory : Nat → CClient} {as : List (Label n)}
    (hrun : run (step k) (init k memory n) as = some s) :
    run (EventLoop.step k.maxClients k.sockfd) (EventLoop.init k.sockfd)
        (outputs (step k) State.looped (init k memory n) as)
      = some s.loop := by
  have hall : Meets (step k) (fun _ _ => True) (init k memory n) as :=
    meets_of_forall (fun _ _ => trivial) as _
  obtain ⟨l, hl, heq⟩ : ∃ l,
      run (EventLoop.step k.maxClients k.sockfd)
        (EventLoop.init k.sockfd)
        (outputs (step k) State.looped (init k memory n) as) = some l
      ∧ l = s.loop :=
    run_follow (R := fun s l => l = s.loop) State.looped
      (fun hR _ hs => ⟨_, hR ▸ looped_step hs, rfl⟩) rfl hall hrun
  rw [hl, heq]

-- ======================================================== the connections

theorem connOf_eq_some :
    connOf l fd = some c ↔ l.fds.owner fd = some (.conn c) := by
  unfold connOf
  cases l.fds.owner fd with
  | none => simp
  | some o =>
      cases o with
      | conn c' => simp [connection]
      | _ => simp [connection]

theorem connOf_congr (h : l'.fds.owner fd = l.fds.owner fd) :
    connOf l' fd = connOf l fd := by
  rw [connOf, h, connOf]

-- ============================================================ one client

section Client

variable {c o : CClient} {effects : List Effect}

theorem notified_append (es fs : List Effect) (h : notified es = none) :
    notified (es ++ fs) = notified fs := by
  unfold notified at *
  rw [List.findSome?_append, h]
  rfl

/-- A field is stored without a notification. -/
theorem getField_frame {f : Field} {j len : Nat}
    (h : c.getField f j len = some (o, effects)) :
    o.fd = c.fd ∧ notified effects = none := by
  unfold CClient.getField at h
  dsimp only at h
  split at h
  case isFalse => cases h
  case isTrue =>
    have hs := Option.some.inj h
    cases f with
    | serial =>
        cases hs
        exact ⟨rfl, rfl⟩
    | md5 =>
        cases hs
        exact ⟨rfl, rfl⟩
    | _ =>
        simp only [CClient.storeField, CClient.storeCoordinate] at hs
        split at hs
        · cases hs
          exact ⟨rfl, rfl⟩
        · cases hs
          exact ⟨rfl, rfl⟩

/-- An entire request is notified of, with the client's own number. -/
theorem takeFields_notified {j len : Nat}
    (h : c.takeFields j len = .ok (o, effects)) :
    notified effects = some c.fd ∧ o.fd = c.fd ∧ o.status = 1 := by
  unfold CClient.takeFields at h
  split at h
  case h_1 => cases h
  case h_2 c₁ e₁ h₁ =>
    split at h
    case h_1 => cases h
    case h_2 c₂ e₂ h₂ =>
      split at h
      case h_1 => cases h
      case h_2 c₃ e₃ h₃ =>
        obtain ⟨hfd₁, hno₁⟩ := getField_frame h₁
        obtain ⟨hfd₂, hno₂⟩ := getField_frame h₂
        obtain ⟨hfd₃, hno₃⟩ := getField_frame h₃
        have hlast : ((c₃.getField .ybaidu j len).getD (c₃, [])).1.fd = c₃.fd
            ∧ notified ((c₃.getField .ybaidu j len).getD (c₃, [])).2
              = none := by
          cases h₄ : c₃.getField .ybaidu j len with
          | none => exact ⟨rfl, rfl⟩
          | some r => exact getField_frame h₄
        obtain ⟨hfd₄, hno₄⟩ := hlast
        cases h
        have hfd := hfd₄.trans (hfd₃.trans (hfd₂.trans hfd₁))
        refine ⟨?_, hfd, rfl⟩
        rw [notified_append _ _ hno₁, notified_append _ _ hno₂,
          notified_append _ _ hno₃]
        exact (notified_append _ _ hno₄).trans (congrArg some hfd)

/-- A chunk completes a request, or leaves the values as they are. -/
theorem receive_cases {chunk : List UInt8}
    (h : c.receive (.data chunk) = .ok (o, effects)) :
    o.fd = c.fd ∧ ((notified effects = some c.fd ∧ o.status = 1)
      ∨ (notified effects = none ∧ o.status = c.status
        ∧ o.str .serial = c.str .serial)) := by
  unfold CClient.receive CClient.parse at h
  dsimp only at h
  split at h
  case isFalse =>
    cases h
    exact ⟨rfl, Or.inr ⟨rfl, rfl, rfl⟩⟩
  case isTrue =>
    unfold CClient.parseAt at h
    split at h
    case isFalse =>
      cases h
      exact ⟨rfl, Or.inr ⟨rfl, rfl, rfl⟩⟩
    case isTrue =>
      dsimp only at h
      split at h
      case isTrue =>
        cases h
        exact ⟨rfl, Or.inr ⟨rfl, rfl, rfl⟩⟩
      case isFalse =>
        obtain ⟨hno, hfd, hstatus⟩ := takeFields_notified h
        exact ⟨hfd, Or.inl ⟨hno, hstatus⟩⟩

/-- The worker changes the status and the point. -/
theorem worker_cases {atof : List UInt8 → Rat} {info : INFO_MAP}
    {gpsxy : CPOI}
    (h : Ccorrectit.correctgps_worker atof gpsxy info c = some o) :
    o.fd = c.fd ∧ o.status = 2 ∧ o.str .serial = c.str .serial := by
  obtain ⟨p, rfl⟩ := Session.worker_point h
  exact ⟨rfl, rfl, rfl⟩

end Client

-- ================================================================ the map

/-- Every client is in the map, or about to be inserted. -/
def Mapped (l : EventLoop.State) : Prop :=
  ∀ c fd, l.client c = some fd →
    l.clientqueue.lookup fd = some c ∨ l.main.accepting = some (fd, c)

/-- `DoKill` deletes the client that it takes out of the map. -/
theorem Mapped.doKill (hm : Mapped l) (fd : Int) :
    Mapped (l.doKill fd) := by
  intro c d hc
  rw [EventLoop.doKill_client] at hc
  split at hc
  · cases hc
  · next hother =>
    rw [EventLoop.doKill_lookup, (EventLoop.doKill_frame l fd).2.2.2.2]
    rcases hm c d hc with hq | hq
    · refine Or.inl ?_
      rw [if_neg]
      · exact hq
      · intro hd
        rw [hd] at hq
        exact hother hq
    · exact Or.inr hq

/-- A step that leaves the map and the heap alone, outside
`AddToQueue`. -/
theorem Mapped.keep (hm : Mapped l)
    (hqueue : l'.clientqueue = l.clientqueue)
    (hclient : l'.client = l.client)
    (hmain : l'.main = l.main ∨ l.main.accepting = none) : Mapped l' := by
  intro c fd hc
  rw [hclient] at hc
  rw [hqueue]
  rcases hm c fd hc with hq | hq
  · exact Or.inl hq
  · rcases hmain with hsame | hnone
    · exact Or.inr (by rw [hsame, hq])
    · rw [hnone] at hq
      cases hq

theorem mapped_step {maxClients : Nat} {sockfd : Int}
    {a : EventLoop.Label} (hb : EventLoop.Base l) (hm : Mapped l)
    (h : EventLoop.step maxClients sockfd l a = some l') : Mapped l' := by
  by_cases hq : a.quiet = true
  · obtain ⟨hframe, hnone, -, -⟩ := EventLoop.quiet_inv hq h
    exact hm.keep hframe.clientqueue hframe.client (Or.inr hnone)
  · cases a with
    | accept fd =>
        obtain ⟨e, rest, hmain, -, -, rfl⟩ := EventLoop.accept_inv h
        exact hm.keep rfl rfl (Or.inr (by rw [hmain]; rfl))
    | getNewClient =>
        obtain ⟨fd, c, rest, hmain, ⟨-, rfl⟩ | rfl⟩ :=
          EventLoop.getNewClient_inv h
        · intro c' d hc'
          by_cases hcc : c' = c
          · change Function.update l.client c (some fd) c' = some d at hc'
            rw [hcc, Function.update_self] at hc'
            cases hc'
            rw [hcc]
            exact Or.inr rfl
          · change Function.update l.client c (some fd) c' = some d at hc'
            rw [Function.update_of_ne hcc] at hc'
            rcases hm c' d hc' with hq' | hq'
            · exact Or.inl hq'
            · rw [hmain] at hq'
              cases hq'
              exact absurd rfl hcc
        · intro c' d hc'
          rcases hm c' d hc' with hq' | hq'
          · exact Or.inl hq'
          · rw [hmain] at hq'
            cases hq'
            have hgone := hb.accepted fd c rest hmain
            rw [show l.client c = some fd from hc'] at hgone
            cases hgone
    | insert =>
        obtain ⟨fd, c, rest, hmain, rfl⟩ := EventLoop.insert_inv h
        rw [EventLoop.insertClient_eq]
        intro c' d hc'
        refine Or.inl ?_
        show (l.clientqueue.insert fd c).lookup d = some c'
        rcases hm.doKill fd c' d hc' with hq' | hq'
        · rw [EventLoop.doKill_lookup] at hq'
          split at hq'
          · cases hq'
          · next hne =>
            rw [AList.lookup_insert_ne hne]
            exact hq'
        · rw [(EventLoop.doKill_frame l fd).2.2.2.2, hmain] at hq'
          cases hq'
          exact AList.lookup_insert _
    | doKill =>
        obtain ⟨fd, m, rfl, -, -, hnone, -⟩ := EventLoop.doKill_inv h
        refine (hm.doKill fd).keep rfl rfl (Or.inr ?_)
        rw [(EventLoop.doKill_frame l fd).2.2.2.2, hnone]
    | close =>
        obtain ⟨e, rest, hmain, rfl⟩ := EventLoop.close_inv h
        exact hm.keep rfl rfl (Or.inr (by rw [hmain]; rfl))
    | workerKill fd =>
        cases EventLoop.workerKill_inv h
        exact hm.doKill fd
    | socket fd =>
        obtain ⟨-, rfl⟩ := EventLoop.socket_inv h
        exact hm.keep rfl rfl (Or.inl rfl)
    | senderClose k =>
        obtain ⟨fd, -, rfl⟩ := EventLoop.senderClose_inv h
        exact hm.keep rfl rfl (Or.inl rfl)
    | _ => simp [EventLoop.Label.quiet] at hq

-- ==================================================== the unseen labels

/-- What Server.lean sees of the two states is the same. -/
structure Same (l l' : EventLoop.State) : Prop where
  clientqueue : l'.clientqueue = l.clientqueue
  client : l'.client = l.client
  conn : ∀ fd, connOf l' fd = connOf l fd
  next : l.next ≤ l'.next
  main : l'.main = l.main
    ∨ (l.main.accepting = none ∧ l'.main.accepting = none)

/-- The labels of the event loop that Server.lean does not have. -/
def unseen : EventLoop.Label → Bool
  | .accept _ => false
  | .getNewClient => false
  | .insert => false
  | .doKill => false
  | .workerKill _ => false
  | _ => true

/-- A close that hits no connection is not seen. -/
theorem connOf_close (h : (connOf l fd).isNone = true) (fd' : Int)
    (hfds : l'.fds = l.fds.close fd) : connOf l' fd' = connOf l fd' := by
  by_cases hfd : fd' = fd
  · rw [Option.isNone_iff_eq_none] at h
    rw [hfd, h, connOf, hfds, Fds.close_owner, if_pos rfl]
    rfl
  · apply connOf_congr
    rw [hfds, Fds.close_owner, if_neg hfd]

/-- A quiet label is not seen. -/
theorem same_of_quiet {maxClients : Nat} {sockfd : Int}
    {a : EventLoop.Label} (hq : a.quiet = true)
    (h : EventLoop.step maxClients sockfd l a = some l') : Same l l' := by
  obtain ⟨hframe, hnone, hnone', -⟩ := EventLoop.quiet_inv hq h
  exact ⟨hframe.clientqueue, hframe.client,
    fun _ => connOf_congr (congrFun hframe.owner _), hframe.next.ge,
    Or.inr ⟨hnone, hnone'⟩⟩

/-- Nor is a system call that does what it is meant to. -/
theorem same_of_unseen {a : EventLoop.Label} (hu : unseen a = true)
    (hc : Civil s (.loop a))
    (h : EventLoop.step k.maxClients k.sockfd s.loop a = some l) :
    Same s.loop l := by
  by_cases hq : a.quiet = true
  · exact same_of_quiet hq h
  · cases a with
    | close =>
        obtain ⟨e, rest, hm, rfl⟩ := EventLoop.close_inv h
        have hnone : (connOf s.loop e.fd).isNone := by
          simpa [Civil, State.civil, hm, EventLoop.Main.registers] using hc
        refine ⟨rfl, rfl, fun fd => connOf_close hnone fd rfl,
          Nat.le_refl _, Or.inr ⟨by rw [hm]; rfl, ?_⟩⟩
        exact EventLoop.afterRead_accepting e rest
    | socket fd =>
        obtain ⟨hfree, rfl⟩ := EventLoop.socket_inv h
        refine ⟨rfl, rfl, fun fd' => ?_, Nat.le_succ _, Or.inl rfl⟩
        by_cases hfd : fd' = fd
        · rw [hfd, connOf, connOf, hfree]
          show ((s.loop.fds.give fd (.sender s.loop.next)).owner fd).bind _
            = none
          rw [Fds.give_owner, if_pos rfl]
          rfl
        · apply connOf_congr
          exact (Fds.give_owner ..).trans (if_neg hfd)
    | senderClose k =>
        obtain ⟨fd, hk, rfl⟩ := EventLoop.senderClose_inv h
        have hnone : (connOf s.loop fd).isNone := by
          simpa [Civil, State.civil, hk] using hc
        exact ⟨rfl, rfl, fun fd' => connOf_close hnone fd' rfl,
          Nat.le_refl _, Or.inl rfl⟩
    | _ => simp [unseen, EventLoop.Label.quiet] at hu hq

theorem advance_of_unseen {a : EventLoop.Label} (hu : unseen a = true) :
    s.advance a l = { s with loop := l } := by
  cases a with
  | accept fd => cases hu
  | getNewClient => cases hu
  | _ => rfl

-- ========================================================== the invariant

/-- The client a worker points to. -/
def pointer : Phase → Option Nat
  | .idle => none
  | .serving pc => some pc
  | .killing _ pc => some pc

/-- Every connection that is open, in the heap, being accepted or
pointed to has been accepted, and a client knows its number. -/
structure Inv (s : State n) : Prop where
  base : EventLoop.Base s.loop
  mapped : Mapped s.loop
  below : ∀ c ∈ s.accepted, c < s.loop.next
  owned : ∀ fd c, connOf s.loop fd = some c → c ∈ s.accepted
  alive : ∀ c fd, s.loop.client c = some fd →
    c ∈ s.accepted ∧ (s.object c).fd = fd
  accepting : ∀ fd c, s.loop.main.accepting = some (fd, c) →
    c ∈ s.accepted
  held : ∀ w c, pointer (s.phase w) = some c → c ∈ s.accepted

theorem inv_init (k : Setup) (memory : Nat → CClient) (n : Nat) :
    Inv (init k memory n) where
  base := EventLoop.base_init k.sockfd
  mapped := fun c fd h => by cases h
  below := fun c hc => by cases hc
  owned := fun fd c h => by
    rw [connOf_eq_some] at h
    exact absurd ((EventLoop.base_init k.sockfd).owned fd c h)
      (Nat.not_lt_zero c)
  alive := fun c fd h => by cases h
  accepting := fun fd c h => by cases h
  held := fun w c h => by cases h

/-- An entry's client has been accepted, and is the entry's. -/
theorem Inv.entry (hi : Inv s)
    (h : s.loop.clientqueue.lookup fd = some c) :
    c ∈ s.accepted ∧ (s.object c).fd = fd :=
  hi.alive c fd (hi.base.entry fd c h).1

/-- A step that accepts nothing keeps the invariant, if what is new has
been accepted. -/
theorem Inv.keep (hi : Inv s) (hbase : EventLoop.Base s'.loop)
    (hmapped : Mapped s'.loop) (haccepted : s'.accepted = s.accepted)
    (hnext : s.loop.next ≤ s'.loop.next)
    (hconn : ∀ fd c, connOf s'.loop fd = some c →
      connOf s.loop fd = some c)
    (hclient : ∀ c fd, s'.loop.client c = some fd →
      c ∈ s.accepted ∧ (s'.object c).fd = fd)
    (hmain : ∀ fd c, s'.loop.main.accepting = some (fd, c) →
      s.loop.main.accepting = some (fd, c))
    (hphase : ∀ w c, pointer (s'.phase w) = some c →
      pointer (s.phase w) = some c ∨ c ∈ s.accepted) : Inv s' where
  base := hbase
  mapped := hmapped
  below := fun c hc => by
    rw [haccepted] at hc
    exact Nat.lt_of_lt_of_le (hi.below c hc) hnext
  owned := fun fd c h => by
    rw [haccepted]
    exact hi.owned fd c (hconn fd c h)
  alive := fun c fd h => by
    rw [haccepted]
    exact hclient c fd h
  accepting := fun fd c h => by
    rw [haccepted]
    exact hi.accepting fd c (hmain fd c h)
  held := fun w c h => by
    rw [haccepted]
    rcases hphase w c h with h | h
    · exact hi.held w c h
    · exact h

/-- What is not seen keeps it. -/
theorem Inv.same (hi : Inv s) (hs : Same s.loop l)
    (hbase : EventLoop.Base l) (hmapped : Mapped l) :
    Inv { s with loop := l } := by
  refine hi.keep hbase hmapped rfl hs.next ?_ ?_ ?_
    (fun _ _ hp => Or.inl hp)
  · intro fd c hfd
    rwa [hs.conn] at hfd
  · intro c fd hfd
    exact hi.alive c fd (by rwa [hs.client] at hfd)
  · intro fd c hfd
    rcases hs.main with hm | ⟨-, hm⟩
    · rwa [hm] at hfd
    · rw [hm] at hfd
      cases hfd

/-- So does an assignment to a client that leaves its number. -/
theorem Inv.assign (hi : Inv s) {o : CClient}
    (ho : o.fd = (s.object c).fd) :
    Inv { s with object := Function.update s.object c o } := by
  refine ⟨hi.base, hi.mapped, hi.below, hi.owned, ?_, hi.accepting,
    hi.held⟩
  intro c' fd hc'
  obtain ⟨hmem, hfd⟩ := hi.alive c' fd hc'
  refine ⟨hmem, ?_⟩
  show (Function.update s.object c o c').fd = fd
  by_cases hcc : c' = c
  · rw [hcc, Function.update_self, ho, ← hcc, hfd]
  · rw [Function.update_of_ne hcc, hfd]

/-- `DoKill` closes the number of an entry, and no other. -/
theorem connOf_doKill (hb : EventLoop.Base l) (fd fd' : Int) :
    connOf (l.doKill fd) fd'
      = if fd' = fd ∧ (l.clientqueue.lookup fd).isSome then none
        else connOf l fd' := by
  rw [connOf, hb.doKill_owner]
  split
  · rfl
  · rfl

theorem connOf_of_doKill (hb : EventLoop.Base l) {fd' : Int}
    (h : connOf (l.doKill fd) fd' = some c) : connOf l fd' = some c := by
  rw [connOf_doKill hb] at h
  split at h
  · cases h
  · exact h

theorem client_of_doKill {d : Int}
    (h : (l.doKill fd).client c = some d) : l.client c = some d := by
  rw [EventLoop.doKill_client] at h
  split at h
  · cases h
  · exact h

/-- A worker points to what it has pointed to, or to what it is given. -/
theorem pointer_update {f : Fin n → Phase} {v w : Fin n} {p : Phase}
    (h : pointer (Function.update f w p v) = some c) :
    pointer (f v) = some c ∨ pointer p = some c := by
  by_cases hv : v = w
  · rw [hv, Function.update_self] at h
    exact Or.inr h
  · rw [Function.update_of_ne hv] at h
    exact Or.inl h

theorem Inv.accept (hi : Inv s) (hbase : EventLoop.Base l)
    (hmapped : Mapped l)
    (h : EventLoop.step k.maxClients k.sockfd s.loop (.accept fd)
      = some l) :
    Inv (s.advance (.accept fd) l) := by
  obtain ⟨e, rest, -, -, -, rfl⟩ := EventLoop.accept_inv h
  have hold : ∀ c ∈ s.accepted, c ∈ s.accepted ++ [s.loop.next] :=
    fun c hc => List.mem_append_left _ hc
  have hnew : s.loop.next ∈ s.accepted ++ [s.loop.next] :=
    List.mem_append_right _ (List.mem_singleton_self _)
  refine ⟨hbase, hmapped, ?_, ?_, ?_, ?_, ?_⟩
  · intro c hc
    rcases List.mem_append.mp hc with hc | hc
    · exact Nat.lt_succ_of_lt (hi.below c hc)
    · rw [List.mem_singleton.mp hc]
      exact Nat.lt_succ_self _
  · intro fd' c hc
    rcases Fds.owner_of_give (connOf_eq_some.mp hc) with ⟨-, heq⟩ | hc
    · cases heq
      exact hnew
    · exact hold c (hi.owned fd' c (connOf_eq_some.mpr hc))
  · intro c d hc
    obtain ⟨hmem, hfd⟩ := hi.alive c d hc
    exact ⟨hold c hmem, hfd⟩
  · intro fd' c hc
    cases hc
    exact hnew
  · intro w c hc
    exact hold c (hi.held w c hc)

theorem Inv.getNewClient (hi : Inv s) (hbase : EventLoop.Base l)
    (hmapped : Mapped l)
    (h : EventLoop.step k.maxClients k.sockfd s.loop .getNewClient
      = some l) :
    Inv (s.advance .getNewClient l) := by
  obtain ⟨fd, c, rest, hm, ⟨-, rfl⟩ | rfl⟩ := EventLoop.getNewClient_inv h
  · refine hi.keep hbase hmapped rfl (Nat.le_refl _) (fun _ _ hfd => hfd)
      ?_ ?_ (fun _ _ hp => Or.inl hp)
    · intro c' d hd
      change Function.update s.loop.client c (some fd) c' = some d at hd
      show _ ∧ (Function.update s.object c ((s.object c).ini fd) c').fd = d
      by_cases hcc : c' = c
      · rw [hcc, Function.update_self] at hd
        cases hd
        rw [hcc, Function.update_self]
        exact ⟨hi.accepting fd c (by rw [hm]; rfl), rfl⟩
      · rw [Function.update_of_ne hcc] at hd
        rw [Function.update_of_ne hcc]
        exact hi.alive c' d hd
    · intro fd' c' hfd
      rw [hm]
      exact hfd
  · exact hi.keep hbase hmapped rfl (Nat.le_refl _) (fun _ _ hfd => hfd)
      hi.alive (fun _ _ hfd => by cases hfd) (fun _ _ hp => Or.inl hp)

theorem Inv.loop {a : EventLoop.Label} (hi : Inv s)
    (hc : Civil s (.loop a)) (hallow : s.allows a = true)
    (h : EventLoop.step k.maxClients k.sockfd s.loop a = some l) :
    Inv (s.advance a l) := by
  have hbase : EventLoop.Base l := hi.base.step h
  have hmapped : Mapped l := mapped_step hi.base hi.mapped h
  have hkilled : ∀ {fd c d}, (s.loop.doKill fd).client c = some d →
      c ∈ s.accepted ∧ (s.object c).fd = d :=
    fun hd => hi.alive _ _ (client_of_doKill hd)
  by_cases hu : unseen a = true
  · rw [advance_of_unseen hu]
    exact hi.same (same_of_unseen hu hc h) hbase hmapped
  · cases a with
    | accept fd => exact hi.accept hbase hmapped h
    | getNewClient => exact hi.getNewClient hbase hmapped h
    | insert =>
        obtain ⟨fd, c, rest, hm, rfl⟩ := EventLoop.insert_inv h
        rw [EventLoop.insertClient_eq] at hbase hmapped ⊢
        refine hi.keep hbase hmapped rfl ?_
          (fun _ _ => connOf_of_doKill hi.base) (fun _ _ hd => hkilled hd)
          (fun _ _ hfd => by cases hfd) (fun _ _ hp => Or.inl hp)
        exact (EventLoop.doKill_frame s.loop fd).2.2.1.ge
    | doKill =>
        obtain ⟨fd, m, rfl, -, hnone, -⟩ := EventLoop.doKill_inv h
        refine hi.keep hbase hmapped rfl ?_
          (fun _ _ => connOf_of_doKill hi.base) (fun _ _ hd => hkilled hd)
          ?_ (fun _ _ hp => Or.inl hp)
        · exact (EventLoop.doKill_frame s.loop fd).2.2.1.ge
        · intro fd' c hfd
          change m.accepting = some (fd', c) at hfd
          rw [hnone] at hfd
          cases hfd
    | workerKill fd => cases hallow
    | _ => simp [unseen] at hu

/-- Every civil step keeps the invariant. -/
theorem inv_step (hi : Inv s) (hc : Civil s a)
    (h : step k s a = some s') : Inv s' := by
  cases a with
  | loop a =>
      obtain ⟨hallow, l, hl, rfl⟩ := loop_inv h
      exact hi.loop hc hallow hl
  | receive t chunk =>
      obtain ⟨-, c, o, ⟨fd, wake, hp, -, rfl⟩ | ⟨l, hp, hl, rfl⟩⟩ :=
        receive_inv h
      · obtain ⟨e, rest, effects, -, -, -, hok, -⟩ := parsed_inv hp
        have hsame := (receive_cases (CClient.receive_of_logged hok)).1
        have hi' := hi.assign (c := c) hsame
        exact ⟨hi'.base, hi'.mapped, hi'.below, hi'.owned, hi'.alive,
          hi'.accepting, hi'.held⟩
      · obtain ⟨e, rest, effects, -, -, -, hok, -⟩ := parsed_inv hp
        have hsame := (receive_cases (CClient.receive_of_logged hok)).1
        exact (hi.assign (c := c) hsame).same
          (same_of_quiet rfl hl) (hi.base.step hl)
          (mapped_step hi.base hi.mapped hl)
  | notify woken =>
      obtain ⟨-, wake, l, -, hl, rfl⟩ := notify_inv h
      have hi' := hi.same (same_of_quiet rfl hl) (hi.base.step hl)
        (mapped_step hi.base hi.mapped hl)
      exact ⟨hi'.base, hi'.mapped, hi'.below, hi'.owned, hi'.alive,
        hi'.accepting, hi'.held⟩
  | thread w l =>
      obtain ⟨-, -, wake, -, rfl⟩ := thread_inv h
      exact ⟨hi.base, hi.mapped, hi.below, hi.owned, hi.alive,
        hi.accepting, hi.held⟩
  | serve w m gpsxy =>
      obtain ⟨-, wake, -, ⟨c, o, hq, ho, rfl⟩ | ⟨-, rfl⟩⟩ := serve_inv h
      · have hi' := hi.assign (c := c) (worker_cases ho).1
        refine ⟨hi'.base, hi'.mapped, hi'.below, hi'.owned, hi'.alive,
          hi'.accepting, ?_⟩
        intro v c' hv
        dsimp only [State.serveClient] at hv
        split at hv
        · rcases pointer_update hv with hv | hv
          · exact hi.held v c' hv
          · cases hv
            exact (hi.entry hq).1
        · exact hi.held v c' hv
      · exact ⟨hi.base, hi.mapped, hi.below, hi.owned, hi.alive,
          hi.accepting, hi.held⟩
  | eval w fd =>
      obtain ⟨pc, hp, -, rfl⟩ := eval_inv h
      refine ⟨hi.base, hi.mapped, hi.below, hi.owned, hi.alive,
        hi.accepting, ?_⟩
      intro v c hv
      rcases pointer_update hv with hv | hv
      · exact hi.held v c hv
      · cases hv
        exact hi.held w pc (by rw [hp]; rfl)
  | finish w =>
      obtain ⟨fd, pc, hp, rfl⟩ := finish_inv h
      obtain ⟨-, -, hnext, -, hmain⟩ := EventLoop.doKill_frame s.loop fd
      refine hi.keep (hi.base.doKill fd) (hi.mapped.doKill fd) rfl hnext.ge
        (fun _ _ => connOf_of_doKill hi.base)
        (fun _ _ hd => hi.alive _ _ (client_of_doKill hd)) ?_ ?_
      · intro fd' c hfd
        rw [← hmain]
        exact hfd
      · intro v c hv
        rcases pointer_update hv with hv | hv
        · exact Or.inl hv
        · cases hv

end CorrectGps.Program
