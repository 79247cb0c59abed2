/-
Which descriptors are watched while the main thread works through its
events.

# The main thread's place

It has one descriptor at hand, and the events it has not come to. The
numbers of the events are apart, and an event that is taken up leaves the
others as they are (`rest_step`).

# Covered

A client in the map is watched, unless the main thread is at work on its
descriptor: `unRegisterForEvent` has taken that out of the epoll set, and
`registerForEvent` will put it back (`covered_step`).
-/
import CorrectGps.Proofs.EventLoop

namespace CorrectGps.EventLoop

open Lib

variable {maxClients : Nat} {sockfd : Int} {s s' : State} {a : Label}
variable {fd : Int}

-- ============================================= the main thread's place

/-- The events the main thread has not come to. -/
def Main.rest : Main → List Event
  | .between rest => rest
  | .accepted _ _ rest => rest
  | .created _ _ rest => rest
  | .reading _ rest => rest
  | .receiving _ _ rest => rest
  | .lost _ _ rest => rest
  | .registering _ _ rest => rest
  | .hanging _ rest => rest
  | .dropping _ rest => rest

/-- The descriptor it is at work on. -/
def Main.handling : Main → Option Int
  | .between _ => none
  | .accepted fd _ _ => some fd
  | .created fd _ _ => some fd
  | .reading e _ => some e.fd
  | .receiving _ e _ => some e.fd
  | .lost _ e _ => some e.fd
  | .registering _ e _ => some e.fd
  | .hanging fd _ => some fd
  | .dropping fd _ => some fd

@[simp]
theorem afterRead_rest (e : Event) (rest : List Event) :
    (afterRead e rest).rest = rest := by
  unfold afterRead
  split <;> rfl

theorem afterRead_handling (e : Event) (rest : List Event) :
    (afterRead e rest).handling
      = if e.hangup then some e.fd else none := by
  unfold afterRead
  split <;> rfl

/-- Which event is passed over, and why. -/
theorem passOver_fd (ha : a = .acceptFail ∨ a = .skip)
    (h : step maxClients sockfd s a = some s') :
    ∃ e rest, s.main = .between (e :: rest)
      ∧ s' = { s with main := .between rest }
      ∧ (a = .acceptFail ∧ e.fd = sockfd
        ∨ e.fd ≠ sockfd ∧ e.fd = -1) := by
  rcases ha with rfl | rfl
  all_goals
    simp only [step] at h
    split at h
    case h_1 e rest hm =>
      split at h
      case isTrue hg =>
        refine ⟨e, rest, hm, by simpa using h.symm, ?_⟩
        first
          | exact Or.inl ⟨rfl, hg⟩
          | exact Or.inr hg
      case isFalse => cases h
    case h_2 => cases h

/-- A connection is accepted for an event of the listener. -/
theorem accept_event (h : step maxClients sockfd s (.accept fd) = some s') :
    ∃ e rest, s.main = .between (e :: rest) ∧ e.fd = sockfd
      ∧ s'.main.rest = rest := by
  simp only [step] at h
  split at h
  case h_1 e rest hm =>
    split at h
    case isTrue hg =>
      simp only [Option.some.injEq] at h
      exact ⟨e, rest, hm, hg.1, by rw [← h]; rfl⟩
    case isFalse => cases h
  case h_2 => cases h

/-- An event is taken up, or its hang-up part is. -/
theorem unRegister_cases {willing : Bool}
    (h : step maxClients sockfd s (.unRegister willing) = some s') :
    (∃ e rest, s.main = .between (e :: rest) ∧ e.fd ≠ sockfd ∧ e.fd ≠ -1
        ∧ s' = { s.unRegisterForEvent e.fd willing with
            main := if e.readable then .reading e rest
              else afterRead e rest })
      ∨ ∃ fd rest, s.main = .hanging fd rest
        ∧ s' = { s.unRegisterForEvent fd willing with
            main := .dropping fd rest } := by
  simp only [step] at h
  split at h
  case h_1 e rest hm =>
    split at h
    case isTrue hg =>
      exact Or.inl ⟨e, rest, hm, hg.1, hg.2, by simpa using h.symm⟩
    case isFalse => cases h
  case h_2 fd rest hm =>
    exact Or.inr ⟨fd, rest, hm, by simpa using h.symm⟩
  case h_3 => cases h

/-- The main thread's `DoKill` ends a read, or an event. -/
theorem doKill_cases (h : step maxClients sockfd s .doKill = some s') :
    (∃ fd e rest, s.main = .lost fd e rest
        ∧ s' = { s.doKill fd with main := .registering .linger e rest })
      ∨ ∃ fd rest, s.main = .dropping fd rest
        ∧ s' = { s.doKill fd with main := .between rest } := by
  simp only [step] at h
  split at h
  case h_1 fd e rest hm =>
    exact Or.inl ⟨fd, e, rest, hm, by simpa using h.symm⟩
  case h_2 fd rest hm =>
    exact Or.inr ⟨fd, rest, hm, by simpa using h.symm⟩
  case h_3 => cases h

/-- After a willing `unRegisterForEvent` a proper number is not
watched. -/
theorem unRegister_watched (hfd : 0 < fd) :
    fd ∉ (s.unRegisterForEvent fd true).fds.watched := by
  unfold State.unRegisterForEvent
  split
  · exact Finset.notMem_erase fd _
  · next hno =>
    intro hmem
    exact hno ⟨hfd, rfl, hmem⟩

-- ============================================================== numbers

/-- Every open number is proper, or the listener's. -/
def Proper (sockfd : Int) (s : State) : Prop :=
  ∀ d o, s.fds.owner d = some o → 0 < d ∨ d = sockfd

theorem proper_init (sockfd : Int) : Proper sockfd (init sockfd) := by
  intro d o h
  rw [init_owner] at h
  split at h
  · next hd => exact Or.inr hd
  · cases h

/-- What is open was open, or is what `accept` or `socket` returned. -/
theorem owner_step {d : Int} {o : Owner} (hb : Base s)
    (h : step maxClients sockfd s a = some s')
    (hd : s'.fds.owner d = some o) :
    s.fds.owner d = some o
      ∨ (o = .conn s.next ∧ a = .accept d) ∨ a = .socket d := by
  by_cases hq : a.quiet = true
  · rw [(quiet_inv hq h).1.owner] at hd
    exact Or.inl hd
  · cases a with
    | accept fd =>
        obtain ⟨e, rest, -, -, -, rfl⟩ := accept_inv h
        rcases Fds.owner_of_give hd with ⟨hdfd, ho⟩ | hold
        · exact Or.inr (Or.inl ⟨ho.symm, by rw [hdfd]⟩)
        · exact Or.inl hold
    | getNewClient =>
        obtain ⟨fd, c, rest, -, ⟨-, rfl⟩ | rfl⟩ := getNewClient_inv h
        · exact Or.inl hd
        · exact Or.inl hd
    | insert =>
        obtain ⟨fd, c, rest, -, rfl⟩ := insert_inv h
        rw [insertClient_eq] at hd
        exact Or.inl (hb.owner_of_doKill hd).2
    | doKill =>
        rcases doKill_cases h with ⟨fd, e, rest, -, rfl⟩ | ⟨fd, rest, -, rfl⟩
        · exact Or.inl (hb.owner_of_doKill hd).2
        · exact Or.inl (hb.owner_of_doKill hd).2
    | close =>
        obtain ⟨e, rest, -, rfl⟩ := close_inv h
        exact Or.inl (Fds.owner_of_close hd).2
    | workerKill fd =>
        rw [workerKill_inv h] at hd
        exact Or.inl (hb.owner_of_doKill hd).2
    | socket fd =>
        obtain ⟨-, rfl⟩ := socket_inv h
        rcases Fds.owner_of_give hd with ⟨hdfd, ho⟩ | hold
        · exact Or.inr (Or.inr (by rw [hdfd]))
        · exact Or.inl hold
    | senderClose k =>
        obtain ⟨fd, -, rfl⟩ := senderClose_inv h
        exact Or.inl (Fds.owner_of_close hd).2
    | _ => simp [Label.quiet] at hq

-- ================================================================ events

/-- The main thread lets go of an event when its descriptor is not
watched, or is the listener's. -/
theorem rest_step (hp : Proper sockfd s)
    (hwilling : ∀ w, a = .unRegister w → w = true)
    (ha : ∀ events, a ≠ .getEvents events)
    (h : step maxClients sockfd s a = some s') :
    s'.main.rest = s.main.rest
      ∨ ∃ e, s.main.rest = e :: s'.main.rest
        ∧ (e.fd ∉ s'.fds.watched
          ∨ e.fd = sockfd ∧ (a = .acceptFail ∨ ∃ fd, a = .accept fd)) := by
  have hproper : ∀ d, d ∈ s.fds.watched → 0 < d ∨ d = sockfd := by
    intro d hd
    obtain ⟨o, ho⟩ := Option.isSome_iff_exists.mp (s.fds.isOpen d hd)
    exact hp d o ho
  have hpass : a = .acceptFail ∨ a = .skip → ∃ e,
      s.main.rest = e :: s'.main.rest
        ∧ (e.fd ∉ s'.fds.watched
          ∨ e.fd = sockfd ∧ (a = .acceptFail ∨ ∃ fd, a = .accept fd)) := by
    intro ha
    obtain ⟨e, rest, hm, rfl, hfd⟩ := passOver_fd ha h
    refine ⟨e, by rw [hm]; rfl, ?_⟩
    rcases hfd with ⟨ha, hfd⟩ | ⟨hne, hfd⟩
    · exact Or.inr ⟨hfd, Or.inl ha⟩
    · refine Or.inl fun hmem => ?_
      rcases hproper e.fd hmem with hpos | hlis
      · omega
      · exact hne hlis
  cases a with
  | getEvents events => exact absurd rfl (ha events)
  | acceptFail => exact Or.inr (hpass (Or.inl rfl))
  | skip => exact Or.inr (hpass (Or.inr rfl))
  | accept fd =>
      obtain ⟨e, rest, hm, hfd, hrest⟩ := accept_event h
      exact Or.inr ⟨e, by rw [hm, hrest]; rfl,
        Or.inr ⟨hfd, Or.inr ⟨fd, rfl⟩⟩⟩
  | unRegister willing =>
      have hw := hwilling willing rfl
      subst hw
      rcases unRegister_cases h with ⟨e, rest, hm, hne, -, rfl⟩
        | ⟨fd, rest, hm, rfl⟩
      · refine Or.inr ⟨e, ?_, Or.inl ?_⟩
        · rw [hm]
          show e :: rest = e :: (if e.readable then Main.reading e rest
            else afterRead e rest).rest
          split
          · rfl
          · rw [afterRead_rest]
        · by_cases hpos : 0 < e.fd
          · exact unRegister_watched hpos
          · intro hmem
            have hold : e.fd ∈ s.fds.watched := by
              change e.fd ∈ (s.unRegisterForEvent e.fd true).fds.watched
                at hmem
              unfold State.unRegisterForEvent at hmem
              rw [if_neg (fun hg => hpos hg.1)] at hmem
              exact hmem
            rcases hproper e.fd hold with hpos' | hlis
            · exact hpos hpos'
            · exact hne hlis
      · exact Or.inl (by rw [hm]; rfl)
  | getNewClient =>
      obtain ⟨fd, c, rest, hm, ⟨-, rfl⟩ | rfl⟩ := getNewClient_inv h
      · exact Or.inl (by rw [hm]; rfl)
      · exact Or.inl (by rw [hm]; rfl)
  | insert =>
      obtain ⟨fd, c, rest, hm, rfl⟩ := insert_inv h
      exact Or.inl (by rw [hm]; rfl)
  | find =>
      obtain ⟨e, rest, m, hm, rfl, rfl | ⟨c, rfl⟩⟩ := find_inv h
      · exact Or.inl (by rw [hm]; rfl)
      · exact Or.inl (by rw [hm]; rfl)
  | recvData =>
      obtain ⟨c, e, rest, hm, rfl⟩ := recvData_inv h
      exact Or.inl (by rw [hm]; rfl)
  | recvGone fd =>
      obtain ⟨c, e, rest, hm, rfl⟩ := recvGone_inv h
      exact Or.inl (by rw [hm]; rfl)
  | doKill =>
      rcases doKill_cases h with ⟨fd, e, rest, hm, rfl⟩ | ⟨fd, rest, hm, rfl⟩
      · exact Or.inl (by rw [hm]; rfl)
      · exact Or.inl (by rw [hm]; rfl)
  | setsockopt willing =>
      obtain ⟨stage, stage', e, rest, hm, rfl⟩ := setsockopt_inv h
      exact Or.inl (by rw [hm]; rfl)
  | close =>
      obtain ⟨e, rest, hm, rfl⟩ := close_inv h
      refine Or.inl ?_
      rw [hm]
      exact afterRead_rest e rest
  | add willing =>
      obtain ⟨e, rest, hm, rfl⟩ := add_inv h
      refine Or.inl ?_
      rw [hm]
      exact afterRead_rest e rest
  | workerKill fd =>
      refine Or.inl ?_
      rw [workerKill_inv h, (doKill_frame s fd).2.2.2.2]
  | socket fd =>
      obtain ⟨-, rfl⟩ := socket_inv h
      exact Or.inl rfl
  | senderClose k =>
      obtain ⟨fd, -, rfl⟩ := senderClose_inv h
      exact Or.inl rfl

-- =============================================================== covered

/-- A client whose descriptor is open is watched, or the main thread is at
work on its descriptor. -/
def Covered (s : State) : Prop :=
  ∀ d c, s.clientqueue.lookup d = some c →
    s.fds.owner d = some (.conn c) →
    d ∈ s.fds.watched ∨ s.main.handling = some d

/-- The events to come have a flag that `main` looks at. -/
def Flagged (s : State) : Prop :=
  ∀ e ∈ s.main.rest, e.readable = true ∨ e.hangup = true

/-- A step that leaves the map and what is open alone. -/
theorem Covered.keep (hc : Covered s)
    (hqueue : s'.clientqueue = s.clientqueue)
    (howner : s'.fds.owner = s.fds.owner)
    (hwatched : ∀ d, d ∈ s.fds.watched →
      d ∈ s'.fds.watched ∨ s'.main.handling = some d)
    (hhandling : ∀ d, s.main.handling = some d →
      (s.fds.owner d).isSome →
      d ∈ s'.fds.watched ∨ s'.main.handling = some d) : Covered s' := by
  intro d c h ho
  rw [hqueue] at h
  rw [howner] at ho
  rcases hc d c h ho with hd | hd
  · exact hwatched d hd
  · exact hhandling d hd (by rw [ho]; rfl)

/-- `DoKill(fd)` takes what it closes out of the map. -/
theorem Covered.doKill (hb : Base s) (hc : Covered s) (fd : Int)
    {m : Main} (hm : ∀ d, d ≠ fd → s.main.handling = some d →
      m.handling = some d) : Covered { s.doKill fd with main := m } := by
  intro d c h ho
  change (s.doKill fd).clientqueue.lookup d = some c at h
  change (s.doKill fd).fds.owner d = some (.conn c) at ho
  rw [doKill_lookup] at h
  split at h
  · cases h
  · next hne =>
    rcases hc d c h (hb.owner_of_doKill ho).2 with hd | hd
    · refine Or.inl ?_
      show d ∈ (s.doKill fd).fds.watched
      rw [doKill_fds, hb.kills]
      cases s.clientqueue.lookup fd with
      | none => exact hd
      | some c' => exact Finset.mem_erase.mpr ⟨hne, hd⟩
    · exact Or.inr (hm d hne hd)

theorem unRegister_other {d : Int} (hd : d ≠ fd) (willing : Bool) :
    d ∈ (s.unRegisterForEvent fd willing).fds.watched
      ↔ d ∈ s.fds.watched := by
  unfold State.unRegisterForEvent
  split
  · exact Finset.mem_erase.trans (and_iff_right hd)
  · exact Iff.rfl

theorem covered_step (hb : Base s) (hc : Covered s) (hf : Flagged s)
    (hadd : ∀ w, a = .add w → w = true)
    (h : step maxClients sockfd s a = some s') : Covered s' := by
  cases a with
  | getEvents events =>
      obtain ⟨hm, -, rfl⟩ := getEvents_inv h
      exact hc.keep rfl rfl (fun d hd => Or.inl hd)
        (fun d hd => by rw [hm] at hd; cases hd)
  | acceptFail =>
      obtain ⟨e, rest, hm, rfl, -⟩ := passOver_fd (Or.inl rfl) h
      exact hc.keep rfl rfl (fun d hd => Or.inl hd)
        (fun d hd => by rw [hm] at hd; cases hd)
  | skip =>
      obtain ⟨e, rest, hm, rfl, -⟩ := passOver_fd (Or.inr rfl) h
      exact hc.keep rfl rfl (fun d hd => Or.inl hd)
        (fun d hd => by rw [hm] at hd; cases hd)
  | accept fd =>
      obtain ⟨e, rest, hm, -, -, rfl⟩ := accept_inv h
      intro d c hd ho
      -- the new connection is not in the map
      have hlt : c < s.next := by
        refine hb.alive c ?_
        rw [(hb.entry d c hd).1]
        simp
      rcases Fds.owner_of_give ho with ⟨-, hnew⟩ | hold
      · cases hnew
        exact absurd hlt (Nat.lt_irrefl _)
      · refine Or.inl ((hc d c hd hold).resolve_right fun hno => ?_)
        rw [hm] at hno
        cases hno
  | getNewClient =>
      obtain ⟨fd, c, rest, hm, ⟨-, rfl⟩ | rfl⟩ := getNewClient_inv h
      · exact hc.keep rfl rfl (fun d hd => Or.inl hd)
          (fun d hd _ => Or.inr (by rw [hm] at hd; exact hd))
      · exact hc.keep rfl rfl (fun d hd => Or.inl hd)
          (fun d hd _ => Or.inr (by rw [hm] at hd; exact hd))
  | insert =>
      obtain ⟨fd, c, rest, hm, rfl⟩ := insert_inv h
      intro d c' hd ho
      by_cases hdfd : d = fd
      · exact Or.inr (by rw [hdfd]; rfl)
      · have hold := hc.doKill hb fd
          (m := .registering .linger (newcomer fd c) rest)
          (fun d' hne hd' => by
            rw [hm] at hd'
            cases hd'
            exact absurd rfl hne)
        rw [insertClient_eq] at hd ho ⊢
        change (s.clientqueue.insert fd c).lookup d = some c' at hd
        rw [AList.lookup_insert_ne hdfd] at hd
        refine hold d c' ?_ ho
        show (s.doKill fd).clientqueue.lookup d = some c'
        rw [doKill_lookup, if_neg hdfd]
        exact hd
  | unRegister willing =>
      have hframe := unRegister_frame s
      rcases unRegister_cases h with ⟨e, rest, hm, -, -, rfl⟩
        | ⟨fd, rest, hm, rfl⟩
      · obtain ⟨hqueue, -, -, howner, -, -, -⟩ := hframe e.fd willing
          (if e.readable then .reading e rest else afterRead e rest)
        refine hc.keep hqueue howner (fun d hd => ?_)
          (fun d hd => by rw [hm] at hd; cases hd)
        by_cases hde : d = e.fd
        · refine Or.inr ?_
          have hflag := hf e (by rw [hm]; exact List.mem_cons_self)
          show (if e.readable then Main.reading e rest
            else afterRead e rest).handling = some d
          rw [hde]
          cases hread : e.readable with
          | true => rfl
          | false =>
              rw [hread] at hflag
              simp only [Bool.false_eq_true, false_or] at hflag
              simp [afterRead, hflag, Main.handling]
        · exact Or.inl ((unRegister_other hde willing).mpr hd)
      · obtain ⟨hqueue, -, -, howner, -, -, -⟩ := hframe fd willing
          (.dropping fd rest)
        refine hc.keep hqueue howner (fun d hd => ?_)
          (fun d hd _ => Or.inr (by rw [hm] at hd; exact hd))
        by_cases hde : d = fd
        · exact Or.inr (by rw [hde]; rfl)
        · exact Or.inl ((unRegister_other hde willing).mpr hd)
  | find =>
      obtain ⟨e, rest, m, hm, rfl, rfl | ⟨c, rfl⟩⟩ := find_inv h
      · exact hc.keep rfl rfl (fun d hd => Or.inl hd)
          (fun d hd _ => Or.inr (by rw [hm] at hd; exact hd))
      · exact hc.keep rfl rfl (fun d hd => Or.inl hd)
          (fun d hd _ => Or.inr (by rw [hm] at hd; exact hd))
  | recvData =>
      obtain ⟨c, e, rest, hm, rfl⟩ := recvData_inv h
      exact hc.keep rfl rfl (fun d hd => Or.inl hd)
        (fun d hd _ => Or.inr (by rw [hm] at hd; exact hd))
  | recvGone fd =>
      obtain ⟨c, e, rest, hm, rfl⟩ := recvGone_inv h
      exact hc.keep rfl rfl (fun d hd => Or.inl hd)
        (fun d hd _ => Or.inr (by rw [hm] at hd; exact hd))
  | doKill =>
      rcases doKill_cases h with ⟨fd, e, rest, hm, rfl⟩ | ⟨fd, rest, hm, rfl⟩
      · exact hc.doKill hb fd fun d _ hd => by rw [hm] at hd; exact hd
      · exact hc.doKill hb fd fun d hne hd => by
          rw [hm] at hd
          cases hd
          exact absurd rfl hne
  | setsockopt willing =>
      obtain ⟨stage, stage', e, rest, hm, rfl⟩ := setsockopt_inv h
      exact hc.keep rfl rfl (fun d hd => Or.inl hd)
        (fun d hd _ => Or.inr (by rw [hm] at hd; exact hd))
  | close =>
      obtain ⟨e, rest, hm, rfl⟩ := close_inv h
      intro d c hd ho
      obtain ⟨hne, hopen⟩ := Fds.owner_of_close ho
      refine Or.inl (Finset.mem_erase.mpr ⟨hne, ?_⟩)
      refine (hc d c hd hopen).resolve_right fun hwork => hne ?_
      rw [hm] at hwork
      exact (Option.some.inj hwork).symm
  | add willing =>
      obtain ⟨e, rest, hm, rfl⟩ := add_inv h
      have hw := hadd willing rfl
      subst hw
      obtain ⟨hqueue, -, -, howner, -, -, -⟩ :=
        add_frame s e.fd true (afterRead e rest)
      have hgrow : ∀ d, d ∈ s.fds.watched →
          d ∈ (s.addForEvent e.fd true).fds.watched := by
        intro d hd
        unfold State.addForEvent
        split
        · next hg =>
          rw [Fds.watch_watched hg.2.1]
          exact Finset.mem_insert_of_mem hd
        · exact hd
      refine hc.keep hqueue howner (fun d hd => Or.inl (hgrow d hd))
        (fun d hd hopen => Or.inl ?_)
      rw [hm] at hd
      cases hd
      by_cases hmem : e.fd ∈ s.fds.watched
      · exact hgrow e.fd hmem
      · show e.fd ∈ (s.addForEvent e.fd true).fds.watched
        unfold State.addForEvent
        rw [if_pos ⟨rfl, hopen, hmem⟩, Fds.watch_watched hopen]
        exact Finset.mem_insert_self _ _
  | workerKill fd =>
      have hkill := hc.doKill hb fd (m := (s.doKill fd).main)
        (fun d _ hd => by rw [(doKill_frame s fd).2.2.2.2]; exact hd)
      rw [workerKill_inv h]
      exact hkill
  | socket fd =>
      obtain ⟨hfree, rfl⟩ := socket_inv h
      intro d c hd ho
      rcases Fds.owner_of_give ho with ⟨-, hnew⟩ | hold
      · cases hnew
      · exact hc d c hd hold
  | senderClose k =>
      obtain ⟨fd, -, rfl⟩ := senderClose_inv h
      intro d c hd ho
      obtain ⟨hne, hopen⟩ := Fds.owner_of_close ho
      exact (hc d c hd hopen).imp_left
        fun hw => Finset.mem_erase.mpr ⟨hne, hw⟩

end CorrectGps.EventLoop
