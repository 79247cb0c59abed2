/-
Is a descriptor closed only for the connection that has it?

# Three closers

A client's destructor closes its number, `registerForEvent` closes the
one it fails to set up, and a sender its own. Only `DoKill` takes the
number out of the map as well. As long as `registerForEvent` closes
nothing but what `AddToQueue` has refused, which the map does not know,
every number in the map stays open and its client's (`Own`).

# The exact condition

A connection that is not refused is in the map while it is open. If its
registration fails, either the map keeps a closed number, or the client
has gone before and the number is nobody's, or somebody else's. So the
condition is not only enough (`orderly_iff`).
-/
import CorrectGps.Proofs.EventLoop

namespace CorrectGps.EventLoop

open Lib

variable {maxClients : Nat} {sockfd : Int} {s s' : State} {a : Label}
variable {fd d : Int} {c : Nat}

/-- Every key of `clientqueue` is an open descriptor of its own
client. -/
def KeysOpen (s : State) : Prop :=
  ∀ d c, s.clientqueue.lookup d = some c →
    s.client c = some d ∧ s.fds.owner d = some (.conn c)

/-- What `CClient::Close` or `registerForEvent` closes is open and
belongs to the connection the call is about. -/
def ClosesOwn (s : State) (a : Label) : Prop :=
  (∀ k, a ≠ .senderClose k) →
    ∀ p ∈ s.closing a, ∃ c, p.2 = .conn c ∧ s.fds.owner p.1 = some p.2

/-- A step that closes only this and leaves only such keys. -/
def Orderly (maxClients : Nat) (sockfd : Int) (s : State) (a : Label) :
    Prop :=
  ClosesOwn s a ∧ ∀ s', step maxClients sockfd s a = some s' → KeysOpen s'

/-- `registerForEvent` closes only what `AddToQueue` has refused. -/
def ClosesRefused (s : State) (a : Label) : Prop :=
  a = .close → ∀ e rest, s.main = .registering .failed e rest →
    ∃ c ∈ s.refused, e.owner = .conn c

-- ========================================================= the invariant

/-- What the map, the senders and the main thread have in hand is still
open and theirs. -/
structure Own (s : State) : Prop where
  base : Base s
  entry : ∀ d c, s.clientqueue.lookup d = some c →
    s.fds.owner d = some (.conn c)
  sender : ∀ k d, s.sender k = some d → s.fds.owner d = some (.sender k)
  /-- an open connection is in the map, unless it is refused or new -/
  covered : ∀ d c, s.fds.owner d = some (.conn c) →
    s.clientqueue.lookup d = some c ∨ c ∈ s.refused
      ∨ s.main.accepting = some (d, c)
  handed : ∀ d c, s.main.accepting = some (d, c) →
    s.fds.owner d = some (.conn c)
  /-- no connection has two events to come -/
  apart : s.main.pending.Pairwise fun e e' =>
    ∀ c, e.owner = .conn c → e'.owner ≠ .conn c
  known : ∀ e ∈ s.main.pending, ∀ c, e.owner = .conn c → c < s.next
  /-- a refused connection waits for its event -/
  held : ∀ e ∈ s.main.pending, ∀ c ∈ s.refused, e.owner = .conn c →
    s.fds.owner e.fd = some (.conn c)

theorem Own.keysOpen (ho : Own s) : KeysOpen s :=
  fun d c h => ⟨(ho.base.entry d c h).1, ho.entry d c h⟩

theorem own_init (sockfd : Int) : Own (init sockfd) where
  base := base_init sockfd
  entry := fun d c h => by simp [init] at h
  sender := fun k d h => by cases h
  covered := fun d c h => by
    rw [init_owner] at h
    split at h <;> cases h
  handed := fun d c h => by cases h
  apart := List.Pairwise.nil
  known := fun e h => absurd h List.not_mem_nil
  held := fun e h => absurd h List.not_mem_nil

/-- The number in the hands of `AddToQueue` has no entry. -/
theorem Own.unmapped (ho : Own s) (h : s.main.accepting = some (d, c)) :
    s.clientqueue.lookup d = none := by
  obtain ⟨-, -, -, hnew⟩ := ho.base.accepting d c h
  cases hd : s.clientqueue.lookup d with
  | none => rfl
  | some c' =>
      have howner := ho.entry d c' hd
      rw [ho.handed d c h] at howner
      cases howner
      exact absurd hd (hnew d)

/-- Nothing refused is in the map. -/
theorem Own.not_refused (ho : Own s)
    (h : s.clientqueue.lookup d = some c) : c ∉ s.refused := by
  intro hc
  have hclient := (ho.base.entry d c h).1
  rw [(ho.base.refused c hc).2] at hclient
  cases hclient

/-- What `DoKill` closes is its own client's. -/
theorem Own.kills (ho : Own s) (fd : Int) :
    ∀ p ∈ s.kills fd, ∃ c, p.2 = .conn c
      ∧ s.fds.owner p.1 = some p.2 := by
  intro p hp
  rw [ho.base.kills] at hp
  obtain ⟨c, hc, rfl⟩ := Option.map_eq_some_iff.mp hp
  exact ⟨c, rfl, ho.entry fd c hc⟩

-- ============================================================== the steps

/-- A step that leaves everything but the main thread's place alone, and
takes up no event, keeps the invariant. -/
theorem Own.quiet (ho : Own s) (hf : Frame s s') (hb : Base s')
    (hnone : s.main.accepting = none) (hnone' : s'.main.accepting = none)
    (hsub : s'.main.pending.Sublist s.main.pending) : Own s' where
  base := hb
  entry := fun d c h => by
    rw [hf.owner]
    rw [hf.clientqueue] at h
    exact ho.entry d c h
  sender := fun k d h => by
    rw [hf.owner]
    rw [hf.sender] at h
    exact ho.sender k d h
  covered := fun d c h => by
    rw [hf.owner] at h
    rw [hf.clientqueue, hf.refused, hnone', ← hnone]
    exact ho.covered d c h
  handed := fun d c h => by
    rw [hnone'] at h
    cases h
  apart := ho.apart.sublist hsub
  known := fun e he => by
    rw [hf.next]
    exact ho.known e (hsub.subset he)
  held := fun e he => by
    rw [hf.refused, hf.owner]
    exact ho.held e (hsub.subset he)

/-- The events taken up are of distinct descriptors, hence of distinct
connections. -/
theorem Own.getEvents (ho : Own s) (hf : Frame s s') (hb : Base s')
    (hnone : s.main.accepting = none) {events : List Event}
    (hget : s.CanGet events) (hm : s'.main = .between events) :
    Own s' := by
  obtain ⟨-, hnodup, howner⟩ := hget
  have hnone' : s'.main.accepting = none := by
    rw [hm]
    rfl
  have hpending : s'.main.pending = events := by
    rw [hm]
    rfl
  have happart : events.Pairwise fun e e' =>
      ∀ c, e.owner = .conn c → e'.owner ≠ .conn c := by
    have hne : events.Pairwise fun e e' => e.fd ≠ e'.fd :=
      List.pairwise_map.mp hnodup
    apply hne.imp_of_mem
    intro e e' he he' hfd c hc hc'
    have h := (howner e he).2
    have h' := (howner e' he').2
    rw [hc] at h
    rw [hc'] at h'
    exact hfd (ho.base.unique e.fd e'.fd c h h')
  refine ⟨hb, ?_, ?_, ?_, ?_, ?_, ?_, ?_⟩
  · intro d c h
    rw [hf.owner]
    rw [hf.clientqueue] at h
    exact ho.entry d c h
  · intro k d h
    rw [hf.owner]
    rw [hf.sender] at h
    exact ho.sender k d h
  · intro d c h
    rw [hf.owner] at h
    rw [hf.clientqueue, hf.refused, hnone', ← hnone]
    exact ho.covered d c h
  · intro d c h
    rw [hnone'] at h
    cases h
  · rw [hpending]
    exact happart
  · intro e he c hc
    rw [hpending] at he
    rw [hf.next]
    apply ho.base.owned e.fd c
    rw [(howner e he).2, hc]
  · intro e he c _ hc
    rw [hpending] at he
    rw [hf.owner, (howner e he).2, hc]

theorem Own.accept (ho : Own s)
    (h : step maxClients sockfd s (.accept fd) = some s') : Own s' := by
  have hb := ho.base.accept h
  obtain ⟨e, rest, hm, -, hfree, rfl⟩ := accept_inv h
  have hrest : rest.Sublist s.main.pending := by
    rw [hm]
    exact List.sublist_cons_self e rest
  refine ⟨hb, ?_, ?_, ?_, ?_, ?_, ?_, ?_⟩
  · intro d c hd
    exact Fds.give_other hfree (ho.entry d c hd)
  · intro k d hk
    exact Fds.give_other hfree (ho.sender k d hk)
  · intro d c hd
    rcases Fds.owner_of_give hd with ⟨hdfd, hnew⟩ | hold
    · cases hnew
      rw [hdfd]
      exact Or.inr (Or.inr rfl)
    · rcases ho.covered d c hold with hmap | href | hacc
      · exact Or.inl hmap
      · exact Or.inr (Or.inl href)
      · rw [hm] at hacc
        cases hacc
  · intro d c hd
    cases hd
    show (s.fds.give fd (.conn s.next)).owner fd = _
    rw [Fds.give_owner, if_pos rfl]
  · apply List.pairwise_cons.mpr
    refine ⟨?_, ho.apart.sublist hrest⟩
    intro e' he' c hc hc'
    cases hc
    have hlt := ho.known e' (hrest.subset he') s.next hc'
    exact absurd hlt (Nat.lt_irrefl _)
  · intro e' he' c hc
    rcases List.mem_cons.mp he' with hnew | hold
    · rw [hnew] at hc
      cases hc
      exact Nat.lt_succ_self _
    · exact Nat.lt_succ_of_lt (ho.known e' (hrest.subset hold) c hc)
  · intro e' he' c hc howner
    rcases List.mem_cons.mp he' with hnew | hold
    · rw [hnew] at howner
      cases howner
      exact absurd (ho.base.refused s.next hc).1 (Nat.lt_irrefl _)
    · have hopen := ho.held e' (hrest.subset hold) c hc howner
      exact Fds.give_other hfree hopen

theorem Own.getNewClient (ho : Own s)
    (h : step maxClients sockfd s .getNewClient = some s') : Own s' := by
  have hb := ho.base.getNewClient h
  obtain ⟨fd, c, rest, hm, hcase⟩ := getNewClient_inv h
  have hacc : s.main.accepting = some (fd, c) := by
    rw [hm]
    rfl
  have hpending : s.main.pending = newcomer fd c :: rest := by
    rw [hm]
    rfl
  have happart := ho.apart
  have hknown := ho.known
  have hheld := ho.held
  rw [hpending] at happart hknown hheld
  obtain ⟨-, rfl⟩ | rfl := hcase
  · refine ⟨hb, ho.entry, ho.sender, ?_, ?_, happart, hknown, hheld⟩
    · intro d c' hd
      have hcov := ho.covered d c' hd
      rw [hacc] at hcov
      exact hcov
    · intro d c' hd
      cases hd
      exact ho.handed fd c hacc
  · refine ⟨hb, ho.entry, ho.sender, ?_, ?_, happart, hknown, ?_⟩
    · intro d c' hd
      rcases ho.covered d c' hd with hmap | href | hnew
      · exact Or.inl hmap
      · exact Or.inr (Or.inl (List.mem_cons_of_mem c href))
      · rw [hacc] at hnew
        cases hnew
        exact Or.inr (Or.inl List.mem_cons_self)
    · intro d c' hd
      cases hd
    · intro e he c' hc' howner
      rcases List.mem_cons.mp hc' with hcc | hold
      · rw [hcc] at howner ⊢
        rcases List.mem_cons.mp he with hnew | hlater
        · rw [hnew]
          exact ho.handed fd c hacc
        · have hne := (List.pairwise_cons.mp happart).1 e hlater c rfl
          exact absurd howner hne
      · exact hheld e he c' hold howner

theorem Own.insert (ho : Own s)
    (h : step maxClients sockfd s .insert = some s') : Own s' := by
  have hb := ho.base.insert h
  obtain ⟨fd, c, rest, hm, rfl⟩ := insert_inv h
  have hacc : s.main.accepting = some (fd, c) := by
    rw [hm]
    rfl
  have hpending : s.main.pending = newcomer fd c :: rest := by
    rw [hm]
    rfl
  have hempty := ho.unmapped hacc
  -- there is no old entry
  have hsame : s.doKill fd = s := by
    unfold State.doKill
    rw [hempty]
  have happart := ho.apart
  have hknown := ho.known
  have hheld := ho.held
  rw [hpending] at happart hknown hheld
  rw [insertClient_eq, hsame] at hb ⊢
  refine ⟨hb, ?_, ho.sender, ?_, ?_, happart, hknown, hheld⟩
  · intro d c' hd
    change (s.clientqueue.insert fd c).lookup d = some c' at hd
    by_cases hdfd : d = fd
    · rw [hdfd, AList.lookup_insert] at hd
      cases hd
      rw [hdfd]
      exact ho.handed fd c hacc
    · rw [AList.lookup_insert_ne hdfd] at hd
      exact ho.entry d c' hd
  · intro d c' hd
    show (s.clientqueue.insert fd c).lookup d = some c' ∨ _
    rcases ho.covered d c' hd with hmap | href | hnew
    · refine Or.inl ?_
      have hdfd : d ≠ fd := by
        intro hdfd
        rw [hdfd, hempty] at hmap
        cases hmap
      rw [AList.lookup_insert_ne hdfd]
      exact hmap
    · exact Or.inr (Or.inl href)
    · rw [hacc] at hnew
      cases hnew
      exact Or.inl (AList.lookup_insert _)
  · intro d c' hd
    cases hd

/-- `DoKill` takes the number it closes out of the map. -/
theorem Own.doKill (ho : Own s) (fd : Int) : Own (s.doKill fd) := by
  obtain ⟨hsender, -, hnext, hrefused, hmain⟩ := doKill_frame s fd
  -- what it closes is a client's
  have hsame : ∀ d o, s.fds.owner d = some o →
      (∀ c, s.clientqueue.lookup fd = some c → o ≠ .conn c) →
      (s.doKill fd).fds.owner d = some o := by
    intro d o hd hne
    rw [ho.base.doKill_owner, if_neg]
    · exact hd
    · intro hclosed
      obtain ⟨c, hc⟩ := Option.isSome_iff_exists.mp hclosed.2
      have howner := ho.entry fd c hc
      rw [← hclosed.1, hd] at howner
      exact hne c hc (Option.some.inj howner)
  refine ⟨ho.base.doKill fd, ?_, ?_, ?_, ?_, ?_, ?_, ?_⟩
  · intro d c h
    rw [doKill_lookup] at h
    split at h
    · cases h
    · next hne =>
      rw [ho.base.doKill_owner, if_neg fun hd => hne hd.1]
      exact ho.entry d c h
  · intro k d h
    rw [hsender] at h
    apply hsame d _ (ho.sender k d h)
    intro c _ howner
    cases howner
  · intro d c h
    obtain ⟨hclosed, hopen⟩ := ho.base.owner_of_doKill h
    rw [hrefused, hmain, doKill_lookup]
    rcases ho.covered d c hopen with hmap | hrest
    · refine Or.inl ?_
      rw [if_neg]
      · exact hmap
      · intro hd
        rw [hd] at hmap
        exact hclosed ⟨hd, by rw [hmap]; rfl⟩
    · exact Or.inr hrest
  · intro d c h
    rw [hmain] at h
    obtain ⟨-, -, -, hnew⟩ := ho.base.accepting d c h
    apply hsame d _ (ho.handed d c h)
    intro c' hc' howner
    cases howner
    exact hnew fd hc'
  · rw [hmain]
    exact ho.apart
  · rw [hmain, hnext]
    exact ho.known
  · rw [hmain, hrefused]
    intro e he c hc howner
    apply hsame e.fd _ (ho.held e he c hc howner)
    intro c' hc' heq
    cases heq
    exact ho.not_refused hc' hc

/-- What is refused is not in the map. -/
theorem Own.close (ho : Own s) (hg : ClosesRefused s .close)
    (h : step maxClients sockfd s .close = some s') : Own s' := by
  have hb := ho.base.step h
  obtain ⟨e, rest, hm, rfl⟩ := close_inv h
  obtain ⟨c, hc, howner⟩ := hg rfl e rest hm
  have hpending : s.main.pending = e :: rest := by
    rw [hm]
    rfl
  have happart := ho.apart
  rw [hpending] at happart
  obtain ⟨hfirst, hrest⟩ := List.pairwise_cons.mp happart
  have hmem : ∀ e' ∈ rest, e' ∈ s.main.pending := by
    intro e' he'
    rw [hpending]
    exact List.mem_cons_of_mem e he'
  have hopen : s.fds.owner e.fd = some (.conn c) := by
    apply ho.held e _ c hc howner
    rw [hpending]
    exact List.mem_cons_self
  -- what is anybody else's stays open
  have hsame : ∀ d o, s.fds.owner d = some o → o ≠ .conn c →
      (s.fds.close e.fd).owner d = some o := by
    intro d o hd hne
    apply Fds.close_other hd
    rw [hopen]
    exact fun heq => hne (Option.some.inj heq).symm
  refine ⟨hb, ?_, ?_, ?_, ?_, ?_, ?_, ?_⟩
  · intro d c' hd
    apply hsame d _ (ho.entry d c' hd)
    intro heq
    cases heq
    exact ho.not_refused hd hc
  · intro k d hk
    apply hsame d _ (ho.sender k d hk)
    intro heq
    cases heq
  · intro d c' hd
    rcases ho.covered d c' (Fds.owner_of_close hd).2 with
      hmap | href | hacc
    · exact Or.inl hmap
    · exact Or.inr (Or.inl href)
    · rw [hm] at hacc
      cases hacc
  · intro d c' hd
    change (afterRead e rest).accepting = _ at hd
    rw [afterRead_accepting] at hd
    cases hd
  · show ((afterRead e rest).pending).Pairwise _
    rw [afterRead_pending]
    exact hrest
  · intro e' he'
    change e' ∈ (afterRead e rest).pending at he'
    rw [afterRead_pending] at he'
    exact ho.known e' (hmem e' he')
  · intro e' he' c' hc' howner'
    change e' ∈ (afterRead e rest).pending at he'
    rw [afterRead_pending] at he'
    apply hsame _ _ (ho.held e' (hmem e' he') c' hc' howner')
    intro heq
    cases heq
    exact hfirst e' he' c howner howner'

theorem Own.socket (ho : Own s)
    (h : step maxClients sockfd s (.socket fd) = some s') : Own s' := by
  have hb := ho.base.step h
  obtain ⟨hfree, rfl⟩ := socket_inv h
  refine ⟨hb, ?_, ?_, ?_, ?_, ho.apart, ?_, ?_⟩
  · intro d c hd
    exact Fds.give_other hfree (ho.entry d c hd)
  · intro k d hk
    change Function.update s.sender s.next (some fd) k = some d at hk
    by_cases hkn : k = s.next
    · rw [hkn, Function.update_self] at hk
      cases hk
      show (s.fds.give fd (.sender s.next)).owner fd = _
      rw [Fds.give_owner, if_pos rfl, hkn]
    · rw [Function.update_of_ne hkn] at hk
      exact Fds.give_other hfree (ho.sender k d hk)
  · intro d c hd
    rcases Fds.owner_of_give hd with ⟨-, hnew⟩ | hold
    · cases hnew
    · exact ho.covered d c hold
  · intro d c hd
    exact Fds.give_other hfree (ho.handed d c hd)
  · intro e he c hc
    exact Nat.lt_succ_of_lt (ho.known e he c hc)
  · intro e he c hc howner
    exact Fds.give_other hfree (ho.held e he c hc howner)

theorem Own.senderClose (ho : Own s) {k : Nat}
    (h : step maxClients sockfd s (.senderClose k) = some s') : Own s' := by
  have hb := ho.base.step h
  obtain ⟨fd, hk, rfl⟩ := senderClose_inv h
  have hopen := ho.sender k fd hk
  have hsame : ∀ d o, s.fds.owner d = some o → o ≠ .sender k →
      (s.fds.close fd).owner d = some o := by
    intro d o hd hne
    apply Fds.close_other hd
    rw [hopen]
    exact fun heq => hne (Option.some.inj heq).symm
  have hconn : ∀ d c, s.fds.owner d = some (.conn c) →
      (s.fds.close fd).owner d = some (.conn c) := by
    intro d c hd
    apply hsame d _ hd
    intro heq
    cases heq
  refine ⟨hb, ?_, ?_, ?_, ?_, ho.apart, ho.known, ?_⟩
  · intro d c hd
    exact hconn d c (ho.entry d c hd)
  · intro k' d hd
    change Function.update s.sender k none k' = some d at hd
    by_cases hkk : k' = k
    · rw [hkk, Function.update_self] at hd
      cases hd
    · rw [Function.update_of_ne hkk] at hd
      apply hsame d _ (ho.sender k' d hd)
      intro heq
      cases heq
      exact hkk rfl
  · intro d c hd
    exact ho.covered d c (Fds.owner_of_close hd).2
  · intro d c hd
    exact hconn d c (ho.handed d c hd)
  · intro e he c hc howner
    exact hconn _ c (ho.held e he c hc howner)

/-- Every step that closes only what is refused keeps the invariant. -/
theorem Own.step (ho : Own s) (hg : ClosesRefused s a)
    (h : step maxClients sockfd s a = some s') : Own s' := by
  by_cases hq : a.quiet = true
  · have hb := ho.base.step h
    obtain ⟨hf, hnone, hnone', hsub | ⟨events, hget, hm⟩⟩ :=
      quiet_inv hq h
    · exact ho.quiet hf hb hnone hnone' hsub
    · exact ho.getEvents hf hb hnone hget hm
  · cases a with
    | accept fd => exact ho.accept h
    | getNewClient => exact ho.getNewClient h
    | insert => exact ho.insert h
    | doKill =>
        have hb := ho.base.step h
        obtain ⟨fd, m, rfl, -, hnone', hnone, -, hpending⟩ := doKill_inv h
        have hmain := (doKill_frame s fd).2.2.2.2
        have hframe : Frame (s.doKill fd) { s.doKill fd with main := m } :=
          ⟨rfl, rfl, rfl, rfl, rfl, rfl, rfl⟩
        apply (ho.doKill fd).quiet hframe hb
        · rw [hmain]
          exact hnone
        · exact hnone'
        · rw [hmain, ← hpending]
    | close => exact ho.close hg h
    | workerKill fd =>
        cases workerKill_inv h
        exact ho.doKill fd
    | socket fd => exact ho.socket h
    | senderClose k => exact ho.senderClose h
    | _ => simp [Label.quiet] at hq

-- ============================================================ the condition

/-- What is closed then is its own connection's. -/
theorem Own.closesOwn (ho : Own s) (hg : ClosesRefused s a) :
    ClosesOwn s a := by
  intro hnot p hp
  cases a with
  | insert =>
      simp only [State.closing] at hp
      split at hp
      · exact ho.kills _ p hp
      · cases hp
  | doKill =>
      simp only [State.closing] at hp
      split at hp
      · exact ho.kills _ p hp
      · exact ho.kills _ p hp
      · cases hp
  | close =>
      simp only [State.closing] at hp
      split at hp
      · next e rest hm =>
        obtain ⟨c, hc, howner⟩ := hg rfl e rest hm
        cases hp
        refine ⟨c, howner, ?_⟩
        show s.fds.owner e.fd = some e.owner
        rw [howner]
        apply ho.held e _ c hc howner
        rw [hm]
        exact List.mem_cons_self
      · cases hp
  | workerKill fd => exact ho.kills fd p hp
  | senderClose k => exact absurd rfl (hnot k)
  | _ => cases hp

/-- A close of anything else is not orderly: a connection that is not
refused is in the map while it is open. -/
theorem Own.closesRefused (ho : Own s)
    (h : Orderly maxClients sockfd s a) : ClosesRefused s a := by
  rintro rfl e rest hm
  have hclosing : s.closing .close = some (e.fd, e.owner) := by
    simp [State.closing, hm]
  obtain ⟨c, howner, hopen⟩ := h.1 (fun k hk => by cases hk) _ hclosing
  have hopen' : s.fds.owner e.fd = some (.conn c) := by
    rw [← howner]
    exact hopen
  refine ⟨c, ?_, howner⟩
  rcases ho.covered e.fd c hopen' with hmap | href | hacc
  · -- the key would stay, and the number be closed
    have hstep : EventLoop.step maxClients sockfd s .close
        = some { s with
            fds := s.fds.close e.fd
            main := afterRead e rest } := by
      simp only [EventLoop.step, hm]
    have hkey := (h.2 _ hstep e.fd c hmap).2
    change (s.fds.close e.fd).owner e.fd = _ at hkey
    rw [Fds.close_owner, if_pos rfl] at hkey
    cases hkey
  · exact href
  · rw [hm] at hacc
    cases hacc

theorem Own.orderly (ho : Own s) :
    Orderly maxClients sockfd s a ↔ ClosesRefused s a := by
  constructor
  · exact ho.closesRefused
  · intro hg
    refine ⟨ho.closesOwn hg, ?_⟩
    intro s' h
    exact (ho.step hg h).keysOpen

/-- A run closes each descriptor for the connection that has it, and
keeps every key open and its client's, exactly if `registerForEvent`
closes only what `AddToQueue` has refused. -/
theorem orderly_iff (maxClients : Nat) (sockfd : Int) (as : List Label) :
    Meets (step maxClients sockfd) (Orderly maxClients sockfd)
        (init sockfd) as ↔
      Meets (step maxClients sockfd) ClosesRefused (init sockfd) as := by
  apply meets_iff (I := Own)
  · exact fun ho => ho.orderly
  · exact fun ho hp h => ho.step (ho.orderly.mp hp) h
  · exact own_init sockfd

/-- The peer has gone: its client is deleted, and then registered
again. -/
def goneRun : List Label :=
  acceptRun ++ [.getEvents [⟨5, .conn 0, true, false⟩], .unRegister true,
    .find, .recvGone 5, .doKill, .setsockopt true]

/-- The number is closed a second time. -/
theorem not_orderly :
    ¬ ∀ (maxClients : Nat) (sockfd : Int) (as : List Label),
      Meets (step maxClients sockfd) (Orderly maxClients sockfd)
        (init sockfd) as := by
  intro hall
  obtain ⟨s, hrun, hmain, hfree⟩ := exists_run_of_any
    (P := fun s =>
      s.main = .registering .failed ⟨5, .conn 0, true, false⟩ []
        ∧ s.fds.owner 5 = none)
    (show (run (step 1 3) (init 3) goneRun).any _ = true by decide)
  have hlast := meets_append (hall 1 3 (goneRun ++ [.close])) hrun
  have hclosing : s.closing .close = some (5, .conn 0) := by
    simp [State.closing, hmain]
  obtain ⟨c, -, hopen⟩ := hlast.1.1 (fun k hk => by cases hk) _ hclosing
  change s.fds.owner 5 = some (.conn 0) at hopen
  rw [hfree] at hopen
  cases hopen

end CorrectGps.EventLoop
