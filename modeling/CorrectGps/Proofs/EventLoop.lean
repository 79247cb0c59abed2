/-
The client map in the event loop: what every run keeps, whatever the
system calls do.

# The base invariant

A client in the map carries the number it is entered under, and no two
open descriptors are one connection's. A connection that was refused has
no client, and the one `AddToQueue` is working on is new to the map.
What the map does *not* know is whether its numbers are still open: that
is the subject of Closes.lean.
-/
import CorrectGps.EventLoop
import CorrectGps.Lib.Trans

namespace CorrectGps.EventLoop

open Lib

variable {maxClients : Nat} {sockfd : Int} {s s' : State} {a : Label}
variable {fd d d' : Int} {c c' : Nat}

/-- What ties the map, the heap, the connections and the main thread's
place together. -/
structure Base (s : State) : Prop where
  entry : ∀ d c, s.clientqueue.lookup d = some c →
    s.client c = some d ∧ 0 ≤ d
  alive : ∀ c, s.client c ≠ none → c < s.next
  owned : ∀ d c, s.fds.owner d = some (.conn c) → c < s.next
  unique : ∀ d d' c, s.fds.owner d = some (.conn c) →
    s.fds.owner d' = some (.conn c) → d = d'
  refused : ∀ c ∈ s.refused, c < s.next ∧ s.client c = none
  accepting : ∀ d c, s.main.accepting = some (d, c) →
    0 ≤ d ∧ c < s.next ∧ c ∉ s.refused
      ∧ ∀ d', s.clientqueue.lookup d' ≠ some c
  placed : ∀ d c, s.main.accepting = some (d, c) →
    ∀ d', s.fds.owner d' = some (.conn c) → d' = d
  accepted : ∀ d c rest, s.main = .accepted d c rest → s.client c = none
  created : ∀ d c rest, s.main = .created d c rest → s.client c = some d

theorem init_owner (sockfd : Int) :
    (init sockfd).fds.owner d
      = if d = sockfd then some .listener else none := by
  show (Fds.watch _ sockfd).owner d = _
  rw [Fds.watch_owner]
  exact Fds.give_owner ..

theorem base_init (sockfd : Int) : Base (init sockfd) where
  entry := fun d c h => by simp [init] at h
  alive := fun c h => absurd rfl h
  owned := fun d c h => by
    rw [init_owner] at h
    split at h <;> cases h
  unique := fun d d' c h => by
    rw [init_owner] at h
    split at h <;> cases h
  refused := fun c h => by simp [init] at h
  accepting := fun d c h => by cases h
  placed := fun d c h => by cases h
  accepted := fun d c rest h => by cases h
  created := fun d c rest h => by cases h

-- =============================================================== the map

/-- A client has one entry at most. -/
theorem Base.entry_unique (hb : Base s)
    (h : s.clientqueue.lookup d = some c)
    (h' : s.clientqueue.lookup d' = some c) : d = d' := by
  have h1 := (hb.entry d c h).1
  rw [(hb.entry d' c h').1] at h1
  exact (Option.some.inj h1).symm

/-- `DoKill(fd)` closes `fd`, if it has an entry. -/
theorem Base.kills (hb : Base s) (fd : Int) :
    s.kills fd
      = (s.clientqueue.lookup fd).map fun c => (fd, Owner.conn c) := by
  unfold State.kills
  cases hc : s.clientqueue.lookup fd with
  | none => rfl
  | some c =>
      obtain ⟨hfd, hpos⟩ := hb.entry fd c hc
      have hvalid : fd ≠ INVALID_SOCKET := by
        unfold INVALID_SOCKET
        omega
      simp [State.closes, hfd, hvalid]

theorem Base.doKill_owner (hb : Base s) (fd d : Int) :
    (s.doKill fd).fds.owner d
      = if d = fd ∧ (s.clientqueue.lookup fd).isSome then none
        else s.fds.owner d := by
  rw [doKill_fds, hb.kills]
  cases s.clientqueue.lookup fd with
  | none => simp
  | some c => simp [Fds.close_owner]

/-- What is open after `DoKill` was open before. -/
theorem Base.owner_of_doKill (hb : Base s) {fd d : Int} {o : Owner}
    (h : (s.doKill fd).fds.owner d = some o) :
    ¬ (d = fd ∧ (s.clientqueue.lookup fd).isSome)
      ∧ s.fds.owner d = some o := by
  rw [hb.doKill_owner] at h
  split at h
  · cases h
  · next hne => exact ⟨hne, h⟩

-- ============================================================== the steps

/-- A step that leaves the map and the heap alone and gives no connection
a descriptor keeps the invariant. -/
theorem Base.keep (hb : Base s) (hqueue : s'.clientqueue = s.clientqueue)
    (hclient : s'.client = s.client) (hnext : s.next ≤ s'.next)
    (hrefused : s'.refused = s.refused)
    (howner : ∀ d c, s'.fds.owner d = some (.conn c) →
      s.fds.owner d = some (.conn c))
    (hmain : s'.main = s.main ∨ s'.main.accepting = none) : Base s' where
  entry := fun d c h => by
    rw [hqueue] at h
    rw [hclient]
    exact hb.entry d c h
  alive := fun c h => by
    rw [hclient] at h
    exact lt_of_lt_of_le (hb.alive c h) hnext
  owned := fun d c h =>
    lt_of_lt_of_le (hb.owned d c (howner d c h)) hnext
  unique := fun d d' c h h' =>
    hb.unique d d' c (howner d c h) (howner d' c h')
  refused := fun c h => by
    rw [hrefused] at h
    rw [hclient]
    obtain ⟨hlt, hnone⟩ := hb.refused c h
    exact ⟨lt_of_lt_of_le hlt hnext, hnone⟩
  accepting := fun d c h => by
    rcases hmain with hm | hm
    · rw [hm] at h
      obtain ⟨hpos, hlt, hnot, hnew⟩ := hb.accepting d c h
      rw [hrefused, hqueue]
      exact ⟨hpos, lt_of_lt_of_le hlt hnext, hnot, hnew⟩
    · rw [hm] at h
      cases h
  placed := fun d c h d' hd' => by
    rcases hmain with hm | hm
    · rw [hm] at h
      exact hb.placed d c h d' (howner d' c hd')
    · rw [hm] at h
      cases h
  accepted := fun d c rest h => by
    rcases hmain with hm | hm
    · rw [hclient]
      exact hb.accepted d c rest (hm ▸ h)
    · rw [h] at hm
      cases hm
  created := fun d c rest h => by
    rcases hmain with hm | hm
    · rw [hclient]
      exact hb.created d c rest (hm ▸ h)
    · rw [h] at hm
      cases hm

/-- `DoKill` keeps the invariant. -/
theorem Base.doKill (hb : Base s) (fd : Int) : Base (s.doKill fd) := by
  obtain ⟨-, -, hnext, hrefused, hmain⟩ := doKill_frame s fd
  have howner : ∀ d c, (s.doKill fd).fds.owner d = some (.conn c) →
      s.fds.owner d = some (.conn c) :=
    fun d c h => (hb.owner_of_doKill h).2
  have hlookup : ∀ d c, (s.doKill fd).clientqueue.lookup d = some c →
      d ≠ fd ∧ s.clientqueue.lookup d = some c := by
    intro d c h
    rw [doKill_lookup] at h
    split at h
    · cases h
    · next hne => exact ⟨hne, h⟩
  have hgone : ∀ c, s.client c = none →
      (s.doKill fd).client c = none := by
    intro c h
    rw [doKill_client, h]
    split <;> rfl
  refine ⟨?_, ?_, ?_, ?_, ?_, ?_, ?_, ?_, ?_⟩
  · intro d c h
    obtain ⟨hne, hentry⟩ := hlookup d c h
    rw [doKill_client, if_neg]
    · exact hb.entry d c hentry
    · intro h'
      exact hne (hb.entry_unique hentry h')
  · intro c h
    rw [hnext]
    apply hb.alive c
    intro hnone
    exact h (hgone c hnone)
  · intro d c h
    rw [hnext]
    exact hb.owned d c (howner d c h)
  · intro d d' c h h'
    exact hb.unique d d' c (howner d c h) (howner d' c h')
  · intro c h
    rw [hrefused] at h
    rw [hnext]
    obtain ⟨hlt, hnone⟩ := hb.refused c h
    exact ⟨hlt, hgone c hnone⟩
  · intro d c h
    rw [hmain] at h
    obtain ⟨hpos, hlt, hnot, hnew⟩ := hb.accepting d c h
    rw [hnext, hrefused]
    exact ⟨hpos, hlt, hnot, fun d' h' => hnew d' (hlookup d' c h').2⟩
  · intro d c h d' hd'
    rw [hmain] at h
    exact hb.placed d c h d' (howner d' c hd')
  · intro d c rest h
    rw [hmain] at h
    exact hgone c (hb.accepted d c rest h)
  · intro d c rest h
    rw [hmain] at h
    obtain ⟨-, -, -, hnew⟩ := hb.accepting d c (by rw [h]; rfl)
    rw [doKill_client, if_neg (hnew fd)]
    exact hb.created d c rest h

theorem Base.accept (hb : Base s)
    (h : step maxClients sockfd s (.accept fd) = some s') : Base s' := by
  obtain ⟨e, rest, hm, hpos, hfree, rfl⟩ := accept_inv h
  have hfresh : s.client s.next = none := by
    by_contra hne
    exact absurd (hb.alive s.next hne) (Nat.lt_irrefl _)
  have hnot : ∀ d, s.fds.owner d ≠ some (.conn s.next) :=
    fun d hd => absurd (hb.owned d s.next hd) (Nat.lt_irrefl _)
  refine ⟨hb.entry, ?_, ?_, ?_, ?_, ?_, ?_, ?_, ?_⟩
  · intro c hc
    exact Nat.lt_succ_of_lt (hb.alive c hc)
  · intro d c hd
    rcases Fds.owner_of_give hd with ⟨-, hnew⟩ | hold
    · cases hnew
      exact Nat.lt_succ_self _
    · exact Nat.lt_succ_of_lt (hb.owned d c hold)
  · intro d d' c hd hd'
    rcases Fds.owner_of_give hd with ⟨hdfd, hnew⟩ | hold
    · cases hnew
      rcases Fds.owner_of_give hd' with ⟨hdfd', -⟩ | hold'
      · rw [hdfd, hdfd']
      · exact absurd hold' (hnot d')
    · rcases Fds.owner_of_give hd' with ⟨-, hnew⟩ | hold'
      · cases hnew
        exact absurd hold (hnot d)
      · exact hb.unique d d' c hold hold'
  · intro c hc
    obtain ⟨hlt, hnone⟩ := hb.refused c hc
    exact ⟨Nat.lt_succ_of_lt hlt, hnone⟩
  · intro d c hd
    cases hd
    refine ⟨hpos, Nat.lt_succ_self _, ?_, ?_⟩
    · intro hc
      exact absurd (hb.refused s.next hc).1 (Nat.lt_irrefl _)
    · intro d' hd'
      have hclient := (hb.entry d' s.next hd').1
      rw [hfresh] at hclient
      cases hclient
  · intro d c hd d' hd'
    cases hd
    rcases Fds.owner_of_give hd' with ⟨hdfd', -⟩ | hold'
    · exact hdfd'
    · exact absurd hold' (hnot d')
  · intro d c rest hd
    cases hd
    exact hfresh
  · intro d c rest hd
    cases hd

theorem Base.getNewClient (hb : Base s)
    (h : step maxClients sockfd s .getNewClient = some s') : Base s' := by
  obtain ⟨fd, c, rest, hm, hcase⟩ := getNewClient_inv h
  obtain ⟨hpos, hlt, hnot, hnew⟩ := hb.accepting fd c (by rw [hm]; rfl)
  have hnone := hb.accepted fd c rest hm
  obtain ⟨hroom, rfl⟩ | rfl := hcase
  · refine ⟨?_, ?_, hb.owned, hb.unique, ?_, ?_, ?_, ?_, ?_⟩
    · intro d c' hd
      have hne : c' ≠ c := by
        intro hcc
        rw [hcc] at hd
        exact hnew d hd
      show Function.update s.client c (some fd) c' = _ ∧ _
      rw [Function.update_of_ne hne]
      exact hb.entry d c' hd
    · intro c' hc'
      by_cases hcc : c' = c
      · rw [hcc]
        exact hlt
      · change Function.update s.client c (some fd) c' ≠ none at hc'
        rw [Function.update_of_ne hcc] at hc'
        exact hb.alive c' hc'
    · intro c' hc'
      have hne : c' ≠ c := by
        intro hcc
        rw [hcc] at hc'
        exact hnot hc'
      show _ ∧ Function.update s.client c (some fd) c' = none
      rw [Function.update_of_ne hne]
      exact hb.refused c' hc'
    · intro d c' hd
      cases hd
      exact ⟨hpos, hlt, hnot, hnew⟩
    · intro d c' hd
      cases hd
      exact hb.placed fd c (by rw [hm]; rfl)
    · intro d c' rest' hd
      cases hd
    · intro d c' rest' hd
      cases hd
      exact Function.update_self ..
  · refine ⟨hb.entry, hb.alive, hb.owned, hb.unique, ?_, ?_, ?_, ?_, ?_⟩
    · intro c' hc'
      rcases List.mem_cons.mp hc' with hcc | hold
      · rw [hcc]
        exact ⟨hlt, hnone⟩
      · exact hb.refused c' hold
    · intro d c' hd
      cases hd
    · intro d c' hd
      cases hd
    · intro d c' rest' hd
      cases hd
    · intro d c' rest' hd
      cases hd

theorem Base.insert (hb : Base s)
    (h : step maxClients sockfd s .insert = some s') : Base s' := by
  obtain ⟨fd, c, rest, hm, rfl⟩ := insert_inv h
  obtain ⟨hpos, hlt, hnot, hnew⟩ := hb.accepting fd c (by rw [hm]; rfl)
  have hk := hb.doKill fd
  have hcreated : (s.doKill fd).client c = some fd :=
    hk.created fd c rest ((doKill_frame s fd).2.2.2.2.trans hm)
  rw [insertClient_eq]
  refine ⟨?_, hk.alive, hk.owned, hk.unique, hk.refused, ?_, ?_, ?_, ?_⟩
  · intro d c' hd
    change (s.clientqueue.insert fd c).lookup d = some c' at hd
    by_cases hdfd : d = fd
    · rw [hdfd, AList.lookup_insert] at hd
      cases hd
      rw [hdfd]
      exact ⟨hcreated, hpos⟩
    · rw [AList.lookup_insert_ne hdfd] at hd
      apply hk.entry d c'
      rw [doKill_lookup, if_neg hdfd]
      exact hd
  · intro d c' hd
    cases hd
  · intro d c' hd
    cases hd
  · intro d c' rest' hd
    cases hd
  · intro d c' rest' hd
    cases hd

/-- Every step keeps the base invariant. -/
theorem Base.step (hb : Base s)
    (h : step maxClients sockfd s a = some s') : Base s' := by
  by_cases hq : a.quiet = true
  · obtain ⟨hframe, -, hmain, -⟩ := quiet_inv hq h
    refine hb.keep hframe.clientqueue hframe.client hframe.next.ge
      hframe.refused ?_ (Or.inr hmain)
    rw [hframe.owner]
    exact fun _ _ hd => hd
  · cases a with
    | accept fd => exact hb.accept h
    | getNewClient => exact hb.getNewClient h
    | insert => exact hb.insert h
    | doKill =>
        obtain ⟨fd, m, rfl, -, hnone, -⟩ := doKill_inv h
        exact (hb.doKill fd).keep rfl rfl (le_refl _) rfl
          (fun _ _ hd => hd) (Or.inr hnone)
    | close =>
        obtain ⟨e, rest, -, rfl⟩ := close_inv h
        exact hb.keep rfl rfl (le_refl _) rfl
          (fun d c hd => (Fds.owner_of_close hd).2)
          (Or.inr (afterRead_accepting e rest))
    | workerKill fd =>
        cases workerKill_inv h
        exact hb.doKill fd
    | socket fd =>
        obtain ⟨-, rfl⟩ := socket_inv h
        refine hb.keep rfl rfl (Nat.le_succ _) rfl ?_ (Or.inl rfl)
        intro d c hd
        rcases Fds.owner_of_give hd with ⟨-, hnew⟩ | hold
        · cases hnew
        · exact hold
    | senderClose k =>
        obtain ⟨fd, -, rfl⟩ := senderClose_inv h
        exact hb.keep rfl rfl (le_refl _) rfl
          (fun d c hd => (Fds.owner_of_close hd).2) (Or.inl rfl)
    | _ => simp [Label.quiet] at hq

-- ======================================================== where runs start

/-- A connection is accepted as 5 and registered. -/
def acceptRun : List Label :=
  [.getEvents [⟨3, .listener, true, false⟩], .accept 5, .getNewClient,
    .insert, .setsockopt true, .setsockopt true, .add true]

end CorrectGps.EventLoop
