/-
What the timeout sweep does to the map.

A client that the sweep kills is erased with the iterator on it, and the
next thing the loop does is to go on from there. So a sweep that kills
anybody has no defined outcome (`sweep_killing`), and one that kills
nobody visits everybody and changes nothing (`sweep_quiet`). It kills
every client without a serial as soon as a timeout is configured, and
without one those whose age is not 0. What is left for a sweep that does
what it is there for is a map in which nobody is too old and the
disjunction finds nobody either (`sweeps_iff`).
-/
import CorrectGps.Timeout

namespace CorrectGps.Timeout

open Lib

variable {outtime_s : UInt32} {now : Int} {m : CLIENT_MAP}

/-- Is the client identified, or young enough? -/
def keeps (outtime_s : UInt32) (now : Int) : Option Client → Bool
  | none => true
  | some c =>
      c.str .serial != [] || decide (now - c.delay_time ≤ outtime_s.toNat)

/-- The sweep visits every entry and leaves those to be kept. -/
def Sweeps (outtime_s : UInt32) (now : Int) (m : CLIENT_MAP) : Prop :=
  ∃ q, killTimeoutClient outtime_s now m = some (m.items.map Prod.fst, q)
    ∧ q.items = m.items.filter fun e => keeps outtime_s now e.2

-- ============================================================= the loop

/-- Nobody is killed from here on. -/
theorem sweep_quiet {l r : List (Int × Option Client)} {fuel : Nat}
    (hm : m.items = l ++ r) (hfuel : r.length < fuel)
    (h : ∀ e ∈ r, kills outtime_s now e.2 = false) :
    sweep outtime_s now fuel m (SortedMap.first r)
      = some (r.map Prod.fst, m) := by
  induction r generalizing l fuel with
  | nil =>
      obtain ⟨fuel, rfl⟩ := Nat.exists_eq_succ_of_ne_zero (Nat.ne_of_gt hfuel)
      rfl
  | cons e r ih =>
      obtain ⟨fuel, rfl⟩ := Nat.exists_eq_succ_of_ne_zero
        (Nat.ne_of_gt (Nat.lt_of_le_of_lt (Nat.zero_le _) hfuel))
      obtain ⟨hfind, hnext⟩ := SortedMap.find_next_split hm
      have hsplit : m.items = (l ++ [e]) ++ r := by
        rw [hm, List.append_assoc]
        rfl
      have hrest := ih hsplit (Nat.lt_of_succ_lt_succ hfuel)
        fun d hd => h d (List.mem_cons_of_mem e hd)
      show sweep outtime_s now (fuel + 1) m (some e.1) = _
      rw [sweep, hfind]
      simp only
      rw [h e List.mem_cons_self, if_neg Bool.false_ne_true, hnext]
      simp only
      rw [hrest]
      rfl

/-- Somebody is killed from here on. -/
theorem sweep_killing {l r : List (Int × Option Client)}
    (hm : m.items = l ++ r) (h : ∃ e ∈ r, kills outtime_s now e.2 = true)
    (fuel : Nat) :
    sweep outtime_s now fuel m (SortedMap.first r) = none := by
  induction r generalizing l fuel with
  | nil =>
      obtain ⟨e, he, -⟩ := h
      exact absurd he List.not_mem_nil
  | cons e r ih =>
      obtain ⟨hfind, hnext⟩ := SortedMap.find_next_split hm
      cases fuel with
      | zero => rfl
      | succ fuel =>
          show sweep outtime_s now (fuel + 1) m (some e.1) = _
          rw [sweep, hfind]
          simp only
          cases hkill : kills outtime_s now e.2 with
          | true =>
              have herased : DoKill e.1 m = m.erase e.1 := by
                rw [DoKill, hfind]
              rw [if_pos rfl, herased, SortedMap.next_erase]
          | false =>
              have hrest : ∃ d ∈ r, kills outtime_s now d.2 = true := by
                obtain ⟨d, hd, hk⟩ := h
                rcases List.mem_cons.mp hd with rfl | hd
                · rw [hkill] at hk
                  cases hk
                · exact ⟨d, hd, hk⟩
              rw [if_neg Bool.false_ne_true, hnext]
              simp only
              have hsplit : m.items = (l ++ [e]) ++ r := by
                rw [hm, List.append_assoc]
                rfl
              rw [ih hsplit hrest fuel]
              rfl

-- ========================================================= the condition

/-- A client is neither killed nor to be killed. -/
theorem kills_keeps_client {c : Client} (hle : c.delay_time ≤ now) :
    kills outtime_s now (some c) = false
        ∧ keeps outtime_s now (some c) = true
      ↔ (c.str .serial = [] → outtime_s = 0 ∧ c.delay_time = now) := by
  by_cases hserial : c.str .serial = []
  · by_cases hzero : outtime_s = 0
    · -- the age is 0 already if 32 bits of it are, and it is at most 0
      subst hzero
      have hkills : kills 0 now (some c) = false
          ↔ (now - c.delay_time) % 2 ^ 32 ≤ 0 := by
        simp [kills, hserial]
      have hkeeps : keeps 0 now (some c) = true
          ↔ now - c.delay_time ≤ 0 := by
        simp [keeps, hserial]
      rw [hkills, hkeeps]
      constructor
      · exact fun h _ => ⟨rfl, by omega⟩
      · intro h
        have hage := (h hserial).2
        omega
    · -- any timeout kills the client, whatever its age
      have hkills : kills outtime_s now (some c) = true := by
        simp [kills, hserial, hzero]
      rw [hkills]
      simp [hserial, hzero]
  · simp [kills, keeps, hserial]

theorem kills_keeps_iff {client : Option Client}
    (hnow : ∀ c ∈ client, c.delay_time ≤ now) :
    kills outtime_s now client = false ∧ keeps outtime_s now client = true
      ↔ ∀ c ∈ client, c.str .serial = [] →
        outtime_s = 0 ∧ c.delay_time = now := by
  cases client with
  | none => simp [kills, keeps]
  | some c =>
      rw [kills_keeps_client (hnow c rfl)]
      constructor
      · intro h d hd
        obtain rfl := Option.some.inj hd
        exact h
      · exact fun h => h c rfl

/-- The sweep does its work exactly if there is no client without a
serial, except new ones while no timeout is configured. -/
theorem sweeps_iff (outtime_s : UInt32) (now : Int) (m : CLIENT_MAP)
    (hnow : ∀ e ∈ m.items, ∀ c ∈ e.2, c.delay_time ≤ now) :
    Sweeps outtime_s now m
      ↔ ∀ e ∈ m.items, ∀ c ∈ e.2, c.str .serial = [] →
        outtime_s = 0 ∧ c.delay_time = now := by
  constructor
  · intro h e he
    obtain ⟨q, hrun, hq⟩ := h
    have hquiet : ∀ d ∈ m.items, kills outtime_s now d.2 = false := by
      intro d hd
      by_contra hk
      have hnone := sweep_killing (m := m) (l := []) rfl
        ⟨d, hd, Bool.eq_true_of_not_eq_false hk⟩ (m.items.length + 1)
      rw [killTimeoutClient, hnone] at hrun
      cases hrun
    have hsame := sweep_quiet (m := m) (l := []) rfl
      (Nat.lt_succ_self _) hquiet
    rw [killTimeoutClient, hsame] at hrun
    obtain rfl := (Prod.mk.inj (Option.some.inj hrun)).2
    have hkeep := List.filter_eq_self.mp hq.symm e he
    exact (kills_keeps_iff (hnow e he)).mp ⟨hquiet e he, hkeep⟩
  · intro h
    have hboth : ∀ e ∈ m.items, kills outtime_s now e.2 = false
        ∧ keeps outtime_s now e.2 = true :=
      fun e he => (kills_keeps_iff (hnow e he)).mpr (h e he)
    refine ⟨m, ?_, ?_⟩
    · exact sweep_quiet (l := []) rfl (Nat.lt_succ_self _)
        fun e he => (hboth e he).1
    · exact (List.filter_eq_self.mpr fun e he => (hboth e he).2).symm

/-- A connection without a request, accepted at 7. -/
def newClient : Client := { CClient.blank with delay_time := 7 }

def oneClient : CLIENT_MAP where
  items := [(5, some newClient)]
  sorted := List.pairwise_singleton _ _

theorem oneClient_now :
    ∀ e ∈ oneClient.items, ∀ c ∈ e.2, c.delay_time ≤ 7 := by
  intro e he c hc
  obtain rfl := List.mem_singleton.mp he
  obtain rfl := Option.some.inj hc
  exact Int.le_refl 7

/-- It is left alone if there is no timeout. -/
theorem oneClient_sweeps : Sweeps 0 7 oneClient := by
  apply (sweeps_iff 0 7 oneClient oneClient_now).mpr
  intro e he c hc _
  obtain rfl := List.mem_singleton.mp he
  obtain rfl := Option.some.inj hc
  exact ⟨rfl, rfl⟩

/-- With one of 30 seconds the sweep kills it and is lost. -/
theorem not_sweeps :
    ¬ ∀ (outtime_s : UInt32) (now : Int) (m : CLIENT_MAP),
      (∀ e ∈ m.items, ∀ c ∈ e.2, c.delay_time ≤ now) →
      Sweeps outtime_s now m := by
  intro h
  obtain ⟨q, hrun, -⟩ := h 30 7 oneClient oneClient_now
  have hlost : killTimeoutClient 30 7 oneClient = none :=
    sweep_killing (l := []) rfl ⟨_, List.mem_singleton_self _, by rfl⟩ _
  rw [hlost] at hrun
  cases hrun

end CorrectGps.Timeout
