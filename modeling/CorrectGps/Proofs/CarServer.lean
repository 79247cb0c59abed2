/-
The sockets of an exchange with the car server.

# The exits

`Connect` has opened a socket on every exit but the first. If it returns
true, `Recv` closes it; if it returns false, nobody does. So an exchange
that returns leaves the sockets as they were exactly if there was no
socket to begin with or the connection was established
(`restored_iff`).
-/
import CorrectGps.CarServer

namespace CorrectGps

open Csender

variable {c c' : Csender} {s s' : Sockets} {e : Exchange}

/-- The open sockets are those from before, and the one `Connect` has
created, if it has, is closed once and no other. -/
def Restored (s : Sockets) (e : Exchange) (s' : Sockets) : Prop :=
  s'.opened = s.opened
    ∧ s'.closed = if e.fd = INVALID_SOCKET then s.closed
      else e.fd :: s.closed

/-- A round after which the loop goes on. -/
def Csender.Round.Quiet : Round → Prop
  | .timeout => True
  | .failed => False
  | .ready fdw fde _ _ => fdw = false ∧ fde = false

/-- `connect` succeeds at once, or it is in progress and behind quiet
rounds the socket is writable, without an error. -/
def Exchange.Establishes (e : Exchange) : Prop :=
  e.connected = .done
    ∨ e.connected = .inProgress ∧ ∃ quiet fde code rest,
      e.rounds = quiet ++ .ready true fde code 0 :: rest
        ∧ (∀ r ∈ quiet, r.Quiet) ∧ 0 ≤ code

/-- What `Establishes` asks of the rounds. -/
def Writable (rounds : List Round) : Prop :=
  ∃ quiet fde code rest, rounds = quiet ++ .ready true fde code 0 :: rest
    ∧ (∀ r ∈ quiet, r.Quiet) ∧ 0 ≤ code

-- ============================================================ the loop

/-- A quiet round can be put in front, or taken off. -/
theorem writable_quiet {r : Round} (hr : r.Quiet) (rounds : List Round) :
    Writable (r :: rounds) ↔ Writable rounds := by
  constructor
  · intro hwritable
    obtain ⟨quiet, fde, code, rest, heq, hall, hcode⟩ := hwritable
    cases quiet with
    | nil =>
        obtain ⟨rfl, rfl⟩ := List.cons.inj heq
        exact absurd hr.1 (by simp)
    | cons q quiet =>
        obtain ⟨rfl, rfl⟩ := List.cons.inj heq
        exact ⟨quiet, fde, code, rest, rfl,
          (List.forall_mem_cons.mp hall).2, hcode⟩
  · intro hwritable
    obtain ⟨quiet, fde, code, rest, rfl, hall, hcode⟩ := hwritable
    refine ⟨r :: quiet, fde, code, rest, rfl, ?_, hcode⟩
    exact List.forall_mem_cons.mpr ⟨hr, hall⟩

/-- Any other round decides, by itself. -/
theorem writable_loud {r : Round} (hr : ¬ r.Quiet) (rounds : List Round) :
    Writable (r :: rounds)
      ↔ ∃ fde code, r = .ready true fde code 0 ∧ 0 ≤ code := by
  constructor
  · intro hwritable
    obtain ⟨quiet, fde, code, rest, heq, hall, hcode⟩ := hwritable
    cases quiet with
    | nil => exact ⟨fde, code, (List.cons.inj heq).1, hcode⟩
    | cons q quiet =>
        obtain ⟨rfl, rfl⟩ := List.cons.inj heq
        exact absurd (hall r List.mem_cons_self) hr
  · intro hready
    obtain ⟨fde, code, rfl, hcode⟩ := hready
    exact ⟨[], fde, code, rounds, rfl, by simp, hcode⟩

/-- The loop returns true behind quiet rounds only. -/
theorem await_true_iff (rounds : List Round) :
    await rounds = some true ↔ Writable rounds := by
  induction rounds with
  | nil => simp [await, Writable]
  | cons r rounds ih =>
      cases r with
      | timeout =>
          rw [writable_quiet (r := .timeout) trivial]
          exact ih
      | failed =>
          rw [writable_loud (r := .failed) id]
          simp [await]
      | ready fdw fde code error =>
          rw [await]
          cases fdw with
          | true =>
              rw [writable_loud (by simp [Round.Quiet]), if_pos rfl]
              by_cases hbad : code < 0 ∨ error ≠ 0
              · rw [if_pos hbad]
                refine iff_of_false (by simp) ?_
                intro hready
                obtain ⟨fde', code', heq, hcode⟩ := hready
                cases heq
                rcases hbad with hneg | herr
                · omega
                · exact herr rfl
              · rw [if_neg hbad]
                rw [not_or, not_lt, ne_eq, not_not] at hbad
                obtain ⟨hcode, rfl⟩ := hbad
                exact iff_of_true rfl ⟨fde, code, rfl, hcode⟩
          | false =>
              rw [if_neg (by simp)]
              cases fde with
              | true =>
                  rw [writable_loud (by simp [Round.Quiet])]
                  simp
              | false =>
                  have hquiet : (Round.ready false false code error).Quiet :=
                    ⟨rfl, rfl⟩
                  rw [if_neg (by simp), writable_quiet hquiet]
                  exact ih

-- ====================================================== the exchange

/-- With a socket, `Connect` returns true exactly if the connection is
established. -/
theorem connect_eq (c : Csender) (s : Sockets) (hfd : e.fd ≠ INVALID_SOCKET)
    {r : Csender × Sockets × Bool}
    (h : c.Connect s e.fd e.connected e.rounds = some r) :
    r.1.m_sockfd = e.fd ∧ r.2.1.opened = insert e.fd s.opened
      ∧ r.2.1.closed = s.closed ∧ (r.2.2 = true ↔ e.Establishes) := by
  unfold Connect at h
  simp only at h
  rw [if_neg hfd] at h
  unfold Exchange.Establishes
  cases hr : e.connected with
  | done =>
      rw [hr] at h
      cases h
      exact ⟨rfl, rfl, rfl, iff_of_true rfl (Or.inl rfl)⟩
  | refused =>
      rw [hr] at h
      cases h
      exact ⟨rfl, rfl, rfl, iff_of_false (by simp) (by simp)⟩
  | inProgress =>
      rw [hr] at h
      obtain ⟨ok, hok, rfl⟩ := Option.map_eq_some_iff.mp h
      refine ⟨rfl, rfl, rfl, ?_⟩
      show _ ↔ _ ∨ Connecting.inProgress = .inProgress ∧ Writable e.rounds
      rw [← await_true_iff, hok]
      simp

/-- With a socket, an exchange that returns has closed it if the connection
was established, and has left it open otherwise. -/
theorem exchange_sockets (hfd : e.fd ≠ INVALID_SOCKET)
    (hret : CClient.Send2CarServer c s e = some (c', s')) :
    (e.Establishes → s'.opened = (insert e.fd s.opened).erase e.fd
        ∧ s'.closed = e.fd :: s.closed)
      ∧ (¬ e.Establishes → s'.opened = insert e.fd s.opened) := by
  unfold CClient.Send2CarServer at hret
  cases hconn : c.Connect s e.fd e.connected e.rounds with
  | none =>
      rw [hconn] at hret
      cases hret
  | some r =>
      obtain ⟨c₁, s₁, ok⟩ := r
      obtain ⟨hsock, hopened, hclosed, hok⟩ := connect_eq c s hfd hconn
      simp only at hsock hopened hclosed hok
      rw [hconn] at hret
      rw [← hok]
      cases ok with
      | true =>
          refine ⟨fun _ => ?_, fun hnot => absurd rfl hnot⟩
          obtain ⟨r, -, hr⟩ := Option.map_eq_some_iff.mp hret
          have hclose : (c₁.Close s₁).2 = s₁.close e.fd := by
            unfold Close
            rw [hsock, if_pos hfd]
          have hs' : s' = s₁.close e.fd := by
            rw [← hclose]
            exact (congrArg Prod.snd hr).symm
          rw [hs', ← hopened, ← hclosed]
          exact ⟨rfl, rfl⟩
      | false =>
          cases hret
          exact ⟨nofun, fun _ => hopened⟩

/-- An exchange that returns leaves the sockets as they were exactly if
`socket` has failed or the connection was established. -/
theorem restored_iff (c : Csender) (s : Sockets) (e : Exchange)
    (c' : Csender) (s' : Sockets) (hnew : e.fd ∉ s.opened)
    (hret : CClient.Send2CarServer c s e = some (c', s')) :
    Restored s e s' ↔ e.fd = INVALID_SOCKET ∨ e.Establishes := by
  unfold Restored
  by_cases hfd : e.fd = INVALID_SOCKET
  · -- no socket
    have hconn : c.Connect s e.fd e.connected e.rounds
        = some ({ c with m_sockfd := e.fd }, s, false) := by
      unfold Connect
      exact if_pos hfd
    unfold CClient.Send2CarServer at hret
    rw [hconn] at hret
    cases hret
    rw [if_pos hfd]
    exact iff_of_true ⟨rfl, rfl⟩ (Or.inl hfd)
  · rw [if_neg hfd, or_iff_right hfd]
    obtain ⟨hclosed, hleft⟩ := exchange_sockets hfd hret
    constructor
    · intro hrestored
      by_contra hnot
      have hsame := hrestored.1
      rw [hleft hnot] at hsame
      rw [← hsame] at hnew
      exact hnew (Finset.mem_insert_self _ _)
    · intro hest
      have h := hclosed hest
      rw [Finset.erase_insert hnew] at h
      exact h

/-- A new object. -/
def newSender : Csender where
  m_sockfd := 0
  fb := List.Vector.replicate _ 0

/-- The car server accepts after two rounds, and closes. -/
def accepted : Exchange where
  fd := 9
  connected := .inProgress
  rounds := [.timeout, .ready false false 0 0, .ready true false 0 0]
  sent := 0
  received := [(.closed, true)]

/-- The car server is down. -/
def refused : Exchange where
  fd := 9
  connected := .inProgress
  rounds := [.ready true false 0 111]
  sent := 0
  received := []

theorem accepted_restored :
    ∃ r, CClient.Send2CarServer newSender ⟨{4}, []⟩ accepted = some r
      ∧ Restored ⟨{4}, []⟩ accepted r.2 := by
  have hret : (CClient.Send2CarServer newSender ⟨{4}, []⟩ accepted).isSome
      = true := rfl
  obtain ⟨r, hr⟩ := Option.isSome_iff_exists.mp hret
  refine ⟨r, hr, (restored_iff newSender _ accepted r.1 r.2 (by decide)
    hr).mpr (Or.inr (Or.inr ⟨rfl, ?_⟩))⟩
  refine ⟨[.timeout, .ready false false 0 0], false, 0, [], rfl, ?_,
    by decide⟩
  intro q hq
  rcases List.mem_cons.mp hq with rfl | hq
  · trivial
  · rw [List.mem_singleton.mp hq]
    exact ⟨rfl, rfl⟩

/-- The socket of a refused connection stays open. -/
theorem not_restored :
    ¬ ∀ (c : Csender) (s : Sockets) (e : Exchange) (c' : Csender)
      (s' : Sockets), e.fd ∉ s.opened →
      CClient.Send2CarServer c s e = some (c', s') → Restored s e s' := by
  intro hall
  have hret : CClient.Send2CarServer newSender ⟨{4}, []⟩ refused
      = some ({ newSender with m_sockfd := 9 }, ⟨{9, 4}, []⟩) := rfl
  have hsame := (hall newSender _ refused _ _ (by decide) hret).1
  exact absurd hsame (by decide)

end CorrectGps
