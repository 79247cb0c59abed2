/-
Is the whole answer of the car server forwarded?

# Schedules

The answer arrives as a schedule says: what `recv` gives, call by call.
It gives a piece of what is left of the stream, of the size it is asked
for at most, or nothing now; and as long as it is asked for bytes and
there are some, they come (`Spreads`).

# When it is

Two things can go wrong. The lengths that are taken off `len` may add up
to exactly the size of the buffer: then `recv` is asked for nothing, and
the loop goes on for ever. And both strings may have arrived before the
answer has, the brace from something in front of it. Nothing else can
(`forwards_iff`): a negative `len` asks for all there is, and a stream
that fits is all in `fb` in the end.
-/
import CorrectGps.Proofs.Feedback
import Mathlib.Data.List.TakeWhile

namespace CorrectGps.Csender

open Lib

/-- What `recv` gives, call by call. -/
abbrev Schedule := Nat → CClient.Recv

variable {σ : Schedule} {stream : List UInt8} {s : Loop} {n k : Nat}

/-- The bytes of the first `n` calls. -/
def delivered (σ : Schedule) : Nat → List UInt8
  | 0 => []
  | n + 1 => delivered σ n ++ chunkOf (σ n)

/-- The sum of what the first `n` calls have taken off `len`: for each
read, all that had arrived with it. -/
def taken (σ : Schedule) : Nat → Nat
  | 0 => 0
  | n + 1 =>
      taken σ n + if isData (σ n, false) then (delivered σ (n + 1)).length
        else 0

/-- The first `n` iterations; the time is not up. -/
def events (σ : Schedule) (n : Nat) : List (CClient.Recv × Bool) :=
  (List.range n).map fun k => (σ k, false)

/-- Both strings are there. -/
def HasBoth (t : List UInt8) : Prop := succMark <:+: t ∧ closing <:+: t

/-- The first, and then the second. -/
def Answers (t : List UInt8) : Prop :=
  ∃ a b c, t = a ++ (succMark ++ (b ++ (closing ++ c)))

/-- The schedule spreads the stream over the calls of `recv`: while the
loop goes on, a call gives a piece of what is left, as long as it may be,
or nothing; the end of the stream only there; and what is asked for and
left comes some time. -/
def Spreads (stream : List UInt8) (σ : Schedule) : Prop :=
  ∀ n s, run Loop.iterate (start zeroed) (events σ n) = some s →
    s.pc = .looping →
    CanGive s.len (σ n)
      ∧ (∀ chunk, σ n = .data chunk →
        delivered σ n ++ chunk <+: stream)
      ∧ (σ n = .closed → s.len = 0 ∨ delivered σ n = stream)
      ∧ (s.len ≠ 0 → delivered σ n ≠ stream →
        ∃ m ≥ n, ∃ chunk, σ m = .data chunk)

/-- `Recv` comes to an end, with a beginning of the stream that has the
answer in it. -/
def Forwards (sockfd : Int) (stream : List UInt8) (σ : Schedule) : Prop :=
  ∃ n c ret, Recv { m_sockfd := sockfd, fb := zeroed } (events σ n)
      = some (c, ret)
    ∧ c.feedback <+: stream ∧ Answers c.feedback

-- ============================================================== the strings

theorem Answers.hasBoth {t : List UInt8} (h : Answers t) : HasBoth t := by
  obtain ⟨a, b, c, rfl⟩ := h
  refine ⟨⟨a, b ++ (closing ++ c), by simp⟩, ?_⟩
  exact ⟨a ++ (succMark ++ b), c, by simp⟩

theorem Answers.mono {t u : List UInt8} (h : Answers t) (htu : t <+: u) :
    Answers u := by
  obtain ⟨a, b, c, rfl⟩ := h
  obtain ⟨r, rfl⟩ := htu
  exact ⟨a, b, c ++ r, by simp⟩

theorem HasBoth.mono {t u : List UInt8} (h : HasBoth t) (htu : t <+: u) :
    HasBoth u :=
  ⟨h.1.trans htu.isInfix, h.2.trans htu.isInfix⟩

theorem delivered_mono (σ : Schedule) (h : k ≤ n) :
    delivered σ k <+: delivered σ n := by
  induction n with
  | zero =>
      rw [Nat.le_zero.mp h]
  | succ n ih =>
      rcases Nat.eq_or_lt_of_le h with rfl | hlt
      · exact List.prefix_rfl
      · exact (ih (Nat.le_of_lt_succ hlt)).trans (List.prefix_append _ _)

theorem events_succ (σ : Schedule) (n : Nat) :
    events σ (n + 1) = events σ n ++ [(σ n, false)] := by
  unfold events
  rw [List.range_succ, List.map_append]
  rfl

-- ============================================================ the iterations

/-- The loop goes on after `n` calls: what has arrived stands in `fb`, in
front of zeros. -/
structure Going (stream : List UInt8) (σ : Schedule) (n : Nat)
    (s : Loop) : Prop where
  reached : run Loop.iterate (start zeroed) (events σ n) = some s
  pc : s.pc = .looping
  fb : s.fb.val = delivered σ n
    ++ List.replicate (FEEDBACK_MSG_LEN - (delivered σ n).length) 0
  strlen : s.strlen = (delivered σ n).length
  p : s.p = (delivered σ n).length
  len : s.len = (FEEDBACK_MSG_LEN - 1 : Int) - taken σ n
  stream : delivered σ n <+: stream
  undecided : ¬ HasBoth (delivered σ n)

/-- The loop is left with the last of these calls. -/
structure Done (stream : List UInt8) (σ : Schedule) (n : Nat)
    (s : Loop) : Prop where
  reached : run Loop.iterate (start zeroed) (events σ n) = some s
  pc : s.pc = .left
  fb : s.fb.val = delivered σ n
    ++ List.replicate (FEEDBACK_MSG_LEN - (delivered σ n).length) 0
  strlen : s.strlen = (delivered σ n).length
  stream : delivered σ n <+: stream
  both : HasBoth (delivered σ n)

theorem going_zero (σ : Schedule) :
    Going stream σ 0 (start zeroed) where
  reached := rfl
  pc := rfl
  fb := rfl
  strlen := rfl
  p := rfl
  len := rfl
  stream := List.nil_prefix
  undecided := by
    show ¬ HasBoth []
    unfold HasBoth
    decide

/-- What `recv` leaves. -/
theorem Going.receive (h : Going stream σ n s)
    (hfit : stream.length < FEEDBACK_MSG_LEN)
    (hpiece : ∀ chunk, σ n = .data chunk →
      delivered σ n ++ chunk <+: stream) :
    (s.receive (σ n)).pc = .looping
      ∧ (s.receive (σ n)).fb.val = delivered σ (n + 1)
        ++ List.replicate
          (FEEDBACK_MSG_LEN - (delivered σ (n + 1)).length) 0
      ∧ (s.receive (σ n)).strlen = (delivered σ (n + 1)).length
      ∧ (s.receive (σ n)).p = (delivered σ (n + 1)).length
      ∧ (s.receive (σ n)).len
        = (FEEDBACK_MSG_LEN - 1 : Int) - taken σ (n + 1)
      ∧ delivered σ (n + 1) <+: stream := by
  obtain ⟨-, hpc, hfb, hstrlen, hp, hlen, hstream, -⟩ := h
  have hquiet : chunkOf (σ n) = [] → isData (σ n, false) = false →
      delivered σ (n + 1) = delivered σ n ∧ taken σ (n + 1) = taken σ n := by
    intro hchunk hdata
    rw [delivered, taken, hchunk, hdata, List.append_nil]
    exact ⟨rfl, rfl⟩
  cases hσ : σ n with
  | failed =>
      obtain ⟨hd, ht⟩ := hquiet (by rw [hσ]; rfl) (by rw [hσ]; rfl)
      rw [hd, ht]
      exact ⟨hpc, hfb, hstrlen, hp, hlen, hstream⟩
  | closed =>
      obtain ⟨hd, ht⟩ := hquiet (by rw [hσ]; rfl) (by rw [hσ]; rfl)
      rw [hd, ht]
      exact ⟨hpc, hfb, hstrlen, hp, hlen, hstream⟩
  | data chunk =>
      have hd : delivered σ (n + 1) = delivered σ n ++ chunk := by
        rw [delivered, hσ]
        rfl
      have ht : taken σ (n + 1)
          = taken σ n + (delivered σ n ++ chunk).length := by
        rw [taken, hd, hσ]
        rfl
      have hpref := hpiece chunk hσ
      have hlt := Nat.lt_of_le_of_lt hpref.length_le hfit
      rw [List.length_append] at hlt
      rw [receive_fits (by omega), hd, ht]
      refine ⟨hpc, ?_, ?_, ?_, ?_, hpref⟩
      · show (blit s.fb s.p chunk).val = _
        rw [hp, blit_append hfb (by omega), List.drop_replicate,
          ← List.append_assoc, List.length_append, Nat.sub_add_eq]
      · show s.strlen + chunk.length = _
        rw [hstrlen, List.length_append]
      · show s.p + chunk.length = _
        rw [hp, List.length_append]
      · show s.len - (s.strlen + chunk.length : Nat) = _
        rw [hlen, hstrlen, List.length_append]
        omega

/-- One call: the loop is left if both strings have arrived, and goes on
otherwise. -/
theorem Going.step (h : Going stream σ n s)
    (hfit : stream.length < FEEDBACK_MSG_LEN) (hnul : 0 ∉ stream)
    (hσ : Spreads stream σ) :
    (∃ s', Done stream σ (n + 1) s') ∨ ∃ s', Going stream σ (n + 1) s' := by
  obtain ⟨hgive, hpiece, -, -⟩ := hσ n s h.reached h.pc
  obtain ⟨hpc, hfb, hstrlen, hp, hlen, hstream⟩ := h.receive hfit hpiece
  have hlt := Nat.lt_of_le_of_lt hstream.length_le hfit
  have hrun : run Loop.iterate (start zeroed) (events σ (n + 1))
      = some ((s.receive (σ n)).test false) := by
    rw [events_succ, run_snoc h.reached]
    exact iterate_looping h.pc hgive hpc
  -- the string in `fb` is what has arrived
  obtain ⟨k, hk⟩ : ∃ k,
      FEEDBACK_MSG_LEN - (delivered σ (n + 1)).length = k + 1 :=
    ⟨FEEDBACK_MSG_LEN - (delivered σ (n + 1)).length - 1, by omega⟩
  have hsearch : (s.receive (σ n)).search
      = some (decide (succMark <:+: delivered σ (n + 1))
        && decide (closing <:+: delivered σ (n + 1))) := by
    refine search_terminated (r := List.replicate k 0) ?_
      fun hmem => hnul (hstream.subset hmem)
    rw [hfb, hk, List.replicate_succ]
  by_cases hboth : HasBoth (delivered σ (n + 1))
  · left
    have htest : (s.receive (σ n)).test false
        = { s.receive (σ n) with pc := .left } := by
      unfold Loop.test
      rw [if_neg (by decide), hsearch, decide_eq_true hboth.1,
        decide_eq_true hboth.2]
      rfl
    rw [htest] at hrun
    exact ⟨_, hrun, rfl, hfb, hstrlen, hstream, hboth⟩
  · right
    have htest : (s.receive (σ n)).test false = s.receive (σ n) := by
      have hfalse : (decide (succMark <:+: delivered σ (n + 1))
          && decide (closing <:+: delivered σ (n + 1))) = false := by
        rw [Bool.and_eq_false_iff, decide_eq_false_iff_not,
          decide_eq_false_iff_not, ← not_and_or]
        exact hboth
      unfold Loop.test
      rw [if_neg (by decide), hsearch, hfalse]
    rw [htest] at hrun
    exact ⟨_, hrun, hpc, hfb, hstrlen, hp, hlen, hstream, hboth⟩

/-- After `n` calls the loop goes on, or it has been left. -/
theorem going_or_done (hfit : stream.length < FEEDBACK_MSG_LEN)
    (hnul : 0 ∉ stream) (hσ : Spreads stream σ) (n : Nat) :
    (∃ s, Going stream σ n s) ∨ ∃ k ≤ n, ∃ s, Done stream σ k s := by
  induction n with
  | zero => exact Or.inl ⟨_, going_zero σ⟩
  | succ n ih =>
      rcases ih with ⟨s, hs⟩ | ⟨k, hk, hdone⟩
      · rcases hs.step hfit hnul hσ with hdone | hgoing
        · exact Or.inr ⟨n + 1, Nat.le_refl _, hdone⟩
        · exact Or.inl hgoing
      · exact Or.inr ⟨k, Nat.le_succ_of_le hk, hdone⟩

/-- After the call with which the loop is left there is no run. -/
theorem Done.last (h : Done stream σ k s) (hlt : k < n) :
    run Loop.iterate (start zeroed) (events σ n) = none := by
  have hlater : ∀ m, run Loop.iterate (start zeroed)
      (events σ (k + (m + 1))) = none := by
    intro m
    induction m with
    | zero =>
        rw [Nat.zero_add, events_succ, run_snoc h.reached]
        exact iterate_stopped (by rw [h.pc]; decide) _
    | succ m ih =>
        rw [← Nat.add_assoc, events_succ]
        cases hr : run Loop.iterate (start zeroed)
            (events σ (k + (m + 1)) ++ [(σ (k + (m + 1)), false)]) with
        | none => rfl
        | some s' =>
            obtain ⟨s₁, h₁, -⟩ := run_split hr
            rw [ih] at h₁
            cases h₁
  obtain ⟨m, rfl⟩ : ∃ m, n = k + (m + 1) := ⟨n - k - 1, by omega⟩
  exact hlater m

-- ============================================================== the answer

/-- Both strings have arrived when what was taken off `len` is all of it;
and the answer has, when both strings have. -/
def InTime (σ : Schedule) : Prop :=
  (∀ n, taken σ n = FEEDBACK_MSG_LEN - 1 → HasBoth (delivered σ n))
    ∧ ∀ n, HasBoth (delivered σ n) → Answers (delivered σ n)

/-- What is sent back is what has arrived. -/
theorem Done.recv (h : Done stream σ n s) {sockfd : Int}
    (hsock : sockfd ≠ INVALID_SOCKET)
    (hfit : stream.length < FEEDBACK_MSG_LEN) (hnul : 0 ∉ stream) :
    ∃ c ret, Recv { m_sockfd := sockfd, fb := zeroed } (events σ n)
        = some (c, ret)
      ∧ c.feedback = delivered σ n := by
  have hlt := Nat.lt_of_le_of_lt h.stream.length_le hfit
  have hroom : s.strlen < FEEDBACK_MSG_LEN := by
    rw [h.strlen]
    exact hlt
  refine ⟨{ m_sockfd := INVALID_SOCKET, fb := blit s.fb s.strlen [0] },
    if s.ret = SOCKET_ERROR then 0 else s.ret, ?_, ?_⟩
  · unfold Recv
    rw [if_neg hsock, h.reached]
    exact if_pos ⟨h.pc, hroom⟩
  · have hend : (delivered σ n).length + [(0 : UInt8)].length
        ≤ FEEDBACK_MSG_LEN := by
      rw [List.length_singleton]
      omega
    have hblit := blit_append h.fb hend
    unfold feedback
    rw [h.strlen, hblit]
    show (delivered σ n ++ 0 :: _).takeWhile _ = _
    rw [takeWhile_stop rfl, List.takeWhile_eq_self_iff]
    intro b hb
    have hne : b ≠ 0 := by
      rintro rfl
      exact hnul (h.stream.subset hb)
    simpa using hne

/-- `Recv` ends with a run that has left the loop. -/
theorem recv_some {sockfd ret : Int} {c : Csender}
    (hsock : sockfd ≠ INVALID_SOCKET)
    {E : List (CClient.Recv × Bool)}
    (h : Recv { m_sockfd := sockfd, fb := zeroed } E = some (c, ret)) :
    ∃ s, run Loop.iterate (start zeroed) E = some s ∧ s.pc = .left := by
  unfold Recv at h
  rw [if_neg hsock] at h
  dsimp only at h
  split at h
  · next s hs =>
    split at h
    · next hleft => exact ⟨s, hs, hleft.1⟩
    · cases h
  · cases h

/-- With a schedule in time the loop is left. -/
theorem exists_done (hfit : stream.length < FEEDBACK_MSG_LEN)
    (hnul : 0 ∉ stream) (hanswers : Answers stream)
    (hσ : Spreads stream σ) (htime : InTime σ) : ∃ k s, Done stream σ k s := by
  by_contra hnone
  have hgoing : ∀ n, ∃ s, Going stream σ n s := by
    intro n
    rcases going_or_done hfit hnul hσ n with hs | ⟨k, -, s, hs⟩
    · exact hs
    · exact absurd ⟨k, s, hs⟩ hnone
  -- more and more arrives
  have hgrows : ∀ m, ∃ n, m ≤ (delivered σ n).length := by
    intro m
    induction m with
    | zero => exact ⟨0, Nat.zero_le _⟩
    | succ m ih =>
        obtain ⟨n, hn⟩ := ih
        obtain ⟨s, hs⟩ := hgoing n
        have hasked : s.len ≠ 0 := by
          intro hzero
          have htaken : taken σ n = FEEDBACK_MSG_LEN - 1 := by
            have hlen := hs.len
            have hbound : FEEDBACK_MSG_LEN = 1024 := rfl
            omega
          exact hs.undecided (htime.1 n htaken)
        have hleft : delivered σ n ≠ stream := by
          intro hall
          exact hs.undecided (hall ▸ hanswers.hasBoth)
        obtain ⟨i, hi, chunk, hdata⟩ :=
          (hσ n s hs.reached hs.pc).2.2.2 hasked hleft
        obtain ⟨s', hs'⟩ := hgoing i
        have hne : chunk ≠ [] := by
          have hgive := (hσ i s' hs'.reached hs'.pc).1
          rw [hdata] at hgive
          exact hgive.1
        have hle := (delivered_mono σ hi).length_le
        have hpos := List.length_pos_iff.mpr hne
        refine ⟨i + 1, ?_⟩
        rw [delivered, hdata, List.length_append]
        show m + 1 ≤ (delivered σ i).length + chunk.length
        omega
  obtain ⟨n, hn⟩ := hgrows (stream.length + 1)
  obtain ⟨s, hs⟩ := hgoing n
  have hle := hs.stream.length_le
  omega

/-- Once `recv` is asked for nothing, nothing more arrives. -/
theorem going_stuck (hfit : stream.length < FEEDBACK_MSG_LEN)
    (hnul : 0 ∉ stream) (hσ : Spreads stream σ)
    (h : Going stream σ k s) (htaken : taken σ k = FEEDBACK_MSG_LEN - 1)
    (hle : k ≤ n) : ∃ s, Going stream σ n s := by
  have hall : ∃ s, Going stream σ n s ∧ taken σ n = FEEDBACK_MSG_LEN - 1
      ∧ delivered σ n = delivered σ k := by
    induction n with
    | zero =>
        have hk := Nat.le_zero.mp hle
        subst hk
        exact ⟨s, h, htaken, rfl⟩
    | succ n ih =>
        rcases Nat.eq_or_lt_of_le hle with rfl | hlt
        · exact ⟨s, h, htaken, rfl⟩
        · obtain ⟨s₁, h₁, ht, hd⟩ := ih (Nat.le_of_lt_succ hlt)
          have hlen := h₁.len
          have hbound : FEEDBACK_MSG_LEN = 1024 := rfl
          have hzero : s₁.len = 0 := by omega
          have hgive := (hσ n s₁ h₁.reached h₁.pc).1
          have hquiet : chunkOf (σ n) = [] ∧ isData (σ n, false) = false := by
            cases hr : σ n with
            | failed => exact ⟨rfl, rfl⟩
            | closed => exact ⟨rfl, rfl⟩
            | data chunk =>
                rw [hr] at hgive
                obtain ⟨hne, hask⟩ := hgive
                have hpos := List.length_pos_iff.mpr hne
                omega
          have hd' : delivered σ (n + 1) = delivered σ k := by
            rw [delivered, hquiet.1, List.append_nil, hd]
          have ht' : taken σ (n + 1) = FEEDBACK_MSG_LEN - 1 := by
            rw [taken, hquiet.2]
            exact ht
          rcases h₁.step hfit hnul hσ with ⟨s₂, h₂⟩ | ⟨s₂, h₂⟩
          · refine absurd h₂.both ?_
            rw [hd']
            exact h.undecided
          · exact ⟨s₂, h₂, ht', hd'⟩
  obtain ⟨s', hs', -⟩ := hall
  exact ⟨s', hs'⟩

/-- What a forwarded answer says about the schedule. -/
theorem Forwards.inTime {sockfd : Int} (hsock : sockfd ≠ INVALID_SOCKET)
    (hlt : stream.length < FEEDBACK_MSG_LEN) (hnul : 0 ∉ stream)
    (hσ : Spreads stream σ) (h : Forwards sockfd stream σ) :
    InTime σ := by
  obtain ⟨n, c, ret, hrecv, -, hforwarded⟩ := h
  obtain ⟨s, hrun, hleft⟩ := recv_some hsock hrecv
  -- the loop is left with call `n`, not before
  obtain ⟨s', hdone⟩ : ∃ s', Done stream σ n s' := by
    rcases going_or_done hlt hnul hσ n with ⟨s', hs'⟩ | ⟨k, hk, s', hs'⟩
    · rw [hs'.reached] at hrun
      cases hrun
      rw [hs'.pc] at hleft
      cases hleft
    · rcases Nat.eq_or_lt_of_le hk with rfl | hlt'
      · exact ⟨s', hs'⟩
      · rw [hs'.last hlt'] at hrun
        cases hrun
  have hbefore : ∀ {k}, k < n → ∃ s, Going stream σ k s := by
    intro k hk
    rcases going_or_done hlt hnul hσ k with hs' | ⟨i, hi, s', hs'⟩
    · exact hs'
    · rw [hs'.last (Nat.lt_of_le_of_lt hi hk)] at hrun
      cases hrun
  refine ⟨fun k htaken => ?_, fun k hboth => ?_⟩
  · rcases Nat.lt_or_ge k n with hk | hk
    · obtain ⟨s₁, h₁⟩ := hbefore hk
      obtain ⟨s₂, h₂⟩ := going_stuck hlt hnul hσ h₁ htaken
        (Nat.le_of_lt hk)
      rw [h₂.reached] at hrun
      cases hrun
      rw [h₂.pc] at hleft
      cases hleft
    · exact hdone.both.mono (delivered_mono σ hk)
  · rcases Nat.lt_or_ge k n with hk | hk
    · obtain ⟨s₁, h₁⟩ := hbefore hk
      exact absurd hboth h₁.undecided
    · obtain ⟨c', ret', hrecv', hfeedback⟩ := hdone.recv hsock
        hlt hnul
      rw [hrecv] at hrecv'
      cases hrecv'
      rw [hfeedback] at hforwarded
      exact hforwarded.mono (delivered_mono σ hk)

/-- A schedule in time. -/
theorem InTime.forwards {sockfd : Int} (hsock : sockfd ≠ INVALID_SOCKET)
    (hlt : stream.length < FEEDBACK_MSG_LEN) (hnul : 0 ∉ stream)
    (hanswers : Answers stream) (hσ : Spreads stream σ)
    (htime : InTime σ) : Forwards sockfd stream σ := by
  obtain ⟨k, s, hdone⟩ := exists_done hlt hnul hanswers hσ htime
  obtain ⟨c, ret, hrecv, hfeedback⟩ := hdone.recv hsock hlt hnul
  refine ⟨k, c, ret, hrecv, ?_, ?_⟩
  · rw [hfeedback]
    exact hdone.stream
  · rw [hfeedback]
    exact htime.2 k hdone.both

/-- A stream that fits is forwarded, with its answer, exactly if the
schedule brings it in time. -/
theorem forwards_iff (sockfd : Int) (stream : List UInt8) (σ : Schedule)
    (hsock : sockfd ≠ INVALID_SOCKET)
    (hfit : stream.length ≤ FEEDBACK_MSG_LEN - 1) (hnul : 0 ∉ stream)
    (hanswers : Answers stream) (hσ : Spreads stream σ) :
    Forwards sockfd stream σ ↔ InTime σ := by
  have hlt : stream.length < FEEDBACK_MSG_LEN := by
    have hbound : FEEDBACK_MSG_LEN = 1024 := rfl
    omega
  exact ⟨fun h => h.inTime hsock hlt hnul hσ,
    fun h => h.forwards hsock hlt hnul hanswers hσ⟩

/-- The pieces in order, and then nothing. -/
def piecewise (pieces : List (List UInt8)) : Schedule := fun n =>
  match pieces[n]? with
  | some chunk => .data chunk
  | none => .failed

/-- One piece. -/
theorem delivered_whole (n : Nat) :
    delivered (piecewise [wholeAnswer]) (n + 1) = wholeAnswer
      ∧ taken (piecewise [wholeAnswer]) (n + 1) = wholeAnswer.length := by
  induction n with
  | zero => exact ⟨rfl, rfl⟩
  | succ n ih =>
      obtain ⟨hd, ht⟩ := ih
      rw [delivered, taken, hd, ht]
      exact ⟨rfl, rfl⟩

theorem wholeAnswer_forwarded :
    Forwards 5 wholeAnswer (piecewise [wholeAnswer]) := by
  have hanswers : Answers wholeAnswer :=
    ⟨[], bytes ['1', '2'], [], by decide⟩
  refine (forwards_iff 5 wholeAnswer (piecewise [wholeAnswer]) (by decide)
    (by decide) (by decide) hanswers ?_).mpr ⟨?_, ?_⟩
  · intro n s hrun hpc
    cases n with
    | zero =>
        cases hrun
        refine ⟨⟨by decide, Or.inr (by decide)⟩, ?_, ?_, ?_⟩
        · rintro chunk hchunk
          cases hchunk
          exact List.prefix_rfl
        · intro hclosed
          cases hclosed
        · exact fun _ _ => ⟨0, Nat.le_refl 0, _, rfl⟩
    | succ n =>
        refine ⟨trivial, ?_, ?_, fun _ hleft => ?_⟩
        · rintro chunk hchunk
          cases hchunk
        · intro hclosed
          cases hclosed
        · exact absurd (delivered_whole n).1 hleft
  · intro n htaken
    cases n with
    | zero => exact absurd htaken (by decide)
    | succ n =>
        rw [(delivered_whole n).2] at htaken
        exact absurd htaken (by decide)
  · intro n hboth
    cases n with
    | zero => exact absurd hboth (by unfold HasBoth; decide)
    | succ n =>
        rw [(delivered_whole n).1]
        exact hanswers

/-- A brace in front of the answer, and the answer cut behind its first
string. -/
def twoPieces : List (List UInt8) :=
  [closing ++ succMark, bytes ['1', '2'] ++ closing]

theorem delivered_pieces (n : Nat) :
    delivered (piecewise twoPieces) (n + 2) = twoPieces.flatten := by
  induction n with
  | zero => rfl
  | succ n ih =>
      rw [delivered, ih]
      rfl

theorem not_forwards :
    ¬ ∀ (sockfd : Int) (stream : List UInt8) (σ : Schedule),
      sockfd ≠ INVALID_SOCKET → stream.length ≤ FEEDBACK_MSG_LEN - 1 →
      0 ∉ stream → Answers stream → Spreads stream σ →
      Forwards sockfd stream σ := by
  intro hall
  have hanswers : Answers twoPieces.flatten :=
    ⟨closing, bytes ['1', '2'], [], by decide⟩
  have hleft : (run Loop.iterate (start zeroed)
      (events (piecewise twoPieces) 1)).map Loop.pc = some .left := by
    decide +kernel
  have hσ : Spreads twoPieces.flatten (piecewise twoPieces) := by
    intro n s hrun hpc
    match n with
    | 0 =>
        cases hrun
        refine ⟨⟨by decide, Or.inr (by decide)⟩, ?_, ?_, ?_⟩
        · rintro chunk hchunk
          cases hchunk
          exact ⟨bytes ['1', '2'] ++ closing, by decide⟩
        · intro hclosed
          cases hclosed
        · exact fun _ _ => ⟨0, Nat.le_refl 0, _, rfl⟩
    | 1 =>
        -- the loop has been left
        rw [hrun, Option.map_some, hpc] at hleft
        cases hleft
    | n + 2 =>
        refine ⟨trivial, ?_, ?_, fun _ hrest => ?_⟩
        · rintro chunk hchunk
          cases hchunk
        · intro hclosed
          cases hclosed
        · exact absurd (delivered_pieces n) hrest
  have htime := (hall 5 twoPieces.flatten (piecewise twoPieces) (by decide)
    (by decide) (by decide) hanswers hσ).inTime (by decide) (by decide)
    (by decide) hσ
  obtain ⟨a, b, c, hcut⟩ := htime.2 1 (by unfold HasBoth; decide)
  -- there is no room for anything around the two strings
  have hlen := congrArg List.length hcut
  have hmark : succMark.length = 9 := by decide
  have hclosing : closing.length = 1 := by decide
  have hten : (delivered (piecewise twoPieces) 1).length = 10 := by decide
  simp only [List.length_append, hmark, hclosing, hten] at hlen
  rw [List.eq_nil_of_length_eq_zero (show a.length = 0 by omega),
    List.eq_nil_of_length_eq_zero (show b.length = 0 by omega),
    List.eq_nil_of_length_eq_zero (show c.length = 0 by omega)] at hcut
  exact absurd hcut (by decide)

end CorrectGps.Csender
