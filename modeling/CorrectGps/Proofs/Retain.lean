/-
The receive buffer over a connection's life.

# The bound

`offset` is written on one exit only, that of a request that goes on,
and there the test that failed bounds it: fewer than `IN_DATA_LEN` bytes
follow `navto` and the byte behind it. Every other exit carries it over.
So it stays below `IN_DATA_LEN + 6` for good (`receiveStep_offset`), and
there is always room for another byte.

# What is kept

On that exit the buffer begins with what it had from the first `navto`
on (`receive_keepsRest`): no byte of the pending request is lost
(`receives_retain`).
-/
import CorrectGps.Proofs.Parse

namespace CorrectGps.CClient

open Lib

variable {c c' : CClient} {text rest chunk : List UInt8} {i : Nat}

/-- What the scan goes over: `iobuf` up to `len`, `recv` having written
a chunk. -/
def received (c : CClient) (chunk : List UInt8) : List UInt8 :=
  (c.filled chunk).iobuf.val.take (c.offset + chunk.length)

/-- The first `navto` of a text is at `i`. -/
def FirstNavto (text : List UInt8) (i : Nat) : Prop :=
  navto.at (text.drop i) = true ∧ ∀ k < i, navto.at (text.drop k) = false

/-- A call that finds a request at `i` and not all of it keeps it from
there on, and does nothing else. -/
def KeepsRest (c : CClient) (chunk : List UInt8) : Prop :=
  ∀ i, FirstNavto (c.received chunk) i →
    c.offset + chunk.length < i + 6 + IN_DATA_LEN →
    ∃ c', c.receive (.data chunk) = .ok (c', [])
      ∧ c'.offset = c.offset + chunk.length - i
      ∧ c'.iobuf.val.take c'.offset = (c.received chunk).drop i

-- ========================================================= what is kept

/-- What the next call parses again, from what this one did. -/
def keepsAfter (kept chunk : List UInt8) : List UInt8 :=
  if ¬ Completes (kept ++ chunk)
      ∧ navtoAt (kept ++ chunk) < (kept ++ chunk).length then
    (kept ++ chunk).drop (navtoAt (kept ++ chunk))
  else kept

theorem kept_of_loaded (h : c.Loaded text rest) {k : List UInt8}
    {more : List UInt8} (htext : text = k ++ more)
    (hoffset : c.offset = k.length) : c.kept = k := by
  unfold kept
  rw [h, hoffset, htext, List.append_assoc, List.take_left]

/-- Keeping the rest: what the next call parses again. -/
theorem keepRest_kept (h : c.Loaded text rest) {i : Nat}
    (hi : i ≤ text.length) :
    (c.keepRest i text.length).kept = text.drop i
      ∧ (c.keepRest i text.length).offset = (text.drop i).length := by
  have hslice : slice c.iobuf.val i (text.length - i) = text.drop i := by
    unfold slice
    rw [h, List.drop_append_of_le_length hi, ← List.length_drop,
      List.take_left]
  have hlen : text.length + 1 ≤ MAXBUF + 1 := by
    have := c.iobuf.property
    rw [h, List.length_append, List.length_cons] at this
    omega
  have hroom : (text.drop i).length + [(0 : UInt8)].length ≤ MAXBUF + 1 := by
    rw [List.length_drop, List.length_singleton]
    omega
  have hmoved : (blit c.iobuf 0 (text.drop i)).val = text.drop i
      ++ c.iobuf.val.drop (text.drop i).length :=
    blit_zero (Nat.le_of_add_right_le hroom)
  have hend := blit_append hmoved hroom
  refine ⟨?_, List.length_drop.symm⟩
  unfold kept
  show ((blit (blit c.iobuf 0 (slice c.iobuf.val i (text.length - i)))
    (text.length - i) [0]).val).take (text.length - i) = _
  rw [hslice, ← List.length_drop, hend, List.take_left]

/-- A call that takes nothing for an entire request. -/
theorem receive_quiet (h : Receivable c chunk)
    (hmore : ¬ Completes (c.kept ++ chunk)) :
    ∃ c', receiveStep c chunk = some c'
      ∧ c'.kept = keepsAfter c.kept chunk
      ∧ c'.kept.length = c'.offset ∧ c'.status = c.status
      ∧ ∀ f, c'.member f = c.member f := by
  obtain ⟨hne, hfit⟩ := h
  obtain ⟨rest, hloaded⟩ := loaded_text hfit
  have hkept : c.kept.length = c.offset := kept_length (by omega)
  unfold receiveStep
  rw [receive_eq hfit hne]
  by_cases hnavto : navtoAt (c.kept ++ chunk) < (c.kept ++ chunk).length
  · obtain ⟨hk, ho⟩ := keepRest_kept hloaded (Nat.le_of_lt hnavto)
    rw [parseAt_more hmore hnavto]
    refine ⟨_, rfl, ?_, ?_, rfl, ?_⟩
    · rw [hk]
      exact (if_pos ⟨hmore, hnavto⟩).symm
    · rw [hk, ho]
    · intro f
      cases f <;> rfl
  · have hk : (c.loaded chunk).kept = c.kept :=
      kept_of_loaded hloaded rfl hkept.symm
    rw [parseAt_none hnavto]
    refine ⟨_, rfl, ?_, ?_, rfl, ?_⟩
    · rw [hk]
      exact (if_neg fun hc => hnavto hc.2).symm
    · rw [hk]
      exact hkept
    · intro f
      cases f <;> rfl

-- ============================================================== one call

/-- The scan goes over the kept bytes and the chunk. -/
theorem received_eq (hfit : c.offset + chunk.length ≤ MAXBUF) :
    c.received chunk = c.kept ++ chunk := by
  have hkept : c.kept.length = c.offset := kept_length (by omega)
  have hsplit : c.iobuf.val = c.kept ++ c.iobuf.val.drop c.offset :=
    (List.take_append_drop c.offset c.iobuf.val).symm
  have hroom : c.kept.length + chunk.length ≤ MAXBUF + 1 := by omega
  have hfilled := blit_append hsplit hroom
  rw [hkept, ← List.append_assoc] at hfilled
  have hlen : c.offset + chunk.length = (c.kept ++ chunk).length := by
    rw [List.length_append, hkept]
  unfold received
  rw [hlen]
  show (blit c.iobuf c.offset chunk).val.take _ = _
  rw [hfilled, List.take_left]

/-- A first `navto` is where the scan stops. -/
theorem FirstNavto.navtoAt (h : FirstNavto text i) :
    navtoAt text = i ∧ i < text.length := by
  obtain ⟨hat, hmiss⟩ := h
  have hlen := Pat.length_le_of_at hat
  have hfive : navto.length = 5 := rfl
  rw [List.length_drop, hfive] at hlen
  refine ⟨?_, by omega⟩
  unfold CClient.navtoAt
  rw [scan_eq_iff (Nat.zero_le i) (by omega)]
  exact ⟨fun k _ hk => hmiss k hk, fun _ => hat⟩

/-- The exit of a request that goes on. -/
theorem receive_keepsRest (h : Receivable c chunk) :
    KeepsRest c chunk := by
  obtain ⟨hne, hfit⟩ := h
  obtain ⟨rest, hloaded⟩ := loaded_text hfit
  have hlen : (c.kept ++ chunk).length = c.offset + chunk.length := by
    rw [List.length_append, kept_length (by omega)]
  intro i hfirst hshort
  rw [received_eq hfit] at hfirst ⊢
  obtain ⟨hi, hlt⟩ := hfirst.navtoAt
  have hmore : ¬ Completes (c.kept ++ chunk) := by
    unfold Completes
    rw [hi, hlen]
    omega
  have hok := parseAt_more (d := c.loaded chunk) hmore (by rw [hi]; exact hlt)
  rw [← receive_eq hfit hne, hi] at hok
  obtain ⟨hkept, hoffset⟩ := keepRest_kept hloaded (Nat.le_of_lt hlt)
  refine ⟨_, hok, ?_, hkept⟩
  rw [hoffset, List.length_drop, hlen]

/-- No exit lets the offset grow past the bound. -/
theorem receiveStep_offset (h : Receivable c chunk)
    (hbound : c.offset ≤ IN_DATA_LEN + 5)
    (hstep : receiveStep c chunk = some c') :
    c'.offset ≤ IN_DATA_LEN + 5 := by
  by_cases hfull : Completes (c.kept ++ chunk)
  · -- an entire request carries the offset over
    have hnames : NamesPresent (c.kept ++ chunk)
        (CClient.navtoAt (c.kept ++ chunk) + 6) := by
      by_contra hmissing
      have hnone : receiveStep c chunk = none := by
        rw [receiveStep_none_iff h]
        exact fun hp => hmissing (hp hfull)
      rw [hnone] at hstep
      cases hstep
    obtain ⟨d, effects, hok, -, hoffset, -⟩ :=
      receive_completes h hfull hnames
    unfold receiveStep at hstep
    rw [hok] at hstep
    cases hstep
    rw [hoffset]
    exact hbound
  · obtain ⟨d, hd, hkept, hlen, -, -⟩ := receive_quiet h hfull
    rw [hd] at hstep
    cases hstep
    have hold := kept_length (c := c) (Nat.le_of_add_right_le h.2)
    rw [← hlen, hkept]
    unfold keepsAfter
    split
    · -- fewer bytes than the completeness test asks for
      rw [List.length_drop]
      unfold Completes at hfull
      omega
    · rw [hold]
      exact hbound

-- ============================================================== every run

/-- The bound over a connection's life. -/
theorem run_offset {chunks : List (List UInt8)}
    (hbound : c.offset ≤ IN_DATA_LEN + 5)
    (hsent : Meets receiveStep Receivable c chunks)
    (hrun : run receiveStep c chunks = some c') :
    c'.offset ≤ IN_DATA_LEN + 5 :=
  run_inv (I := fun _ d => d.offset ≤ IN_DATA_LEN + 5) (h := [])
    (fun hd hg hs => receiveStep_offset hg hd hs) hbound hsent hrun

/-- After every sequence of calls on a new client the offset is bounded;
so the next `recv` is asked for a positive count, the terminator of what
it gives is written inside the buffer, and a request that goes on is
kept. -/
theorem receives_retain (c : CClient) (fd : Int)
    (chunks : List (List UInt8)) (c' : CClient)
    (hsent : Meets receiveStep Receivable (c.ini fd) chunks)
    (hrun : run receiveStep (c.ini fd) chunks = some c') :
    c'.offset ≤ IN_DATA_LEN + 5 ∧ 0 < MAXBUF - c'.offset
      ∧ ∀ chunk, Receivable c' chunk →
        chunk.length + c'.offset ≤ MAXBUF ∧ KeepsRest c' chunk := by
  have hbound := run_offset (c := c.ini fd) (Nat.zero_le _) hsent hrun
  refine ⟨hbound, ?_, ?_⟩
  · have hroom : IN_DATA_LEN + 5 < MAXBUF := by decide
    omega
  · intro chunk h
    refine ⟨?_, receive_keepsRest h⟩
    have hfit := h.2
    omega

/-- The beginning of a request. -/
def requestStart : List UInt8 := bytes "navto?serial=3568".toList

theorem requestStart_retained :
    ∃ c', run receiveStep (blank.ini 5) [requestStart] = some c'
      ∧ c'.offset ≤ IN_DATA_LEN + 5 ∧ 0 < MAXBUF - c'.offset
      ∧ ∀ chunk, Receivable c' chunk →
        chunk.length + c'.offset ≤ MAXBUF ∧ KeepsRest c' chunk := by
  have hsent := receivable_single blank 5 requestStart (by decide)
    (by decide)
  have hfirst : FirstNavto ((blank.ini 5).received requestStart) 0 := by
    rw [received_eq hsent.1.2, kept_ini]
    exact ⟨by decide, fun k hk => absurd hk (Nat.not_lt_zero k)⟩
  obtain ⟨c', hok, -, -⟩ := receive_keepsRest hsent.1 0 hfirst (by decide)
  have hrun : run receiveStep (blank.ini 5) [requestStart] = some c' := by
    unfold run receiveStep
    rw [hok]
    rfl
  exact ⟨c', hrun, receives_retain blank 5 _ c' hsent hrun⟩

end CorrectGps.CClient
