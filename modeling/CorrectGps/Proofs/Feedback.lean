/-
The accounting of `Csender::Recv`, and what its decisions rest on.

# Accounting

`strlen` and `p` are the bytes that have arrived. What each read takes
off `len` is not its own size but the total, so `strlen + len` is right
until the second read and too small from then on (`Accounting`): once
`len` is negative, `recv` is asked for more bytes than there are in
memory. The loop is sound exactly if there is one read at most before the
last iteration (`accounted_iff`).

# Decisions

`strstr` is called before a terminator is written. What was in `fb` takes
part in it unless the first read settles the matter: the time is up by
then, or the read contains a NUL, or both strings (`independent_iff`).
-/
import CorrectGps.Csender

namespace CorrectGps.Csender

open Lib

variable {fb fb' : List.Vector UInt8 FEEDBACK_MSG_LEN} {s s' : Loop}
variable {e : CClient.Recv × Bool} {E : List (CClient.Recv × Bool)}

/-- Has `recv` given bytes? -/
def isData (e : CClient.Recv × Bool) : Bool :=
  match e.1 with
  | .data _ => true
  | _ => false

-- ============================================================ accounting

/-- The three locals agree. -/
def Accounts (s : Loop) : Prop :=
  (s.strlen : Int) + s.len = FEEDBACK_MSG_LEN - 1 ∧ 0 ≤ s.len
    ∧ s.p = s.strlen

/-- They do before each of these iterations, nothing has been written
past `fb`, and there is a place for the terminator. -/
def Accounted (fb : List.Vector UInt8 FEEDBACK_MSG_LEN)
    (E : List (CClient.Recv × Bool)) (s : Loop) : Prop :=
  (∀ before e after, E = before ++ e :: after →
      ∃ s', run Loop.iterate (start fb) before = some s' ∧ Accounts s')
    ∧ s.pc ≠ .overrun ∧ s.strlen < FEEDBACK_MSG_LEN

/-- The test changes nothing but the place in the program, and writes
nothing. -/
theorem test_eq (s : Loop) (late : Bool) :
    ∃ pc, s.test late = { s with pc := pc }
      ∧ (s.pc = .looping → pc ≠ .overrun) := by
  have hother : ∀ pc : Pc, pc ≠ .overrun →
      (s.pc = .looping → pc ≠ .overrun) := fun _ h _ => h
  unfold Loop.test
  split
  · exact ⟨_, rfl, hother _ (by decide)⟩
  · split
    · exact ⟨_, rfl, hother _ (by decide)⟩
    · refine ⟨s.pc, rfl, fun h => ?_⟩
      rw [h]
      decide
    · exact ⟨_, rfl, hother _ (by decide)⟩

/-- An iteration: from inside the loop, of a possible result. -/
theorem iterate_some (h : s.iterate e = some s') :
    s.pc = .looping ∧ CanGive s.len e.1
      ∧ s' = if (s.receive e.1).pc = .looping then
          (s.receive e.1).test e.2 else s.receive e.1 := by
  unfold Loop.iterate at h
  split at h
  · next hguard =>
    dsimp only at h
    refine ⟨hguard.1, hguard.2, ?_⟩
    split at h
    · next hpc =>
      rw [if_pos hpc]
      exact (Option.some.inj h).symm
    · next hpc =>
      rw [if_neg hpc]
      exact (Option.some.inj h).symm
  · cases h

/-- An iteration that writes nothing past `fb`. -/
theorem iterate_looping (hpc : s.pc = .looping) (hgive : CanGive s.len e.1)
    (hl : (s.receive e.1).pc = .looping) :
    s.iterate e = some ((s.receive e.1).test e.2) := by
  unfold Loop.iterate
  rw [if_pos ⟨hpc, hgive⟩]
  exact if_pos hl

/-- Outside the loop there is no iteration. -/
theorem iterate_stopped (hpc : s.pc ≠ .looping) (e : CClient.Recv × Bool) :
    s.iterate e = none :=
  if_neg fun h => hpc h.1

/-- A read that has room. -/
theorem receive_fits {chunk : List UInt8}
    (h : s.p + chunk.length ≤ FEEDBACK_MSG_LEN) :
    s.receive (.data chunk) = { s with
      fb := blit s.fb s.p chunk
      ret := chunk.length
      strlen := s.strlen + chunk.length
      len := s.len - (s.strlen + chunk.length : Nat)
      p := s.p + chunk.length } :=
  if_pos h

/-- One that has not. -/
theorem receive_over {chunk : List UInt8}
    (h : ¬ s.p + chunk.length ≤ FEEDBACK_MSG_LEN) :
    s.receive (.data chunk) = { s with pc := .overrun } :=
  if_neg h

/-- What an iteration does to the counters: nothing if there is no read;
it writes past `fb`; or it counts the read. -/
theorem iterate_counts (h : s.iterate e = some s') :
    s.pc = .looping ∧
      ((isData e = false ∧ s'.pc ≠ .overrun ∧ s'.strlen = s.strlen
          ∧ s'.len = s.len ∧ s'.p = s.p)
        ∨ ∃ n : Nat, isData e = true ∧ 0 < n ∧ (s.len < 0 ∨ n ≤ s.len)
          ∧ ((s'.pc = .overrun ∧ FEEDBACK_MSG_LEN < s.p + n)
            ∨ (s'.pc ≠ .overrun ∧ s'.strlen = s.strlen + n
              ∧ s'.len = s.len - (s.strlen + n : Nat)
              ∧ s'.p = s.p + n))) := by
  obtain ⟨hpc, hgive, hs'⟩ := iterate_some h
  refine ⟨hpc, ?_⟩
  obtain ⟨r, late⟩ := e
  have hquiet : (s.receive r).pc = .looping →
      (s.receive r).strlen = s.strlen → (s.receive r).len = s.len →
      (s.receive r).p = s.p → s'.pc ≠ .overrun ∧ s'.strlen = s.strlen
        ∧ s'.len = s.len ∧ s'.p = s.p := by
    intro hl h1 h2 h3
    obtain ⟨pc, htest, hnot⟩ := test_eq (s.receive r) late
    rw [if_pos hl, htest] at hs'
    rw [hs']
    exact ⟨hnot hl, h1, h2, h3⟩
  cases r with
  | failed => exact Or.inl ⟨rfl, hquiet hpc rfl rfl rfl⟩
  | closed => exact Or.inl ⟨rfl, hquiet hpc rfl rfl rfl⟩
  | data chunk =>
      obtain ⟨hne, hask⟩ := hgive
      refine Or.inr ⟨chunk.length, rfl, List.length_pos_iff.mpr hne, hask,
        ?_⟩
      by_cases hfits : s.p + chunk.length ≤ FEEDBACK_MSG_LEN
      · right
        simp only [receive_fits hfits, hpc, if_true] at hs'
        obtain ⟨pc, htest, hnot⟩ := test_eq _ late
        rw [htest] at hs'
        rw [hs']
        exact ⟨hnot rfl, rfl, rfl, rfl⟩
      · left
        simp only [receive_over hfits, reduceCtorEq, if_false] at hs'
        rw [hs']
        exact ⟨rfl, Nat.not_le.mp hfits⟩

/-- What the three locals are after the reads so far: `strlen + len` is
right up to the first one, and too small from the second on. -/
structure Accounting (E : List (CClient.Recv × Bool)) (s : Loop) :
    Prop where
  place : s.p = s.strlen
  none : E.countP isData = 0 →
    s.strlen = 0 ∧ s.len = FEEDBACK_MSG_LEN - 1
  one : E.countP isData = 1 → 0 < s.strlen
    ∧ (s.strlen : Int) + s.len = FEEDBACK_MSG_LEN - 1 ∧ 0 ≤ s.len
  more : 2 ≤ E.countP isData → 0 < s.strlen
    ∧ (s.strlen : Int) + s.len < FEEDBACK_MSG_LEN - 1

/-- One iteration. -/
theorem Accounting.step (h : s.pc ≠ .overrun → Accounting E s)
    (hstep : s.iterate e = some s') (hnot : s'.pc ≠ .overrun) :
    Accounting (E ++ [e]) s' := by
  have hbound : FEEDBACK_MSG_LEN = 1024 := rfl
  obtain ⟨hpc, hcounts⟩ := iterate_counts hstep
  obtain ⟨hplace, hnone, hone, hmore⟩ := h (by rw [hpc]; decide)
  have hcount : (E ++ [e]).countP isData
      = E.countP isData + if isData e = true then 1 else 0 := by
    rw [List.countP_append, List.countP_singleton]
  rcases hcounts with ⟨hquiet, -, h1, h2, h3⟩
    | ⟨n, hdata, hn, hask, ⟨hover, -⟩ | ⟨-, h1, h2, h3⟩⟩
  · rw [hquiet] at hcount
    refine ⟨by omega, ?_, ?_, ?_⟩ <;> rw [hcount, h1, h2]
    · exact hnone
    · exact hone
    · exact hmore
  · exact absurd hover hnot
  · rw [hdata, if_pos rfl] at hcount
    refine ⟨by omega, ?_, ?_, ?_⟩ <;> rw [hcount, h1, h2]
    · intro hzero
      omega
    · -- the first read
      intro hfirst
      obtain ⟨hs, hl⟩ := hnone (by omega)
      omega
    · -- a later one: what was there is taken off a second time
      intro hlater
      rcases Nat.lt_or_ge (E.countP isData) 2 with hlt | hge
      · obtain ⟨hs, hl, -⟩ := hone (by omega)
        omega
      · obtain ⟨hs, hl⟩ := hmore hge
        omega

/-- Every run, up to a write past `fb`. -/
theorem run_accounting (hrun : run Loop.iterate (start fb) E = some s) :
    s.pc ≠ .overrun → Accounting E s := by
  have hstart : (start fb).pc ≠ .overrun → Accounting [] (start fb) := by
    refine fun _ => ⟨rfl, fun _ => ⟨rfl, rfl⟩, ?_, ?_⟩
    · intro h
      cases h
    · intro h
      cases h
  exact run_inv (g := fun _ _ => True)
    (I := fun E s => s.pc ≠ .overrun → Accounting E s)
    (fun h _ hstep => Accounting.step h hstep)
    (h := []) hstart (meets_of_forall (fun _ _ => trivial) E _) hrun

/-- What the last iteration starts from. -/
theorem run_last (hrun : run Loop.iterate (start fb) (E ++ [e]) = some s) :
    ∃ s₁, run Loop.iterate (start fb) E = some s₁
      ∧ s₁.iterate e = some s ∧ Accounting E s₁ := by
  obtain ⟨s₁, h₁, hlast⟩ := run_split hrun
  obtain ⟨s₂, hstep, hend⟩ := run_cons hlast
  cases hend
  have hpc := (iterate_some hstep).1
  exact ⟨s₁, h₁, hstep, run_accounting h₁ (by rw [hpc]; decide)⟩

/-- With a second read before the last iteration it is not. -/
theorem Accounted.reads (hrun : run Loop.iterate (start fb) E = some s)
    (h : Accounted fb E s) : E.dropLast.countP isData ≤ 1 := by
  by_contra hmore
  have hne : E ≠ [] := by
    rintro rfl
    exact hmore (Nat.zero_le 1)
  have hsplit := List.dropLast_append_getLast hne
  rw [← hsplit] at hrun
  obtain ⟨s₁, h₁, -, hacc⟩ := run_last hrun
  obtain ⟨s', hs', hsum, -, -⟩ := h.1 E.dropLast (E.getLast hne) []
    hsplit.symm
  rw [h₁] at hs'
  cases hs'
  have hbad := (hacc.more (by omega)).2
  omega

/-- One read at most before the last iteration: then `len` bounds it. -/
theorem accounted_of_reads (hrun : run Loop.iterate (start fb) E = some s)
    (h : E.dropLast.countP isData ≤ 1) : Accounted fb E s := by
  have hbound : FEEDBACK_MSG_LEN = 1024 := rfl
  have hstart : ∀ {before e after}, E = before ++ e :: after →
      before.countP isData ≤ 1 := by
    intro before e after hE
    have hprefix : before.Sublist E.dropLast := by
      rw [hE, List.dropLast_append_of_ne_nil (by simp)]
      exact List.sublist_append_left before _
    exact Nat.le_trans hprefix.countP_le h
  have haccounts : ∀ {before e after s₁}, E = before ++ e :: after →
      Accounting before s₁ → Accounts s₁ := by
    intro before e after s₁ hE hacc
    have hle := hstart hE
    rcases Nat.eq_zero_or_pos (before.countP isData) with hzero | hpos
    · obtain ⟨h1, h2⟩ := hacc.none hzero
      exact ⟨by omega, by omega, hacc.place⟩
    · obtain ⟨h1, h2, h3⟩ := hacc.one (by omega)
      exact ⟨h2, h3, hacc.place⟩
  refine ⟨?_, ?_⟩
  · intro before e after hE
    rw [hE] at hrun
    obtain ⟨s₁, h₁, hrest⟩ := run_split hrun
    obtain ⟨s₂, hstep, -⟩ := run_cons hrest
    have hpc := (iterate_some hstep).1
    exact ⟨s₁, h₁, haccounts hE
      (run_accounting h₁ (by rw [hpc]; decide))⟩
  · rcases List.eq_nil_or_concat E with rfl | ⟨before, e, hE⟩
    · cases hrun
      refine ⟨?_, ?_⟩
      · show Pc.looping ≠ Pc.overrun
        decide
      · show 0 < FEEDBACK_MSG_LEN
        decide
    · rw [List.concat_eq_append] at hE
      rw [hE] at hrun
      obtain ⟨s₁, h₁, hstep, hacc⟩ := run_last hrun
      obtain ⟨hsum, hlen, hplace⟩ := haccounts hE hacc
      obtain ⟨-, ⟨-, hpc, hs, -⟩
        | ⟨n, -, -, hask, ⟨-, hover⟩ | ⟨hpc, hs, -⟩⟩⟩ := iterate_counts hstep
      · exact ⟨hpc, by omega⟩
      · omega
      · exact ⟨hpc, by omega⟩

/-- In a run of the loop the counters agree before every iteration and
nothing is written past `fb` exactly if no more than one `recv` before
the last gave bytes. -/
theorem accounted_iff (fb : List.Vector UInt8 FEEDBACK_MSG_LEN)
    (E : List (CClient.Recv × Bool)) (s : Loop)
    (hrun : run Loop.iterate (start fb) E = some s) :
    Accounted fb E s ↔ E.dropLast.countP isData ≤ 1 :=
  ⟨fun h => h.reads hrun, accounted_of_reads hrun⟩

/-- A buffer of zeros. -/
def zeroed : List.Vector UInt8 FEEDBACK_MSG_LEN :=
  List.Vector.replicate _ 0

/-- `recv` has given `n` bytes that are no part of an answer. -/
def filler (n : Nat) : CClient.Recv × Bool :=
  (.data (List.replicate n 120), false)

theorem oneRead_accounted :
    ∃ s, run Loop.iterate (start zeroed)
        [(.failed, false), filler 600, (.failed, false), filler 400]
        = some s
      ∧ Accounted zeroed
        [(.failed, false), filler 600, (.failed, false), filler 400] s := by
  obtain ⟨s, hrun, -⟩ := exists_run_of_any (P := fun s => s.strlen = 1000)
    (show (run Loop.iterate (start zeroed)
      [(.failed, false), filler 600, (.failed, false), filler 400]).any _
      = true by decide +kernel)
  exact ⟨s, hrun, (accounted_iff zeroed _ s hrun).mpr (by decide)⟩

/-- After reads of 600 and 400 bytes `len` is negative, and the third one
goes past `fb`. -/
theorem not_accounted :
    ¬ ∀ (fb : List.Vector UInt8 FEEDBACK_MSG_LEN)
      (E : List (CClient.Recv × Bool)) (s : Loop),
      run Loop.iterate (start fb) E = some s → Accounted fb E s := by
  intro hall
  obtain ⟨s, hrun, hover⟩ := exists_run_of_any
    (P := fun s => s.pc = .overrun)
    (show (run Loop.iterate (start zeroed)
      [filler 600, filler 400, filler 100]).any _ = true by decide +kernel)
  exact (hall zeroed _ s hrun).2.1 hover

-- ============================================================= decisions

/-- Perform iterations as long as there are any: how many, and the state
they end in. -/
def performed (s : Loop) : List (CClient.Recv × Bool) → Nat × Loop
  | [] => (0, s)
  | e :: E =>
      match s.iterate e with
      | some s' => ((performed s' E).1 + 1, (performed s' E).2)
      | none => (0, s)

/-- The string in `fb` once the terminator is written. -/
def answer (s : Loop) : List UInt8 :=
  (blit s.fb s.strlen [0]).val.takeWhile fun b => b != 0

/-- What comes of a sequence of results and timeout tests: the number of
iterations, how they end, and the string if the loop is left. -/
def seen (fb : List.Vector UInt8 FEEDBACK_MSG_LEN)
    (E : List (CClient.Recv × Bool)) : Nat × Pc × List UInt8 :=
  let r := performed (start fb) E
  (r.1, r.2.pc, if r.2.pc = .left then answer r.2 else [])

/-- What was in `fb` does not matter. -/
def Independent (E : List (CClient.Recv × Bool)) : Prop :=
  ∀ fb fb', seen fb E = seen fb' E

/-- The first iteration settles what is looked for: the time is up, or
what arrives contains a NUL, or both strings. -/
def Settled : List (CClient.Recv × Bool) → Prop
  | [] => True
  | (r, late) :: _ =>
      late = true ∨ ∃ chunk, r = .data chunk
        ∧ (0 ∈ chunk ∨ (succMark <:+: chunk ∧ closing <:+: chunk))

/-- The bytes of a result. -/
def chunkOf : CClient.Recv → List UInt8
  | .data chunk => chunk
  | _ => []

theorem marks : succMark ≠ [] ∧ 0 ∉ succMark ∧ closing ≠ []
    ∧ 0 ∉ closing := by decide

/-- The search over terminated memory. -/
theorem search_terminated {t r : List UInt8} (h : s.fb.val = t ++ 0 :: r)
    (ht : 0 ∉ t) : s.search
      = some (decide (succMark <:+: t) && decide (closing <:+: t)) := by
  obtain ⟨hm, hm0, hc, hc0⟩ := marks
  unfold Loop.search
  rw [h, strstr_terminated hm hm0 ht, strstr_terminated hc hc0 ht]
  by_cases hin : succMark <:+: t
  · rw [decide_eq_true hin]
    rfl
  · rw [decide_eq_false hin]
    rfl

/-- The search over memory that begins with both strings. -/
theorem search_found {t r : List UInt8} (h : s.fb.val = t ++ r)
    (ht : 0 ∉ t) (hmark : succMark <:+: t) (hclosing : closing <:+: t) :
    s.search = some true := by
  obtain ⟨hm, -, hc, -⟩ := marks
  unfold Loop.search
  rw [h, strstr_of_infix hm ht hmark]
  exact strstr_of_infix hc ht hclosing r

/-- The search over memory without a NUL that does not have both. -/
theorem search_unterminated (h : 0 ∉ s.fb.val)
    (hnot : ¬ (succMark <:+: s.fb.val ∧ closing <:+: s.fb.val)) :
    s.search = none := by
  obtain ⟨hm, -, -, -⟩ := marks
  unfold Loop.search
  by_cases hmark : succMark <:+: s.fb.val
  · have hfound : strstr 0 succMark s.fb.val = some true := by
      have := strstr_of_infix hm h hmark []
      rwa [List.append_nil] at this
    rw [hfound]
    exact strstr_unterminated h fun hc => hnot ⟨hmark, hc⟩
  · rw [strstr_unterminated h hmark]

theorem performed_cons (h : s.iterate e = some s') :
    performed s (e :: E)
      = ((performed s' E).1 + 1, (performed s' E).2) := by
  rw [performed, h]

theorem performed_none (h : s.iterate e = none) :
    performed s (e :: E) = (0, s) := by
  rw [performed, h]

theorem performed_stopped (h : s.pc ≠ .looping)
    (E : List (CClient.Recv × Bool)) : performed s E = (0, s) := by
  cases E with
  | nil => rfl
  | cons e E => exact performed_none (iterate_stopped h e)

/-- What the first `recv` leaves: its bytes at the front of `fb`. -/
theorem receive_start (fb : List.Vector UInt8 FEEDBACK_MSG_LEN)
    {r : CClient.Recv} (h : CanGive (start fb).len r) :
    ((start fb).receive r).pc = .looping
      ∧ ((start fb).receive r).strlen = (chunkOf r).length
      ∧ ((start fb).receive r).fb.val
        = chunkOf r ++ fb.val.drop (chunkOf r).length
      ∧ (chunkOf r).length < FEEDBACK_MSG_LEN := by
  have hbound : FEEDBACK_MSG_LEN = 1024 := rfl
  cases r with
  | failed => exact ⟨rfl, rfl, rfl, by decide⟩
  | closed => exact ⟨rfl, rfl, rfl, by decide⟩
  | data chunk =>
      obtain ⟨-, hask⟩ := h
      have hle : (chunk.length : Int) ≤ FEEDBACK_MSG_LEN - 1 := by
        rcases hask with hneg | hle
        · exact absurd hneg (by
            show ¬ (FEEDBACK_MSG_LEN - 1 : Int) < 0
            omega)
        · exact hle
      have hfits : (start fb).p + chunk.length ≤ FEEDBACK_MSG_LEN := by
        show 0 + chunk.length ≤ FEEDBACK_MSG_LEN
        omega
      rw [receive_fits hfits]
      refine ⟨rfl, Nat.zero_add _, ?_, ?_⟩
      · show (blit fb 0 chunk).val = _
        exact blit_zero (by omega)
      · show chunk.length < FEEDBACK_MSG_LEN
        omega

/-- A first iteration that leaves the loop shows what has arrived. -/
theorem seen_left (fb : List.Vector UInt8 FEEDBACK_MSG_LEN)
    {r : CClient.Recv} {late : Bool} (h : CanGive (start fb).len r)
    (hleft : (((start fb).receive r).test late).pc = .left)
    (E : List (CClient.Recv × Bool)) :
    seen fb ((r, late) :: E)
      = (1, .left, (chunkOf r).takeWhile fun b => b != 0) := by
  obtain ⟨hpc, hstrlen, hfb, hlt⟩ := receive_start fb h
  obtain ⟨pc, htest, -⟩ := test_eq ((start fb).receive r) late
  have hiterate : (start fb).iterate (r, late)
      = some (((start fb).receive r).test late) :=
    iterate_looping rfl h hpc
  have hend : answer (((start fb).receive r).test late)
      = (chunkOf r).takeWhile fun b => b != 0 := by
    have hroom : (chunkOf r).length + [(0 : UInt8)].length
        ≤ FEEDBACK_MSG_LEN := hlt
    have hblit := blit_append hfb hroom
    rw [htest]
    unfold answer
    rw [show ({ (start fb).receive r with pc := pc } : Loop).strlen
      = (chunkOf r).length from hstrlen, hblit]
    exact takeWhile_stop rfl _ _
  unfold seen
  rw [performed_cons hiterate,
    performed_stopped (by rw [hleft]; decide)]
  dsimp only
  rw [hleft, if_pos rfl, hend]

/-- Two loops that agree but for what is behind the first NUL of what
has arrived. -/
structure Twin (t : List UInt8) (s s' : Loop) : Prop where
  pc : s'.pc = s.pc
  strlen : s'.strlen = s.strlen
  len : s'.len = s.len
  p : s'.p = s.p
  behind : t.length < s.strlen ∧ t.length < s.p
  left : ∃ r, s.fb.val = (t ++ [0]) ++ r
  right : ∃ r, s'.fb.val = (t ++ [0]) ++ r

theorem Twin.receive {t : List UInt8} (h : Twin t s s')
    (r : CClient.Recv) : Twin t (s.receive r) (s'.receive r) := by
  obtain ⟨hpc, hstrlen, hlen, hp, ⟨hlt, hlt'⟩, ⟨r₁, h₁⟩, ⟨r₂, h₂⟩⟩ := h
  cases r with
  | failed => exact ⟨hpc, hstrlen, hlen, hp, ⟨hlt, hlt'⟩, ⟨r₁, h₁⟩, r₂, h₂⟩
  | closed => exact ⟨hpc, hstrlen, hlen, hp, ⟨hlt, hlt'⟩, ⟨r₁, h₁⟩, r₂, h₂⟩
  | data chunk =>
      by_cases hfits : s.p + chunk.length ≤ FEEDBACK_MSG_LEN
      · have hfits' : s'.p + chunk.length ≤ FEEDBACK_MSG_LEN := by
          rw [hp]
          exact hfits
        rw [receive_fits hfits, receive_fits hfits']
        refine ⟨hpc, ?_, ?_, ?_, ⟨?_, ?_⟩, ?_, ?_⟩
        · exact congrArg (· + chunk.length) hstrlen
        · show s'.len - (s'.strlen + chunk.length : Nat) = _
          rw [hlen, hstrlen]
        · exact congrArg (· + chunk.length) hp
        · exact Nat.lt_add_right _ hlt
        · exact Nat.lt_add_right _ hlt'
        · refine blit_front h₁ ?_ chunk
          rw [List.length_append]
          exact hlt'
        · refine blit_front h₂ ?_ chunk
          rw [List.length_append, hp]
          exact hlt'
      · have hfits' : ¬ s'.p + chunk.length ≤ FEEDBACK_MSG_LEN := by
          rw [hp]
          exact hfits
        rw [receive_over hfits, receive_over hfits']
        exact ⟨rfl, hstrlen, hlen, hp, ⟨hlt, hlt'⟩, ⟨r₁, h₁⟩, r₂, h₂⟩

theorem Twin.test {t : List UInt8} (ht : 0 ∉ t) (h : Twin t s s')
    (late : Bool) : Twin t (s.test late) (s'.test late) := by
  obtain ⟨r₁, h₁⟩ := h.left
  obtain ⟨r₂, h₂⟩ := h.right
  have hsearch : s'.search = s.search := by
    rw [search_terminated (r := r₂) (by simpa using h₂) ht,
      search_terminated (r := r₁) (by simpa using h₁) ht]
  have hpc : (s'.test late).pc = (s.test late).pc := by
    unfold Loop.test
    rw [hsearch]
    split
    · rfl
    · split
      · rfl
      · exact h.pc
      · rfl
  obtain ⟨pc, htest, -⟩ := test_eq s late
  obtain ⟨pc', htest', -⟩ := test_eq s' late
  rw [htest, htest'] at hpc ⊢
  exact ⟨hpc, h.strlen, h.len, h.p, h.behind, h.left, h.right⟩

/-- They go on together. -/
theorem Twin.performed {t : List UInt8} (ht : 0 ∉ t)
    (E : List (CClient.Recv × Bool)) :
    ∀ {s s' : Loop}, Twin t s s' →
      (performed s' E).1 = (performed s E).1
        ∧ Twin t (performed s E).2 (performed s' E).2 := by
  induction E with
  | nil => exact fun h => ⟨rfl, h⟩
  | cons e E ih =>
      intro s s' h
      by_cases hguard : s.pc = .looping ∧ CanGive s.len e.1
      · have hguard' : s'.pc = .looping ∧ CanGive s'.len e.1 := by
          rw [h.pc, h.len]
          exact hguard
        have hnext : ∃ s₁ s₁', s.iterate e = some s₁
            ∧ s'.iterate e = some s₁' ∧ Twin t s₁ s₁' := by
          have hr := h.receive e.1
          by_cases hl : (s.receive e.1).pc = .looping
          · have hl' : (s'.receive e.1).pc = .looping := by
              rw [hr.pc]
              exact hl
            exact ⟨_, _, iterate_looping hguard.1 hguard.2 hl,
              iterate_looping hguard'.1 hguard'.2 hl', hr.test ht e.2⟩
          · have hl' : (s'.receive e.1).pc ≠ .looping := by
              rw [hr.pc]
              exact hl
            refine ⟨_, _, ?_, ?_, hr⟩
            · unfold Loop.iterate
              rw [if_pos hguard]
              exact if_neg hl
            · unfold Loop.iterate
              rw [if_pos hguard']
              exact if_neg hl'
        obtain ⟨s₁, s₁', h₁, h₁', htwin⟩ := hnext
        obtain ⟨hcount, hend⟩ := ih htwin
        rw [performed_cons h₁, performed_cons h₁']
        exact ⟨congrArg (· + 1) hcount, hend⟩
      · have hguard' : ¬ (s'.pc = .looping ∧ CanGive s'.len e.1) := by
          rw [h.pc, h.len]
          exact hguard
        have hnone : s.iterate e = none := if_neg hguard
        have hnone' : s'.iterate e = none := if_neg hguard'
        rw [performed_none hnone, performed_none hnone']
        exact ⟨rfl, h⟩

theorem Twin.answer {t : List UInt8} (h : Twin t s s') :
    answer s' = answer s := by
  have hfront : ∀ {s : Loop}, t.length < s.strlen →
      (∃ r, s.fb.val = (t ++ [0]) ++ r) →
      Csender.answer s = t.takeWhile fun b => b != 0 := by
    rintro s hlt ⟨r, hr⟩
    have hle : (t ++ [0]).length ≤ s.strlen := by
      rw [List.length_append]
      exact hlt
    obtain ⟨back, hback⟩ := blit_front hr hle [0]
    unfold Csender.answer
    rw [hback, List.append_assoc]
    exact takeWhile_stop rfl t back
  rw [hfront h.behind.1 h.left, hfront (by
    rw [h.strlen]
    exact h.behind.1) h.right]

/-- No iteration, no change. -/
theorem performed_zero (h : (performed s E).1 = 0) :
    (performed s E).2 = s := by
  cases E with
  | nil => rfl
  | cons e E =>
      cases hs : s.iterate e with
      | none => rw [performed_none hs]
      | some s' =>
          rw [performed_cons hs] at h
          exact absurd h (Nat.succ_ne_zero _)

/-- A buffer without a NUL. -/
def stale : List.Vector UInt8 FEEDBACK_MSG_LEN :=
  List.Vector.replicate _ 120

/-- The first iteration on one of these buffers, by what the search
says. -/
theorem iterate_start (fb : List.Vector UInt8 FEEDBACK_MSG_LEN)
    {r : CClient.Recv} (h : CanGive (start fb).len r) :
    (start fb).iterate (r, false)
      = some (((start fb).receive r).test false) :=
  iterate_looping rfl h (receive_start fb h).1

/-- What the first iteration does not settle goes on over zeros, and
reads past `fb` over other bytes. -/
theorem not_independent_of {r : CClient.Recv}
    (h : ∀ fb, CanGive (start fb).len r) (hnul : 0 ∉ chunkOf r)
    (hnot : ¬ (succMark <:+: chunkOf r ∧ closing <:+: chunkOf r))
    (E : List (CClient.Recv × Bool)) :
    seen zeroed ((r, false) :: E) ≠ seen stale ((r, false) :: E) := by
  obtain ⟨hm, -, hc, -⟩ := marks
  obtain ⟨hpc, -, hzero, hlt⟩ := receive_start zeroed (h zeroed)
  obtain ⟨-, -, hstale, -⟩ := receive_start stale (h stale)
  obtain ⟨k, hk⟩ : ∃ k, FEEDBACK_MSG_LEN - (chunkOf r).length = k + 1 :=
    ⟨FEEDBACK_MSG_LEN - (chunkOf r).length - 1, by omega⟩
  -- over zeros the string ends behind the bytes that have arrived
  have hgoes : ((start zeroed).receive r).test false
      = (start zeroed).receive r := by
    have hsearch : ((start zeroed).receive r).search = some false := by
      rw [search_terminated (t := chunkOf r)
        (r := List.replicate k 0) ?_ hnul]
      · by_cases hmark : succMark <:+: chunkOf r
        · rw [decide_eq_false fun hclosing => hnot ⟨hmark, hclosing⟩,
            Bool.and_false]
        · rw [decide_eq_false hmark, Bool.false_and]
      · rw [hzero]
        show _ ++ (List.replicate FEEDBACK_MSG_LEN 0).drop _ = _
        rw [List.drop_replicate, hk, List.replicate_succ]
    unfold Loop.test
    rw [if_neg (by decide), hsearch]
  -- over other bytes it does not
  have hreads : (((start stale).receive r).test false).pc = .overread := by
    have hfb : ((start stale).receive r).fb.val
        = chunkOf r ++ List.replicate (k + 1) 120 := by
      rw [hstale]
      show _ ++ (List.replicate FEEDBACK_MSG_LEN 120).drop _ = _
      rw [List.drop_replicate, hk]
    have hsearch : ((start stale).receive r).search = none := by
      apply search_unterminated
      · rw [hfb, List.mem_append, not_or]
        refine ⟨hnul, fun hmem => ?_⟩
        exact absurd (List.eq_of_mem_replicate hmem) (by decide)
      · rw [hfb]
        rintro ⟨hmark, hclosing⟩
        exact hnot ⟨infix_of_append_replicate hm (by decide) hmark,
          infix_of_append_replicate hc (by decide) hclosing⟩
    unfold Loop.test
    rw [if_neg (by decide), hsearch]
  have hstop : performed (((start stale).receive r).test false) E
      = (0, ((start stale).receive r).test false) :=
    performed_stopped (by rw [hreads]; decide) E
  intro heq
  unfold seen at heq
  rw [performed_cons (iterate_start zeroed (h zeroed)),
    performed_cons (iterate_start stale (h stale)), hgoes, hstop] at heq
  dsimp only at heq
  rw [Prod.mk.injEq, Prod.mk.injEq] at heq
  obtain ⟨hcount, hends, -⟩ := heq
  rw [performed_zero (Nat.succ_inj.mp hcount), hpc, hreads] at hends
  cases hends

/-- A NUL in the first read hides what was in `fb`. -/
theorem independent_of_nul {chunk : List UInt8} (hnul : 0 ∈ chunk)
    (h : ∀ fb, CanGive (start fb).len (.data chunk)) (late : Bool)
    (E : List (CClient.Recv × Bool)) :
    Independent ((.data chunk, late) :: E) := by
  obtain ⟨t, u, hchunk, ht⟩ := List.eq_append_cons_of_mem hnul
  intro fb fb'
  have hfront : ∀ fb : List.Vector UInt8 FEEDBACK_MSG_LEN,
      ∃ r, ((start fb).receive (.data chunk)).fb.val
        = (t ++ [0]) ++ r := by
    intro fb
    have hval := (receive_start fb (h fb)).2.2.1
    generalize fb.val.drop _ = back at hval
    change _ = chunk ++ back at hval
    rw [hval, hchunk]
    exact ⟨u ++ back, by simp⟩
  have hlen : t.length < chunk.length := by
    rw [hchunk, List.length_append, List.length_cons]
    omega
  have hfits : 0 + chunk.length ≤ FEEDBACK_MSG_LEN := by
    have hlt := (receive_start fb (h fb)).2.2.2
    change chunk.length < _ at hlt
    omega
  have htwin : Twin t ((start fb).receive (.data chunk))
      ((start fb').receive (.data chunk)) := by
    refine ⟨?_, ?_, ?_, ?_, ?_, hfront fb, hfront fb'⟩ <;>
      rw [receive_fits hfits]
    · rw [receive_fits hfits]
      rfl
    · rw [receive_fits hfits]
      rfl
    · rw [receive_fits hfits]
      rfl
    · rw [receive_fits hfits]
      rfl
    · exact ⟨Nat.lt_add_left 0 hlen, Nat.lt_add_left 0 hlen⟩
  obtain ⟨hcount, hend⟩ := (htwin.test ht late).performed ht E
  have hstep : ∀ fb : List.Vector UInt8 FEEDBACK_MSG_LEN,
      (start fb).iterate (.data chunk, late)
        = some (((start fb).receive (.data chunk)).test late) :=
    fun fb => iterate_looping rfl (h fb) (receive_start fb (h fb)).1
  unfold seen
  rw [performed_cons (hstep fb), performed_cons (hstep fb')]
  dsimp only
  rw [hcount, hend.pc, hend.answer]

/-- What comes of a sequence does not depend on what was in `fb` exactly
if its first iteration settles it. -/
theorem independent_iff (E : List (CClient.Recv × Bool))
    (hfirst : ∀ e ∈ E.head?, CanGive (FEEDBACK_MSG_LEN - 1) e.1) :
    Independent E ↔ Settled E := by
  cases E with
  | nil => exact ⟨fun _ => trivial, fun _ _ _ => rfl⟩
  | cons e E =>
      obtain ⟨r, late⟩ := e
      have hgive : ∀ fb, CanGive (start fb).len r :=
        fun _ => hfirst (r, late) rfl
      constructor
      · intro hind
        by_contra hnot
        unfold Settled at hnot
        rw [not_or, Bool.not_eq_true] at hnot
        obtain ⟨rfl, hchunk⟩ := hnot
        refine not_independent_of hgive ?_ ?_ E (hind zeroed stale)
        · intro hnul
          cases r with
          | failed => cases hnul
          | closed => cases hnul
          | data chunk => exact hchunk ⟨chunk, rfl, Or.inl hnul⟩
        · intro hboth
          cases r with
          | failed => exact absurd hboth (by decide)
          | closed => exact absurd hboth (by decide)
          | data chunk => exact hchunk ⟨chunk, rfl, Or.inr hboth⟩
      · rintro (rfl | ⟨chunk, rfl, hchunk⟩)
        · -- late: the content is not looked at
          intro fb fb'
          rw [seen_left fb (hgive fb) rfl, seen_left fb' (hgive fb') rfl]
        · by_cases hnul : 0 ∈ chunk
          · exact independent_of_nul hnul hgive late E
          · obtain ⟨hmark, hclosing⟩ := hchunk.resolve_left hnul
            have hleft : ∀ fb, (((start fb).receive (.data chunk)).test
                late).pc = .left := by
              intro fb
              have hsearch := search_found
                (receive_start fb (hgive fb)).2.2.1 hnul hmark hclosing
              unfold Loop.test
              rw [hsearch]
              split
              · rfl
              · rfl
            intro fb fb'
            rw [seen_left fb (hgive fb) (hleft fb),
              seen_left fb' (hgive fb') (hleft fb')]

/-- One read with the whole answer. -/
def wholeAnswer : List UInt8 := succMark ++ bytes ['1', '2'] ++ closing

theorem wholeAnswer_independent :
    Independent [(.data wholeAnswer, false)] :=
  (independent_iff [(.data wholeAnswer, false)]
    (fun e he => by
      cases he
      exact ⟨by decide, by decide⟩)).mpr
    (Or.inr ⟨wholeAnswer, rfl, Or.inr ⟨by decide, by decide⟩⟩)

/-- Nothing has arrived yet: over zeros the loop goes on, over an old
answer it is left. -/
theorem not_independent :
    ¬ ∀ E : List (CClient.Recv × Bool),
      (∀ e ∈ E.head?, CanGive (FEEDBACK_MSG_LEN - 1) e.1) →
      Independent E := by
  intro hall
  have hsame := hall [(.failed, false)] (fun e he => by
    cases he
    trivial) zeroed (blit zeroed 0 (succMark ++ closing))
  have hplace := congrArg (fun r => r.2.1) hsame
  exact absurd hplace (by decide +kernel)

end CorrectGps.Csender
