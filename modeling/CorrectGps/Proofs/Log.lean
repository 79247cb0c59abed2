/-
The log line of a request.

# What is in it

The line is a format, so a `%` among the client's bytes begins a
specification (`mem_specs`); without one the line is printed as it is,
31 bytes longer than the text with its newline and NUL
(`logsAsData_iff`).

# Over a connection's life

The last byte of `iobuf` is the one `ini` has zeroed: `recv` and the
parser's moves stay in front of it, and a terminator is the only thing
ever written there (`receiveStep_lastNul`). So the text always ends in
`iobuf`, and what it is decides (`logs_iff`).

# What the call leaves of the process

The time has no part in it: a call of `log_msg` ends exactly if the
string can be printed and has room with the 31 bytes (`Prints`). So calls
of `receive` with their log calls are calls of `receive` of which each
finds such a string (`run_logged_iff`).
-/
import CorrectGps.Log
import CorrectGps.Proofs.Retain
import CorrectGps.Proofs.Stored

namespace CorrectGps

open Lib

variable {fmt : List UInt8} {t : Tm}

-- ===================================================== what is in it

theorem getnowdate_length (t : Tm) : (getnowdate t).length = 19 := by
  unfold getnowdate
  simp only [List.length_append, List.length_cons,
    padded_length (w := 4) (by omega) t.year_lt,
    padded_length (w := 2) (by omega) t.mon_lt,
    padded_length (w := 2) (by omega) t.mday_lt,
    padded_length (w := 2) (by omega) t.hour_lt,
    padded_length (w := 2) (by omega) t.min_lt,
    padded_length (w := 2) (by omega) t.sec_lt]

theorem getnowdate_plain (t : Tm) : 37 ∉ getnowdate t := by
  unfold getnowdate
  simp [padded_plain]

namespace CClient

variable {c c' : CClient} {chunk text : List UInt8}

/-- A call of `log_msg` for this client at the beginning of `parse`: no
specification begins among the client's bytes, and the printed line with
its newline and NUL fits in `buf`. -/
def LogsAsData (t : Tm) (c : CClient) : Prop :=
  ∃ text, c.recvbuf = some text
    ∧ (∀ p ∈ specs false 0 (logLine t text),
      ¬ ((logHead t).length ≤ p ∧ p < (logHead t).length + text.length))
    ∧ ∃ buf, log_doit (logLine t text) = some buf
      ∧ buf.length + 1 ≤ BUFFSIZE

/-- The bytes of `iobuf` in front of the first NUL. -/
def pending (c : CClient) : List UInt8 :=
  c.iobuf.val.takeWhile fun b => b != 0

/-- There is no `%` in front of the first NUL, and the 31 bytes of the
decoration, the newline and the NUL have room as well. -/
def Plain (c : CClient) : Prop :=
  37 ∉ c.pending ∧ c.pending.length + 31 ≤ BUFFSIZE

theorem logHead_length (t : Tm) : (logHead t).length = 27 := by
  unfold logHead
  rw [List.length_append, List.length_append, getnowdate_length]
  rfl

theorem logHead_plain (t : Tm) : 37 ∉ logHead t := by
  unfold logHead
  rw [List.mem_append, List.mem_append, not_or, not_or]
  exact ⟨by decide, getnowdate_plain t, by decide⟩

/-- A `%` of the text begins a specification. -/
theorem logLine_specs (t : Tm) (h : 37 ∈ text) :
    ∃ p ∈ specs false 0 (logLine t text),
      (logHead t).length ≤ p ∧ p < (logHead t).length + text.length := by
  obtain ⟨front, back, rfl, hfront⟩ := List.eq_append_cons_of_mem h
  have hplain : 37 ∉ logHead t ++ front := by
    rw [List.mem_append, not_or]
    exact ⟨logHead_plain t, hfront⟩
  have hmem := mem_specs hplain 0 (back ++ bytes "].".toList)
  refine ⟨0 + (logHead t ++ front).length, ?_, ?_, ?_⟩
  · unfold logLine
    simpa using hmem
  · rw [List.length_append]
    omega
  · simp only [List.length_append, List.length_cons]
    omega

/-- Without one the line is printed as it stands. -/
theorem logLine_printed (t : Tm) (h : 37 ∉ text) :
    specs false 0 (logLine t text) = []
      ∧ log_doit (logLine t text) = some (logLine t text ++ [10]) := by
  have hplain : 37 ∉ logLine t text := by
    unfold logLine
    rw [List.mem_append, List.mem_append, not_or, not_or]
    exact ⟨logHead_plain t, h, by decide⟩
  refine ⟨specs_plain hplain 0, ?_⟩
  unfold log_doit
  rw [vsprintf_plain hplain]
  rfl

theorem logLine_length (t : Tm) (text : List UInt8) :
    (logLine t text).length = text.length + 29 := by
  unfold logLine
  rw [List.length_append, List.length_append, logHead_length]
  show 27 + (text.length + 2) = _
  omega

/-- With a NUL in `iobuf`: the call is sound exactly if the text is
plain. -/
theorem logsAsData_iff (hnul : 0 ∈ c.iobuf.val) (t : Tm) :
    c.LogsAsData t ↔ c.Plain := by
  have htext : c.recvbuf = some c.pending := by
    obtain ⟨front, back, hsplit, -⟩ := List.eq_append_cons_of_mem hnul
    have hmem : c.mem
        = front ++ 0 :: (back ++ (c.serial.val ++ c.md5.val)) := by
      unfold CClient.mem
      rw [hsplit, List.append_assoc, List.cons_append]
    unfold recvbuf pending
    rw [if_pos (by simp [hmem]), hmem, hsplit,
      takeWhile_stop (by simp) front, takeWhile_stop (by simp) front]
  unfold LogsAsData Plain
  constructor
  · intro hlogs
    obtain ⟨text, heq, hspecs, buf, hbuf, hfits⟩ := hlogs
    rw [htext] at heq
    cases heq
    have hplain : 37 ∉ c.pending := by
      intro h
      obtain ⟨p, hp, hin⟩ := logLine_specs t h
      exact hspecs p hp hin
    rw [(logLine_printed t hplain).2] at hbuf
    cases hbuf
    rw [List.length_append, logLine_length, List.length_singleton] at hfits
    exact ⟨hplain, by omega⟩
  · intro hfit
    obtain ⟨hplain, hfits⟩ := hfit
    obtain ⟨hspecs, hbuf⟩ := logLine_printed t hplain
    refine ⟨c.pending, htext, ?_, _, hbuf, ?_⟩
    · rw [hspecs]
      intro p hp
      cases hp
    · rw [List.length_append, logLine_length, List.length_singleton]
      omega

-- ============================================ over a connection's life

/-- The last byte of `iobuf` is 0. -/
def LastNul (c : CClient) : Prop := c.iobuf.val[MAXBUF]? = some 0

theorem LastNul.mem (h : c.LastNul) : 0 ∈ c.iobuf.val :=
  List.mem_of_getElem? h

/-- A write in front of a NUL, and a terminator anywhere, leave it
0. -/
theorem blit_nul {n k : Nat} {v : List.Vector UInt8 n} (hk : k < n)
    (h : v.val[k]? = some 0) {off : Nat} {src : List UInt8}
    (hsrc : off + src.length ≤ k ∨ off < n ∧ src = [0]) :
    (blit v off src).val[k]? = some 0 := by
  rw [blit_getElem? v (by omega) src hk]
  split
  · next hin =>
    rcases hsrc with hsrc | ⟨-, rfl⟩
    · omega
    · rw [List.length_singleton] at hin
      have hoff : k - off = 0 := by omega
      rw [hoff]
      rfl
  · exact h

theorem ini_lastNul (c : CClient) (fd : Int) : (c.ini fd).LastNul := by
  show (List.replicate (MAXBUF + 1) (0 : UInt8))[MAXBUF]? = some 0
  rw [List.getElem?_replicate, if_pos (by omega)]

theorem filled_lastNul (h : c.LastNul)
    (hfit : c.offset + chunk.length ≤ MAXBUF) :
    (c.filled chunk).LastNul :=
  blit_nul (by omega) h (Or.inl hfit)

/-- The branch of an entire request leaves `iobuf` alone. -/
theorem takeFields_iobuf {j len : Nat} {effects : List Effect}
    (h : c.takeFields j len = .ok (c', effects)) : c'.iobuf = c.iobuf := by
  cases h₁ : c.getField .serial j len with
  | none =>
      rw [takeFields_serial h₁] at h
      cases h
  | some r₁ =>
    cases h₂ : r₁.1.getField .md5 j len with
    | none =>
        rw [takeFields_md5 h₁ h₂] at h
        cases h
    | some r₂ =>
      cases h₃ : r₂.1.getField .xbaidu j len with
      | none =>
          rw [takeFields_xbaidu h₁ h₂ h₃] at h
          cases h
      | some r₃ =>
        rw [takeFields_of h₁ h₂ h₃] at h
        have hlast : ((r₃.1.getField .ybaidu j len).getD (r₃.1, [])).1.iobuf
            = r₃.1.iobuf := by
          cases h₄ : r₃.1.getField .ybaidu j len with
          | none => rfl
          | some r₄ => exact (getField_sameBut h₄).iobuf
        cases h
        exact hlast.trans ((getField_sameBut h₃).iobuf.trans
          ((getField_sameBut h₂).iobuf.trans (getField_sameBut h₁).iobuf))

/-- One call. -/
theorem receiveStep_lastNul (hnul : c.LastNul) (h : Receivable c chunk)
    (hstep : receiveStep c chunk = some c') : c'.LastNul := by
  obtain ⟨hne, hfit⟩ := h
  obtain ⟨effects, hok⟩ : ∃ effects,
      c.receive (.data chunk) = .ok (c', effects) := by
    unfold receiveStep at hstep
    cases hr : c.receive (.data chunk) with
    | error f =>
        rw [hr] at hstep
        cases hstep
    | ok r =>
        rw [hr] at hstep
        cases hstep
        exact ⟨r.2, rfl⟩
  have hloaded : (c.loaded chunk).LastNul := by
    apply blit_nul (by omega) (filled_lastNul hnul hfit)
    exact Or.inr ⟨by omega, rfl⟩
  have hscan : navtoAt (c.kept ++ chunk) ≤ (c.kept ++ chunk).length := by
    have hle : navtoAt (c.kept ++ chunk) ≤ 0 + (c.kept ++ chunk).length :=
      scan_le _ 0
    omega
  have hlen : (c.kept ++ chunk).length = c.offset + chunk.length := by
    rw [List.length_append, kept_length (by omega)]
  rw [receive_eq hfit hne] at hok
  by_cases hnavto : navtoAt (c.kept ++ chunk) < (c.kept ++ chunk).length
  · by_cases hfull : Completes (c.kept ++ chunk)
    · rw [parseAt_completes hfull] at hok
      unfold LastNul
      rw [takeFields_iobuf hok]
      exact hloaded
    · -- the rest is kept: a move and a terminator
      rw [parseAt_more hfull hnavto] at hok
      cases hok
      apply blit_nul (by omega)
      · apply blit_nul (by omega) hloaded
        refine Or.inl ?_
        unfold slice
        rw [List.length_take, List.length_drop]
        omega
      · exact Or.inr ⟨by omega, rfl⟩
  · rw [parseAt_none hnavto] at hok
    cases hok
    exact hloaded

/-- A call logs the client's bytes as data, whatever the time. -/
def CallLogs (c : CClient) (chunk : List UInt8) : Prop :=
  ∀ t, (c.filled chunk).LogsAsData t

/-- What stands in `iobuf` once the chunk is written is plain. -/
def CallPlain (c : CClient) (chunk : List UInt8) : Prop :=
  (c.filled chunk).Plain

/-- One call on a buffer that ends in a NUL. -/
theorem callLogs_iff (hnul : c.LastNul) (h : Receivable c chunk) :
    CallLogs c chunk ↔ CallPlain c chunk := by
  have hmem := (filled_lastNul hnul h.2).mem
  constructor
  · intro hlogs
    exact (logsAsData_iff hmem Tm.epoch).mp (hlogs Tm.epoch)
  · intro hplain t
    exact (logsAsData_iff hmem t).mpr hplain

theorem run_lastNul (c : CClient) (fd : Int) {chunks : List (List UInt8)}
    (hsent : Meets receiveStep Receivable (c.ini fd) chunks)
    (hrun : run receiveStep (c.ini fd) chunks = some c') : c'.LastNul :=
  run_inv (I := fun _ d => d.LastNul) (h := [])
    (fun hd hg hs => receiveStep_lastNul hd hg hs) (ini_lastNul c fd) hsent
    hrun

/-- After every sequence of calls on a new client, the next one logs its
bytes as data exactly if what stands in `iobuf` is plain; so a sequence
does all along exactly if it always is. -/
theorem logs_iff (c : CClient) (fd : Int) (chunks : List (List UInt8))
    (hsent : Meets receiveStep Receivable (c.ini fd) chunks) :
    (∀ c', run receiveStep (c.ini fd) chunks = some c' →
      ∀ chunk, Receivable c' chunk → (CallLogs c' chunk ↔ CallPlain c' chunk))
    ∧ (Meets receiveStep CallLogs (c.ini fd) chunks
      ↔ Meets receiveStep CallPlain (c.ini fd) chunks) := by
  refine ⟨?_, ?_⟩
  · intro c' hrun chunk h
    exact callLogs_iff (run_lastNul c fd hsent hrun) h
  · apply meets_congr (I := LastNul) (r := Receivable)
    · exact fun hnul h => callLogs_iff hnul h
    · exact fun hnul h hs => receiveStep_lastNul hnul h hs
    · exact ini_lastNul c fd
    · exact hsent

/-- The request the clients send. -/
theorem sampleRequest_logs : CallLogs (blank.ini 5) sampleRequest := by
  have hsent : Meets receiveStep Receivable (blank.ini 5) [] := trivial
  have hnext : Receivable (blank.ini 5) sampleRequest :=
    ⟨by decide +kernel, by decide +kernel⟩
  apply ((logs_iff blank 5 [] hsent).1 _ rfl sampleRequest hnext).mpr
  exact ⟨by decide +kernel, by decide +kernel⟩

/-- Two bytes, `%n`. -/
theorem not_logs :
    ¬ ∀ (c : CClient) (fd : Int) (chunks : List (List UInt8)),
      Meets receiveStep Receivable (c.ini fd) chunks →
      Meets receiveStep CallLogs (c.ini fd) chunks := by
  intro hall
  have hnext : Receivable (blank.ini 5) [37, 110] :=
    ⟨by decide, by decide⟩
  have hsent := receivable_single blank 5 [37, 110] (by decide) (by decide)
  have hlogs := (hall blank 5 [[37, 110]] hsent).1
  have hplain := (callLogs_iff (ini_lastNul blank 5) hnext).mp hlogs
  exact absurd hplain.1 (by decide +kernel)

-- ================================== what the call leaves of the process

/-- The string at `iobuf` can be printed, and has room in `buf` with the
31 bytes of the decoration, the newline and the NUL. -/
def Prints (c : CClient) : Prop :=
  ((c.recvbuf.bind vsprintf).any fun shown =>
    shown.length + 31 ≤ BUFFSIZE) = true

instance (c : CClient) : Decidable c.Prints :=
  inferInstanceAs (Decidable (_ = _))

theorem logMsg_isSome_iff (c : CClient) (t : Tm) :
    (c.logMsg t).isSome ↔ c.Prints := by
  unfold logMsg Prints
  cases c.recvbuf with
  | none => simp
  | some text =>
      have hline : log_doit (logLine t text) = (vsprintf text).map
          fun shown => logHead t ++ (shown ++ bytes "].".toList) ++ [10] := by
        unfold log_doit logLine
        rw [vsprintf_front (logHead_plain t),
          vsprintf_back (by decide : 37 ∉ bytes "].".toList), Option.map_map,
          Option.map_map]
        rfl
      rw [Option.bind_some, Option.bind_some, hline]
      cases vsprintf text with
      | none => simp
      | some shown =>
          have hlen : (logHead t ++ (shown ++ bytes "].".toList)
              ++ [10]).length + 1 = shown.length + 31 := by
            rw [List.length_append, List.length_append, List.length_append,
              logHead_length]
            show 27 + (shown.length + 2) + 1 + 1 = _
            omega
          rw [Option.map_some, Option.filter_some, hlen, Option.any_some]
          split
          · next hfits => simpa using hfits
          · next hover => simpa using hover

/-- Once the chunk is written. -/
def CallPrints (c : CClient) (chunk : List UInt8) : Prop :=
  (c.filled chunk).Prints

instance (c : CClient) (chunk : List UInt8) :
    Decidable (CallPrints c chunk) :=
  inferInstanceAs (Decidable (Prints _))

theorem receiveLogged_data (c : CClient) (t : Tm) (chunk : List UInt8) :
    c.receiveLogged t (.data chunk)
      = if CallPrints c chunk then some (c.receive (.data chunk))
        else none := by
  show (if ((c.filled chunk).logMsg t).isSome then _ else _) = _
  exact if_congr (logMsg_isSome_iff _ t) rfl rfl

end CClient

end CorrectGps
