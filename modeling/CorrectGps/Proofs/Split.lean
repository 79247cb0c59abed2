/-
Does it matter how TCP cuts the request?

# Which texts are taken

Between two calls the parser keeps bytes on one of its exits only
(`keepsAfter`): a text without a `navto` is dropped, so a cut inside
`navto` loses the request; an entire request is not taken out of the
buffer, and what was kept before the call stays kept. `takenTexts` are
the texts that the calls take for an entire request.

# What is read in them

A call copies and scans without looking at the number of bytes received.
What a text gives for a field (`readIn`) is decided by the text alone if
the value begins in it and, for a coordinate, its delimiter is there or
as many bytes as are searched (`Decided`); otherwise the call looks at
bytes that have not been received. It looks at the same ones as a call on
the whole stream if it takes all of that and nothing has been taken or
dropped before (`run_whole`).

# When the cut does not matter

The client ends as with one chunk exactly if a text is taken, each one
that is has the asserted names, the last one that gives a field gives
what the whole stream gives (`SameRead`), and no log call stops the
process. That is an equivalence for every cut of which the received bytes
decide the end (`Settled`). No chunk of one byte contains `navto`, so
every stream has a cut that loses it (`delivered_in_pieces`).
-/
import CorrectGps.Proofs.Log

namespace CorrectGps.CClient

open Lib

variable {c d : CClient} {text rest chunk : List UInt8} {f : Field}

-- =================================================== which texts are taken

/-- The texts that calls on these chunks take for an entire request. -/
def takenTexts : List UInt8 → List (List UInt8) → List (List UInt8)
  | _, [] => []
  | kept, chunk :: chunks =>
      if Completes (kept ++ chunk) then
        (kept ++ chunk) :: takenTexts (keepsAfter kept chunk) chunks
      else takenTexts (keepsAfter kept chunk) chunks

/-- The asserted names are in each of them. -/
def AllNamed (texts : List (List UInt8)) : Prop :=
  ∀ text ∈ texts, NamesPresent text (navtoAt text + 6)

instance (texts : List (List UInt8)) : Decidable (AllNamed texts) :=
  inferInstanceAs (Decidable (∀ text ∈ texts, _))

theorem keepsAfter_length (kept chunk : List UInt8) :
    (keepsAfter kept chunk).length ≤ kept.length + chunk.length := by
  unfold keepsAfter
  split
  · rw [List.length_drop, List.length_append]
    omega
  · omega

/-- The string in a copy of these bytes. -/
def string (l : List UInt8) : List UInt8 := l.takeWhile fun b => b != 0

/-- The text from the value of `f` on. -/
def fromValue (text : List UInt8) (f : Field) : List UInt8 :=
  text.drop (fieldAt text f (navtoAt text + 6) + f.skip)

/-- What a coordinate in these bytes is stored as, if its delimiter comes
soon enough. -/
def coordinateIn (l : List UInt8) : Option (List UInt8) :=
  let value := l.takeWhile inValue
  if value.length < GPS_LEN ∧ value.length < l.length then
    some (string value)
  else none

/-- The string that a text gives for a field, if any. -/
def readIn (text : List UInt8) (f : Field) : Option (List UInt8) :=
  if fieldAt text f (navtoAt text + 6) < text.length then
    match f with
    | .serial => some (string ((fromValue text f).take SERIAL_LEN))
    | .md5 => some (string ((fromValue text f).take MD5_LEN))
    | .xbaidu => coordinateIn (fromValue text f)
    | .ybaidu => coordinateIn (fromValue text f)
  else none

/-- The bytes from a coordinate on decide what it is stored as: its
delimiter is there, or with the NUL as many bytes as are searched. -/
def CoordinateDecided (l : List UInt8) : Prop :=
  (l.takeWhile inValue).length < l.length ∨ GPS_LEN ≤ l.length + 1

/-- The text decides what it gives for the field. -/
def Decided (text : List UInt8) (f : Field) : Prop :=
  fieldAt text f (navtoAt text + 6) < text.length →
    fieldAt text f (navtoAt text + 6) + f.skip ≤ text.length
      ∧ (f = .xbaidu ∨ f = .ybaidu → CoordinateDecided (fromValue text f))

instance (text : List UInt8) (f : Field) : Decidable (Decided text f) := by
  unfold Decided CoordinateDecided
  infer_instance

/-- A NUL stops the string of a copy that reaches it. -/
theorem string_take (w back : List UInt8) (n : Nat) :
    string ((w ++ 0 :: back).take n) = string (w.take n) := by
  unfold string
  rcases Nat.lt_or_ge w.length n with hlt | hge
  · obtain ⟨k, hk⟩ : ∃ k, n - w.length = k + 1 :=
      ⟨n - w.length - 1, by omega⟩
    rw [List.take_append, hk, List.take_succ_cons,
      List.take_of_length_le (Nat.le_of_lt hlt)]
    exact takeWhile_stop rfl w _
  · rw [List.take_append_of_le_length hge]

/-- Memory from a place in the text on. -/
theorem Loaded.mem_drop (h : c.Loaded text rest) {x : Nat}
    (hx : x ≤ text.length) :
    ∃ back, c.mem.drop x = text.drop x ++ 0 :: back := by
  rw [h.mem, List.drop_append_of_le_length hx]
  exact ⟨_, rfl⟩

/-- A copied field. -/
theorem storeText_str (h : c.Loaded text rest) {x n : Nat}
    (hx : x ≤ text.length) (hn : n ≤ MD5_LEN) (hfits : f.Fits n) :
    (c.storeText f x n).1.str f = string ((text.drop x).take n) := by
  obtain ⟨back, hmem⟩ := h.mem_drop hx
  have hlen := congrArg List.length h.mem
  have htext := c.iobuf.property
  rw [h, List.length_append, List.length_cons] at htext
  have hslice : (slice c.mem x n).length = n := by
    unfold slice
    rw [List.length_take, List.length_drop, hlen, List.length_append,
      List.length_cons, List.length_append, List.length_append,
      c.md5.property]
    unfold MD5_LEN at hn ⊢
    omega
  have hfront := put_member c (f := f) (v := slice c.mem x n)
    (by rw [hslice]; exact hfits)
  show (c.put f (slice c.mem x n)).str f = _
  rw [str_of_front hfront]
  show string (slice c.mem x n) = _
  unfold slice
  rw [hmem, string_take]

/-- A coordinate with no delimiter soon enough. -/
theorem storeCoordinate_none {x : Nat} {u back : List UInt8}
    (hmem : c.mem.drop x = u ++ back) (hlen : GPS_LEN ≤ u.length)
    (hu : ∀ b ∈ u, isDelimiter b = false) (f : Field) :
    c.storeCoordinate f x = (c, []) := by
  have hscan : scan (fun d => isDelimiter (c.mem.getD d 0)) GPS_LEN x
      = x + GPS_LEN := by
    rw [scan_eq_iff (by omega) (Nat.le_refl _)]
    refine ⟨?_, fun hlt => absurd hlt (Nat.lt_irrefl _)⟩
    intro z hz hlt
    obtain ⟨k, rfl⟩ : ∃ k, z = x + k := ⟨z - x, by omega⟩
    have hk : k < u.length := by omega
    rw [List.getD_eq_getElem?_getD, ← List.getElem?_drop, hmem,
      List.getElem?_append_left hk, List.getElem?_eq_getElem hk]
    exact hu _ (List.getElem_mem hk)
  unfold storeCoordinate
  rw [hscan]
  exact if_neg (Nat.lt_irrefl _)

/-- A coordinate that is decided. -/
theorem storeCoordinate_str (h : c.Loaded text rest) {x : Nat}
    (hx : x ≤ text.length) (hfits : ∀ n, n < GPS_LEN → f.Fits n)
    (hd : CoordinateDecided (text.drop x)) :
    (c.storeCoordinate f x).1.str f
      = (coordinateIn (text.drop x)).getD (c.str f) := by
  obtain ⟨back, hmem⟩ := h.mem_drop hx
  have hvalue : ∀ b ∈ (text.drop x).takeWhile inValue,
      isDelimiter b = false := fun b hb => not_delimiter_of_mem hb
  unfold coordinateIn
  dsimp only
  by_cases hshort : ((text.drop x).takeWhile inValue).length
      < (text.drop x).length
  · obtain ⟨e, tail, hdrop, he⟩ := delimiter_split hshort
    rw [hdrop, List.append_assoc, List.cons_append] at hmem
    by_cases hsoon : ((text.drop x).takeWhile inValue).length < GPS_LEN
    · have hfront := put_member c (f := f) (hfits _ hsoon)
      rw [if_pos ⟨hsoon, hshort⟩, storeCoordinate_eq hmem hsoon hvalue he f,
        storeText_eq hmem f]
      exact str_of_front hfront
    · rw [if_neg fun hc => hsoon hc.1,
        storeCoordinate_none hmem (Nat.le_of_not_lt hsoon) hvalue f]
      rfl
  · -- no delimiter in the text, and none in the bytes that are searched
    have hlong : GPS_LEN ≤ (text.drop x ++ [0]).length := by
      rw [List.length_append]
      exact hd.resolve_left hshort
    have hall : (text.drop x).takeWhile inValue = text.drop x :=
      List.IsPrefix.eq_of_length_le (List.takeWhile_prefix _)
        (Nat.le_of_not_lt hshort)
    have hnone : ∀ b ∈ text.drop x ++ [0], isDelimiter b = false := by
      intro b hb
      rcases List.mem_append.mp hb with hb | hb
      · exact hvalue b (by rw [hall]; exact hb)
      · rw [List.mem_singleton.mp hb]
        rfl
    have hcut : c.mem.drop x = (text.drop x ++ [0]) ++ back := by
      rw [hmem, List.append_assoc]
      rfl
    rw [if_neg fun hc => hshort hc.2, storeCoordinate_none hcut hlong hnone f]
    rfl

/-- What is left of a field whose value is decided by the text. -/
theorem stage_str (h : c.Loaded text rest) (hd : Decided text f) :
    (stage c text (navtoAt text + 6) f).1.str f
      = (readIn text f).getD (c.str f) := by
  unfold stage readIn
  by_cases hfound : fieldAt text f (navtoAt text + 6) < text.length
  · obtain ⟨hx, hcoordinate⟩ := hd hfound
    rw [if_pos hfound, if_pos hfound]
    cases f with
    | serial => exact storeText_str h hx (by decide) rfl
    | md5 => exact storeText_str h hx (by decide) rfl
    | xbaidu =>
        exact storeCoordinate_str h hx (fun _ hn => hn)
          (hcoordinate (Or.inl rfl))
    | ybaidu =>
        exact storeCoordinate_str h hx (fun _ hn => hn)
          (hcoordinate (Or.inr rfl))
  · rw [if_neg hfound, if_neg hfound]
    rfl

theorem str_congr (h : d.member f = c.member f) : d.str f = c.str f := by
  unfold str
  rw [h]

/-- A pass over the fields. -/
theorem stages_str {fs : List Field} (hnodup : fs.Nodup) (hf : f ∈ fs)
    (h : c.Loaded text rest) (hd : Decided text f) :
    (stages c text (navtoAt text + 6) fs).1.str f
      = (readIn text f).getD (c.str f) := by
  induction fs generalizing c with
  | nil => cases hf
  | cons g fs ih =>
      obtain ⟨hg, hnodup'⟩ := List.nodup_cons.mp hnodup
      have hstage := stage_sameBut c text (navtoAt text + 6) g
      by_cases hfg : f = g
      · subst hfg
        rw [← stage_str h hd]
        exact str_congr ((stages_sameBut _ text _ fs).member f hg)
      · have hf' := (List.mem_cons.mp hf).resolve_left hfg
        have hkept : (stage c text (navtoAt text + 6) g).1.str f = c.str f :=
          str_congr (hstage.member f fun hc =>
            hfg (List.mem_singleton.mp hc))
        rw [← hkept]
        exact ih hnodup' hf' (h.stage _ g)

/-- A call on an entire request with the asserted names. -/
theorem receive_taken (h : Receivable c chunk)
    (hfull : Completes (c.kept ++ chunk))
    (hnames : NamesPresent (c.kept ++ chunk)
      (navtoAt (c.kept ++ chunk) + 6)) :
    ∃ c', receiveStep c chunk = some c'
      ∧ c'.kept = c.kept ∧ c'.offset = c.offset ∧ c'.status = 1
      ∧ ∀ f, Decided (c.kept ++ chunk) f →
        c'.str f = (readIn (c.kept ++ chunk) f).getD (c.str f) := by
  obtain ⟨hne, hfit⟩ := h
  obtain ⟨rest, hloaded⟩ := loaded_text hfit
  have hkept : c.kept.length = c.offset := kept_length (by omega)
  have hj : navtoAt (c.kept ++ chunk) + 6 ≤ (c.kept ++ chunk).length := by
    unfold Completes at hfull
    omega
  obtain ⟨hiobuf, hoffset, -, -⟩ := stages_sameBut (c.loaded chunk)
    (c.kept ++ chunk) (navtoAt (c.kept ++ chunk) + 6) fields
  have hok := takeFields_ok hloaded hj hnames
  rw [← parseAt_completes hfull, ← receive_eq hfit hne] at hok
  have hstep : receiveStep c chunk
      = some { (stages (c.loaded chunk) (c.kept ++ chunk)
        (navtoAt (c.kept ++ chunk) + 6) fields).1 with status := 1 } := by
    unfold receiveStep
    rw [hok]
  refine ⟨_, hstep, ?_, hoffset, rfl, ?_⟩
  · exact kept_of_loaded ((congrArg Subtype.val hiobuf).trans hloaded) rfl
      (hoffset.trans hkept.symm)
  · intro f hd
    have hpass := stages_str (by decide) (mem_fields f) hloaded hd
    have hold : (c.loaded chunk).str f = c.str f :=
      str_congr (by cases f <;> rfl)
    rw [hold] at hpass
    rw [← hpass]
    -- the status is no field's member
    exact str_congr (by cases f <;> rfl)

-- ========================================== the whole stream, taken once

/-- `c` with a text at the front of a zeroed buffer, all of it kept. -/
def holding (c : CClient) (text : List UInt8) : CClient :=
  { c with
    offset := text.length
    iobuf := blit (List.Vector.replicate _ 0) 0 text }

/-- Behind the text there are zeros. -/
theorem holding_iobuf (c : CClient) (h : text.length ≤ MAXBUF + 1) :
    (c.holding text).iobuf.val
      = text ++ List.replicate (MAXBUF + 1 - text.length) 0 := by
  show (blit _ 0 text).val = _
  rw [blit_zero h]
  show text ++ (List.replicate (MAXBUF + 1) 0).drop text.length = _
  rw [List.drop_replicate]

theorem holding_kept (c : CClient) (h : text.length ≤ MAXBUF + 1) :
    (c.holding text).kept = text := by
  unfold kept
  rw [holding_iobuf c h]
  exact List.take_left

theorem ini_holding (c : CClient) (fd : Int) :
    c.ini fd = (c.ini fd).holding [] := by
  have hval := holding_iobuf (c.ini fd)
    (show ([] : List UInt8).length ≤ MAXBUF + 1 from Nat.zero_le _)
  have hzeros : (c.ini fd).iobuf = ((c.ini fd).holding []).iobuf :=
    Subtype.ext hval.symm
  unfold holding
  exact congrArg (fun v => { c.ini fd with iobuf := v }) hzeros

/-- Writing on at the end of what stands in a zeroed buffer. -/
theorem blit_holding (c : CClient) {text' : List UInt8}
    (h : (text ++ text').length ≤ MAXBUF + 1) :
    blit (c.holding text).iobuf text.length text'
      = (c.holding (text ++ text')).iobuf := by
  rw [List.length_append] at h
  apply Subtype.ext
  rw [blit_append (holding_iobuf c (Nat.le_of_add_right_le h)) h,
    holding_iobuf c (by rw [List.length_append]; exact h),
    List.drop_replicate, List.length_append, List.append_assoc,
    Nat.sub_sub]

/-- A terminator is written on a zero. -/
theorem terminate_holding (c : CClient) (h : text.length ≤ MAXBUF) :
    blit (c.holding text).iobuf text.length [0]
      = (c.holding text).iobuf := by
  apply Subtype.ext
  have hlen : text.length + [(0 : UInt8)].length ≤ MAXBUF + 1 := by
    rw [List.length_singleton]
    omega
  rw [blit_append (holding_iobuf c (by omega)) hlen,
    holding_iobuf c (by omega), List.drop_replicate, List.length_singleton,
    ← List.replicate_one, List.replicate_append_replicate]
  congr 2
  omega

/-- A call on such a client sees the text and the chunk with zeros
behind. -/
theorem holding_loaded (c : CClient)
    (h : (text ++ chunk).length ≤ MAXBUF) :
    (c.holding text).loaded chunk
      = { c.holding (text ++ chunk) with offset := text.length } := by
  have hfilled : blit (c.holding text).iobuf text.length chunk
      = (c.holding (text ++ chunk)).iobuf := blit_holding c (by omega)
  have hlen : chunk.length + text.length = (text ++ chunk).length := by
    rw [List.length_append, Nat.add_comm]
  have hended : blit (blit (c.holding text).iobuf text.length chunk)
      (chunk.length + text.length) [0]
      = (c.holding (text ++ chunk)).iobuf := by
    rw [hfilled, hlen, terminate_holding c h]
  exact congrArg (fun v => { c with offset := text.length, iobuf := v })
    hended

theorem holding_text (c : CClient) (h : text.length ≤ MAXBUF) :
    (c.holding text).Loaded text
      (List.replicate (MAXBUF - text.length) 0) := by
  have hzeros : MAXBUF + 1 - text.length = MAXBUF - text.length + 1 := by
    omega
  unfold Loaded
  rw [holding_iobuf c (by omega), hzeros, List.replicate_succ]

theorem holding_receive (c : CClient) (hne : chunk ≠ [])
    (h : (text ++ chunk).length ≤ MAXBUF) :
    (c.holding text).receive (.data chunk)
      = parseAt { c.holding (text ++ chunk) with offset := text.length }
        (navtoAt (text ++ chunk)) (text ++ chunk).length := by
  have hlen := List.length_append ▸ h
  have hfit : (c.holding text).offset + chunk.length ≤ MAXBUF := hlen
  rw [receive_eq hfit hne, holding_loaded c h, holding_kept c (by omega)]

/-- The fields are read in the same way at another offset. -/
theorem stage_offset (c : CClient) (o : Nat) (text : List UInt8) (j : Nat)
    (f : Field) :
    stage { c with offset := o } text j f
      = ({ (stage c text j f).1 with offset := o }, (stage c text j f).2) := by
  have hcoordinate : ∀ (f : Field) (x : Nat),
      storeCoordinate { c with offset := o } f x
        = ({ (c.storeCoordinate f x).1 with offset := o },
          (c.storeCoordinate f x).2) := by
    intro f x
    have hmem : mem { c with offset := o } = c.mem := rfl
    unfold storeCoordinate
    rw [hmem]
    dsimp only
    by_cases hsoon : scan (fun d => isDelimiter (c.mem.getD d 0)) GPS_LEN x
        < x + GPS_LEN
    · rw [if_pos hsoon, if_pos hsoon]
      cases f <;> rfl
    · rw [if_neg hsoon, if_neg hsoon]
  unfold stage
  split
  · cases f with
    | serial => rfl
    | md5 => rfl
    | xbaidu => exact hcoordinate .xbaidu _
    | ybaidu => exact hcoordinate .ybaidu _
  · rfl

theorem stages_offset (c : CClient) (o : Nat) (text : List UInt8) (j : Nat)
    (fs : List Field) :
    stages { c with offset := o } text j fs
      = ({ (stages c text j fs).1 with offset := o },
        (stages c text j fs).2) := by
  induction fs generalizing c with
  | nil => rfl
  | cons f fs ih =>
      unfold stages
      dsimp only
      rw [stage_offset, ih]

/-- A call that takes the text. -/
theorem holding_taken (c : CClient) (text : List UInt8) (hne : chunk ≠ [])
    (h : (text ++ chunk).length ≤ MAXBUF)
    (hfull : Completes (text ++ chunk))
    (hnames : NamesPresent (text ++ chunk)
      (navtoAt (text ++ chunk) + 6)) :
    ∃ c', receiveStep (c.holding text) chunk = some c' ∧ c'.status = 1
      ∧ ∀ f, c'.str f = (stages (c.holding (text ++ chunk)) (text ++ chunk)
        (navtoAt (text ++ chunk) + 6) fields).1.str f := by
  have hloaded : Loaded
      { c.holding (text ++ chunk) with offset := text.length }
      (text ++ chunk) _ := holding_text c h
  have hok := holding_receive c hne h
  rw [parseAt_completes hfull, takeFields_ok hloaded
    (Nat.le_of_add_right_le hfull) hnames, stages_offset] at hok
  unfold receiveStep
  rw [hok]
  exact ⟨_, rfl, rfl, fun f => str_congr (by cases f <;> rfl)⟩

/-- A call that keeps all of it. -/
theorem holding_keeps (c : CClient) (hne : chunk ≠ [])
    (h : (text ++ chunk).length ≤ MAXBUF)
    (hmore : ¬ Completes (text ++ chunk))
    (hfront : navtoAt (text ++ chunk) = 0) :
    receiveStep (c.holding text) chunk
      = some (c.holding (text ++ chunk)) := by
  have hpos : 0 < (text ++ chunk).length := by
    have := List.length_pos_iff.mpr hne
    rw [List.length_append]
    omega
  have hslice : slice (c.holding (text ++ chunk)).iobuf.val 0
      (text ++ chunk).length = text ++ chunk := by
    unfold slice
    rw [holding_iobuf c (by omega), List.drop_zero]
    exact List.take_left
  have hmoved : blit (c.holding (text ++ chunk)).iobuf 0 (text ++ chunk)
      = (c.holding (text ++ chunk)).iobuf := by
    apply Subtype.ext
    rw [blit_zero (by omega), holding_iobuf c (by omega), List.drop_left]
  have hok := holding_receive c hne h
  rw [parseAt_more hmore (by omega), hfront] at hok
  unfold receiveStep
  rw [hok]
  unfold keepRest
  dsimp only
  rw [Nat.sub_zero, hslice, hmoved, terminate_holding c h]
  rfl

/-- No text is longer than what has been sent. -/
theorem length_le_of_mem_taken {chunks : List (List UInt8)} :
    ∀ {kept : List UInt8}, text ∈ takenTexts kept chunks →
      text.length ≤ kept.length + chunks.flatten.length := by
  induction chunks with
  | nil =>
      intro kept h
      cases h
  | cons chunk chunks ih =>
      intro kept h
      have hlen := keepsAfter_length kept chunk
      rw [List.flatten_cons, List.length_append]
      rw [takenTexts] at h
      split at h
      · rcases List.mem_cons.mp h with rfl | h
        · rw [List.length_append]
          omega
        · have hle := ih h
          omega
      · have hle := ih h
        omega

/-- If the one text that is taken is the whole stream, the call that takes
it sees what a call on all of it at once sees. -/
theorem run_whole (c : CClient) {stream : List UInt8}
    (hroom : stream.length ≤ MAXBUF)
    (hnames : NamesPresent stream (navtoAt stream + 6))
    {chunks : List (List UInt8)} :
    ∀ {kept : List UInt8}, (∀ k ∈ chunks, k ≠ []) →
      kept ++ chunks.flatten = stream →
      takenTexts kept chunks = [stream] →
      ∃ c', run receiveStep (c.holding kept) chunks = some c'
        ∧ c'.status = 1
        ∧ ∀ f, c'.str f = (stages (c.holding stream) stream
          (navtoAt stream + 6) fields).1.str f := by
  induction chunks with
  | nil =>
      intro kept _ _ htaken
      cases htaken
  | cons chunk chunks ih =>
      intro kept hne hstream htaken
      have hchunk : chunk ≠ [] := hne chunk List.mem_cons_self
      have hne' : ∀ k ∈ chunks, k ≠ [] :=
        fun k hk => hne k (List.mem_cons_of_mem chunk hk)
      rw [List.flatten_cons, ← List.append_assoc] at hstream
      have hlen := congrArg List.length hstream
      rw [List.length_append] at hlen
      rw [takenTexts] at htaken
      by_cases hfull : Completes (kept ++ chunk)
      · rw [if_pos hfull] at htaken
        obtain ⟨htext, -⟩ := List.cons.inj htaken
        -- nothing is left to send
        have hnil : chunks = [] := by
          cases chunks with
          | nil => rfl
          | cons k chunks =>
              have hk := List.length_pos_iff.mpr (hne' k List.mem_cons_self)
              rw [htext, List.flatten_cons, List.length_append] at hlen
              omega
        obtain ⟨c', hstep, hstatus, hstr⟩ := holding_taken c kept hchunk
          (by rw [htext]; exact hroom) hfull (by rw [htext]; exact hnames)
        rw [htext] at hstr
        rw [hnil, run, hstep]
        exact ⟨c', rfl, hstatus, hstr⟩
      · rw [if_neg hfull] at htaken
        have hmem := length_le_of_mem_taken
          (by rw [htaken]; exact List.mem_singleton_self stream)
        -- no byte has been dropped
        have hkeeps : navtoAt (kept ++ chunk) = 0
            ∧ keepsAfter kept chunk = kept ++ chunk := by
          have hpos := List.length_pos_iff.mpr hchunk
          unfold keepsAfter at hmem ⊢
          split at hmem
          · next hc =>
            have hzero : navtoAt (kept ++ chunk) = 0 := by
              rw [List.length_drop] at hmem
              omega
            rw [if_pos hc, hzero]
            exact ⟨rfl, rfl⟩
          · rw [List.length_append] at hlen
            omega
        obtain ⟨hfront, hall⟩ := hkeeps
        rw [hall] at htaken
        rw [run, holding_keeps c hchunk (by omega) hfull hfront]
        exact ih hne' hstream htaken

-- ============================================================ every cut

/-- What the last text that gives the field gives. -/
def lastRead (f : Field) (texts : List (List UInt8)) :
    Option (List UInt8) :=
  (texts.filterMap (readIn · f)).getLast?

/-- What these texts leave of a field is decided by them: each decides
what it gives, or a later one gives the field. -/
def Settles (f : Field) : List (List UInt8) → Prop
  | [] => True
  | text :: texts =>
      (Decided text f ∨ lastRead f texts ≠ none) ∧ Settles f texts

/-- The whole stream, delivered in one chunk to `c` at `t`, makes it
`c₁`: a complete request with all four fields stored. -/
def Delivered (c : CClient) (t : Tm) (stream : List UInt8)
    (c₁ : CClient) : Prop :=
  ∃ effects, c.receiveLogged t (.data stream) = some (.ok (c₁, effects))
    ∧ c₁.status = 1 ∧ ∀ f, ∃ v, .stored f v ∈ effects

/-- The chunks are a cut of the stream. -/
def IsCut (stream : List UInt8) (chunks : List (List UInt8)) : Prop :=
  chunks.flatten = stream ∧ ∀ k ∈ chunks, k ≠ []

/-- The received bytes decide what the calls leave, if a text is taken
and the process survives: the only one is the whole stream, or the stream
and the texts decide what they give. -/
def Settled (stream : List UInt8) (chunks : List (List UInt8)) : Prop :=
  takenTexts [] chunks ≠ [] → AllNamed (takenTexts [] chunks) →
    takenTexts [] chunks = [stream]
      ∨ ∀ f, Decided stream f ∧ Settles f (takenTexts [] chunks)

/-- A delivery in one chunk is a call on an entire request with the
asserted names. -/
theorem Delivered.step {t : Tm} {stream : List UInt8} {c₁ : CClient}
    (hnew : c.kept = []) (h : Receivable c stream)
    (hwhole : Delivered c t stream c₁) :
    receiveStep c stream = some c₁ ∧ Completes stream
      ∧ NamesPresent stream (navtoAt stream + 6) := by
  obtain ⟨effects, hcall, -, hstored⟩ := hwhole
  have htext : c.kept ++ stream = stream := by rw [hnew, List.nil_append]
  have hok : c.receive (.data stream) = .ok (c₁, effects) :=
    receive_of_logged hcall
  have hstep : receiveStep c stream = some c₁ := by
    unfold receiveStep
    rw [hok]
  have hfull : Completes (c.kept ++ stream) := by
    by_contra hmore
    obtain ⟨v, hv⟩ := hstored .serial
    rw [receive_eq h.2 h.1] at hok
    by_cases hnavto : navtoAt (c.kept ++ stream) < (c.kept ++ stream).length
    · rw [parseAt_more hmore hnavto] at hok
      cases hok
      cases hv
    · rw [parseAt_none hnavto] at hok
      cases hok
      cases hv
  have hnames : NamesPresent (c.kept ++ stream)
      (navtoAt (c.kept ++ stream) + 6) := by
    by_contra hmissing
    rw [(receiveStep_none_iff h).mpr fun hp => hmissing (hp hfull)] at hstep
    cases hstep
  rw [htext] at hfull hnames
  exact ⟨hstep, hfull, hnames⟩

/-- What it leaves of a field that the stream decides. -/
theorem Delivered.taken {t : Tm} {stream : List UInt8} {c₁ : CClient}
    (hnew : c.kept = []) (h : Receivable c stream)
    (hwhole : Delivered c t stream c₁) {f : Field}
    (hd : Decided stream f) : c₁.str f = (readIn stream f).getD (c.str f) := by
  obtain ⟨hstep, hfull, hnames⟩ := hwhole.step hnew h
  have htext : c.kept ++ stream = stream := by rw [hnew, List.nil_append]
  obtain ⟨c', hstep', -, -, -, hstr⟩ :=
    receive_taken h (by rw [htext]; exact hfull)
      (by rw [htext]; exact hnames)
  rw [hstep] at hstep'
  cases hstep'
  rw [htext] at hstr
  exact hstr f hd

/-- A cut of which the whole stream is taken, and nothing else. -/
theorem Delivered.whole {fd : Int} {t : Tm} {stream : List UInt8}
    {c₁ : CClient} (hroom : stream.length ≤ MAXBUF)
    (h : Receivable (c.ini fd) stream)
    (hwhole : Delivered (c.ini fd) t stream c₁)
    {chunks : List (List UInt8)} (hcut : IsCut stream chunks)
    (htaken : takenTexts [] chunks = [stream]) :
    ∃ c₂, run receiveStep (c.ini fd) chunks = some c₂ ∧ c₂.status = 1
      ∧ ∀ f, c₂.str f = c₁.str f := by
  obtain ⟨hstep, hfull, hnames⟩ := hwhole.step (kept_ini c fd) h
  rw [ini_holding c fd] at hstep
  obtain ⟨c₁', hstep', -, hstr₁⟩ :=
    holding_taken (c.ini fd) [] h.1 hroom hfull hnames
  rw [hstep] at hstep'
  cases hstep'
  obtain ⟨c₂, hrun, hstatus, hstr₂⟩ :=
    run_whole (c.ini fd) hroom hnames hcut.2 hcut.1 htaken
  rw [← ini_holding c fd] at hrun
  exact ⟨c₂, hrun, hstatus, fun f => (hstr₂ f).trans (hstr₁ f).symm⟩

end CorrectGps.CClient
