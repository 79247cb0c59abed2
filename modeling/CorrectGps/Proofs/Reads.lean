/-
What `parse` does depends on what it reads, and where that is.

# Dependence

Two clients that differ in `iobuf` at most, and not at a place `parse`
reads, get the same from it (`parse_congr`): so `parseReads` leaves out
nothing that matters.

# Place

The searches stay inside the text and its terminator. The values do
exactly if they lie in the text far enough from its end (`ValueInside`):
a copied value with all its bytes, a coordinate with its delimiter, or
with as many bytes as are searched. The log line does exactly if the text
contains a NUL, since the terminator comes later. Together that is when
bytes received earlier, or never, have no part in a call
(`isolated_iff`).
-/
import CorrectGps.CClientReads
import CorrectGps.Proofs.Retain

namespace CorrectGps.CClient

open Lib

variable {c d : CClient} {text rest : List UInt8} {f : Field}
variable {ks : List Nat} {j len x : Nat}

-- ============================================================ dependence

/-- The clients differ in `iobuf` at most, and not at these places. -/
structure AgreeAt (c d : CClient) (ks : List Nat) : Prop where
  others : d = { c with iobuf := d.iobuf }
  iobuf : ∀ k ∈ ks, c.iobuf.val.getD k 0 = d.iobuf.val.getD k 0

theorem AgreeAt.mono (h : AgreeAt c d ks) {ks' : List Nat}
    (hsub : ks' ⊆ ks) : AgreeAt c d ks' :=
  ⟨h.others, fun k hk => h.iobuf k (hsub hk)⟩

theorem mem_length (c : CClient) :
    c.mem.length = (MAXBUF + 1) + ((SERIAL_LEN + 1) + (MD5_LEN + 1)) := by
  unfold mem
  rw [List.length_append, List.length_append, c.iobuf.property,
    c.serial.property, c.md5.property]

/-- Memory behind `iobuf` is the same anyway. -/
theorem AgreeAt.mem (h : AgreeAt c d ks) {k : Nat} (hk : k ∈ ks) :
    c.mem.getD k 0 = d.mem.getD k 0 := by
  have hserial : d.serial = c.serial := by rw [h.others]
  have hmd5 : d.md5 = c.md5 := by rw [h.others]
  unfold CClient.mem
  rw [hserial, hmd5]
  have hc := c.iobuf.property
  have hd := d.iobuf.property
  by_cases hlt : k < MAXBUF + 1
  · rw [List.getD_append _ _ 0 k (by omega),
      List.getD_append _ _ 0 k (by omega)]
    exact h.iobuf k hk
  · rw [List.getD_append_right c.iobuf.val _ 0 k (by omega),
      List.getD_append_right d.iobuf.val _ 0 k (by omega), hc, hd]

theorem AgreeAt.slice (h : AgreeAt c d ks) {n : Nat}
    (hsub : List.range' x n ⊆ ks) : slice c.mem x n = slice d.mem x n := by
  have hlen : c.mem.length = d.mem.length := by
    rw [mem_length, mem_length]
  unfold Lib.slice
  apply List.ext_getElem
  · simp [hlen]
  · intro k hk hk'
    rw [List.length_take, List.length_drop] at hk hk'
    rw [List.getElem_take, List.getElem_take, List.getElem_drop,
      List.getElem_drop, ← List.getD_eq_getElem c.mem 0,
      ← List.getD_eq_getElem d.mem 0]
    apply h.mem
    apply hsub
    rw [List.mem_range'_1]
    omega

theorem AgreeAt.scan_name (h : AgreeAt c d ks) {q : Pat}
    (hsub : c.nameReads q j len ⊆ ks) :
    scan (fun x => q.at (c.mem.drop x)) (len - j) j
      = scan (fun x => q.at (d.mem.drop x)) (len - j) j := by
  have hlen : c.mem.length = d.mem.length := by
    rw [mem_length, mem_length]
  exact scan_congr_reads (P := fun k => k ∈ ks)
    (fun y hy => Pat.at_congr hlen fun k hk => h.mem (hy k hk))
    fun z hz => hsub hz

theorem AgreeAt.scan_delimiter (h : AgreeAt c d ks)
    (hsub : c.coordinateReads x ⊆ ks) :
    scan (fun y => isDelimiter (c.mem.getD y 0)) GPS_LEN x
      = scan (fun y => isDelimiter (d.mem.getD y 0)) GPS_LEN x := by
  apply scan_congr_stop
  intro y hy hle
  have hread : y ∈ c.coordinateReads x := by
    unfold coordinateReads
    rw [List.mem_range'_1]
    omega
  show isDelimiter _ = isDelimiter _
  rw [h.mem (hsub hread)]

/-- The same is written to both. -/
theorem AgreeAt.put (h : AgreeAt c d ks) (f : Field) (v : List UInt8) :
    AgreeAt (c.put f v) (d.put f v) ks := by
  obtain ⟨hothers, hiobuf⟩ := h
  rw [hothers]
  cases f <;> exact ⟨rfl, hiobuf⟩

theorem AgreeAt.storeText (h : AgreeAt c d ks) {n : Nat}
    (hsub : List.range' x n ⊆ ks) (f : Field) :
    AgreeAt (c.storeText f x n).1 (d.storeText f x n).1 ks
      ∧ (c.storeText f x n).2 = (d.storeText f x n).2 := by
  unfold CClient.storeText
  rw [h.slice hsub]
  exact ⟨h.put f _, rfl⟩

theorem AgreeAt.storeCoordinate (h : AgreeAt c d ks)
    (hsub : c.coordinateReads x ⊆ ks) (f : Field) :
    AgreeAt (c.storeCoordinate f x).1 (d.storeCoordinate f x).1 ks
      ∧ (c.storeCoordinate f x).2 = (d.storeCoordinate f x).2 := by
  have hcopied : List.range' x
      (scan (fun y => isDelimiter (c.mem.getD y 0)) GPS_LEN x - x) ⊆ ks := by
    refine List.Subset.trans ?_ hsub
    intro y hy
    unfold coordinateReads
    rw [List.mem_range'_1] at hy ⊢
    omega
  have hstored := h.storeText hcopied f
  unfold CClient.storeCoordinate
  rw [← h.scan_delimiter hsub]
  dsimp only
  split
  · exact hstored
  · exact ⟨h, rfl⟩

theorem AgreeAt.storeField (h : AgreeAt c d ks)
    (hsub : c.valueReads f x ⊆ ks) :
    AgreeAt (c.storeField f x).1 (d.storeField f x).1 ks
      ∧ (c.storeField f x).2 = (d.storeField f x).2 := by
  cases f with
  | serial => exact h.storeText hsub .serial
  | md5 => exact h.storeText hsub .md5
  | xbaidu => exact h.storeCoordinate hsub .xbaidu
  | ybaidu => exact h.storeCoordinate hsub .ybaidu

/-- Both find the field, or neither does. -/
theorem AgreeAt.getField (h : AgreeAt c d ks)
    (hsub : c.fieldReads f j len ⊆ ks) :
    (c.getField f j len = none ∧ d.getField f j len = none)
      ∨ ∃ c' d' e, c.getField f j len = some (c', e)
        ∧ d.getField f j len = some (d', e) ∧ AgreeAt c' d' ks := by
  have hname := h.scan_name
    (List.Subset.trans (List.subset_append_left _ _) hsub)
  have hvalue := List.Subset.trans (List.subset_append_right _ _) hsub
  unfold CClient.getField
  rw [← hname]
  dsimp only at hvalue ⊢
  split at hvalue
  · next hx =>
    obtain ⟨hagree, heffects⟩ := h.storeField hvalue
    rw [if_pos hx, if_pos hx]
    exact Or.inr ⟨_, _, _, rfl,
      congrArg some (Prod.ext rfl heffects.symm), hagree⟩
  · next hx =>
    rw [if_neg hx, if_neg hx]
    exact Or.inl ⟨rfl, rfl⟩

/-- Is it a notification? -/
def isNotified : Effect → Bool
  | .notified _ => true
  | _ => false

/-- The calls have done the same to the fields, the status, the offset
and the queue, or failed the same assertion. -/
def SameOutcome : Except Field (CClient × List Effect) →
    Except Field (CClient × List Effect) → Prop
  | .ok (c, e), .ok (d, e') =>
      (∀ f, c.member f = d.member f) ∧ c.status = d.status
        ∧ c.offset = d.offset ∧ e.filter isNotified = e'.filter isNotified
  | .error f, .error g => f = g
  | _, _ => False

theorem AgreeAt.same (h : AgreeAt c d ks) (e : List Effect) :
    SameOutcome (.ok (c, e)) (.ok (d, e)) := by
  rw [h.others]
  refine ⟨fun f => ?_, rfl, rfl, rfl⟩
  cases f <;> rfl

/-- What is read after a field that is there. -/
theorem passReads_rest {c' : CClient} {e : List Effect} {fs : List Field}
    (hget : c.getField f j len = some (c', e))
    (hsub : c.passReads j len (f :: fs) ⊆ ks) :
    c'.passReads j len fs ⊆ ks := by
  unfold passReads at hsub
  rw [hget] at hsub
  exact List.Subset.trans (List.subset_append_right _ _) hsub

theorem passReads_field {fs : List Field}
    (hsub : c.passReads j len (f :: fs) ⊆ ks) :
    c.fieldReads f j len ⊆ ks :=
  List.Subset.trans (List.subset_append_left _ _) hsub

/-- The end of a request, on both. -/
theorem AgreeAt.finish (h : AgreeAt c d ks) (e : Effect → List Effect) :
    SameOutcome (.ok ({ c with status := 1 }, e (.notified c.fd)))
      (.ok ({ d with status := 1 }, e (.notified d.fd))) := by
  have hfd : d.fd = c.fd := by rw [h.others]
  rw [hfd, h.others]
  refine ⟨fun f => ?_, rfl, rfl, rfl⟩
  cases f <;> rfl

/-- The branch of an entire request, on both. -/
theorem AgreeAt.takeFields (h : AgreeAt c d ks)
    (hsub : c.passReads j len fields ⊆ ks) :
    SameOutcome (c.takeFields j len) (d.takeFields j len) := by
  rcases h.getField (passReads_field hsub) with
    ⟨hc, hd⟩ | ⟨c₁, d₁, e₁, hc₁, hd₁, h₁⟩
  · rw [takeFields_serial hc, takeFields_serial hd]
    exact rfl
  have hsub₁ := passReads_rest hc₁ hsub
  rcases h₁.getField (passReads_field hsub₁) with
    ⟨hc, hd⟩ | ⟨c₂, d₂, e₂, hc₂, hd₂, h₂⟩
  · rw [takeFields_md5 hc₁ hc, takeFields_md5 hd₁ hd]
    exact rfl
  have hsub₂ := passReads_rest hc₂ hsub₁
  rcases h₂.getField (passReads_field hsub₂) with
    ⟨hc, hd⟩ | ⟨c₃, d₃, e₃, hc₃, hd₃, h₃⟩
  · rw [takeFields_xbaidu hc₁ hc₂ hc, takeFields_xbaidu hd₁ hd₂ hd]
    exact rfl
  have hsub₃ := passReads_rest hc₃ hsub₂
  rw [takeFields_of hc₁ hc₂ hc₃, takeFields_of hd₁ hd₂ hd₃]
  -- no assertion on the last one
  rcases h₃.getField (passReads_field hsub₃) with
    ⟨hc, hd⟩ | ⟨c₄, d₄, e₄, hc₄, hd₄, h₄⟩
  · rw [hc, hd]
    exact h₃.finish fun n => e₁ ++ (e₂ ++ (e₃ ++ ([] ++ [n])))
  · rw [hc₄, hd₄]
    exact h₄.finish fun n => e₁ ++ (e₂ ++ (e₃ ++ (e₄ ++ [n])))

theorem parse_pos {ulen : Nat} (hpos : 0 < ulen)
    (hlen : ulen + c.offset = len) :
    c.parse ulen = (c.terminated len).parseAt
      (scan (fun i => navto.at ((c.terminated len).mem.drop i)) len 0)
      len := by
  unfold CClient.parse
  rw [if_pos hpos, hlen]
  rfl

/-- Behind the text they agree on the terminator, too. -/
theorem AgreeAt.terminated (h : AgreeAt c d ks) (hlen : len ≤ MAXBUF) :
    AgreeAt (c.terminated len) (d.terminated len) (len :: ks) := by
  obtain ⟨hothers, hiobuf⟩ := h
  refine ⟨by rw [hothers]; rfl, fun k hk => ?_⟩
  show (blit c.iobuf len [0]).val.getD k 0
    = (blit d.iobuf len [0]).val.getD k 0
  rw [List.getD_eq_getElem?_getD, List.getD_eq_getElem?_getD]
  rcases Nat.lt_or_ge k (MAXBUF + 1) with hlt | hge
  · rw [blit_getElem? _ (by omega) _ hlt, blit_getElem? _ (by omega) _ hlt]
    split
    · rfl
    · next hother =>
      rcases List.mem_cons.mp hk with rfl | hk
      · exact absurd ⟨Nat.le_refl k, Nat.lt_succ_self k⟩ hother
      · have hsame := hiobuf k hk
        rwa [List.getD_eq_getElem?_getD, List.getD_eq_getElem?_getD]
          at hsame
  · rw [List.getElem?_eq_none (by rw [List.Vector.length_val]; exact hge),
      List.getElem?_eq_none (by rw [List.Vector.length_val]; exact hge)]

/-- The loop, on both. -/
theorem AgreeAt.parseAt (h : AgreeAt c d ks) {i : Nat}
    (hsub : c.parseAtReads i len ⊆ ks) :
    SameOutcome (c.parseAt i len) (d.parseAt i len) := by
  unfold parseAtReads at hsub
  unfold CClient.parseAt
  split
  · next hi =>
    rw [if_pos hi] at hsub
    dsimp only at hsub ⊢
    split
    · -- what is kept stays in `iobuf`
      rw [h.others]
      refine ⟨fun f => ?_, rfl, rfl, rfl⟩
      cases f <;> rfl
    · next hfull =>
      rw [if_neg hfull] at hsub
      exact h.takeFields hsub
  · exact h.same []

/-- Clients that agree where the scan reads, but for the place of the
terminator, get the same from `parse`. -/
theorem parse_congr {ulen : Nat} (hpos : 0 < ulen)
    (hlen : ulen + c.offset = len) (hfit : len ≤ MAXBUF)
    (h : AgreeAt c d ks)
    (hsub : (c.terminated len).requestReads len ⊆ len :: ks) :
    SameOutcome (c.parse ulen) (d.parse ulen) := by
  have hterm := h.terminated hfit
  have hname := hterm.scan_name (q := navto) (j := 0)
    (List.Subset.trans (List.subset_append_left _ _) hsub)
  have hlen' : ulen + d.offset = len := by
    rw [h.others]
    exact hlen
  rw [Nat.sub_zero] at hname
  rw [parse_pos hpos hlen, parse_pos hpos hlen', ← hname]
  exact hterm.parseAt
    (List.Subset.trans (List.subset_append_right _ _) hsub)

-- ================================================================ places

/-- The value of `f` lies far enough from the end of the text: all its
bytes, counting the terminator; or its delimiter, or as many bytes as are
searched for one. -/
def ValueInside (text : List UInt8) (j : Nat) (f : Field) : Prop :=
  let x := fieldAt text f j + f.skip
  match f with
  | .serial => x + SERIAL_LEN ≤ text.length + 1
  | .md5 => x + MD5_LEN ≤ text.length + 1
  | _ => (∃ d < x + GPS_LEN, x ≤ d ∧ isDelimiter (text.getD d 0) = true)
      ∨ x + GPS_LEN ≤ text.length

/-- So do the values of these fields, up to the first one that is not
there. -/
def ValuesInside (text : List UInt8) (j : Nat) : List Field → Prop
  | [] => True
  | f :: fs =>
      fieldAt text f j < text.length →
        ValueInside text j f ∧ ValuesInside text j fs

/-- In a text the terminator is where it ends. -/
theorem Loaded.getD (h : c.Loaded text rest) {k : Nat}
    (hk : k ≤ text.length) : c.mem.getD k 0 = text.getD k 0 := by
  rw [h.mem]
  rcases Nat.eq_or_lt_of_le hk with rfl | hlt
  · rw [List.getD_append_right _ _ 0 _ (Nat.le_refl _), Nat.sub_self,
      List.getD_cons_zero, List.getD_eq_default _ _ (Nat.le_refl _)]
  · rw [List.getD_append _ _ 0 k hlt]

/-- A search stays in the text and its terminator. -/
theorem nameReads_le (h : c.Loaded text rest) {q : Pat}
    (hq : q.Rejects 0) (hj : j ≤ text.length) :
    ∀ k ∈ c.nameReads q j text.length, k ≤ text.length := by
  have hend : c.mem.getD text.length 0 = 0 := by
    rw [h.getD (Nat.le_refl _), List.getD_eq_default _ _ (Nat.le_refl _)]
  exact forall_scanReads fun y _ hy => Pat.reads_le hq hend (by omega)

theorem forall_range'_le {n L : Nat} :
    (∀ k ∈ List.range' x (n + 1), k ≤ L) ↔ x + n ≤ L := by
  constructor
  · intro h
    exact h (x + n) (by rw [List.mem_range'_1]; omega)
  · intro hle k hk
    rw [List.mem_range'_1] at hk
    omega

/-- The search for a delimiter stays there if it finds one, or gives up,
in the text. -/
theorem coordinateReads_le (h : c.Loaded text rest) :
    (∀ k ∈ c.coordinateReads x, k ≤ text.length) ↔
      (∃ d < x + GPS_LEN, x ≤ d ∧ isDelimiter (text.getD d 0) = true)
        ∨ x + GPS_LEN ≤ text.length := by
  have hge : x ≤ scan (fun y => isDelimiter (c.mem.getD y 0)) GPS_LEN x :=
    scan_ge _ _
  have hle : scan (fun y => isDelimiter (c.mem.getD y 0)) GPS_LEN x
      ≤ x + GPS_LEN := scan_le _ _
  unfold coordinateReads
  rw [forall_range'_le, Nat.add_sub_cancel' hge]
  constructor
  · intro hstop
    rcases Nat.lt_or_ge
      (scan (fun y => isDelimiter (c.mem.getD y 0)) GPS_LEN x)
      (x + GPS_LEN) with hlt | hend
    · left
      have hhit : isDelimiter (c.mem.getD _ 0) = true := scan_hit hlt
      rw [h.getD hstop] at hhit
      exact ⟨_, hlt, hge, hhit⟩
    · right
      omega
  · rintro (⟨y, hy, hxy, hdelimiter⟩ | hfits)
    · have hin : y < text.length := by
        by_contra hout
        rw [List.getD_eq_default _ _ (by omega)] at hdelimiter
        cases hdelimiter
      by_contra hbeyond
      have hlt : y < scan (fun y => isDelimiter (c.mem.getD y 0)) GPS_LEN
          x := by omega
      have hmiss : isDelimiter (c.mem.getD y 0) = false :=
        scan_miss hxy hlt
      rw [h.getD (Nat.le_of_lt hin), hdelimiter] at hmiss
      cases hmiss
    · omega

theorem valueReads_le (h : c.Loaded text rest) :
    (∀ k ∈ c.valueReads f (fieldAt text f j + f.skip), k ≤ text.length) ↔
      ValueInside text j f := by
  cases f with
  | serial =>
      show (∀ k ∈ List.range' _ (14 + 1), k ≤ text.length) ↔ _ + 15 ≤ _
      rw [forall_range'_le]
      omega
  | md5 =>
      show (∀ k ∈ List.range' _ (31 + 1), k ≤ text.length) ↔ _ + 32 ≤ _
      rw [forall_range'_le]
      omega
  | xbaidu => exact coordinateReads_le h
  | ybaidu => exact coordinateReads_le h

/-- A pass over fields stays in the text exactly if their values do. -/
theorem passReads_le (fs : List Field) (h : c.Loaded text rest)
    (hj : j ≤ text.length) :
    (∀ k ∈ c.passReads j text.length fs, k ≤ text.length) ↔
      ValuesInside text j fs := by
  induction fs generalizing c with
  | nil => simp [passReads, ValuesInside]
  | cons f fs ih =>
      have hname := nameReads_le h (name_rejects_nul f) hj
      have hscan : scan (fun x => f.name.at (c.mem.drop x))
          (text.length - j) j = fieldAt text f j :=
        scan_loaded h (name_rejects_nul f) (by omega)
      rw [passReads, getField_eq h hj, List.forall_mem_append, fieldReads,
        hscan, List.forall_mem_append, ValuesInside]
      by_cases hfound : fieldAt text f j < text.length
      · rw [if_pos hfound, if_pos hfound, valueReads_le h]
        have hrest := ih (h.stage j f)
        dsimp only
        rw [hrest]
        constructor
        · rintro ⟨⟨-, hvalue⟩, hvalues⟩ -
          exact ⟨hvalue, hvalues⟩
        · intro hall
          obtain ⟨hvalue, hvalues⟩ := hall hfound
          exact ⟨⟨hname, hvalue⟩, hvalues⟩
      · rw [if_neg hfound, if_neg hfound]
        constructor
        · exact fun _ hf => absurd hf hfound
        · intro _
          refine ⟨⟨hname, ?_⟩, ?_⟩
          · intro k hk
            cases hk
          · intro k hk
            cases hk

/-- So does the whole scan. -/
theorem requestReads_le (h : c.Loaded text rest) :
    (∀ k ∈ c.requestReads text.length, k ≤ text.length) ↔
      (Completes text →
        ValuesInside text (navtoAt text + 6) fields) := by
  have hname := nameReads_le h navto_rejects_nul (Nat.zero_le _)
  have hscan : scan (fun i => navto.at (c.mem.drop i)) text.length 0
      = navtoAt text := scan_loaded h navto_rejects_nul (by omega)
  rw [requestReads, List.forall_mem_append, hscan, parseAtReads]
  by_cases hnavto : navtoAt text < text.length
  · rw [if_pos hnavto]
    dsimp only
    by_cases hfull : Completes text
    · have hnot : ¬ navtoAt text + 6 + IN_DATA_LEN > text.length :=
        Nat.not_lt.mpr hfull
      have hpass := passReads_le fields h (Nat.le_of_add_right_le hfull)
      rw [if_neg hnot]
      constructor
      · exact fun hall _ => hpass.mp hall.2
      · exact fun hvalues => ⟨hname, hpass.mpr (hvalues hfull)⟩
    · have hmore : navtoAt text + 6 + IN_DATA_LEN > text.length :=
        Nat.not_le.mp hfull
      rw [if_pos hmore]
      constructor
      · exact fun _ hf => absurd hf hfull
      · refine fun _ => ⟨hname, fun k hk => ?_⟩
        rw [List.mem_range'_1] at hk
        omega
  · rw [if_neg hnavto]
    constructor
    · intro _ hf
      unfold Completes at hf
      omega
    · refine fun _ => ⟨hname, fun k hk => ?_⟩
      cases hk

-- ============================================================ the log line

/-- The string in `iobuf` ends at a NUL in its front. -/
theorem logReads_le (hnul : 0 ∈ c.iobuf.val.take len) :
    ∀ k ∈ c.logReads, k ≤ len := by
  obtain ⟨i, hi, hzero⟩ := List.getElem_of_mem hnul
  rw [List.length_take] at hi
  rw [List.getElem_take] at hzero
  have hmem : c.mem.getD i 0 = 0 := by
    unfold CClient.mem
    rw [List.getD_append _ _ 0 i (by omega), List.getD_eq_getElem _ _
      (by omega), hzero]
  intro k hk
  unfold logReads at hk
  rw [List.mem_range] at hk
  by_contra hbeyond
  have hlt : i < scan (fun i => c.mem.getD i 0 == 0) c.mem.length 0 := by
    omega
  have hmiss : (c.mem.getD i 0 == 0) = false :=
    scan_miss (Nat.zero_le i) hlt
  rw [hmem] at hmiss
  cases hmiss

/-- Without one the string goes on as far as memory is not zero. -/
theorem mem_logReads (h : ∀ k ≤ len, c.mem.getD k 0 ≠ 0)
    (hlen : len < c.mem.length) : len + 1 ∈ c.logReads := by
  unfold logReads
  rw [List.mem_range]
  by_contra hshort
  have hlt : scan (fun i => c.mem.getD i 0 == 0) c.mem.length 0
      < 0 + c.mem.length := by omega
  have hhit : (c.mem.getD _ 0 == 0) = true := scan_hit hlt
  exact h _ (by omega) (beq_iff_eq.mp hhit)

-- ============================================================= both halves

/-- The bytes a call parses: those kept and those that have arrived. -/
def arrived (c : CClient) (ulen : Nat) : List UInt8 :=
  c.iobuf.val.take (ulen + c.offset)

/-- Whatever `iobuf` contains behind these bytes, `parse` does the same
and reads no place behind the terminator. -/
def Isolated (c : CClient) (ulen : Nat) : Prop :=
  ∀ b b' : List.Vector UInt8 (MAXBUF + 1),
    b.val.take (ulen + c.offset) = c.arrived ulen →
    b'.val.take (ulen + c.offset) = c.arrived ulen →
    SameOutcome ({ c with iobuf := b }.parse ulen)
        ({ c with iobuf := b' }.parse ulen)
      ∧ ∀ k ∈ ({ c with iobuf := b } : CClient).parseReads ulen,
        k ≤ ulen + c.offset

theorem terminated_loaded (hlen : len ≤ MAXBUF) :
    ∃ rest, (c.terminated len).Loaded (c.iobuf.val.take len) rest := by
  have htake : (c.iobuf.val.take len).length = len := by
    rw [List.length_take, c.iobuf.property]
    omega
  have hsplit := (List.take_append_drop len c.iobuf.val).symm
  have hroom : (c.iobuf.val.take len).length + [(0 : UInt8)].length
      ≤ MAXBUF + 1 := by
    rw [htake, List.length_singleton]
    omega
  have hend := blit_append hsplit hroom
  rw [htake] at hend
  exact ⟨_, hend⟩

/-- What `parse` reads, the log line apart. -/
theorem requestReads_arrived {ulen : Nat}
    (hfit : ulen + c.offset ≤ MAXBUF) :
    (∀ k ∈ (c.terminated (ulen + c.offset)).requestReads
        (ulen + c.offset), k ≤ ulen + c.offset) ↔
      (Completes (c.arrived ulen) → ValuesInside (c.arrived ulen)
        (navtoAt (c.arrived ulen) + 6) fields) := by
  obtain ⟨rest, hloaded⟩ := terminated_loaded (c := c) hfit
  have htake : (c.arrived ulen).length = ulen + c.offset := by
    unfold arrived
    rw [List.length_take, c.iobuf.property]
    omega
  have hreads := requestReads_le hloaded
  change (c.arrived ulen).length = _ at htake
  unfold arrived at htake ⊢
  rw [htake] at hreads
  exact hreads

theorem requestReads_subset {ulen : Nat} (hpos : 0 < ulen) :
    (c.terminated (ulen + c.offset)).requestReads (ulen + c.offset)
      ⊆ c.parseReads ulen := by
  unfold parseReads
  rw [if_pos hpos]
  exact List.subset_append_right _ _

/-- Without a NUL among the bytes the log line can read behind them. -/
theorem nul_mem_of_logReads {ulen : Nat}
    (hfit : ulen + c.offset ≤ MAXBUF)
    (h : ∀ b : List.Vector UInt8 (MAXBUF + 1),
      b.val.take (ulen + c.offset) = c.arrived ulen →
      ∀ k ∈ ({ c with iobuf := b } : CClient).logReads,
        k ≤ ulen + c.offset) : 0 ∈ c.arrived ulen := by
  by_contra hnul
  have hlen : (c.arrived ulen).length = ulen + c.offset := by
    unfold arrived
    rw [List.length_take, c.iobuf.property]
    omega
  -- a one where the terminator is not yet
  have hroom : (c.iobuf.val.take (ulen + c.offset)).length
      + [(1 : UInt8)].length ≤ MAXBUF + 1 := by
    change (c.arrived ulen).length + 1 ≤ _
    omega
  have hblit := blit_append
    (List.take_append_drop (ulen + c.offset) c.iobuf.val).symm hroom
  change (blit c.iobuf (c.arrived ulen).length [1]).val
    = c.arrived ulen ++ ([1] ++ _) at hblit
  rw [hlen] at hblit
  have hreads := h (blit c.iobuf (ulen + c.offset) [1]) (by
    rw [hblit, ← hlen, List.take_left]) (ulen + c.offset + 1)
  refine absurd (hreads (mem_logReads ?_ ?_)) (by omega)
  · intro k hk
    unfold CClient.mem
    rw [hblit, List.append_assoc]
    rcases Nat.eq_or_lt_of_le hk with rfl | hlt
    · rw [List.getD_append_right _ _ 0 _ (by omega), hlen, Nat.sub_self]
      show (1 : UInt8) ≠ 0
      decide
    · rw [List.getD_append _ _ 0 k (by omega),
        List.getD_eq_getElem _ _ (by omega)]
      intro hzero
      exact hnul (hzero ▸ List.getElem_mem _)
  · rw [mem_length]
    omega

/-- Contents with the same front agree there. -/
theorem agreeAt_of_take {b b' : List.Vector UInt8 (MAXBUF + 1)}
    (h : b.val.take len = b'.val.take len) :
    AgreeAt { c with iobuf := b } { c with iobuf := b' }
      (List.range len) := by
  refine ⟨rfl, fun k hk => ?_⟩
  have hk' := congrArg (fun l : List UInt8 => l[k]?) h
  have hlt := List.mem_range.mp hk
  simp only [List.getElem?_take_of_lt hlt] at hk'
  show b.val.getD k 0 = b'.val.getD k 0
  rw [List.getD_eq_getElem?_getD, List.getD_eq_getElem?_getD, hk']

/-- What a call needs to be isolated. -/
theorem Isolated.inside {ulen : Nat} (h : Isolated c ulen)
    (hpos : 0 < ulen) (hfit : ulen + c.offset ≤ MAXBUF) :
    0 ∈ c.arrived ulen
      ∧ (Completes (c.arrived ulen) → ValuesInside (c.arrived ulen)
        (navtoAt (c.arrived ulen) + 6) fields) := by
  refine ⟨?_, ?_⟩
  · apply nul_mem_of_logReads hfit
    intro b hb k hk
    exact (h b b hb hb).2 k (List.mem_append_left _ hk)
  · rw [← requestReads_arrived hfit]
    intro k hk
    exact (h c.iobuf c.iobuf rfl rfl).2 k (requestReads_subset hpos hk)

/-- A call is isolated from what is behind the bytes it parses exactly if
there is a NUL among them, and if they are taken for an entire request
its values lie far enough from their end. -/
theorem isolated_iff (c : CClient) (ulen : Nat) (hpos : 0 < ulen)
    (hfit : c.offset + ulen ≤ MAXBUF) :
    Isolated c ulen ↔
      0 ∈ c.arrived ulen
        ∧ (Completes (c.arrived ulen) → ValuesInside (c.arrived ulen)
          (navtoAt (c.arrived ulen) + 6) fields) := by
  have hfit' : ulen + c.offset ≤ MAXBUF := by omega
  constructor
  · exact fun h => h.inside hpos hfit'
  · rintro ⟨hnul, hvalues⟩ b b' hb hb'
    -- the condition is one on the bytes the contents share
    have harrived : ({ c with iobuf := b } : CClient).arrived ulen
        = c.arrived ulen := hb
    have hreads := (requestReads_arrived (c := { c with iobuf := b })
      hfit').mpr (by rw [harrived]; exact hvalues)
    have hlog : ∀ k ∈ ({ c with iobuf := b } : CClient).logReads,
        k ≤ ulen + c.offset := logReads_le (by
      rw [show b.val.take (ulen + c.offset) = _ from hb]
      exact hnul)
    refine ⟨?_, ?_⟩
    · refine parse_congr hpos rfl hfit'
        (agreeAt_of_take (hb.trans hb'.symm)) ?_
      intro k hk
      rcases Nat.eq_or_lt_of_le (hreads k hk) with heq | hlt
      · rw [heq]
        exact List.mem_cons_self
      · exact List.mem_cons_of_mem _ (List.mem_range.mpr hlt)
    · intro k hk
      unfold parseReads at hk
      rw [if_pos hpos] at hk
      rcases List.mem_append.mp hk with hk | hk
      · exact hlog k hk
      · exact hreads k hk

/-- A request whose last value is cut, behind a NUL. -/
def cutRequest : List UInt8 :=
  0 :: bytes ("navto?md5=2eb399b9588b1ac2ccc35dce6f266033".toList
    ++ "&xbaidu=114.73427&ybaidu=10.640487&from=phone".toList
    ++ "&serial=35682303".toList)

/-- The request as it is read when it is not cut, behind a NUL. -/
def wholeRequest : List UInt8 := 0 :: sampleRequest

/-- A client that has received a chunk at the front. -/
theorem arrived_filled {chunk : List UInt8} (hfit : chunk.length ≤ MAXBUF) :
    (blank.filled chunk).arrived chunk.length = chunk := by
  have hroom : blank.offset + chunk.length ≤ MAXBUF := by
    show 0 + _ ≤ _
    omega
  have h := received_eq hroom
  unfold received at h
  unfold arrived
  rw [Nat.add_comm]
  exact h

theorem wholeRequest_isolated :
    Isolated (blank.filled wholeRequest) wholeRequest.length := by
  rw [isolated_iff (blank.filled wholeRequest) wholeRequest.length
    (by decide) (by decide), arrived_filled (by decide)]
  refine ⟨by decide, fun _ _ => ⟨?_, fun _ => ⟨?_, fun _ => ⟨?_, fun _ =>
    ⟨?_, trivial⟩⟩⟩⟩⟩
  · show fieldAt wholeRequest .serial (navtoAt wholeRequest + 6) + 7 + 15
      ≤ wholeRequest.length + 1
    decide +kernel
  · show fieldAt wholeRequest .md5 (navtoAt wholeRequest + 6) + 4 + 32
      ≤ wholeRequest.length + 1
    decide +kernel
  · exact Or.inl ⟨80, by decide +kernel, by decide +kernel, by decide⟩
  · exact Or.inl ⟨93, by decide +kernel, by decide +kernel, by decide⟩

theorem not_isolated :
    ¬ ∀ (c : CClient) (ulen : Nat), 0 < ulen → c.offset + ulen ≤ MAXBUF →
      Isolated c ulen := by
  intro hall
  have hiso := (hall (blank.filled cutRequest) cutRequest.length
    (by decide) (by decide)).inside (by decide) (by decide)
  rw [arrived_filled (by decide)] at hiso
  have hserial : fieldAt cutRequest .serial (navtoAt cutRequest + 6) + 7
      + 15 ≤ cutRequest.length + 1 :=
    (hiso.2 (by decide +kernel) (by decide +kernel)).1
  exact absurd hserial (by decide +kernel)

end CorrectGps.CClient
