/-
What one `receive` does, said about the text it parses.

# The text

The parser sees `text`, the kept bytes and the new chunk, closed by a
NUL. No name accepts a NUL, so the searches are searches in `text`
(`scan_loaded`), whatever stands behind it: where `navto` is
(`navtoAt`), where a field is (`fieldAt`), and which of the three
branches is taken (`receive_eq`) depend on `text` alone. The values do
not — they are copied from memory — unless they lie inside it
(`Reads`).

# The entire request

`takeFields` is a pass over the four fields (`stages`), each of which
changes its own member and leaves the buffer as it is. So what the call
leaves of a field is what the field's own stage left (`mem_stages`), and
a value inside the text is stored as it stands there
(`receive_completes`).
-/
import CorrectGps.CClient
import CorrectGps.Lib.Trans

namespace CorrectGps

open Lib

/-- Lengths a field can be stored with. -/
def Field.Fits (f : Field) (n : Nat) : Prop :=
  match f with
  | .serial => n = SERIAL_LEN
  | .md5 => n = MD5_LEN
  | .xbaidu => n < GPS_LEN
  | .ybaidu => n < GPS_LEN

namespace CClient

variable {c d : CClient} {text rest chunk : List UInt8} {f g : Field}

-- ================================================================== text

/-- The bytes of earlier calls that the next call parses again. -/
def kept (c : CClient) : List UInt8 := c.iobuf.val.take c.offset

/-- The first `navto` in a text, its length if there is none. -/
def navtoAt (text : List UInt8) : Nat :=
  scan (fun i => navto.at (text.drop i)) text.length 0

/-- The first place from `j` on with the name of `f`, the length of the
text if there is none. -/
def fieldAt (text : List UInt8) (f : Field) (j : Nat) : Nat :=
  scan (fun x => f.name.at (text.drop x)) (text.length - j) j

/-- The parser takes the request in this text for an entire one. -/
def Completes (text : List UInt8) : Prop :=
  navtoAt text + 6 + IN_DATA_LEN ≤ text.length

instance (text : List UInt8) : Decidable (Completes text) :=
  inferInstanceAs (Decidable (_ ≤ _))

theorem navto_rejects_nul : navto.Rejects 0 := by decide

theorem name_rejects_nul (f : Field) : f.name.Rejects 0 := by
  cases f <;> decide

/-- The text stands in the buffer, terminated. -/
def Loaded (c : CClient) (text rest : List UInt8) : Prop :=
  c.iobuf.val = text ++ 0 :: rest

theorem Loaded.mem (h : c.Loaded text rest) :
    c.mem = text ++ 0 :: (rest ++ (c.serial.val ++ c.md5.val)) := by
  unfold CClient.mem
  rw [h, List.append_assoc, List.cons_append]

/-- A search in memory is a search in the text. -/
theorem scan_loaded (h : c.Loaded text rest) {q : Pat} (hq : q.Rejects 0)
    {k x : Nat} (hx : x + k ≤ text.length) :
    scan (fun x => q.at (c.mem.drop x)) k x
      = scan (fun x => q.at (text.drop x)) k x := by
  apply scan_congr
  intro y _ hy
  rw [h.mem, List.drop_append_of_le_length (by omega), Pat.at_append hq]

/-- What `recv` and the terminator leave in the buffer. -/
def loaded (c : CClient) (chunk : List UInt8) : CClient :=
  { c.filled chunk with
    iobuf := blit (c.filled chunk).iobuf (chunk.length + c.offset) [0] }

theorem kept_length (h : c.offset ≤ MAXBUF) : c.kept.length = c.offset := by
  unfold kept
  rw [List.length_take, c.iobuf.property]
  omega

theorem loaded_text (hfit : c.offset + chunk.length ≤ MAXBUF) :
    ∃ rest, (c.loaded chunk).Loaded (c.kept ++ chunk) rest := by
  have hkept : c.kept.length = c.offset := kept_length (by omega)
  have hsplit : c.iobuf.val = c.kept ++ c.iobuf.val.drop c.offset :=
    (List.take_append_drop c.offset c.iobuf.val).symm
  have hfilled : (c.filled chunk).iobuf.val = (c.kept ++ chunk)
      ++ (c.iobuf.val.drop c.offset).drop chunk.length := by
    have hblit : (blit c.iobuf c.kept.length chunk).val = c.kept
        ++ (chunk ++ (c.iobuf.val.drop c.offset).drop chunk.length) :=
      blit_append hsplit (by omega)
    rw [hkept] at hblit
    rw [List.append_assoc]
    exact hblit
  have hlen : (c.kept ++ chunk).length = chunk.length + c.offset := by
    rw [List.length_append, hkept, Nat.add_comm]
  have hroom : (c.kept ++ chunk).length + [(0 : UInt8)].length
      ≤ MAXBUF + 1 := by
    rw [hlen, List.length_singleton]
    omega
  have hend := blit_append hfilled hroom
  rw [hlen] at hend
  exact ⟨_, hend⟩

-- ============================================================= the branch

/-- Where the loop stops is decided by the text. -/
theorem scan_received (hfit : c.offset + chunk.length ≤ MAXBUF) :
    scan (fun i => navto.at ((c.loaded chunk).mem.drop i))
      (chunk.length + c.offset) 0 = navtoAt (c.kept ++ chunk) := by
  obtain ⟨rest, hloaded⟩ := loaded_text hfit
  have hlen : (c.kept ++ chunk).length = chunk.length + c.offset := by
    rw [List.length_append, kept_length (by omega), Nat.add_comm]
  rw [← hlen]
  exact scan_loaded hloaded navto_rejects_nul (by omega)

theorem receive_eq (hfit : c.offset + chunk.length ≤ MAXBUF)
    (hne : chunk ≠ []) :
    c.receive (.data chunk)
      = (c.loaded chunk).parseAt (navtoAt (c.kept ++ chunk))
        (c.kept ++ chunk).length := by
  have hlen : (c.kept ++ chunk).length = chunk.length + c.offset := by
    rw [List.length_append, kept_length (by omega), Nat.add_comm]
  show (c.filled chunk).parse chunk.length = _
  unfold parse
  rw [if_pos (List.length_pos_iff.mpr hne), hlen, ← scan_received hfit]
  rfl

/-- The branch of an entire request. -/
theorem parseAt_completes (h : Completes text) :
    d.parseAt (navtoAt text) text.length
      = d.takeFields (navtoAt text + 6) text.length := by
  unfold Completes at h
  unfold parseAt
  rw [if_pos (by omega)]
  exact if_neg (by omega)

/-- The branch of a request that goes on. -/
theorem parseAt_more (h : ¬ Completes text)
    (hnavto : navtoAt text < text.length) :
    d.parseAt (navtoAt text) text.length
      = .ok (d.keepRest (navtoAt text) text.length, []) := by
  unfold Completes at h
  unfold parseAt
  rw [if_pos hnavto]
  exact if_pos (by omega)

/-- No request in sight. -/
theorem parseAt_none (hnavto : ¬ navtoAt text < text.length) :
    d.parseAt (navtoAt text) text.length = .ok (d, []) := by
  unfold parseAt
  rw [if_neg hnavto]

-- ============================================================= the fields

/-- `d` is `c` but for the members of these fields. -/
structure SameBut (c : CClient) (fs : List Field) (d : CClient) :
    Prop where
  iobuf : d.iobuf = c.iobuf
  offset : d.offset = c.offset
  fd : d.fd = c.fd
  member : ∀ g, g ∉ fs → d.member g = c.member g

theorem SameBut.refl (c : CClient) (fs : List Field) : SameBut c fs c :=
  ⟨rfl, rfl, rfl, fun _ _ => rfl⟩

theorem SameBut.trans {e : CClient} {fs gs : List Field}
    (h : SameBut c fs d) (h' : SameBut d gs e) :
    SameBut c (fs ++ gs) e where
  iobuf := h'.iobuf.trans h.iobuf
  offset := h'.offset.trans h.offset
  fd := h'.fd.trans h.fd
  member := fun g hg => by
    rw [List.mem_append, not_or] at hg
    rw [h'.member g hg.2, h.member g hg.1]

theorem put_sameBut (c : CClient) (f : Field) (v : List UInt8) :
    SameBut c [f] (c.put f v) where
  iobuf := by cases f <;> rfl
  offset := by cases f <;> rfl
  fd := by cases f <;> rfl
  member := fun g hg => by
    have hne : g ≠ f := fun he => hg (List.mem_singleton.mpr he)
    cases f <;> cases g <;> first | rfl | exact absurd rfl hne

theorem storeCoordinate_sameBut (c : CClient) (f : Field) (x : Nat) :
    SameBut c [f] (c.storeCoordinate f x).1 := by
  unfold storeCoordinate
  dsimp only
  split
  · exact put_sameBut c f _
  · exact SameBut.refl c [f]

/-- Storing a field leaves everything but its member alone. -/
theorem storeField_sameBut (c : CClient) (f : Field) (x : Nat) :
    SameBut c [f] (c.storeField f x).1 := by
  cases f with
  | serial => exact put_sameBut c .serial _
  | md5 => exact put_sameBut c .md5 _
  | xbaidu => exact storeCoordinate_sameBut c .xbaidu x
  | ybaidu => exact storeCoordinate_sameBut c .ybaidu x

/-- One field of a text with the fields from `j` on: stored if its name
is found. -/
def stage (c : CClient) (text : List UInt8) (j : Nat) (f : Field) :
    CClient × List Effect :=
  if fieldAt text f j < text.length then
    c.storeField f (fieldAt text f j + f.skip)
  else (c, [])

/-- Several fields, one after the other. -/
def stages (c : CClient) (text : List UInt8) (j : Nat) :
    List Field → CClient × List Effect
  | [] => (c, [])
  | f :: fs =>
      let r := stage c text j f
      let r' := stages r.1 text j fs
      (r'.1, r.2 ++ r'.2)

theorem stage_sameBut (c : CClient) (text : List UInt8) (j : Nat)
    (f : Field) : SameBut c [f] (stage c text j f).1 := by
  unfold stage
  split
  · exact storeField_sameBut c f _
  · exact SameBut.refl c [f]

theorem Loaded.stage (h : c.Loaded text rest) (j : Nat) (f : Field) :
    (stage c text j f).1.Loaded text rest := by
  unfold Loaded
  rw [(stage_sameBut c text j f).iobuf]
  exact h

theorem stages_sameBut (c : CClient) (text : List UInt8) (j : Nat)
    (fs : List Field) : SameBut c fs (stages c text j fs).1 := by
  induction fs generalizing c with
  | nil => exact SameBut.refl c []
  | cons f fs ih => exact (stage_sameBut c text j f).trans (ih _)

/-- What a pass over the fields leaves of one of them is what its own
stage left. -/
theorem mem_stages {fs : List Field} (hnodup : fs.Nodup) (hf : f ∈ fs)
    (h : c.Loaded text rest) (j : Nat) :
    ∃ d : CClient, d.Loaded text rest
      ∧ (stages c text j fs).1.member f = (stage d text j f).1.member f
      ∧ (stage d text j f).2 ⊆ (stages c text j fs).2 := by
  induction fs generalizing c with
  | nil => cases hf
  | cons g fs ih =>
      obtain ⟨hg, hnodup'⟩ := List.nodup_cons.mp hnodup
      rcases List.mem_cons.mp hf with hfg | hf'
      · subst hfg
        refine ⟨c, h, ?_, List.subset_append_left _ _⟩
        exact (stages_sameBut _ text j fs).member f hg
      · obtain ⟨d, hd, hmember, heffects⟩ := ih hnodup' hf' (h.stage j g)
        exact ⟨d, hd, hmember,
          List.Subset.trans heffects (List.subset_append_right _ _)⟩

/-- The search for a field in memory is its stage. -/
theorem getField_eq (h : c.Loaded text rest) {j : Nat}
    (hj : j ≤ text.length) (f : Field) :
    c.getField f j text.length
      = if fieldAt text f j < text.length then some (stage c text j f)
        else none := by
  have hscan : scan (fun x => f.name.at (c.mem.drop x)) (text.length - j) j
      = fieldAt text f j :=
    scan_loaded h (name_rejects_nul f) (by omega)
  show (if scan (fun x => f.name.at (c.mem.drop x)) (text.length - j) j
      < text.length then some (c.storeField f
        (scan (fun x => f.name.at (c.mem.drop x)) (text.length - j) j
          + f.skip)) else none) = _
  rw [hscan]
  by_cases hx : fieldAt text f j < text.length
  · unfold stage
    rw [if_pos hx, if_pos hx, if_pos hx]
  · rw [if_neg hx, if_neg hx]

/-- The fields whose absence is an assertion failure. -/
def asserted : List Field := [.serial, .md5, .xbaidu]

/-- The names of these fields are all in the text, from `j` on. -/
def NamesPresent (text : List UInt8) (j : Nat) : Prop :=
  ∀ f ∈ asserted, fieldAt text f j < text.length

instance (text : List UInt8) (j : Nat) : Decidable (NamesPresent text j) :=
  inferInstanceAs (Decidable (∀ f ∈ asserted, _))

/-- The four fields, in the order of the source. -/
def fields : List Field := [.serial, .md5, .xbaidu, .ybaidu]

theorem mem_fields (f : Field) : f ∈ fields := by
  cases f <;> decide

/-- The branch of an entire request, once the three searches have
succeeded. -/
theorem takeFields_of {j len : Nat} {r₁ r₂ r₃ : CClient × List Effect}
    (h₁ : c.getField .serial j len = some r₁)
    (h₂ : r₁.1.getField .md5 j len = some r₂)
    (h₃ : r₂.1.getField .xbaidu j len = some r₃) :
    c.takeFields j len
      = .ok ({ ((r₃.1.getField .ybaidu j len).getD (r₃.1, [])).1 with
          status := 1 },
        r₁.2 ++ (r₂.2 ++ (r₃.2
          ++ (((r₃.1.getField .ybaidu j len).getD (r₃.1, [])).2
            ++ [.notified
              ((r₃.1.getField .ybaidu j len).getD (r₃.1, [])).1.fd])))) := by
  obtain ⟨c₁, e₁⟩ := r₁
  obtain ⟨c₂, e₂⟩ := r₂
  obtain ⟨c₃, e₃⟩ := r₃
  unfold takeFields
  rw [h₁]
  simp only
  rw [h₂]
  simp only
  rw [h₃]

/-- The three assertions. -/
theorem takeFields_serial {j len : Nat}
    (h₁ : c.getField .serial j len = none) :
    c.takeFields j len = .error .serial := by
  unfold takeFields
  rw [h₁]

theorem takeFields_md5 {j len : Nat} {r₁ : CClient × List Effect}
    (h₁ : c.getField .serial j len = some r₁)
    (h₂ : r₁.1.getField .md5 j len = none) :
    c.takeFields j len = .error .md5 := by
  obtain ⟨c₁, e₁⟩ := r₁
  unfold takeFields
  rw [h₁]
  simp only
  rw [h₂]

theorem takeFields_xbaidu {j len : Nat} {r₁ r₂ : CClient × List Effect}
    (h₁ : c.getField .serial j len = some r₁)
    (h₂ : r₁.1.getField .md5 j len = some r₂)
    (h₃ : r₂.1.getField .xbaidu j len = none) :
    c.takeFields j len = .error .xbaidu := by
  obtain ⟨c₁, e₁⟩ := r₁
  obtain ⟨c₂, e₂⟩ := r₂
  unfold takeFields
  rw [h₁]
  simp only
  rw [h₂]
  simp only
  rw [h₃]

/-- A search in a loaded buffer that succeeds, one that fails, and one
that may do either. -/
theorem getField_some (h : c.Loaded text rest) {j : Nat}
    (hj : j ≤ text.length) (hf : fieldAt text f j < text.length) :
    c.getField f j text.length = some (stage c text j f) := by
  rw [getField_eq h hj, if_pos hf]

theorem getField_none (h : c.Loaded text rest) {j : Nat}
    (hj : j ≤ text.length) (hf : ¬ fieldAt text f j < text.length) :
    c.getField f j text.length = none := by
  rw [getField_eq h hj, if_neg hf]

theorem getField_getD (h : c.Loaded text rest) {j : Nat}
    (hj : j ≤ text.length) (f : Field) :
    (c.getField f j text.length).getD (c, []) = stage c text j f := by
  rw [getField_eq h hj]
  unfold stage
  split
  · rfl
  · rfl

/-- With the asserted names there, an entire request is a pass over the
four fields. -/
theorem takeFields_ok (h : c.Loaded text rest) {j : Nat}
    (hj : j ≤ text.length) (hnames : NamesPresent text j) :
    c.takeFields j text.length
      = .ok ({ (stages c text j fields).1 with status := 1 },
        (stages c text j fields).2 ++ [.notified c.fd]) := by
  have hserial := getField_some h hj (hnames .serial (by decide))
  have h1 := h.stage j .serial
  have hmd5 := getField_some h1 hj (hnames .md5 (by decide))
  have h2 := h1.stage j .md5
  have hxbaidu := getField_some h2 hj (hnames .xbaidu (by decide))
  have h3 := h2.stage j .xbaidu
  have hfd : (stages c text j fields).1.fd = c.fd :=
    (stages_sameBut c text j fields).fd
  rw [takeFields_of hserial hmd5 hxbaidu, getField_getD h3 hj, ← hfd]
  unfold fields
  simp only [stages, List.append_nil, List.append_assoc]

/-- Without one of them, an assertion fails. -/
theorem takeFields_error (h : c.Loaded text rest) {j : Nat}
    (hj : j ≤ text.length) (hnames : ¬ NamesPresent text j) :
    ∃ f, c.takeFields j text.length = .error f := by
  have h1 := h.stage j .serial
  have h2 := h1.stage j .md5
  by_cases hserial : fieldAt text .serial j < text.length
  case neg => exact ⟨_, takeFields_serial (getField_none h hj hserial)⟩
  have hs := getField_some h hj hserial
  by_cases hmd5 : fieldAt text .md5 j < text.length
  case neg => exact ⟨_, takeFields_md5 hs (getField_none h1 hj hmd5)⟩
  have hm := getField_some h1 hj hmd5
  by_cases hxbaidu : fieldAt text .xbaidu j < text.length
  case neg =>
    exact ⟨_, takeFields_xbaidu hs hm (getField_none h2 hj hxbaidu)⟩
  refine absurd ?_ hnames
  intro f hf
  simp only [asserted, List.mem_cons, List.not_mem_nil, or_false] at hf
  rcases hf with rfl | rfl | rfl
  · exact hserial
  · exact hmd5
  · exact hxbaidu

-- ================================================================ values

/-- The value `v` of `f` lies in the text: the fixed number of bytes, or
the bytes before a delimiter that comes soon enough. -/
def Reads (text : List UInt8) (j : Nat) (f : Field) (v : List UInt8) :
    Prop :=
  fieldAt text f j < text.length ∧ f.Fits v.length
    ∧ ∃ tail, text.drop (fieldAt text f j + f.skip) = v ++ tail
      ∧ (f = .xbaidu ∨ f = .ybaidu →
        (∀ b ∈ v, isDelimiter b = false)
          ∧ ∃ d tail', tail = d :: tail' ∧ isDelimiter d = true)

/-- Storing a value puts it, terminated, at the front of the member. -/
theorem put_member (c : CClient) {f : Field} {v : List UInt8}
    (hfits : f.Fits v.length) :
    (v ++ [0]) <+: (c.put f v).member f := by
  have hblit : ∀ {n : Nat} (m : List.Vector UInt8 n), v.length + 1 ≤ n →
      (v ++ [0]) <+: (blit m 0 (v ++ [0])).val := by
    intro n m hn
    rw [blit_zero (by simpa using hn)]
    exact List.prefix_append ..
  cases f with
  | serial =>
      apply hblit c.serial
      rw [show v.length = SERIAL_LEN from hfits]
  | md5 =>
      apply hblit c.md5
      rw [show v.length = MD5_LEN from hfits]
  | xbaidu =>
      apply hblit c.xbaidu
      have hlt : v.length < 11 := hfits
      omega
  | ybaidu =>
      apply hblit c.ybaidu
      have hlt : v.length < 11 := hfits
      omega

/-- The string of a member that begins with a terminated value. -/
theorem str_of_front {v : List UInt8}
    (h : (v ++ [0]) <+: c.member f) :
    c.str f = v.takeWhile fun b => b != 0 := by
  obtain ⟨more, hmember⟩ := h
  unfold str
  rw [← hmember, List.append_assoc]
  exact takeWhile_stop rfl v more

/-- A coordinate in memory up to its delimiter. -/
theorem storeCoordinate_eq {x : Nat} {v back : List UInt8} {d : UInt8}
    (hmem : c.mem.drop x = v ++ d :: back) (hlen : v.length < GPS_LEN)
    (hv : ∀ b ∈ v, isDelimiter b = false) (hd : isDelimiter d = true)
    (f : Field) : c.storeCoordinate f x = c.storeText f x v.length := by
  have hbyte : ∀ k, c.mem.getD (x + k) 0 = (v ++ d :: back).getD k 0 := by
    intro k
    rw [← hmem, List.getD_eq_getElem?_getD, List.getD_eq_getElem?_getD,
      List.getElem?_drop]
  have hscan : scan (fun d => isDelimiter (c.mem.getD d 0)) GPS_LEN x
      = x + v.length := by
    rw [scan_eq_iff (by omega) (by omega)]
    refine ⟨?_, fun _ => ?_⟩
    · intro z hz hlt
      obtain ⟨k, rfl⟩ : ∃ k, z = x + k := ⟨z - x, by omega⟩
      have hk : k < v.length := by omega
      rw [hbyte, List.getD_eq_getElem?_getD, List.getElem?_append_left hk,
        List.getElem?_eq_getElem hk]
      exact hv _ (List.getElem_mem hk)
    · rw [hbyte, List.getD_eq_getElem?_getD,
        List.getElem?_append_right (Nat.le_refl _), Nat.sub_self]
      exact hd
  unfold storeCoordinate
  rw [hscan]
  simp only
  rw [if_pos (by omega), Nat.add_sub_cancel_left]

/-- A value in memory is stored as it stands there. -/
theorem storeText_eq {x : Nat} {v back : List UInt8}
    (hmem : c.mem.drop x = v ++ back) (f : Field) :
    c.storeText f x v.length = (c.put f v, [.stored f v]) := by
  have hslice : slice c.mem x v.length = v := by
    unfold slice
    rw [hmem, List.take_left]
  unfold storeText
  rw [hslice]

/-- A field is where it is, counted from any place before it. -/
theorem fieldAt_drop (text : List UInt8) (i j : Nat) (f : Field) :
    fieldAt text f (i + j) = i + fieldAt (text.drop i) f j := by
  have hlen : text.length - (i + j) = (text.drop i).length - j := by
    rw [List.length_drop]
    omega
  unfold fieldAt
  rw [hlen, scan_shift]
  simp only [List.drop_drop]

theorem reads_drop {i j : Nat} {v : List UInt8} :
    Reads text (i + j) f v ↔ Reads (text.drop i) j f v := by
  unfold Reads
  rw [fieldAt_drop, List.drop_drop, List.length_drop]
  have hlt : i + fieldAt (text.drop i) f j < text.length
      ↔ fieldAt (text.drop i) f j < text.length - i := by omega
  rw [hlt, Nat.add_assoc]

/-- A value that lies in the text begins in the text. -/
theorem Reads.bound {j : Nat} {v : List UInt8} (h : Reads text j f v) :
    fieldAt text f j + f.skip ≤ text.length := by
  obtain ⟨-, hfits, tail, hdrop, hdelimited⟩ := h
  by_contra hbeyond
  rw [List.drop_eq_nil_of_le (by omega)] at hdrop
  obtain ⟨hv, htail⟩ := List.append_eq_nil_iff.mp hdrop.symm
  rw [hv] at hfits
  cases f with
  | serial => cases hfits
  | md5 => cases hfits
  | xbaidu =>
      obtain ⟨-, d, tail', rfl, -⟩ := hdelimited (Or.inl rfl)
      cases htail
  | ybaidu =>
      obtain ⟨-, d, tail', rfl, -⟩ := hdelimited (Or.inr rfl)
      cases htail

/-- A value that lies in the text is stored as it stands there. -/
theorem stage_reads (h : c.Loaded text rest) {j : Nat} {v : List UInt8}
    (hreads : Reads text j f v) :
    (stage c text j f).2 = [.stored f v]
      ∧ (v ++ [0]) <+: (stage c text j f).1.member f := by
  have hx := hreads.bound
  obtain ⟨hfound, hfits, tail, hdrop, hdelimited⟩ := hreads
  -- memory goes on as the text does
  obtain ⟨back, hmem⟩ : ∃ back,
      c.mem.drop (fieldAt text f j + f.skip) = v ++ (tail ++ back) := by
    rw [h.mem, List.drop_append_of_le_length hx, hdrop, List.append_assoc]
    exact ⟨_, rfl⟩
  have hstage : stage c text j f = (c.put f v, [.stored f v]) := by
    unfold stage
    rw [if_pos hfound, ← storeText_eq hmem f]
    cases f with
    | serial =>
        rw [show v.length = SERIAL_LEN from hfits]
        rfl
    | md5 =>
        rw [show v.length = MD5_LEN from hfits]
        rfl
    | xbaidu =>
        obtain ⟨hv, d, tail', rfl, hd⟩ := hdelimited (Or.inl rfl)
        exact storeCoordinate_eq hmem hfits hv hd .xbaidu
    | ybaidu =>
        obtain ⟨hv, d, tail', rfl, hd⟩ := hdelimited (Or.inr rfl)
        exact storeCoordinate_eq hmem hfits hv hd .ybaidu
  rw [hstage]
  exact ⟨rfl, put_member c hfits⟩

-- ============================================================ one receive

/-- What a connection does to its client: receive a chunk. `none` if an
assertion stops the process. -/
def receiveStep (c : CClient) (chunk : List UInt8) : Option CClient :=
  match c.receive (.data chunk) with
  | .ok r => some r.1
  | .error _ => none

/-- `recv` can give this chunk: it is not empty and fits. -/
def Receivable (c : CClient) (chunk : List UInt8) : Prop :=
  chunk ≠ [] ∧ c.offset + chunk.length ≤ MAXBUF

/-- A call on an entire request with the asserted names: what it
returns. -/
theorem receive_completes (h : Receivable c chunk)
    (hfull : Completes (c.kept ++ chunk))
    (hnames : NamesPresent (c.kept ++ chunk)
      (navtoAt (c.kept ++ chunk) + 6)) :
    ∃ c' effects, c.receive (.data chunk) = .ok (c', effects)
      ∧ c'.status = 1 ∧ c'.offset = c.offset ∧ .notified c.fd ∈ effects
      ∧ (∃ rest, c'.Loaded (c.kept ++ chunk) rest)
      ∧ ∀ f v, Reads (c.kept ++ chunk) (navtoAt (c.kept ++ chunk) + 6) f v →
        .stored f v ∈ effects ∧ (v ++ [0]) <+: c'.member f := by
  obtain ⟨hne, hfit⟩ := h
  obtain ⟨rest, hloaded⟩ := loaded_text hfit
  have hj : navtoAt (c.kept ++ chunk) + 6 ≤ (c.kept ++ chunk).length := by
    unfold Completes at hfull
    omega
  obtain ⟨hiobuf, hoffset, -, -⟩ := stages_sameBut (c.loaded chunk)
    (c.kept ++ chunk) (navtoAt (c.kept ++ chunk) + 6) fields
  have hok := takeFields_ok hloaded hj hnames
  rw [← parseAt_completes hfull, ← receive_eq hfit hne] at hok
  refine ⟨_, _, hok, rfl, hoffset, List.mem_append_right _
    List.mem_cons_self, ⟨rest, ?_⟩, ?_⟩
  · exact (congrArg Subtype.val hiobuf).trans hloaded
  intro f v hreads
  obtain ⟨d, hd, hmember, heffects⟩ := mem_stages (by decide) (mem_fields f)
    hloaded (navtoAt (c.kept ++ chunk) + 6)
  obtain ⟨hstored, hfront⟩ := stage_reads hd hreads
  refine ⟨?_, ?_⟩
  · refine List.mem_append_left _ (heffects ?_)
    rw [hstored]
    exact List.mem_cons_self
  · rw [← hmember] at hfront
    -- the status is no field's member
    cases f <;> exact hfront

end CClient

end CorrectGps
