/-
What the parser stores in `xbaidu` and `ybaidu`, and what
`chang2uint` does with it.

# The text

A coordinate is stored only if a delimiter comes among its first
`GPS_LEN` bytes, so it has ten bytes at most, none of them a delimiter;
its member holds it with a NUL behind it when the call returns
(`parse_stored`).

# The buffer of the conversion

Nothing but the text and the second decimal stops the copy into `ui`, so
whether it stays in its first nine bytes is a matter of the text's
length. With a dot among them nine of ten bytes are copied at most,
without one all ten are, and no NUL is left (`keyInside_iff`).
-/
import CorrectGps.Proofs.Parse
import CorrectGps.Tools

namespace CorrectGps

open Lib

/-- `xbaidu` and `ybaidu`. -/
def Field.IsCoordinate (f : Field) : Prop := f = .xbaidu ∨ f = .ybaidu

namespace CClient

variable {c c' c₁ : CClient} {effects : List Effect} {f g : Field}
variable {v : List UInt8}

-- ============================================================== the text

/-- A coordinate, stored: ten bytes at most without a delimiter, in the
member with a NUL behind them. -/
def CoordinateIn (c : CClient) (f : Field) (v : List UInt8) : Prop :=
  v.length < GPS_LEN ∧ (∀ b ∈ v, isDelimiter b = false)
    ∧ (v ++ [0]) <+: c.member f

/-- What is stored was read up to a delimiter. -/
theorem storeCoordinate_stored {x : Nat}
    (hf : f.IsCoordinate)
    (hv : .stored g v ∈ (c.storeCoordinate f x).2) :
    g = f ∧ CoordinateIn (c.storeCoordinate f x).1 f v := by
  unfold storeCoordinate at hv ⊢
  simp only at hv ⊢
  split at hv
  · next hdot =>
    rw [if_pos hdot]
    have hge : x ≤ scan (fun d => isDelimiter (c.mem.getD d 0)) GPS_LEN x :=
      scan_ge GPS_LEN x
    obtain ⟨rfl, rfl⟩ : g = f ∧ v = slice c.mem x
        (scan (fun d => isDelimiter (c.mem.getD d 0)) GPS_LEN x - x) := by
      simpa [storeText] using hv
    have hlen : (slice c.mem x (scan (fun d => isDelimiter
        (c.mem.getD d 0)) GPS_LEN x - x)).length < GPS_LEN := by
      unfold slice
      rw [List.length_take]
      omega
    refine ⟨rfl, hlen, ?_, ?_⟩
    · intro b hb
      obtain ⟨k, hk, rfl⟩ := List.getElem_of_mem hb
      have hk' := hk
      unfold slice at hk'
      rw [List.length_take, List.length_drop] at hk'
      have hbefore : x + k
          < scan (fun d => isDelimiter (c.mem.getD d 0)) GPS_LEN x := by
        omega
      have hmiss : isDelimiter (c.mem.getD (x + k) 0) = false :=
        scan_miss (Nat.le_add_right x k) hbefore
      rw [List.getD_eq_getElem _ 0 (by omega)] at hmiss
      simpa [slice] using hmiss
    · apply put_member
      rcases hf with rfl | rfl
      · exact hlen
      · exact hlen
  · cases hv

/-- A search changes its own member only. -/
theorem getField_sameBut {j len : Nat} {e : List Effect}
    (h : c.getField f j len = some (c₁, e)) : SameBut c [f] c₁ := by
  unfold getField at h
  simp only at h
  split at h
  · have hsame := storeField_sameBut c f
      (scan (fun x => f.name.at (c.mem.drop x)) (len - j) j + f.skip)
    rw [Option.some.inj h] at hsame
    exact hsame
  · cases h

/-- The search for a field stores nothing but this field. -/
theorem getField_stored {j len : Nat} {e : List Effect}
    (h : c.getField g j len = some (c₁, e)) (hf : f.IsCoordinate)
    (hv : .stored f v ∈ e) : f = g ∧ CoordinateIn c₁ f v := by
  unfold getField at h
  simp only at h
  split at h
  · generalize scan (fun x => g.name.at (c.mem.drop x)) (len - j) j
      + g.skip = x at h
    have hc₁ : c₁ = (c.storeField g x).1 :=
      (congrArg Prod.fst (Option.some.inj h)).symm
    have he : e = (c.storeField g x).2 :=
      (congrArg Prod.snd (Option.some.inj h)).symm
    rw [he] at hv
    rw [hc₁]
    cases g with
    | serial =>
        obtain ⟨hfg, -⟩ : f = .serial ∧ v = slice c.mem x SERIAL_LEN := by
          simpa [storeField, storeText] using hv
        rcases hf with rfl | rfl <;> cases hfg
    | md5 =>
        obtain ⟨hfg, -⟩ : f = .md5 ∧ v = slice c.mem x MD5_LEN := by
          simpa [storeField, storeText] using hv
        rcases hf with rfl | rfl <;> cases hfg
    | xbaidu =>
        obtain ⟨rfl, hin⟩ := storeCoordinate_stored (Or.inl rfl) hv
        exact ⟨rfl, hin⟩
    | ybaidu =>
        obtain ⟨rfl, hin⟩ := storeCoordinate_stored (Or.inr rfl) hv
        exact ⟨rfl, hin⟩
  · cases h

/-- Another field's pass leaves a stored coordinate where it is. -/
theorem CoordinateIn.sameBut {fs : List Field} (h : CoordinateIn c f v)
    (hsame : SameBut c fs c₁) (hf : f ∉ fs) : CoordinateIn c₁ f v := by
  obtain ⟨hlen, hbytes, hfront⟩ := h
  rw [← hsame.member f hf] at hfront
  exact ⟨hlen, hbytes, hfront⟩

/-- The branch of an entire request: a coordinate it stores is in its
member at the end. -/
theorem takeFields_stored {j len : Nat} (hf : f.IsCoordinate)
    (h : c.takeFields j len = .ok (c', effects))
    (hv : .stored f v ∈ effects) : CoordinateIn c' f v := by
  have hserial : f ≠ .serial := by
    rcases hf with rfl | rfl <;> simp
  have hmd5 : f ≠ .md5 := by
    rcases hf with rfl | rfl <;> simp
  cases h₁ : c.getField .serial j len with
  | none =>
      rw [takeFields_serial h₁] at h
      cases h
  | some r₁ =>
    cases h₂ : r₁.1.getField .md5 j len with
    | none =>
        rw [takeFields_md5 h₁ h₂] at h
        cases h
    | some r₂ =>
      cases h₃ : r₂.1.getField .xbaidu j len with
      | none =>
          rw [takeFields_xbaidu h₁ h₂ h₃] at h
          cases h
      | some r₃ =>
        rw [takeFields_of h₁ h₂ h₃] at h
        -- the last pass, done or not
        obtain ⟨hlast, hsame⟩ : (∀ {v}, .stored f v
              ∈ ((r₃.1.getField .ybaidu j len).getD (r₃.1, [])).2 →
            CoordinateIn ((r₃.1.getField .ybaidu j len).getD
              (r₃.1, [])).1 f v)
            ∧ SameBut r₃.1 [.ybaidu]
              ((r₃.1.getField .ybaidu j len).getD (r₃.1, [])).1 := by
          cases h₄ : r₃.1.getField .ybaidu j len with
          | none =>
              refine ⟨?_, SameBut.refl _ _⟩
              intro v hv
              cases hv
          | some r₄ =>
              refine ⟨fun hv => ?_, getField_sameBut h₄⟩
              obtain ⟨rfl, hin⟩ := getField_stored h₄ hf hv
              exact hin
        have hin : CoordinateIn ((r₃.1.getField .ybaidu j len).getD
            (r₃.1, [])).1 f v := by
          cases h
          simp only [List.mem_append, List.mem_singleton, reduceCtorEq,
            or_false] at hv
          rcases hv with hv | hv | hv | hv
          · exact absurd (getField_stored h₁ hf hv).1 hserial
          · exact absurd (getField_stored h₂ hf hv).1 hmd5
          · obtain ⟨rfl, hin⟩ := getField_stored h₃ hf hv
            exact hin.sameBut hsame (by simp)
          · exact hlast hv
        cases h
        -- the status is no field's member
        rcases hf with rfl | rfl <;> exact hin

/-- A coordinate a call stores is in its member when the call
returns. -/
theorem parse_stored {ulen : Nat} (hf : f.IsCoordinate)
    (h : c.parse ulen = .ok (c', effects))
    (hv : .stored f v ∈ effects) : CoordinateIn c' f v := by
  unfold parse at h
  split at h
  · simp only at h
    unfold parseAt at h
    split at h
    · simp only at h
      split at h
      · cases h
        cases hv
      · exact takeFields_stored hf h hv
    · cases h
      cases hv
  · cases h
    cases hv

/-- The string in the member: the stored bytes up to the first NUL. -/
theorem CoordinateIn.str (h : CoordinateIn c f v) :
    c.str f = v.takeWhile fun b => b != 0 := by
  obtain ⟨-, -, back, hback⟩ := h
  unfold CClient.str
  rw [← hback, List.append_assoc]
  exact takeWhile_stop (by simp) v back

-- ======================================== the buffer of the conversion

/-- The copy writes to the first nine places of `ui` only, so a NUL is
left behind it and the text has a key. -/
def KeyInside (s : List UInt8) : Prop :=
  (keyBytes 0 false s).length ≤ 9 ∧ (chang2uint s).isSome

/-- No dot is copied. -/
theorem keyBytes_length_le (j : Nat) (dot : Bool) (s : List UInt8) :
    (keyBytes j dot s).length ≤ (s.filter fun b => b != 46).length := by
  induction s generalizing j dot with
  | nil => exact Nat.le_refl 0
  | cons b s ih =>
      rw [keyBytes]
      split
      · exact Nat.zero_le _
      · split
        · next hdot =>
          rw [List.filter_cons_of_neg (by simp [hdot])]
          exact ih 1 true
        · next hdot =>
          rw [List.filter_cons_of_pos (by simp [hdot])]
          exact Nat.succ_le_succ (ih _ _)

/-- Without a dot everything is. -/
theorem keyBytes_eq {s : List UInt8} (hnul : 0 ∉ s) (hdot : 46 ∉ s) :
    keyBytes 0 false s = s := by
  induction s with
  | nil => rfl
  | cons b s ih =>
      rw [List.mem_cons, not_or] at hnul hdot
      rw [keyBytes, if_neg (by simp [Ne.symm hnul.1]),
        if_neg (Ne.symm hdot.1), if_neg (by simp), ih hnul.2 hdot.2]

theorem keyInside_iff_length (s : List UInt8) :
    KeyInside s ↔ (keyBytes 0 false s).length ≤ 9 := by
  unfold KeyInside chang2uint
  refine ⟨fun h => h.1, fun h => ⟨h, ?_⟩⟩
  simp only
  rw [if_pos (by omega)]
  rfl

/-- A text without a NUL, of ten bytes at most, fits exactly if it is
shorter or has a dot. -/
theorem keyInside_text {s : List UInt8} (hnul : 0 ∉ s)
    (hlen : s.length ≤ 10) :
    KeyInside s ↔ s.length < 10 ∨ 46 ∈ s := by
  rw [keyInside_iff_length]
  have hle := keyBytes_length_le 0 false s
  have hfilter := List.length_filter_le (fun b : UInt8 => b != 46) s
  by_cases hdot : 46 ∈ s
  · refine iff_of_true ?_ (Or.inr hdot)
    -- the dot itself is left out
    have hlt : (s.filter fun b => b != 46).length < s.length := by
      apply List.length_filter_lt_length_iff_exists.mpr
      exact ⟨46, hdot, by simp⟩
    omega
  · rw [keyBytes_eq hnul hdot, or_iff_left hdot]
    omega

/-- Of the strings `parse` stores in `xbaidu` and `ybaidu`, those of ten
bytes without a dot overrun the buffer of the conversion, and no
others. -/
theorem keyInside_iff (c : CClient) (ulen : Nat) (c' : CClient)
    (effects : List Effect) (f : Field) (v : List UInt8)
    (hok : c.parse ulen = .ok (c', effects)) (hf : f.IsCoordinate)
    (hv : .stored f v ∈ effects) :
    KeyInside (c'.str f) ↔ (c'.str f).length < 10 ∨ 46 ∈ c'.str f := by
  have hin := parse_stored hf hok hv
  have hlt : v.length < 11 := hin.1
  have hprefix : (v.takeWhile fun b => b != 0).length ≤ v.length :=
    (List.takeWhile_prefix _).length_le
  apply keyInside_text
  · rw [hin.str]
    intro hnul
    have := List.mem_takeWhile_imp hnul
    simp at this
  · rw [hin.str]
    omega

/-- A value of an entire request is stored. -/
theorem parse_value {chunk : List UInt8} (hne : chunk ≠ [])
    (hfit : chunk.length ≤ MAXBUF) (hfull : Completes chunk)
    (hnames : NamesPresent chunk (navtoAt chunk + 6))
    (hvalue : IsValue chunk (navtoAt chunk + 6) f v) :
    ∃ c' effects,
      ((blank.ini 5).filled chunk).parse chunk.length = .ok (c', effects)
        ∧ .stored f v ∈ effects := by
  have hkept : (blank.ini 5).kept ++ chunk = chunk := by
    rw [kept_ini, List.nil_append]
  have hsent : Receivable (blank.ini 5) chunk := by
    refine ⟨hne, ?_⟩
    show 0 + chunk.length ≤ MAXBUF
    omega
  obtain ⟨c', effects, hok, -, -, -, -, hreads⟩ := receive_completes hsent
    (by rwa [hkept]) (by rwa [hkept])
  rw [hkept] at hreads
  exact ⟨c', effects, hok, (hreads f v hvalue.reads).1⟩

theorem clean_of_all (h : v.all inValue = true) :
    ∀ b ∈ v, isDelimiter b = false := by
  intro b hb
  simpa [inValue] using List.all_eq_true.mp h b hb

/-- A request with this longitude. -/
def requestWithX (x : String) : List UInt8 :=
  bytes ("navto?serial=356823032255122".toList
    ++ ("&md5=2eb399b9588b1ac2ccc35dce6f266033".toList
      ++ ("&xbaidu=".toList ++ (x.toList ++ "&ybaidu=22.54 HTTP".toList))))

theorem keyInside_tenBytes :
    ∃ c' effects, ((blank.ini 5).filled (requestWithX "114.734278")).parse
        (requestWithX "114.734278").length = .ok (c', effects)
      ∧ (KeyInside (c'.str .xbaidu)
        ↔ (c'.str .xbaidu).length < 10 ∨ 46 ∈ c'.str .xbaidu) := by
  have hvalue : IsValue (requestWithX "114.734278")
      (navtoAt (requestWithX "114.734278") + 6) .xbaidu
      (bytes "114.734278".toList) :=
    ⟨by decide +kernel, by decide +kernel, 38,
      bytes "ybaidu=22.54 HTTP".toList, by decide +kernel, by decide,
      clean_of_all (by decide), by decide⟩
  obtain ⟨c', effects, hok, hv⟩ := parse_value (by decide +kernel)
    (by decide +kernel) (by decide +kernel) (by decide +kernel) hvalue
  exact ⟨c', effects, hok, keyInside_iff _ _ c' effects .xbaidu _ hok
    (Or.inl rfl) hv⟩

/-- Ten digits: all of them are copied. -/
theorem not_keyInside :
    ¬ ∀ (c : CClient) (ulen : Nat) (c' : CClient) (effects : List Effect)
      (f : Field) (v : List UInt8), c.parse ulen = .ok (c', effects) →
      f.IsCoordinate → .stored f v ∈ effects → KeyInside (c'.str f) := by
  intro hall
  have hvalue : IsValue (requestWithX "1234567890")
      (navtoAt (requestWithX "1234567890") + 6) .xbaidu
      (bytes "1234567890".toList) :=
    ⟨by decide +kernel, by decide +kernel, 38,
      bytes "ybaidu=22.54 HTTP".toList, by decide +kernel, by decide,
      clean_of_all (by decide), by decide⟩
  obtain ⟨c', effects, hok, hv⟩ := parse_value (by decide +kernel)
    (by decide +kernel) (by decide +kernel) (by decide +kernel) hvalue
  have hinside := hall _ _ c' effects .xbaidu _ hok (Or.inl rfl) hv
  rw [(parse_stored (Or.inl rfl) hok hv).str, keyInside_iff_length]
    at hinside
  exact absurd hinside (by decide)

end CClient

end CorrectGps
