/-
The `memcpy` calls and what they may be used for.

# The table

`append` moves the used rows above the place it makes up by one, so that
two of them overlap. It moves none for a key it finds, and the place
where it looks is the last used slot whose key is not greater. So the
call is legal as long as there are at most two rows, or one of the last
two is not greater, or the key is found (`shifts_iff`).

# The buffer

`parse` moves the unfinished request to the front of the buffer, over
itself if it is longer than what was received before it
(`compacts_iff`).
-/
import CorrectGps.Copies
import CorrectGps.Proofs.Duplicate
import CorrectGps.Proofs.Retain

namespace CorrectGps

open Lib

-- ============================================================= the table

namespace CXArray

variable {a : CXArray} {t : Coffsetdata}

/-- Where the scan has stopped, the block is the one that is moved; the
rest is done in place. -/
theorem placeAt_moves (a : CXArray) (i : Nat) (t : Coffsetdata) :
    (a.shiftAt i t = none ∧ a.placeAt i t ≠ none)
      ∨ ∃ dst src n rest,
        a.shiftAt i t = some (.entries sizeofCoffsetdata dst src n)
          ∧ a.placeAt i t = (a.move dst src n).map rest := by
  unfold shiftAt placeAt
  by_cases hhead : i = 0 ∧ t.x < (a.slot i).x
  · rw [if_pos hhead, if_pos hhead]
    exact Or.inr ⟨_, _, _, _, rfl, rfl⟩
  · rw [if_neg hhead, if_neg hhead]
    by_cases hplace : i ≠ a.index - 1
    · rw [if_pos hplace, if_pos hplace]
      by_cases hkey : (a.slot i).x = t.x
      · rw [if_pos hkey, if_pos hkey]
        exact Or.inl ⟨rfl, Option.some_ne_none _⟩
      · rw [if_neg hkey, if_neg hkey]
        exact Or.inr ⟨_, _, _, _, rfl, rfl⟩
    · rw [if_neg hplace, if_neg hplace]
      exact Or.inl ⟨rfl, Option.some_ne_none _⟩

/-- A call of `append` moves this block, or none. -/
theorem append_moves (h : a.index ≤ ARRAY_COUNT) (t : Coffsetdata) :
    (a.shift t = none ∧ a.append t ≠ none)
      ∨ ∃ dst src n rest,
        a.shift t = some (.entries sizeofCoffsetdata dst src n)
          ∧ a.append t = (a.move dst src n).map rest := by
  unfold shift CXArray.append
  by_cases hzero : a.index = 0
  · rw [if_pos hzero, if_pos hzero]
    exact Or.inl ⟨rfl, Option.some_ne_none _⟩
  · rw [if_neg hzero, if_neg hzero, if_pos (by omega)]
    exact a.placeAt_moves _ t

/-- The shift of a call has two ranges without a common byte. -/
def ShiftsLegally (a : CXArray) (t : Coffsetdata) : Prop :=
  a.index < ARRAY_COUNT → ∀ m, a.shift t = some m → m.Legal

/-- No two rows are to be moved: there are not more than two, or one of
the last two is not greater, or the key is in the last used slot whose key
is not greater. -/
def MovesOneRow (a : CXArray) (t : Coffsetdata) : Prop :=
  a.index < ARRAY_COUNT → a.index ≤ 2
    ∨ (∃ i, a.index ≤ i + 2 ∧ i < a.index ∧ ¬ t.x < (a.slot i).x)
    ∨ ∃ i < a.index, (a.slot i).x = t.x
      ∧ ∀ z, i < z → z < a.index → t.x < (a.slot z).x

/-- Where the scan stops two rows or more below the top. -/
theorem stop_below_iff (h : 2 < a.index) :
    a.stop t + 2 < a.index
      ↔ ∀ i, a.index ≤ i + 2 → i < a.index → t.x < (a.slot i).x := by
  have hle : a.stop t ≤ a.index - 1 := scanDown_le _
  constructor
  · exact fun hlt i hi hin => stop_lt (by omega) hin
  · intro hall
    by_contra hhigh
    have hlt := hall (a.stop t) (by omega) (by omega)
    have hmiss : a.above t (a.stop t) = false :=
      scanDown_miss (show a.stop t ≠ 0 by omega)
    exact above_eq_false_iff.mp hmiss hlt

/-- The key is found where the scan stops. -/
theorem stop_key_iff (h : 0 < a.index) :
    (a.slot (a.stop t)).x = t.x
      ↔ ∃ i < a.index, (a.slot i).x = t.x
        ∧ ∀ z, i < z → z < a.index → t.x < (a.slot z).x := by
  have hle : a.stop t ≤ a.index - 1 := scanDown_le _
  constructor
  · exact fun hkey => ⟨a.stop t, by omega, hkey, fun z => stop_lt⟩
  · intro hfound
    obtain ⟨i, hi, hkey, hz⟩ := hfound
    have hat : a.above t i = false := by
      rw [above_eq_false_iff, hkey]
      exact UInt32.lt_irrefl _
    rw [stop_eq hi hat hz, hkey]

/-- The block that is moved where the scan has stopped. -/
theorem shiftAt_legal_iff {i : Nat} (hi : i < a.index) :
    (∀ m, a.shiftAt i t = some m → m.Legal)
      ↔ a.index ≤ i + 2 ∨ (a.slot i).x = t.x := by
  have hsize : 0 < sizeofCoffsetdata := by decide
  unfold shiftAt
  split
  · next hhead =>
    have hne : (a.slot i).x ≠ t.x := (UInt32.ne_of_lt hhead.2).symm
    have hlegal := BlockCopy.entries_up_legal hsize i (a.index - i - 1)
    simp only [Option.some.injEq, forall_eq', hlegal, hne, or_false]
    omega
  · split
    · split
      · next hkey => simp [hkey]
      · next hkey =>
        have hlegal := BlockCopy.entries_up_legal hsize (i + 1)
          (a.index - i - 1)
        simp only [Option.some.injEq, forall_eq', hlegal, hkey, or_false]
        omega
    · simp only [reduceCtorEq, false_imp_iff, implies_true, true_iff]
      omega

/-- One call. -/
theorem shifts_iff (a : CXArray) (t : Coffsetdata) :
    a.ShiftsLegally t ↔ a.MovesOneRow t := by
  refine forall_congr' fun _ => ?_
  rcases Nat.eq_zero_or_pos a.index with hzero | hpos
  · have hnone : a.shift t = none := if_pos hzero
    rw [hnone, hzero]
    simp
  · have hle : a.stop t ≤ a.index - 1 := scanDown_le _
    have hshift : a.shift t = a.shiftAt (a.stop t) t := if_neg (by omega)
    rw [hshift, shiftAt_legal_iff (by omega), stop_key_iff hpos, ← or_assoc]
    refine or_congr ?_ Iff.rfl
    by_cases hfew : a.index ≤ 2
    · exact iff_of_true (by omega) (Or.inl hfew)
    · have hbelow := stop_below_iff (t := t) (Nat.lt_of_not_le hfew)
      constructor
      · intro hhigh
        refine Or.inr ?_
        by_contra hnone
        push Not at hnone
        have hlow := hbelow.mpr hnone
        omega
      · intro h
        rcases h with h | ⟨i, hi, hin, hnot⟩
        · exact absurd h hfew
        · by_contra hlow
          exact hnot (hbelow.mp (Nat.lt_of_not_le hlow) i hi hin)

end CXArray

-- ============================================================ the buffer

namespace CClient

variable {c : CClient} {text chunk : List UInt8}

/-- `parse` moves this block to the front and does nothing else to the
object but for `offset` and two terminators. -/
theorem parse_moves {ulen : Nat} {m : BlockCopy}
    (hm : c.compaction ulen = some m) :
    m.dst = 0 ∧ c.parse ulen
      = .ok ({ c with iobuf := blit c.iobuf (ulen + c.offset) [0] }.keepRest
        m.src (m.src + m.len), []) := by
  unfold compaction at hm
  unfold parse
  split at hm
  · next hpos =>
    rw [if_pos hpos]
    simp only at hm ⊢
    generalize scan _ (ulen + c.offset) 0 = i at hm ⊢
    unfold compactionAt at hm
    unfold parseAt
    split at hm
    · next hlt =>
      rw [if_pos hlt]
      simp only at hm ⊢
      split at hm
      · next hmore =>
        rw [if_pos hmore]
        obtain rfl := Option.some.inj hm
        refine ⟨rfl, ?_⟩
        simp only
        rw [Nat.add_sub_cancel' (Nat.le_of_lt hlt)]
      · cases hm
    · cases hm
  · cases hm

/-- The compaction of a call has two ranges without a common byte. -/
def CompactsLegally (c : CClient) (chunk : List UInt8) : Prop :=
  ∀ m, (c.filled chunk).compaction chunk.length = some m → m.Legal

/-- The unfinished request is no longer than what was received before
it. -/
def RestFits (c : CClient) (chunk : List UInt8) : Prop :=
  ∀ i, FirstNavto (c.received chunk) i →
    c.offset + chunk.length < i + 6 + IN_DATA_LEN →
    c.offset + chunk.length ≤ i + i

/-- What the scan stops at is the first `navto`. -/
theorem firstNavto_iff {i : Nat} :
    FirstNavto text i ↔ navtoAt text = i ∧ i < text.length := by
  constructor
  · exact FirstNavto.navtoAt
  · intro h
    obtain ⟨rfl, hlt⟩ := h
    have hstop : scan (fun i => navto.at (text.drop i)) text.length 0
        < 0 + text.length := Nat.lt_of_lt_of_eq hlt (Nat.zero_add _).symm
    exact ⟨scan_hit hstop, fun k hk => scan_miss (Nat.zero_le k) hk⟩

/-- Which block it is, is decided by the text. -/
theorem compaction_eq (h : Receivable c chunk) :
    (c.filled chunk).compaction chunk.length
      = compactionAt (navtoAt (c.kept ++ chunk)) (c.kept ++ chunk).length := by
  obtain ⟨hne, hfit⟩ := h
  have hlen : (c.kept ++ chunk).length = chunk.length + c.offset := by
    rw [List.length_append, kept_length (by omega), Nat.add_comm]
  unfold compaction
  rw [if_pos (List.length_pos_iff.mpr hne), hlen, ← scan_received hfit]
  rfl

/-- One call. -/
theorem compacts_iff (h : Receivable c chunk) :
    CompactsLegally c chunk ↔ RestFits c chunk := by
  have hlen : (c.kept ++ chunk).length = c.offset + chunk.length := by
    rw [List.length_append, kept_length (Nat.le_of_add_right_le h.2)]
  have hdata : 0 < IN_DATA_LEN := by decide
  unfold CompactsLegally RestFits
  rw [compaction_eq h, received_eq h.2, ← hlen]
  generalize c.kept ++ chunk = text
  constructor
  · intro hlegal i hfirst hmore
    obtain ⟨rfl, hlt⟩ := firstNavto_iff.mp hfirst
    have hmove : compactionAt (CClient.navtoAt text) text.length
        = some ⟨0, CClient.navtoAt text,
          text.length - CClient.navtoAt text⟩ := by
      unfold compactionAt
      rw [if_pos hlt]
      exact if_pos hmore
    have hle := (BlockCopy.front_legal (Nat.sub_pos_of_lt hlt)).mp
      (hlegal _ hmove)
    omega
  · intro hfits m hm
    unfold compactionAt at hm
    split at hm
    · next hlt =>
      simp only at hm
      split at hm
      · next hmore =>
        obtain rfl := Option.some.inj hm
        have hle := hfits _ (firstNavto_iff.mpr ⟨rfl, hlt⟩) hmore
        exact (BlockCopy.front_legal (Nat.sub_pos_of_lt hlt)).mpr (by omega)
      · cases hm
    · cases hm

end CClient

-- ============================================================= both moves

open CXArray CClient in
/-- In every state that calls of `append` lead to, the next one shifts
legally exactly if it moves one row at most, and in every state of a
connection the next call compacts legally exactly if the rest fits in
front of itself. So a sequence of calls is legal exactly if all its calls
are so. -/
theorem block_moves_iff (ts : List Coffsetdata) (c : CClient) (fd : Int)
    (chunks : List (List UInt8))
    (hsent : Meets receiveStep Receivable (c.ini fd) chunks) :
    (∀ a, run append new ts = some a →
      ∀ t, ShiftsLegally a t ↔ MovesOneRow a t)
    ∧ (Meets append ShiftsLegally new ts ↔ Meets append MovesOneRow new ts)
    ∧ (∀ c', run receiveStep (c.ini fd) chunks = some c' →
      ∀ chunk, Receivable c' chunk →
        (CompactsLegally c' chunk ↔ RestFits c' chunk))
    ∧ (Meets receiveStep CompactsLegally (c.ini fd) chunks
      ↔ Meets receiveStep RestFits (c.ini fd) chunks) := by
  refine ⟨fun a _ t => shifts_iff a t, ?_, fun c' _ chunk h =>
    compacts_iff h, ?_⟩
  · apply meets_iff (I := fun _ => True)
    · exact fun _ => shifts_iff _ _
    · exact fun _ _ _ => trivial
    · trivial
  · apply meets_congr (I := fun _ => True) (r := Receivable)
    · exact fun _ h => compacts_iff h
    · exact fun _ _ _ => trivial
    · trivial
    · exact hsent

open CClient in
/-- The beginning of a request behind as many blanks as it has bytes. -/
theorem requestStart_compacts :
    CompactsLegally (blank.ini 5) (List.replicate 17 32 ++ requestStart) := by
  have hsent : Meets receiveStep Receivable (blank.ini 5) [] := trivial
  have hnext : Receivable (blank.ini 5)
      (List.replicate 17 32 ++ requestStart) := ⟨by decide, by decide⟩
  have hiff := (block_moves_iff [] blank 5 [] hsent).2.2.1 _ rfl _ hnext
  apply hiff.mpr
  intro i hfirst _
  rw [received_eq hnext.2, kept_ini] at hfirst
  have hat := (firstNavto_iff.mp hfirst).1
  have hplace : navtoAt ([] ++ (List.replicate 17 32 ++ requestStart)) = 17 :=
    by decide
  rw [hplace] at hat
  subst hat
  decide

open CXArray CClient in
/-- A row below two of three, and the beginning of a request behind one
blank. -/
theorem not_block_moves :
    (¬ ∀ (ts : List Coffsetdata) (a : CXArray), run append new ts = some a →
      ∀ t, ShiftsLegally a t)
    ∧ ¬ ∀ (c : CClient) (fd : Int) (chunks : List (List UInt8)),
      Meets receiveStep Receivable (c.ini fd) chunks →
      Meets receiveStep CompactsLegally (c.ini fd) chunks := by
  constructor
  · intro hall
    obtain ⟨a₁, h₁, hholds₁⟩ := append_empty holds_new ⟨10, 0, 0⟩
    have hone : a₁.Holds ([] ++ [⟨10, 0, 0⟩]) := hholds₁
    obtain ⟨a₂, h₂, hholds₂⟩ := append_end (t := ⟨20, 0, 0⟩) hone
      (by decide) (by decide)
    have htwo : a₂.Holds ([⟨10, 0, 0⟩] ++ [⟨20, 0, 0⟩]) := hholds₂
    obtain ⟨a₃, h₃, hholds₃⟩ := append_end (t := ⟨30, 0, 0⟩) htwo
      (by decide) (by decide)
    have hrun : run append new [⟨10, 0, 0⟩, ⟨20, 0, 0⟩, ⟨30, 0, 0⟩]
        = some a₃ := by
      rw [run, h₁]
      simp only
      rw [run, h₂]
      simp only
      rw [run, h₃]
      rfl
    have hindex : a₃.index = 3 := hholds₃.index
    have hlegal := (shifts_iff a₃ ⟨15, 0, 0⟩).mp (hall _ a₃ hrun _)
      (by rw [hindex]; decide)
    rw [hindex] at hlegal
    have hslots : ∀ i, a₃.slot i
        = [⟨10, 0, 0⟩, ⟨20, 0, 0⟩, ⟨30, 0, 0⟩].getD i .zeroed := hholds₃.slot
    have hkeys : ∀ i < 3, (a₃.slot i).x ≠ 15
        ∧ (1 ≤ i → 15 < (a₃.slot i).x) := by
      intro i hi
      rw [hslots]
      revert i
      decide
    rcases hlegal with hfew | ⟨i, hi, hin, hnot⟩ | ⟨i, hin, hkey, -⟩
    · omega
    · exact hnot ((hkeys i hin).2 (by omega))
    · exact (hkeys i hin).1 hkey
  · intro hall
    have hsent := receivable_single blank 5 (32 :: requestStart) (by decide)
      (by decide)
    have hfits := (compacts_iff hsent.1).mp (hall blank 5 _ hsent).1
    have hfirst : FirstNavto ((blank.ini 5).received (32 :: requestStart))
        1 := by
      rw [received_eq hsent.1.2, kept_ini, firstNavto_iff]
      exact ⟨by decide, by decide⟩
    exact absurd (hfits 1 hfirst (by decide)) (by decide)

end CorrectGps
