/-
Trimming in memory.

# The text

The functions of the configuration model say what is in the string when
those in memory return (`trimEnd_cells`, `strtriml_cells`): the text
without the blanks around it. A text that is trimmed is left as it is, to
the last byte of the memory behind it.

# The places

From the left nothing behind the terminator is looked at. From the right
the loop stops at the last byte that is no blank, and where there is none
it looks at the byte in front of the string (`trimEnd_front`). So an empty
string and a blank one are not trimmed inside the string, and every other
one is (`trims_iff`).
-/
import CorrectGps.Proofs.Config
import CorrectGps.Trim

namespace CorrectGps.Trim

open Lib

variable {s t rest : List UInt8}

/-- `t` is `s` without the blanks at both ends. -/
def Stripped (s t : List UInt8) : Prop :=
  ∃ ws ws', s = ws ++ t ++ ws' ∧ (∀ b ∈ ws ++ ws', isSpace b = true)
    ∧ (∀ b ∈ t.head?, isSpace b = false)
    ∧ ∀ b ∈ t.getLast?, isSpace b = false

/-- `strtrim` works on the string `s`, whatever is behind it: it stays
inside, leaves the trimmed text, and a second call changes nothing. -/
structure Trims (s rest : List UInt8) : Prop where
  inside : ∀ i ∈ (strtrim (s ++ 0 :: rest)).1, 0 ≤ i ∧ i ≤ s.length
  stripped : Stripped s (cstr (strtrim (s ++ 0 :: rest)).2)
  again : (strtrim (strtrim (s ++ 0 :: rest)).2).2
    = (strtrim (s ++ 0 :: rest)).2

-- ============================================================= strings

theorem cstr_terminated (h : 0 ∉ s) : cstr (s ++ 0 :: rest) = s := by
  have hall : ∀ b ∈ s, (b != 0) = true := by
    intro b hb
    rw [bne_iff_ne]
    intro heq
    obtain rfl := heq
    exact h hb
  unfold cstr
  rw [List.takeWhile_append_of_pos hall, List.takeWhile_cons]
  exact List.append_nil s

theorem strlen_terminated (h : 0 ∉ s) :
    strlen (s ++ 0 :: rest) = s.length := by
  unfold strlen
  rw [cstr_terminated h]

theorem mem_places {i n : Nat} {x : Int} (h : x ∈ places i n) :
    ↑i ≤ x ∧ x < ↑i + ↑n := by
  obtain ⟨y, hy, rfl⟩ := List.mem_map.mp h
  obtain ⟨hi, hn⟩ := List.mem_range'_1.mp hy
  constructor
  · exact Int.ofNat_le.mpr hi
  · exact Int.ofNat_lt.mpr hn

-- ======================================================= from the right

/-- One round: the last byte of the text is kept or becomes a NUL. -/
theorem trimEnd_append (s tail : List UInt8) (b : UInt8) :
    trimEnd (s ++ [b]).length (s ++ [b] ++ tail)
      = if trimmed b then
          (↑s.length :: (trimEnd s.length (s ++ 0 :: tail)).1,
            (trimEnd s.length (s ++ 0 :: tail)).2)
        else ([↑s.length], s ++ [b] ++ tail) := by
  have hget : (s ++ [b] ++ tail).getD s.length 0 = b := by simp
  have hset : (s ++ [b] ++ tail).set s.length 0 = s ++ 0 :: tail := by simp
  rw [List.length_append, List.length_singleton, trimEnd, hget, hset]

/-- What the loop leaves. -/
theorem trimEnd_cells (s tail : List UInt8) :
    (trimEnd s.length (s ++ tail)).2
      = CorrectGps.strtrimr s
        ++ List.replicate (s.length - (CorrectGps.strtrimr s).length) 0
        ++ tail := by
  induction s using List.reverseRecOn generalizing tail with
  | nil => rfl
  | append_singleton s b ih =>
      rw [trimEnd_append]
      cases hb : trimmed b with
      | true =>
          have hshort : CorrectGps.strtrimr (s ++ [b])
              = CorrectGps.strtrimr s :=
            List.rdropWhile_concat_pos _ _ _ hb
          have hlen : (CorrectGps.strtrimr s).length ≤ s.length :=
            (List.rdropWhile_prefix trimmed s).length_le
          rw [if_pos rfl, hshort, ih, List.length_append,
            List.length_singleton, Nat.sub_add_comm hlen,
            List.replicate_succ']
          simp only [List.append_assoc, List.singleton_append]
      | false =>
          have hkeep : CorrectGps.strtrimr (s ++ [b]) = s ++ [b] :=
            List.rdropWhile_concat_neg _ _ _ (by rw [hb]; decide)
          rw [if_neg Bool.false_ne_true, hkeep, Nat.sub_self,
            List.replicate_zero, List.append_nil]

/-- Where it looks. -/
theorem trimEnd_places (s tail : List UInt8) :
    ∀ i ∈ (trimEnd s.length (s ++ tail)).1, -1 ≤ i ∧ i < s.length := by
  induction s using List.reverseRecOn generalizing tail with
  | nil =>
      intro i hi
      obtain rfl := List.mem_singleton.mp hi
      decide
  | append_singleton s b ih =>
      rw [trimEnd_append, List.length_append, List.length_singleton]
      intro i hi
      split at hi
      · rcases List.mem_cons.mp hi with rfl | hi
        · omega
        · have hin := ih (0 :: tail) i hi
          omega
      · obtain rfl := List.mem_singleton.mp hi
        omega

/-- It looks in front of a text with nothing but blanks. -/
theorem trimEnd_front (s tail : List UInt8) :
    -1 ∈ (trimEnd s.length (s ++ tail)).1 ↔ ∀ b ∈ s, isSpace b = true := by
  induction s using List.reverseRecOn generalizing tail with
  | nil => simp [trimEnd]
  | append_singleton s b ih =>
      have hne : (-1 : Int) ≠ ↑s.length := by omega
      rw [trimEnd_append, List.forall_mem_append, List.forall_mem_singleton,
        trimmed_eq]
      cases hb : isSpace b with
      | true =>
          rw [if_pos rfl, List.mem_cons, ih]
          simp [hne]
      | false =>
          rw [if_neg Bool.false_ne_true]
          simp [hne]

-- ======================================================== from the left

/-- The loop of `strtriml`. -/
theorem skipStart_text (front t rest : List UInt8) :
    (skipStart (front ++ t ++ 0 :: rest) t.length front.length).2
        = front.length + (t.takeWhile isSpace).length
    ∧ ∀ i ∈ (skipStart (front ++ t ++ 0 :: rest) t.length front.length).1,
      0 ≤ i ∧ i ≤ ↑(front.length + t.length) := by
  induction t generalizing front with
  | nil =>
      refine ⟨rfl, fun i hi => ?_⟩
      obtain rfl := List.mem_singleton.mp hi
      simp
  | cons b t ih =>
      have hget : (front ++ b :: t ++ 0 :: rest).getD front.length 0 = b := by
        simp
      rw [List.length_cons, skipStart, hget, List.takeWhile_cons]
      cases hb : isSpace b with
      | true =>
          obtain ⟨hend, hin⟩ := ih (front ++ [b])
          rw [List.append_assoc front [b] t, List.singleton_append,
            List.length_append, List.length_singleton] at hend hin
          rw [if_pos rfl, if_pos rfl]
          constructor
          · show (skipStart _ t.length (front.length + 1)).2 = _
            rw [hend, List.length_cons]
            omega
          · intro i hi
            rcases List.mem_cons.mp hi with rfl | hi
            · omega
            · have hbound := hin i hi
              omega
      | false =>
          rw [if_neg Bool.false_ne_true, if_neg Bool.false_ne_true]
          refine ⟨rfl, fun i hi => ?_⟩
          obtain rfl := List.mem_singleton.mp hi
          omega

/-- The move. -/
theorem strcpy_cells (h : 0 ∉ t) (front rest : List UInt8) :
    (∃ rest', (strcpy front.length (front ++ t ++ 0 :: rest)).2
        = t ++ 0 :: rest')
    ∧ ∀ i ∈ (strcpy front.length (front ++ t ++ 0 :: rest)).1,
      0 ≤ i ∧ i ≤ ↑(front.length + t.length) := by
  have hdrop : (front ++ t ++ 0 :: rest).drop front.length
      = t ++ 0 :: rest := by simp
  have hslice : slice (front ++ t ++ 0 :: rest) front.length (t.length + 1)
      = t ++ [0] := by
    unfold slice
    rw [hdrop, List.append_cons, List.take_left' (by simp)]
  unfold strcpy
  simp only
  rw [hdrop, strlen_terminated h]
  constructor
  · rw [hslice, List.append_assoc]
    exact ⟨_, rfl⟩
  · intro i hi
    rcases List.mem_append.mp hi with hi | hi
    · have hbound := mem_places hi
      omega
    · have hbound := mem_places hi
      omega

/-- A text that begins with no blank is left alone; of another one the
rest is moved to the front. All of it stays in the string. -/
theorem strtriml_cells (h : 0 ∉ t) (rest : List UInt8) :
    (∃ rest', (strtriml (t ++ 0 :: rest)).2
        = CorrectGps.strtriml t ++ 0 :: rest'
      ∧ (CorrectGps.strtriml t = t → rest' = rest))
    ∧ ∀ i ∈ (strtriml (t ++ 0 :: rest)).1, 0 ≤ i ∧ i ≤ t.length := by
  obtain ⟨hend, hin⟩ := skipStart_text [] t rest
  rw [List.nil_append, List.length_nil, Nat.zero_add] at hend hin
  have hsplit : t.takeWhile isSpace ++ CorrectGps.strtriml t = t :=
    List.takeWhile_append_dropWhile
  have hread : ∀ i ∈ places 0 (t.length + 1)
      ++ (skipStart (t ++ 0 :: rest) t.length 0).1,
      0 ≤ i ∧ i ≤ t.length := by
    intro i hi
    rcases List.mem_append.mp hi with hi | hi
    · have hbound := mem_places hi
      omega
    · exact hin i hi
  unfold strtriml
  rw [strlen_terminated h]
  simp only
  rw [hend]
  by_cases hpos : 0 < (t.takeWhile isSpace).length
  · have hsuffix : 0 ∉ CorrectGps.strtriml t := fun h0 =>
      h ((List.dropWhile_suffix isSpace).subset h0)
    obtain ⟨⟨rest', hcells⟩, hmove⟩ := strcpy_cells hsuffix
      (t.takeWhile isSpace) rest
    rw [← List.length_append, hsplit] at hmove
    rw [hsplit] at hcells
    rw [if_pos hpos]
    refine ⟨⟨rest', hcells, fun heq => ?_⟩, fun i hi => ?_⟩
    · -- something has been dropped
      have hlen := congrArg List.length hsplit
      rw [List.length_append, heq] at hlen
      omega
    · rcases List.mem_append.mp hi with hi | hi
      · exact hread i hi
      · exact hmove i hi
  · have hnil : t.takeWhile isSpace = [] :=
      List.eq_nil_of_length_eq_zero (by omega)
    rw [hnil, List.nil_append] at hsplit
    rw [if_neg hpos, hsplit]
    exact ⟨⟨rest, rfl, fun _ => rfl⟩, hread⟩

-- ============================================================== trimming

/-- The text itself. -/
theorem strtrim_stripped (s : List UInt8) :
    Stripped s (CorrectGps.strtrim s) := by
  rcases blanks_or_split s with hblank | ⟨ws, b, t, rfl, hws, hb⟩
  · rw [strtrim_blanks hblank]
    refine ⟨s, [], ?_, ?_, by simp, by simp⟩
    · rw [List.append_nil, List.append_nil]
    · rw [List.append_nil]
      exact hblank
  · rw [strtrim_append hws hb]
    refine ⟨ws, t.rtakeWhile trimmed, ?_, ?_, ?_, ?_⟩
    · rw [List.append_assoc, List.cons_append]
      exact congrArg (fun t => ws ++ b :: t)
        List.rdropWhile_append_rtakeWhile.symm
    · intro c hc
      rcases List.mem_append.mp hc with hc | hc
      · exact hws c hc
      · rw [← trimmed_eq]
        exact List.mem_rtakeWhile_imp hc
    · intro c hc
      obtain rfl := Option.some.inj hc
      exact hb
    · intro c hc
      rw [← strtrimr_cons hb] at hc
      obtain ⟨hne, rfl⟩ := List.mem_getLast?_eq_getLast hc
      rw [← trimmed_eq]
      exact Bool.eq_false_of_not_eq_true (List.rdropWhile_last_not _ _ hne)

/-- The text gets no longer. -/
theorem strtrim_length_le (s : List UInt8) :
    (CorrectGps.strtrim s).length ≤ (CorrectGps.strtrimr s).length :=
  (List.dropWhile_suffix isSpace).length_le

/-- A trimmed text is trimmed at both ends. -/
theorem strtrimr_of_strtrim (h : CorrectGps.strtrim s = s) :
    CorrectGps.strtrimr s = s := by
  apply (List.rdropWhile_prefix trimmed s).eq_of_length_le
  have hle := strtrim_length_le s
  rw [h] at hle
  exact hle

/-- What `strtrimr` leaves in memory. -/
theorem strtrimr_cells (h : 0 ∉ s) (rest : List UInt8) :
    ∃ rest', (strtrimr (s ++ 0 :: rest)).2
        = CorrectGps.strtrimr s ++ 0 :: rest'
      ∧ (CorrectGps.strtrimr s = s → rest' = rest) := by
  have hcells := trimEnd_cells s (0 :: rest)
  unfold strtrimr
  rw [strlen_terminated h]
  refine ⟨List.replicate (s.length - (CorrectGps.strtrimr s).length) 0
    ++ rest, ?_, ?_⟩
  · show (trimEnd s.length (s ++ 0 :: rest)).2 = _
    rw [hcells, List.append_assoc, List.append_cons,
      ← List.replicate_succ', List.replicate_succ, List.cons_append]
  · intro heq
    rw [heq, Nat.sub_self]
    rfl

/-- What `strtrim` leaves in memory. -/
theorem strtrim_cells (h : 0 ∉ s) (rest : List UInt8) :
    ∃ rest', (strtrim (s ++ 0 :: rest)).2
        = CorrectGps.strtrim s ++ 0 :: rest'
      ∧ (CorrectGps.strtrim s = s → rest' = rest) := by
  have hprefix : 0 ∉ CorrectGps.strtrimr s := fun h0 =>
    h ((List.rdropWhile_prefix trimmed s).subset h0)
  obtain ⟨rest₁, hright, hsame₁⟩ := strtrimr_cells h rest
  obtain ⟨⟨rest₂, hleft, hsame₂⟩, -⟩ := strtriml_cells hprefix rest₁
  refine ⟨rest₂, ?_, fun heq => ?_⟩
  · show (strtriml (strtrimr (s ++ 0 :: rest)).2).2 = _
    rw [hright]
    exact hleft
  · have hr := strtrimr_of_strtrim heq
    rw [hsame₂ (by rw [hr]; exact (congrArg _ hr.symm).trans heq),
      hsame₁ hr]

/-- Where `strtrim` looks. -/
theorem strtrim_inside (h : 0 ∉ s) (rest : List UInt8) :
    (∀ i ∈ (strtrim (s ++ 0 :: rest)).1, 0 ≤ i ∧ i ≤ s.length)
      ↔ ∃ b ∈ s, isSpace b = false := by
  have hprefix : 0 ∉ CorrectGps.strtrimr s := fun h0 =>
    h ((List.rdropWhile_prefix trimmed s).subset h0)
  have hlen := (List.rdropWhile_prefix trimmed s).length_le
  obtain ⟨rest₁, hright, -⟩ := strtrimr_cells h rest
  obtain ⟨-, hleft⟩ := strtriml_cells hprefix rest₁
  have hplaces : (strtrim (s ++ 0 :: rest)).1
      = places 0 (s.length + 1) ++ (trimEnd s.length (s ++ 0 :: rest)).1
        ++ (strtriml (CorrectGps.strtrimr s ++ 0 :: rest₁)).1 := by
    rw [← hright, ← strlen_terminated h]
    rfl
  rw [hplaces, List.forall_mem_append, List.forall_mem_append]
  constructor
  · intro hin
    by_contra hnone
    push Not at hnone
    have hfront := (trimEnd_front s (0 :: rest)).mpr fun b hb =>
      Bool.of_not_eq_false (hnone b hb)
    have hbound := hin.1.2 _ hfront
    omega
  · intro hsome
    refine ⟨⟨fun i hi => ?_, fun i hi => ?_⟩, fun i hi => ?_⟩
    · have hbound := mem_places hi
      omega
    · have hbound := trimEnd_places s (0 :: rest) i hi
      have hne : i ≠ -1 := by
        intro heq
        obtain rfl := heq
        obtain ⟨b, hb, hns⟩ := hsome
        rw [(trimEnd_front s (0 :: rest)).mp hi b hb] at hns
        cases hns
      omega
    · have hbound := hleft i hi
      unfold CorrectGps.strtrimr at hbound
      omega

-- ======================================================== what is trimmed

/-- `strtrim` works on a string exactly if there is a byte in it that is
no blank. -/
theorem trims_iff (s rest : List UInt8) (h : 0 ∉ s) :
    Trims s rest ↔ ∃ b ∈ s, isSpace b = false := by
  constructor
  · intro ht
    exact (strtrim_inside h rest).mp ht.inside
  · intro hsome
    have hstripped := strtrim_stripped s
    obtain ⟨ws, ws', hs, -, hhead, hlast⟩ := hstripped
    have hself : CorrectGps.strtrim (CorrectGps.strtrim s)
        = CorrectGps.strtrim s :=
      (congrArg _ (strtrimr_self hlast)).trans (strtriml_self hhead)
    have hsub : 0 ∉ CorrectGps.strtrim s := by
      intro h0
      apply h
      rw [hs]
      exact List.mem_append_left _ (List.mem_append_right _ h0)
    obtain ⟨rest₁, hcells, -⟩ := strtrim_cells h rest
    obtain ⟨rest₂, hagain, hsame⟩ := strtrim_cells hsub rest₁
    refine ⟨(strtrim_inside h rest).mpr hsome, ?_, ?_⟩
    · rw [hcells, cstr_terminated hsub]
      exact strtrim_stripped s
    · rw [hcells, hagain, hself, hsame hself]

/-- A comment line. -/
theorem comment_trims : Trims [32, 35, 32] [7] :=
  (trims_iff [32, 35, 32] [7] (by decide)).mpr ⟨35, by simp, by decide⟩

/-- An empty line is trimmed with a look at the byte in front of it. -/
theorem not_trims_empty : ¬ ∀ s rest : List UInt8, 0 ∉ s → Trims s rest := by
  intro h
  have hin := (h [] [] List.not_mem_nil).inside (-1) (by decide)
  exact absurd hin.1 (by decide)

end CorrectGps.Trim
