/-
The lines of a text, and reading them into a buffer.

A line ends with its newline, the last one may end without. `fgets` reads
a line, or as much of it as the buffer takes: a line that fits is read
whole (`readLine_lines`), one without its newline is cut where the buffer
is full, and what is left of it comes next (`readLine_full`).

The `pieces` of a text are what is read until its end. They are the pieces
of its lines, one after the other (`pieces_lines`).
-/
import Mathlib.Data.List.Basic

namespace CorrectGps.Lib

variable {α : Type} [DecidableEq α] (nl : α)

/-- The lines of a text, newlines included. -/
def lines : List α → List (List α)
  | [] => []
  | b :: text =>
      if b = nl then [b] :: lines text
      else match lines text with
        | [] => [[b]]
        | l :: ls => (b :: l) :: ls

/-- The first line of a text, at most `n` long, and what is behind it. -/
def readLine : Nat → List α → List α × List α
  | 0, text => ([], text)
  | _ + 1, [] => ([], [])
  | n + 1, b :: text =>
      if b = nl then ([b], text)
      else (b :: (readLine n text).1, (readLine n text).2)

/-- What readings of at most `n` give, up to the end of the text. -/
def readings (n : Nat) : Nat → List α → List (List α)
  | 0, _ => []
  | fuel + 1, text =>
      if text = [] then []
      else (readLine nl n text).1 :: readings n fuel (readLine nl n text).2

/-- A text in the pieces in which it is read. -/
def pieces (n : Nat) (text : List α) : List (List α) :=
  readings nl n text.length text

/-- `fgets(s, size, stream)`; `none` at the end of the stream. -/
def fgets (size : Nat) (text : List α) : Option (List α × List α) :=
  if text = [] then none else some (readLine nl (size - 1) text)

variable {nl}

-- ============================================================== the lines

theorem lines_eq_nil {text : List α} (h : lines nl text = []) :
    text = [] := by
  cases text with
  | nil => rfl
  | cons b text =>
      unfold lines at h
      split at h
      · cases h
      · split at h <;> cases h

/-- The two ways a line comes about. -/
theorem lines_cons {b : α} {text l : List α} {ls : List (List α)}
    (h : lines nl (b :: text) = l :: ls) :
    (b = nl ∧ l = [nl] ∧ lines nl text = ls)
      ∨ (b ≠ nl ∧ ((text = [] ∧ l = [b] ∧ ls = [])
        ∨ ∃ l', lines nl text = l' :: ls ∧ l = b :: l')) := by
  unfold lines at h
  split at h
  · rename_i hb
    rw [List.cons.injEq] at h
    exact Or.inl ⟨hb, by rw [← h.1, hb], h.2⟩
  · rename_i hb
    refine Or.inr ⟨hb, ?_⟩
    split at h
    · rename_i hnil
      rw [List.cons.injEq] at h
      exact Or.inl ⟨lines_eq_nil hnil, h.1.symm, h.2.symm⟩
    · rename_i l' ls' hl
      rw [List.cons.injEq] at h
      exact Or.inr ⟨l', by rw [hl, h.2], h.1.symm⟩

/-- Nothing is lost between the lines. -/
theorem lines_flatten (nl : α) (text : List α) :
    (lines nl text).flatten = text := by
  induction text with
  | nil => rfl
  | cons b text ih =>
      cases h : lines nl (b :: text) with
      | nil => cases lines_eq_nil h
      | cons l ls =>
          rw [List.flatten_cons]
          rcases lines_cons h with ⟨hb, rfl, hls⟩ | ⟨-, hrest⟩
          · rw [← hls, ih, hb, List.singleton_append]
          · rcases hrest with ⟨rfl, rfl, rfl⟩ | ⟨l', hls, rfl⟩
            · rfl
            · rw [List.cons_append, ← List.flatten_cons, ← hls, ih]

/-- What a line contains the text contains. -/
theorem mem_of_mem_lines {text l : List α} (h : l ∈ lines nl text)
    {b : α} (hb : b ∈ l) : b ∈ text := by
  rw [← lines_flatten nl text]
  exact List.mem_flatten.mpr ⟨l, h, hb⟩

/-- Nothing stands behind the newline of a line. -/
theorem newline_last {text l : List α} (h : l ∈ lines nl text)
    {u v : List α} (hl : l = u ++ nl :: v) : v = [] := by
  induction text generalizing l u with
  | nil => cases h
  | cons c text ih =>
      cases hls : lines nl (c :: text) with
      | nil =>
          rw [hls] at h
          cases h
      | cons l' ls =>
          rw [hls] at h
          rcases lines_cons hls with ⟨-, rfl, hrest⟩ | ⟨hc, hrest⟩
          · rcases List.mem_cons.mp h with rfl | h
            · cases u with
              | nil => exact (List.cons.inj hl).2.symm
              | cons a u =>
                  have hnil := (List.cons.inj hl).2
                  simp at hnil
            · exact ih (hrest ▸ h) hl
          · have hinner : ∀ w, w ∈ lines nl text → l = c :: w →
                v = [] := by
              intro w hw hlw
              rw [hlw] at hl
              cases u with
              | nil => exact absurd (List.cons.inj hl).1 hc
              | cons a u => exact ih hw (List.cons.inj hl).2
            rcases hrest with ⟨rfl, rfl, rfl⟩ | ⟨l'', hrest, rfl⟩
            · rw [List.mem_singleton.mp h] at hl
              cases u with
              | nil => exact absurd (List.cons.inj hl).1 hc
              | cons a u =>
                  have hnil := (List.cons.inj hl).2
                  simp at hnil
            · rcases List.mem_cons.mp h with rfl | h
              · exact hinner l'' (hrest ▸ List.mem_cons_self) rfl
              · exact ih (hrest ▸ List.mem_cons_of_mem l'' h) hl

-- ============================================================== reading

/-- Nothing is lost between what is read and what is left. -/
theorem readLine_append (nl : α) (n : Nat) (text : List α) :
    (readLine nl n text).1 ++ (readLine nl n text).2 = text := by
  induction n generalizing text with
  | zero => rfl
  | succ n ih =>
      cases text with
      | nil => rfl
      | cons b text =>
          unfold readLine
          split
          · rfl
          · rw [List.cons_append, ih text]

/-- Each reading makes progress. -/
theorem readLine_shorter {n : Nat} (hn : 0 < n) {text : List α}
    (h : text ≠ []) :
    (readLine nl n text).2.length < text.length := by
  obtain ⟨n, rfl⟩ := Nat.exists_eq_succ_of_ne_zero (Nat.pos_iff_ne_zero.mp hn)
  obtain ⟨b, text, rfl⟩ := List.exists_cons_of_ne_nil h
  unfold readLine
  split
  · exact Nat.lt_succ_self _
  · have happend := congrArg List.length (readLine_append nl n text)
    rw [List.length_append] at happend
    show (readLine nl n text).2.length < text.length + 1
    omega

/-- A line that fits is read whole. -/
theorem readLine_lines {n : Nat} {text l : List α} {ls : List (List α)}
    (h : lines nl text = l :: ls) (hn : l.length ≤ n) :
    (readLine nl n text).1 = l ∧ lines nl (readLine nl n text).2 = ls := by
  induction text generalizing n l with
  | nil => cases h
  | cons b text ih =>
      have hpos : 0 < n := by
        rcases lines_cons h with ⟨-, rfl, -⟩ | ⟨-, ⟨-, rfl, -⟩ | ⟨_, -, rfl⟩⟩
        · exact hn
        · exact hn
        · exact Nat.lt_of_lt_of_le (Nat.succ_pos _) hn
      obtain ⟨n, rfl⟩ :=
        Nat.exists_eq_succ_of_ne_zero (Nat.pos_iff_ne_zero.mp hpos)
      unfold readLine
      rcases lines_cons h with ⟨hb, rfl, hls⟩ | ⟨hb, hrest⟩
      · rw [if_pos hb, hb]
        exact ⟨rfl, hls⟩
      · rw [if_neg hb]
        rcases hrest with ⟨rfl, rfl, rfl⟩ | ⟨l', hls, rfl⟩
        · cases n <;> exact ⟨rfl, rfl⟩
        · obtain ⟨hfst, hsnd⟩ := ih hls (Nat.le_of_succ_le_succ hn)
          exact ⟨by rw [hfst], hsnd⟩

/-- A line in front of others, its newline read with it. -/
theorem readLine_line {n : Nat} {body : List α} (h : nl ∉ body)
    (hn : body.length < n) (rest : List α) :
    readLine nl n (body ++ nl :: rest) = (body ++ [nl], rest) := by
  induction body generalizing n with
  | nil =>
      obtain ⟨n, rfl⟩ :=
        Nat.exists_eq_succ_of_ne_zero (Nat.pos_iff_ne_zero.mp hn)
      rw [List.nil_append, readLine, if_pos rfl, List.nil_append]
  | cons b body ih =>
      obtain ⟨n, rfl⟩ := Nat.exists_eq_succ_of_ne_zero
        (Nat.pos_iff_ne_zero.mp (Nat.lt_of_le_of_lt (Nat.zero_le _) hn))
      obtain ⟨hb, hbody⟩ := not_or.mp (mt List.mem_cons.mpr h)
      rw [List.cons_append, readLine, if_neg fun hnl => hb hnl.symm,
        ih hbody (Nat.lt_of_succ_lt_succ hn), List.cons_append]

/-- A line that fills the buffer without its newline. -/
theorem readLine_full {body : List α} (h : nl ∉ body) (rest : List α) :
    readLine nl body.length (body ++ rest) = (body, rest) := by
  induction body with
  | nil => cases rest <;> rfl
  | cons b body ih =>
      obtain ⟨hb, hbody⟩ := not_or.mp (mt List.mem_cons.mpr h)
      rw [List.length_cons, List.cons_append, readLine,
        if_neg fun hnl => hb hnl.symm, ih hbody]

/-- A line that does not fit is cut. -/
theorem readLine_cut {n : Nat} {text l : List α} {ls : List (List α)}
    (h : lines nl text = l :: ls) (hn : n < l.length) :
    (readLine nl n text).1 = l.take n
      ∧ lines nl (readLine nl n text).2 = l.drop n :: ls := by
  induction n generalizing text l with
  | zero => exact ⟨rfl, h⟩
  | succ n ih =>
      cases text with
      | nil => cases h
      | cons b text =>
          unfold readLine
          rcases lines_cons h with ⟨-, rfl, -⟩ | ⟨hb, hrest⟩
          · exact absurd hn (Nat.not_lt.mpr (Nat.succ_le_succ n.zero_le))
          · rw [if_neg hb]
            rcases hrest with ⟨-, rfl, -⟩ | ⟨l', hls, rfl⟩
            · exact absurd hn (Nat.not_lt.mpr (Nat.succ_le_succ n.zero_le))
            · obtain ⟨hfst, hsnd⟩ := ih hls (Nat.lt_of_succ_lt_succ hn)
              exact ⟨by rw [hfst, List.take_succ_cons], hsnd⟩

-- ============================================================= the pieces

theorem readings_nil (n fuel : Nat) : readings nl n fuel [] = [] := by
  cases fuel <;> rfl

/-- More readings than bytes are not needed. -/
theorem readings_fuel {n : Nat} (hn : 0 < n) {text : List α}
    {fuel fuel' : Nat} (h : text.length ≤ fuel) (h' : text.length ≤ fuel') :
    readings nl n fuel text = readings nl n fuel' text := by
  induction fuel generalizing text fuel' with
  | zero =>
      obtain rfl := List.eq_nil_of_length_eq_zero (Nat.le_zero.mp h)
      rw [readings_nil, readings_nil]
  | succ fuel ih =>
      by_cases hne : text = []
      · rw [hne, readings_nil, readings_nil]
      · have hless : (readLine nl n text).2.length < text.length :=
          readLine_shorter hn hne
        obtain ⟨fuel', rfl⟩ := Nat.exists_eq_succ_of_ne_zero
          (Nat.ne_of_gt (Nat.lt_of_lt_of_le (List.length_pos_iff.mpr hne) h'))
        have hle : (readLine nl n text).2.length ≤ fuel := by omega
        have hle' : (readLine nl n text).2.length ≤ fuel' := by omega
        rw [readings, readings, if_neg hne, if_neg hne, ih hle hle']

theorem pieces_nil (n : Nat) : pieces nl n [] = [] := rfl

/-- The first piece, and those of what is left. -/
theorem pieces_step {n : Nat} (hn : 0 < n) {text : List α}
    (h : text ≠ []) :
    pieces nl n text
      = (readLine nl n text).1 :: pieces nl n (readLine nl n text).2 := by
  have hless : (readLine nl n text).2.length < text.length :=
    readLine_shorter hn h
  obtain ⟨fuel, hfuel⟩ := Nat.exists_eq_succ_of_ne_zero
    (Nat.ne_of_gt (List.length_pos_iff.mpr h))
  unfold pieces
  rw [hfuel, readings, if_neg h]
  exact congrArg _ (readings_fuel hn (by omega) (Nat.le_refl _))

/-- Nothing is lost between the pieces. -/
theorem pieces_flatten {n : Nat} (hn : 0 < n) (text : List α) :
    (pieces nl n text).flatten = text := by
  by_cases h : text = []
  · rw [h]
    rfl
  · have hless : (readLine nl n text).2.length < text.length :=
      readLine_shorter hn h
    rw [pieces_step hn h, List.flatten_cons, pieces_flatten hn,
      readLine_append]
termination_by text.length

/-- A line is a text of one line. -/
theorem lines_self {text l : List α} (h : l ∈ lines nl text) :
    lines nl l = [l] := by
  induction text generalizing l with
  | nil => cases h
  | cons b text ih =>
      cases hls : lines nl (b :: text) with
      | nil =>
          rw [hls] at h
          cases h
      | cons l' ls =>
          rw [hls] at h
          rcases lines_cons hls with ⟨-, rfl, rfl⟩ | ⟨hb, hrest⟩
          · rcases List.mem_cons.mp h with rfl | h
            · exact if_pos rfl
            · exact ih h
          · rcases hrest with ⟨-, rfl, rfl⟩ | ⟨w, hw, rfl⟩
            · rw [List.mem_singleton.mp h]
              exact if_neg hb
            · have hmem : ∀ v, v ∈ w :: ls → v ∈ lines nl text :=
                fun v hv => hw ▸ hv
              rcases List.mem_cons.mp h with rfl | h
              · rw [lines, if_neg hb, ih (hmem w List.mem_cons_self)]
              · exact ih (hmem l (List.mem_cons_of_mem w h))

/-- A line that fits is one piece. -/
theorem pieces_line {n : Nat} {l : List α} (h : lines nl l = [l])
    (hn : l.length ≤ n) : pieces nl n l = [l] := by
  have hne : l ≠ [] := by
    intro heq
    rw [heq] at h
    cases h
  have hpos : 0 < n := Nat.lt_of_lt_of_le (List.length_pos_iff.mpr hne) hn
  obtain ⟨hfst, hsnd⟩ := readLine_lines h hn
  rw [pieces_step hpos hne, hfst, lines_eq_nil hsnd, pieces_nil]

/-- The pieces of a text are those of its lines. -/
theorem pieces_lines {n : Nat} (hn : 0 < n) (text : List α) :
    pieces nl n text = (lines nl text).flatMap (pieces nl n) := by
  cases hls : lines nl text with
  | nil =>
      rw [lines_eq_nil hls]
      rfl
  | cons l ls =>
      have hne : text ≠ [] := by
        intro heq
        rw [heq] at hls
        cases hls
      have hless : (readLine nl n text).2.length < text.length :=
        readLine_shorter hn hne
      have hself := lines_self (hls ▸ List.mem_cons_self : l ∈ lines nl text)
      have hrest := pieces_lines hn (readLine nl n text).2
      rw [List.flatMap_cons, pieces_step hn hne, hrest]
      rcases Nat.lt_or_ge n l.length with hlong | hshort
      · -- a piece of the first line, whose rest comes first then
        have hl : l ≠ [] := List.ne_nil_of_length_pos (by omega)
        obtain ⟨hfst, hsnd⟩ := readLine_cut hls hlong
        obtain ⟨hfst', hsnd'⟩ := readLine_cut hself hlong
        have hown : (readLine nl n l).2 = l.drop n := by
          rw [← lines_flatten nl (readLine nl n l).2, hsnd',
            List.flatten_singleton]
        rw [hfst, hsnd, pieces_step hn hl, hfst', hown, List.flatMap_cons,
          List.cons_append]
      · obtain ⟨hfst, hsnd⟩ := readLine_lines hls hshort
        rw [hfst, hsnd, pieces_line hself hshort, List.singleton_append]
termination_by text.length

end CorrectGps.Lib
