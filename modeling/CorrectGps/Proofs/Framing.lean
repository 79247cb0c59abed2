/-
Any configuration file, read in pieces of 398 bytes.

# Lines

What a line says is its `entry`: none for a blank line, a comment or a
line without a `=`. `get_item_from_line` inserts the entry of what it
gets, except that it is lost on a text of the last kind.

# Pieces

The map has, for each key, the value of the first piece with that key. A
line of which at most one piece is not blank says what that piece says
(`entry_between`), and the key of any line is the key of one of its pieces,
if they can all be read (`key_in_pieces`). So the map is that of the lines
unless a line is cut into pieces that are not blank, and one of them has
a new key with a value that is not the one of the first line with this
key.

# Blanks in front

A piece with blanks in front of it is copied over itself, unless they are
more than what is behind them. So a file is read as its lines say exactly
if it is framed well and has no such piece (`readsFirst_iff`).
-/
import CorrectGps.Proofs.Config

namespace CorrectGps

open Lib

variable {line p k v : List UInt8} {m : KEY_VAL_MAP}

/-- The pair on a line: the trimmed line, split at its first `=`. -/
def entry (line : List UInt8) : Option (List UInt8 × List UInt8) :=
  match strtrim line with
  | [] => none
  | b :: p =>
      if b = 35 then none
      else ((b :: p).findIdx? (· == 61)).map fun i =>
        ((b :: p).take i, (b :: p).drop (i + 1))

/-- The line is blank, or a comment, or there is a `=` in it. -/
def Readable (line : List UInt8) : Prop :=
  (∀ b ∈ line, isSpace b = true) ∨ (strtrim line).head? = some 35
    ∨ 61 ∈ line

/-- What `fgets` gives of the file, piece by piece. -/
def chunks (file : List UInt8) : List (List UInt8) :=
  pieces 10 (LINE_MAX_LEN - 1 - 1) file

/-- The line is cut: two pieces of it are not blank. -/
def Cut (line : List UInt8) : Prop :=
  1 < (chunks line).countP fun p => !p.all isSpace

/-- The file is read, and the map gives every key the value on the first
line with it. -/
def ReadsFirst (file : List UInt8) : Prop :=
  ∃ m, Strict.file_to_items (some file) SortedMap.empty = some (0, m)
    ∧ ∀ k, m.find k = ((lines 10 file).filterMap entry).lookup k

/-- Every piece of the file can be read, and a piece of a cut line whose
key is new has the value on the first line with this key. -/
structure Framed (file : List UInt8) : Prop where
  readable : ∀ p ∈ chunks file, Readable p
  cut : ∀ ls l ls' ps p qs k v, lines 10 file = ls ++ l :: ls' →
    chunks l = ps ++ p :: qs → Cut l → entry p = some (k, v) →
    (∃ q ∈ ls.flatMap chunks ++ ps, ∃ w, entry q = some (k, w))
      ∨ ((lines 10 file).filterMap entry).lookup k = some v

/-- No piece of the file is copied over itself when it is trimmed. -/
def Unindented (file : List UInt8) : Prop :=
  ∀ p ∈ chunks file, Strict.Apart (strtrimr p)

-- =============================================================== one line

/-- A key and a `=` behind blanks. -/
structure Pair (ws k : List UInt8) : Prop where
  blanks : ∀ b ∈ ws, isSpace b = true
  split : 61 ∉ k
  head : ∀ b ∈ k.head?, isSpace b = false ∧ b ≠ 35

theorem Pair.strtrim {ws : List UInt8} (h : Pair ws k) (r : List UInt8) :
    CorrectGps.strtrim (ws ++ (k ++ 61 :: r)) = k ++ 61 :: strtrimr r := by
  cases k with
  | nil => exact strtrim_append h.blanks (by decide) r
  | cons b k =>
      obtain ⟨hb, -⟩ := h.head b rfl
      rw [List.cons_append, strtrim_append h.blanks hb,
        strtrimr_append (by decide), List.cons_append]

/-- The four forms of a line. -/
theorem line_cases (line : List UInt8) :
    (∀ b ∈ line, isSpace b = true)
      ∨ (∃ ws t, line = ws ++ 35 :: t ∧ ∀ b ∈ ws, isSpace b = true)
      ∨ (∃ ws k r, line = ws ++ (k ++ 61 :: r) ∧ Pair ws k)
      ∨ ∃ ws b t, line = ws ++ b :: t ∧ (∀ c ∈ ws, isSpace c = true)
        ∧ isSpace b = false ∧ b ≠ 35 ∧ 61 ∉ b :: t := by
  rcases blanks_or_split line with hblank | ⟨ws, b, t, hl, hws, hb⟩
  · exact Or.inl hblank
  · by_cases hne : b = 35
    · subst hne
      exact Or.inr (Or.inl ⟨ws, t, hl, hws⟩)
    · by_cases hmem : 61 ∈ b :: t
      · obtain ⟨k, r, hkr, hk⟩ := List.eq_append_cons_of_mem hmem
        refine Or.inr (Or.inr (Or.inl ⟨ws, k, r, by rw [hl, hkr], hws, hk,
          ?_⟩))
        intro c hc
        cases k with
        | nil => cases hc
        | cons d k =>
            obtain rfl := Option.some.inj hc
            rw [← (List.cons.inj hkr).1]
            exact ⟨hb, hne⟩
      · exact Or.inr (Or.inr (Or.inr ⟨ws, b, t, hl, hws, hb, hne, hmem⟩))

theorem entry_blank (h : ∀ b ∈ line, isSpace b = true) :
    entry line = none := by
  unfold entry
  rw [strtrim_blanks h]

theorem entry_comment {ws : List UInt8} (h : ∀ b ∈ ws, isSpace b = true)
    (t : List UInt8) : entry (ws ++ 35 :: t) = none := by
  unfold entry
  rw [strtrim_append h (by decide)]
  exact if_pos rfl

theorem entry_pair {ws : List UInt8} (h : Pair ws k) (r : List UInt8) :
    entry (ws ++ (k ++ 61 :: r)) = some (k, strtrimr r) := by
  have hidx := findIdx?_split (v := strtrimr r) h.split
  unfold entry
  rw [h.strtrim]
  cases k with
  | nil => rfl
  | cons b k =>
      obtain ⟨-, hb⟩ := h.head b rfl
      rw [List.cons_append]
      simp only
      rw [if_neg hb, ← List.cons_append, hidx, Option.map_some,
        List.take_left', List.drop_append]
      · simp
      · rfl

/-- The last form is the one that cannot be read. -/
theorem readable_iff_not {ws t : List UInt8} {b : UInt8}
    (hws : ∀ c ∈ ws, isSpace c = true) (hb : isSpace b = false)
    (hne : b ≠ 35) (hmem : 61 ∉ b :: t) : ¬ Readable (ws ++ b :: t) := by
  intro h
  rcases h with h | h | h
  · have hblank := h b (by simp)
    rw [hb] at hblank
    cases hblank
  · rw [strtrim_append hws hb] at h
    exact hne (Option.some.inj h)
  · rcases List.mem_append.mp h with h | h
    · exact absurd (hws 61 h) (by decide)
    · exact hmem h

/-- What `get_item_from_line` does with a line that can be read. -/
theorem get_item_of_readable (h : Readable p) (m : KEY_VAL_MAP) :
    ∃ n, get_item_from_line p m
      = some (n, m.build (entry p).toList) := by
  rcases line_cases p with hblank | ⟨ws, t, rfl, hws⟩ | ⟨ws, k, r, rfl, hp⟩
    | ⟨ws, b, t, rfl, hws, hb, hne, hmem⟩
  · rw [entry_blank hblank]
    exact ⟨1, get_item_of_blanks hblank m⟩
  · rw [entry_comment hws]
    refine ⟨2, get_item_of_comment ?_ m⟩
    rw [strtrim_append hws (by decide)]
    rfl
  · rw [entry_pair hp]
    exact ⟨0, get_item_of_strtrim (hp.strtrim r) hp.split
      (fun b hb => (hp.head b hb).2) m⟩
  · exact absurd h (readable_iff_not hws hb hne hmem)

/-- A line that cannot be read has no `=`. -/
theorem get_item_of_not_readable (h : ¬ Readable p) (m : KEY_VAL_MAP) :
    get_item_from_line p m = none := by
  rcases line_cases p with hblank | ⟨ws, t, rfl, hws⟩ | ⟨ws, k, r, rfl, hp⟩
    | ⟨ws, b, t, rfl, hws, hb, hne, hmem⟩
  · exact absurd (Or.inl hblank) h
  · refine absurd (Or.inr (Or.inl ?_)) h
    rw [strtrim_append hws (by decide)]
    rfl
  · exact absurd (Or.inr (Or.inr (by simp))) h
  · have hnone : (b :: strtrimr t).findIdx? (· == 61) = none := by
      rw [List.findIdx?_eq_none_iff]
      intro c hc
      rw [beq_eq_false_iff_ne]
      intro heq
      obtain rfl := heq
      apply hmem
      rw [← strtrimr_cons hb] at hc
      exact (List.rdropWhile_prefix trimmed (b :: t)).subset hc
    unfold get_item_from_line
    rw [strtrim_append hws hb]
    simp only
    rw [if_neg hne, hnone]

-- ============================================================== the file

/-- The next piece of a file. -/
theorem chunks_step {text : List UInt8} (h : text ≠ []) :
    ∃ rest, fgets 10 (LINE_MAX_LEN - 1) text
        = some ((readLine 10 398 text).1, rest)
      ∧ chunks text = (readLine 10 398 text).1 :: chunks rest := by
  refine ⟨(readLine 10 398 text).2, ?_, pieces_step (by decide) h⟩
  unfold fgets
  rw [if_neg h]
  rfl

theorem chunks_lines (file : List UInt8) :
    chunks file = (lines 10 file).flatMap chunks :=
  pieces_lines (by decide) file

theorem chunks_flatten (file : List UInt8) : (chunks file).flatten = file :=
  pieces_flatten (by decide) file

theorem build_entries (m : KEY_VAL_MAP) (p : List UInt8)
    (ps : List (List UInt8)) :
    (m.build (entry p).toList).build (ps.filterMap entry)
      = m.build ((p :: ps).filterMap entry) := by
  rw [List.filterMap_cons]
  cases entry p <;> rfl

/-- The place of a piece in the file. -/
theorem chunks_split {file l : List UInt8} {ls ls' ps qs : List (List UInt8)}
    (hls : lines 10 file = ls ++ l :: ls') (hps : chunks l = ps ++ p :: qs) :
    chunks file = (ls.flatMap chunks ++ ps)
      ++ p :: (qs ++ ls'.flatMap chunks) := by
  rw [chunks_lines, hls, List.flatMap_append, List.flatMap_cons, hps,
    List.append_assoc, List.append_assoc, List.cons_append]

/-- A file whose pieces can be read gives their entries, in order. -/
theorem reads_chunks {file : List UInt8} (hnul : 0 ∉ file)
    (h : ∀ p ∈ chunks file, Readable p) (m : KEY_VAL_MAP) :
    Reads file m (m.build ((chunks file).filterMap entry)) := by
  generalize hps : chunks file = ps
  induction ps generalizing file m with
  | nil =>
      rw [← chunks_flatten file, hps]
      exact Reads.done m
  | cons p ps ih =>
      have hne : file ≠ [] := by
        intro heq
        rw [heq] at hps
        cases hps
      obtain ⟨rest, hgets, hstep⟩ := chunks_step hne
      rw [hps, List.cons.injEq] at hstep
      obtain ⟨rfl, rfl⟩ := hstep
      have hflat := chunks_flatten file
      rw [hps, List.flatten_cons, chunks_flatten] at hflat
      rw [hps] at h
      rw [← hflat] at hnul
      obtain ⟨hp, hrest⟩ := not_or.mp (mt List.mem_append.mpr hnul)
      obtain ⟨n, hitem⟩ := get_item_of_readable (h _ List.mem_cons_self) m
      have htail := ih hrest (fun q hq => h q (List.mem_cons_of_mem _ hq))
        (m.build (entry (readLine 10 398 file).1).toList) rfl
      rw [build_entries] at htail
      exact Reads.line hgets (by rw [cstr_self hp, hitem]) htail

/-- A file with a piece that cannot be read is not read to its end. -/
theorem readItems_stuck {file : List UInt8} (hnul : 0 ∉ file)
    (h : ∃ p ∈ chunks file, ¬ Readable p) (fuel : Nat) (m : KEY_VAL_MAP) :
    readItems fuel file m = none := by
  induction fuel generalizing file m with
  | zero => rfl
  | succ fuel ih =>
      obtain ⟨p, hp, hbad⟩ := h
      have hne : file ≠ [] := by
        intro heq
        rw [heq] at hp
        cases hp
      obtain ⟨rest, hgets, hstep⟩ := chunks_step hne
      have hflat := chunks_flatten file
      rw [hstep, List.flatten_cons, chunks_flatten] at hflat
      rw [hstep] at hp
      rw [← hflat] at hnul
      obtain ⟨hfirst, hrest⟩ := not_or.mp (mt List.mem_append.mpr hnul)
      rw [readItems, hgets]
      simp only
      rw [cstr_self hfirst]
      by_cases hread : Readable (readLine 10 398 file).1
      · obtain ⟨n, hitem⟩ := get_item_of_readable hread m
        rw [hitem]
        rcases List.mem_cons.mp hp with rfl | hp
        · exact absurd hread hbad
        · exact ih hrest ⟨p, hp, hbad⟩ _
      · rw [get_item_of_not_readable hread]

/-- The pieces decide what a file is read to. -/
theorem file_to_items_iff {file : List UInt8} (hnul : 0 ∉ file)
    (m : KEY_VAL_MAP) :
    file_to_items (some file) SortedMap.empty = some (0, m)
      ↔ (∀ p ∈ chunks file, Readable p)
        ∧ SortedMap.empty.build ((chunks file).filterMap entry) = m := by
  constructor
  · intro h
    have hread : ∀ p ∈ chunks file, Readable p := by
      by_contra hbad
      push Not at hbad
      have hstuck := readItems_stuck hnul hbad (file.length + 1)
        SortedMap.empty
      unfold file_to_items at h
      simp only at h
      rw [hstuck] at h
      cases h
    have hrun := file_to_items_of_reads
      (reads_chunks hnul hread SortedMap.empty)
    rw [h] at hrun
    exact ⟨hread, (Prod.mk.inj (Option.some.inj hrun)).2.symm⟩
  · intro h
    obtain ⟨hread, rfl⟩ := h
    exact file_to_items_of_reads (reads_chunks hnul hread SortedMap.empty)

/-- Where no piece is copied over itself the copy is a move, and else the
file is not read to its end. -/
theorem strict_readItems {file : List UInt8} (hnul : 0 ∉ file)
    (fuel : Nat) (m : KEY_VAL_MAP) :
    (Unindented file →
        Strict.readItems fuel file m = readItems fuel file m)
      ∧ (¬ Unindented file → Strict.readItems fuel file m = none) := by
  induction fuel generalizing file m with
  | zero => exact ⟨fun _ => rfl, fun _ => rfl⟩
  | succ fuel ih =>
      by_cases hne : file = []
      · rw [hne]
        exact ⟨fun _ => rfl, fun h => absurd (fun p hp => by cases hp) h⟩
      · obtain ⟨rest, hgets, hstep⟩ := chunks_step hne
        have hflat := chunks_flatten file
        rw [hstep, List.flatten_cons, chunks_flatten] at hflat
        rw [← hflat] at hnul
        obtain ⟨hfirst, hrest⟩ := not_or.mp (mt List.mem_append.mpr hnul)
        unfold Unindented
        rw [hstep, List.forall_mem_cons, Strict.readItems, readItems, hgets]
        simp only
        rw [cstr_self hfirst, Strict.get_item_from_line]
        by_cases hpiece : Strict.Apart (strtrimr (readLine 10 398 file).1)
        · rw [if_pos hpiece]
          cases get_item_from_line (readLine 10 398 file).1 m with
          | none => exact ⟨fun _ => rfl, fun _ => rfl⟩
          | some r =>
              obtain ⟨hsame, hnone⟩ := ih hrest r.2
              exact ⟨fun h => hsame h.2,
                fun h => hnone fun hu => h ⟨hpiece, hu⟩⟩
        · rw [if_neg hpiece]
          exact ⟨fun h => absurd h.1 hpiece, fun _ => rfl⟩

theorem strict_file_to_items {file : List UInt8} (hnul : 0 ∉ file)
    (m : KEY_VAL_MAP) :
    (Unindented file → Strict.file_to_items (some file) m
        = file_to_items (some file) m)
      ∧ (¬ Unindented file →
        Strict.file_to_items (some file) m = none) := by
  obtain ⟨hsame, hnone⟩ := strict_readItems hnul (file.length + 1) m
  unfold Strict.file_to_items file_to_items
  refine ⟨fun h => ?_, fun h => ?_⟩
  · simp only [hsame h]
  · simp only [hnone h, Option.map_none]

-- ============================================================== cut lines

/-- Blanks on both sides do not matter. -/
theorem entry_between {ws ws' : List UInt8}
    (h : ∀ b ∈ ws, isSpace b = true) (h' : ∀ b ∈ ws', isSpace b = true)
    (p : List UInt8) : entry (ws ++ p ++ ws') = entry p := by
  have htrim : strtrim (ws ++ p ++ ws') = strtrim p := by
    rcases blanks_or_split p with hp | ⟨us, b, t, rfl, hus, hb⟩
    · rw [strtrim_blanks hp, strtrim_blanks]
      intro b hb
      rcases List.mem_append.mp hb with hb | hb
      · exact (List.forall_mem_append.mpr ⟨h, hp⟩) b hb
      · exact h' b hb
    · rw [strtrim_append hus hb, ← List.append_assoc, List.append_assoc,
        List.cons_append,
        strtrim_append (List.forall_mem_append.mpr ⟨h, hus⟩) hb]
      exact congrArg _ (strtrimr_blanks h' t)
  unfold entry
  rw [htrim]

theorem not_blank_iff (p : List UInt8) :
    (!p.all isSpace) = true ↔ ¬ ∀ b ∈ p, isSpace b = true := by
  rw [Bool.not_eq_true', ← Bool.not_eq_true, List.all_eq_true]

/-- The first element with a property. -/
theorem exists_first {α : Type} {P : α → Prop} {L : List α}
    (h : ∃ x ∈ L, P x) :
    ∃ ls x rs, L = ls ++ x :: rs ∧ P x ∧ ¬ ∃ y ∈ ls, P y := by
  induction L with
  | nil =>
      obtain ⟨x, hx, -⟩ := h
      cases hx
  | cons a L ih =>
      by_cases ha : P a
      · exact ⟨[], a, L, rfl, ha, by simp⟩
      · have hrest : ∃ x ∈ L, P x := by
          obtain ⟨x, hx, hP⟩ := h
          rcases List.mem_cons.mp hx with rfl | hx
          · exact absurd hP ha
          · exact ⟨x, hx, hP⟩
        obtain ⟨ls, x, rs, rfl, hP, hnone⟩ := ih hrest
        refine ⟨a :: ls, x, rs, rfl, hP, ?_⟩
        intro hy
        obtain ⟨y, hy, hPy⟩ := hy
        rcases List.mem_cons.mp hy with rfl | hy
        · exact ha hPy
        · exact hnone ⟨y, hy, hPy⟩

/-- Blank pieces are a blank text. -/
theorem blank_flatten {ps : List (List UInt8)}
    (h : ¬ ∃ p ∈ ps, ¬ ∀ b ∈ p, isSpace b = true) :
    ∀ b ∈ ps.flatten, isSpace b = true := by
  intro b hb
  obtain ⟨p, hp, hb⟩ := List.mem_flatten.mp hb
  by_contra hne
  exact h ⟨p, hp, fun hblank => hne (hblank b hb)⟩

/-- The first piece that is not blank. -/
theorem first_piece (h : ¬ ∀ b ∈ line, isSpace b = true) :
    ∃ ps p qs, chunks line = ps ++ p :: qs
      ∧ (∀ b ∈ ps.flatten, isSpace b = true)
      ∧ ¬ ∀ b ∈ p, isSpace b = true := by
  have hsome : ∃ p ∈ chunks line, ¬ ∀ b ∈ p, isSpace b = true := by
    by_contra hnone
    have hblank := blank_flatten hnone
    rw [chunks_flatten] at hblank
    exact h hblank
  obtain ⟨ps, p, qs, hsplit, hp, hnone⟩ := exists_first hsome
  exact ⟨ps, p, qs, hsplit, blank_flatten hnone, hp⟩

/-- The key of a line is the key of its first piece that is not blank. -/
theorem key_in_pieces (h : ∀ p ∈ chunks line, Readable p)
    (he : entry line = some (k, v)) :
    ∃ p ∈ chunks line, ∃ w, entry p = some (k, w) := by
  have hfull : ¬ ∀ b ∈ line, isSpace b = true := by
    intro hblank
    rw [entry_blank hblank] at he
    cases he
  obtain ⟨ps, p, qs, hsplit, hps, hp⟩ := first_piece hfull
  have hmem : p ∈ chunks line := by
    rw [hsplit]
    exact List.mem_append_right _ List.mem_cons_self
  have hline : line = ps.flatten ++ (p ++ qs.flatten) := by
    rw [← chunks_flatten line, hsplit, List.flatten_append,
      List.flatten_cons]
  refine ⟨p, hmem, ?_⟩
  rcases line_cases p with hblank | ⟨ws, t, rfl, hws⟩ | ⟨ws, k', r, rfl, hpair⟩
    | ⟨ws, b, t, rfl, hws, hb, hne, hnot⟩
  · exact absurd hblank hp
  · have hall := List.forall_mem_append.mpr ⟨hps, hws⟩
    rw [hline, List.append_assoc, List.cons_append, ← List.append_assoc,
      entry_comment hall] at he
    cases he
  · have hall : Pair (ps.flatten ++ ws) k' :=
      ⟨List.forall_mem_append.mpr ⟨hps, hpair.blanks⟩, hpair.split,
        hpair.head⟩
    rw [hline, List.append_assoc, List.append_assoc, List.cons_append,
      ← List.append_assoc, entry_pair hall] at he
    obtain ⟨rfl, -⟩ := Prod.mk.inj (Option.some.inj he)
    exact ⟨strtrimr r, entry_pair hpair r⟩
  · exact absurd (h _ hmem) (readable_iff_not hws hb hne hnot)

/-- A line that is not cut says what its piece says. -/
theorem entry_of_not_cut {ps qs : List (List UInt8)} (h : ¬ Cut line)
    (hsplit : chunks line = ps ++ p :: qs) (he : entry p = some (k, v)) :
    entry line = some (k, v) := by
  have hp : ¬ ∀ b ∈ p, isSpace b = true := by
    intro hblank
    rw [entry_blank hblank] at he
    cases he
  have hcount : (ps.countP fun p => !p.all isSpace) = 0
      ∧ (qs.countP fun p => !p.all isSpace) = 0 := by
    have hone := List.countP_cons_of_pos (p := fun p => !p.all isSpace)
      (l := qs) ((not_blank_iff p).mpr hp)
    unfold Cut at h
    rw [hsplit, List.countP_append, hone] at h
    omega
  have hblank : ∀ qs : List (List UInt8),
      (qs.countP fun p => !p.all isSpace) = 0 →
      ∀ b ∈ qs.flatten, isSpace b = true := by
    intro qs hzero
    apply blank_flatten
    intro hq
    obtain ⟨q, hq, hfull⟩ := hq
    exact List.countP_eq_zero.mp hzero q hq ((not_blank_iff q).mpr hfull)
  have hline : line = ps.flatten ++ p ++ qs.flatten := by
    rw [← chunks_flatten line, hsplit, List.flatten_append,
      List.flatten_cons, List.append_assoc]
  rw [hline, entry_between (hblank ps hcount.1) (hblank qs hcount.2), he]

-- ================================================================ lookups

/-- No text has the key. -/
theorem lookup_none_iff (L : List (List UInt8)) (k : List UInt8) :
    (L.filterMap entry).lookup k = none
      ↔ ¬ ∃ q ∈ L, ∃ w, entry q = some (k, w) := by
  rw [List.lookup_eq_none_iff]
  constructor
  · intro h hq
    obtain ⟨q, hq, w, hw⟩ := hq
    have hne := h (k, w) (List.mem_filterMap.mpr ⟨q, hq, hw⟩)
    exact (bne_iff_ne.mp hne) rfl
  · intro h e he
    obtain ⟨q, hq, hw⟩ := List.mem_filterMap.mp he
    rw [bne_iff_ne]
    intro heq
    exact h ⟨q, hq, e.2, by rw [hw, heq]⟩

/-- The first text with the key. -/
theorem lookup_first {L ps qs : List (List UInt8)}
    (hL : L = ps ++ p :: qs) (hnew : ¬ ∃ q ∈ ps, ∃ w, entry q = some (k, w))
    (he : entry p = some (k, v)) :
    (L.filterMap entry).lookup k = some v := by
  rw [hL, List.filterMap_append, List.lookup_append,
    (lookup_none_iff ps k).mpr hnew, Option.none_or,
    List.filterMap_cons_some he, List.lookup_cons_self]

-- =========================================================== every file

/-- A key on a line is on a piece of it. -/
theorem key_in_line {file l : List UInt8}
    (hread : ∀ p ∈ chunks file, Readable p) (hl : l ∈ lines 10 file)
    (hw : ∃ w, entry l = some (k, w)) :
    ∃ p ∈ chunks l, ∃ w, entry p = some (k, w) := by
  obtain ⟨w, hw⟩ := hw
  refine key_in_pieces (fun p hp => hread p ?_) hw
  rw [chunks_lines]
  exact List.mem_flatMap.mpr ⟨l, hl, hp⟩

/-- The first piece of a file with a key. -/
theorem first_with_key {file : List UInt8}
    (h : ∃ l ∈ lines 10 file, ∃ p ∈ chunks l, ∃ w, entry p = some (k, w)) :
    ∃ ls l ls' ps p qs v, lines 10 file = ls ++ l :: ls'
      ∧ chunks l = ps ++ p :: qs ∧ entry p = some (k, v)
      ∧ ¬ ∃ q ∈ ls.flatMap chunks ++ ps, ∃ w, entry q = some (k, w) := by
  obtain ⟨ls, l, ls', hls, hpiece, hbefore⟩ := exists_first h
  obtain ⟨ps, p, qs, hps, ⟨v, he⟩, hnone⟩ := exists_first hpiece
  refine ⟨ls, l, ls', ps, p, qs, v, hls, hps, he, ?_⟩
  intro hq
  obtain ⟨q, hq, hw⟩ := hq
  rcases List.mem_append.mp hq with hq | hq
  · obtain ⟨l', hl', hq⟩ := List.mem_flatMap.mp hq
    exact hbefore ⟨l', hl', q, hq, hw⟩
  · exact hnone ⟨q, hq, hw⟩

/-- In a well framed file the pieces give each key the value that the
lines give it. -/
theorem Framed.lookup {file : List UInt8} (h : Framed file)
    (k : List UInt8) :
    ((chunks file).filterMap entry).lookup k
      = ((lines 10 file).filterMap entry).lookup k := by
  by_cases hsome : ∃ l ∈ lines 10 file,
      ∃ p ∈ chunks l, ∃ w, entry p = some (k, w)
  · obtain ⟨ls, l, ls', ps, p, qs, v, hls, hps, he, hnew⟩ :=
      first_with_key hsome
    rw [lookup_first (chunks_split hls hps) hnew he]
    by_cases hcut : Cut l
    · rcases h.cut ls l ls' ps p qs k v hls hps hcut he with hold | hval
      · exact absurd hold hnew
      · exact hval.symm
    · -- the line says the same, and no line in front of it has the key
      have hown := entry_of_not_cut hcut hps he
      refine (lookup_first hls ?_ hown).symm
      intro hq
      obtain ⟨q, hq, hw⟩ := hq
      have hmem : q ∈ lines 10 file := hls ▸ List.mem_append_left _ hq
      obtain ⟨r, hr, hkey⟩ := key_in_line h.readable hmem hw
      exact hnew ⟨r, List.mem_append_left _
        (List.mem_flatMap.mpr ⟨q, hq, hr⟩), hkey⟩
  · have hlines : ¬ ∃ l ∈ lines 10 file, ∃ w, entry l = some (k, w) := by
      intro hl
      obtain ⟨l, hl, hw⟩ := hl
      exact hsome ⟨l, hl, key_in_line h.readable hl hw⟩
    have hchunks : ¬ ∃ p ∈ chunks file, ∃ w, entry p = some (k, w) := by
      intro hp
      obtain ⟨p, hp, hw⟩ := hp
      rw [chunks_lines] at hp
      obtain ⟨l, hl, hp⟩ := List.mem_flatMap.mp hp
      exact hsome ⟨l, hl, p, hp, hw⟩
    rw [(lookup_none_iff _ k).mpr hlines, (lookup_none_iff _ k).mpr hchunks]

/-- With readable pieces that is what well framed means. -/
theorem lookups_iff {file : List UInt8}
    (hread : ∀ p ∈ chunks file, Readable p) :
    (∀ k, ((chunks file).filterMap entry).lookup k
        = ((lines 10 file).filterMap entry).lookup k) ↔ Framed file := by
  constructor
  · intro h
    refine ⟨hread, fun ls l ls' ps p qs k v hls hps _ he => ?_⟩
    by_cases hold : ∃ q ∈ ls.flatMap chunks ++ ps, ∃ w, entry q = some (k, w)
    · exact Or.inl hold
    · refine Or.inr ?_
      rw [← h k, lookup_first (chunks_split hls hps) hold he]
  · exact fun h => h.lookup

/-- Where every line fits into the buffer only the form of the lines
matters. -/
theorem framed_of_short {file : List UInt8}
    (h : ∀ l ∈ lines 10 file, l.length ≤ 398) :
    Framed file ↔ ∀ l ∈ lines 10 file, Readable l := by
  have hone : ∀ l ∈ lines 10 file, chunks l = [l] :=
    fun l hl => pieces_line (lines_self hl) (h l hl)
  have hmem : ∀ l ∈ lines 10 file, l ∈ chunks file := by
    intro l hl
    rw [chunks_lines]
    exact List.mem_flatMap.mpr ⟨l, hl, by rw [hone l hl]; simp⟩
  constructor
  · exact fun hf l hl => hf.readable l (hmem l hl)
  · intro hread
    refine ⟨fun p hp => ?_, fun ls l ls' ps p qs k v hls _ hcut _ => ?_⟩
    · rw [chunks_lines] at hp
      obtain ⟨l, hl, hp⟩ := List.mem_flatMap.mp hp
      rw [hone l hl] at hp
      rw [List.mem_singleton.mp hp]
      exact hread l hl
    · have hl : l ∈ lines 10 file := by
        rw [hls]
        exact List.mem_append_right _ List.mem_cons_self
      have hfew := List.countP_le_length (p := fun p => !p.all isSpace)
        (l := [l])
      unfold Cut at hcut
      rw [hone l hl] at hcut
      exact absurd hcut (Nat.not_lt.mpr hfew)

/-- A file without a NUL is read as its lines say exactly if it is framed
well and none of its pieces is copied over itself. -/
theorem readsFirst_iff (file : List UInt8) (h : 0 ∉ file) :
    ReadsFirst file ↔ Framed file ∧ Unindented file := by
  obtain ⟨hsame, hnone⟩ := strict_file_to_items h SortedMap.empty
  constructor
  · rintro ⟨m, hrun, hfind⟩
    have hapart : Unindented file := by
      by_contra hbad
      rw [hnone hbad] at hrun
      cases hrun
    rw [hsame hapart] at hrun
    obtain ⟨hread, rfl⟩ := (file_to_items_iff h m).mp hrun
    refine ⟨(lookups_iff hread).mp fun k => ?_, hapart⟩
    rw [← hfind k, SortedMap.find_build]
    rfl
  · rintro ⟨hf, hapart⟩
    refine ⟨_, (hsame hapart).trans
      ((file_to_items_iff h _).mpr ⟨hf.readable, rfl⟩), fun k => ?_⟩
    rw [SortedMap.find_build, ← hf.lookup k]
    rfl

/-- The file `a=1`, with its newline. -/
theorem readsFirst_line : ReadsFirst [97, 61, 49, 10] := by
  apply (readsFirst_iff [97, 61, 49, 10] (by decide)).mpr
  have hlines : lines 10 [(97 : UInt8), 61, 49, 10] = [[97, 61, 49, 10]] :=
    rfl
  refine ⟨?_, by unfold Unindented; decide⟩
  rw [framed_of_short]
  · rw [hlines, List.forall_mem_singleton]
    exact Or.inr (Or.inr (by decide))
  · rw [hlines, List.forall_mem_singleton]
    decide

/-- The file `abc` stops the program. -/
theorem not_readsFirst :
    ¬ ∀ file : List UInt8, 0 ∉ file → ReadsFirst file := by
  intro h
  obtain ⟨m, hrun, -⟩ := h [97, 98, 99] (by decide)
  have hnull : Strict.file_to_items (some [97, 98, 99]) SortedMap.empty
      = none := by decide
  rw [hnull] at hrun
  cases hrun

end CorrectGps
