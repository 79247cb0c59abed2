/-
Writing a value to the configuration file and reading the file again.

# Pairs

What a line can give to the map is an `Item`: no `=` in the key, no blank
or `#` in front, no blank at the end of the value, and together with the
`=` no longer than what one reading takes. Reading a file of well-formed
lines puts only items into the map (`reads_confFile`), and an item that is
written as a line is read as itself (`reads_writeItem`), also where its
line is one byte too long for the buffer and the newline comes as a line
of its own.

# The file

So the map that is written is read back, since its pairs are written in
the order of the keys and inserted in that order (`file_to_items_written`).
A value written to a bound key is an item with the key.

Readings of a file are derivations of `Reads`, one rule for a round of the
loop.
-/
import CorrectGps.Config

namespace CorrectGps

open Lib

variable {k v line text : List UInt8} {m : KEY_VAL_MAP}

-- ============================================================== trimming

theorem trimmed_eq : trimmed = isSpace := by
  funext b
  unfold trimmed
  by_cases hb : b = 10
  · subst hb
    rfl
  · rw [beq_eq_false_iff_ne.mpr hb, Bool.or_false]

/-- A byte that is no blank stops `strtrimr`. -/
theorem strtrimr_append {b : UInt8} (hb : isSpace b = false)
    (u t : List UInt8) : strtrimr (u ++ b :: t) = u ++ b :: strtrimr t := by
  unfold strtrimr
  rw [trimmed_eq]
  induction t using List.reverseRecOn with
  | nil =>
      rw [List.rdropWhile_nil, List.rdropWhile_concat_neg]
      rw [hb]
      exact Bool.false_ne_true
  | append_singleton t x ih =>
      rw [← List.cons_append, ← List.append_assoc, List.rdropWhile_concat,
        List.rdropWhile_concat]
      split
      · exact ih
      · rw [List.append_assoc, List.cons_append]

theorem strtrimr_cons {b : UInt8} (hb : isSpace b = false)
    (t : List UInt8) : strtrimr (b :: t) = b :: strtrimr t :=
  strtrimr_append hb [] t

/-- It takes blanks off. -/
theorem strtrimr_blanks {ws : List UInt8} (h : ∀ b ∈ ws, isSpace b = true)
    (t : List UInt8) : strtrimr (t ++ ws) = strtrimr t := by
  unfold strtrimr
  rw [trimmed_eq]
  induction ws using List.reverseRecOn with
  | nil => rw [List.append_nil]
  | append_singleton ws x ih =>
      rw [← List.append_assoc, List.rdropWhile_concat_pos]
      · exact ih fun b hb => h b (List.mem_append_left _ hb)
      · exact h x (List.mem_append_right _ List.mem_cons_self)

/-- It leaves a text alone whose last byte is no blank. -/
theorem strtrimr_self (h : ∀ b ∈ v.getLast?, isSpace b = false) :
    strtrimr v = v := by
  unfold strtrimr
  rw [trimmed_eq, List.rdropWhile_eq_self_iff]
  intro hne
  rw [h _ (List.getLast?_eq_getLast_of_ne_nil hne)]
  exact Bool.false_ne_true

theorem strtriml_self (h : ∀ b ∈ k.head?, isSpace b = false) :
    strtriml k = k := by
  cases k with
  | nil => rfl
  | cons b k =>
      unfold strtriml
      rw [List.dropWhile_cons, h b rfl]
      rfl

/-- Blanks in front of the first byte that is none. -/
theorem strtrim_append {ws : List UInt8} (h : ∀ b ∈ ws, isSpace b = true)
    {b : UInt8} (hb : isSpace b = false) (t : List UInt8) :
    strtrim (ws ++ b :: t) = b :: strtrimr t := by
  unfold strtrim strtriml
  rw [strtrimr_append hb, List.dropWhile_append_of_pos h,
    List.dropWhile_cons, hb]
  rfl

theorem strtrim_blanks (h : ∀ b ∈ line, isSpace b = true) :
    strtrim line = [] := by
  have hr : strtrimr line = [] := by
    have hnil := strtrimr_blanks h []
    rwa [List.nil_append] at hnil
  unfold strtrim
  rw [hr]
  rfl

/-- A line is blank or has a first byte that is no blank. -/
theorem blanks_or_split (line : List UInt8) :
    (∀ b ∈ line, isSpace b = true)
      ∨ ∃ ws b t, line = ws ++ b :: t ∧ (∀ c ∈ ws, isSpace c = true)
        ∧ isSpace b = false := by
  induction line with
  | nil => exact Or.inl fun b hb => absurd hb List.not_mem_nil
  | cons c line ih =>
      cases hc : isSpace c with
      | false => exact Or.inr ⟨[], c, line, rfl, by simp, hc⟩
      | true =>
          rcases ih with h | ⟨ws, b, t, rfl, h, hb⟩
          · exact Or.inl (List.forall_mem_cons.mpr ⟨hc, h⟩)
          · exact Or.inr ⟨c :: ws, b, t, rfl,
              List.forall_mem_cons.mpr ⟨hc, h⟩, hb⟩

-- ================================================================= items

/-- A pair that a line can give to the map. -/
structure Item (k v : List UInt8) : Prop where
  nul : 0 ∉ k ++ 61 :: v
  newline : 10 ∉ k ++ 61 :: v
  split : 61 ∉ k
  head : ∀ b ∈ k.head?, isSpace b = false ∧ b ≠ 35
  last : ∀ b ∈ v.getLast?, isSpace b = false
  short : (k ++ 61 :: v).length ≤ 398

/-- A map of such pairs. -/
def Items (m : KEY_VAL_MAP) : Prop := ∀ e ∈ m.items, Item e.1 e.2

/-- The first `=` of a text. -/
theorem findIdx?_split (h : 61 ∉ k) :
    (k ++ 61 :: v).findIdx? (· == 61) = some k.length := by
  induction k with
  | nil => rfl
  | cons b k ih =>
      obtain ⟨hb, hk⟩ := not_or.mp (mt List.mem_cons.mpr h)
      rw [List.cons_append, List.findIdx?_cons,
        beq_eq_false_iff_ne.mpr fun e => hb e.symm, ih hk]
      rfl

/-- The pair of a trimmed line. -/
theorem get_item_of_strtrim {line : List UInt8}
    (h : strtrim line = k ++ 61 :: v) (hk : 61 ∉ k)
    (hhead : ∀ b ∈ k.head?, b ≠ 35) (m : KEY_VAL_MAP) :
    get_item_from_line line m = some (0, m.insert k v) := by
  have hfirst : ∃ b p, k ++ 61 :: v = b :: p ∧ b ≠ 35 := by
    cases k with
    | nil => exact ⟨61, v, rfl, by decide⟩
    | cons b k => exact ⟨b, k ++ 61 :: v, rfl, hhead b rfl⟩
  obtain ⟨b, p, hp, hb⟩ := hfirst
  have hidx : (b :: p).findIdx? (· == 61) = some k.length := by
    rw [← hp]
    exact findIdx?_split hk
  have htake : (b :: p).take k.length = k := by
    rw [← hp, List.take_left]
  have hdrop : (b :: p).drop (k.length + 1) = v := by
    rw [← hp, List.drop_append, List.drop_eq_nil_of_le (Nat.le_succ _),
      Nat.add_sub_cancel_left]
    rfl
  unfold get_item_from_line
  rw [h, hp]
  dsimp only
  rw [if_neg hb, hidx]
  dsimp only
  rw [htake, hdrop]

/-- A line with an item and blanks behind it gives the item. -/
theorem get_item_of_item (h : Item k v) (ws : List UInt8)
    (hws : ∀ b ∈ ws, isSpace b = true) (m : KEY_VAL_MAP) :
    get_item_from_line (k ++ 61 :: v ++ ws) m = some (0, m.insert k v) := by
  refine get_item_of_strtrim ?_ h.split (fun b hb => (h.head b hb).2) m
  have hright : strtrimr (k ++ 61 :: v) = k ++ 61 :: v := by
    rw [strtrimr_append (by decide), strtrimr_self h.last]
  unfold strtrim
  rw [strtrimr_blanks hws, hright]
  apply strtriml_self
  intro b hb
  cases k with
  | nil =>
      obtain rfl := Option.some.inj hb
      decide
  | cons c k => exact (h.head b hb).1

/-- A blank line gives nothing. -/
theorem get_item_of_blanks (h : ∀ b ∈ line, isSpace b = true)
    (m : KEY_VAL_MAP) : get_item_from_line line m = some (1, m) := by
  unfold get_item_from_line
  rw [strtrim_blanks h]

/-- Neither does a comment. -/
theorem get_item_of_comment (h : (strtrim line).head? = some 35)
    (m : KEY_VAL_MAP) : get_item_from_line line m = some (2, m) := by
  obtain ⟨p, hp⟩ := List.head?_eq_some_iff.mp h
  unfold get_item_from_line
  rw [hp]
  exact if_pos rfl

-- ======================================================= lines of a file

/-- A line of the file, with its newline: it fits into one reading, and it
is blank, or a comment, or contains a `=`. -/
structure ConfLine (line : List UInt8) : Prop where
  short : line.length ≤ 398
  form : (∀ b ∈ line, isSpace b = true)
    ∨ (line.dropWhile isSpace).head? = some 35 ∨ 61 ∈ line

/-- A file of such lines, without a NUL. -/
structure ConfFile (file : List UInt8) : Prop where
  nul : 0 ∉ file
  line : ∀ l ∈ lines 10 file, ConfLine l

/-- What the first `=` cuts out of a trimmed line is an item. -/
theorem item_of_strtrim {ws t : List UInt8} {b : UInt8}
    (hl : line = ws ++ b :: t) (hb : isSpace b = false) (hne : b ≠ 35)
    (hp : b :: strtrimr t = k ++ 61 :: v) (hk : 61 ∉ k)
    (hnul : 0 ∉ line) (hnl : ∀ u w, line = u ++ 10 :: w → w = [])
    (hshort : line.length ≤ 398) : Item k v := by
  obtain ⟨ws', hws'⟩ : ∃ ws', t = strtrimr t ++ ws' := by
    obtain ⟨ws', h⟩ := List.rdropWhile_prefix trimmed (l := t)
    exact ⟨ws', h.symm⟩
  have hline : line = ws ++ (k ++ 61 :: v) ++ ws' := by
    rw [hl, ← hp, List.append_assoc, List.cons_append, ← hws']
  -- the last byte of the trimmed line is no blank
  have hlast : ∀ c ∈ (k ++ 61 :: v).getLast?, isSpace c = false := by
    intro c hc
    have hself : strtrimr (k ++ 61 :: v) = k ++ 61 :: v := by
      rw [← hp, ← strtrimr_cons hb]
      exact List.rdropWhile_idempotent trimmed (b :: t)
    unfold strtrimr at hself
    rw [trimmed_eq, List.rdropWhile_eq_self_iff] at hself
    have hcons : k ++ 61 :: v ≠ [] := by simp
    rw [List.getLast?_eq_getLast_of_ne_nil hcons] at hc
    have h := hself hcons
    rw [Option.some.inj hc, Bool.not_eq_true] at h
    exact h
  have hsub : ∀ c ∈ k ++ 61 :: v, c ∈ line := by
    intro c hc
    rw [hline]
    exact List.mem_append_left _ (List.mem_append_right _ hc)
  refine ⟨fun h => hnul (hsub 0 h), ?_, hk, ?_, ?_, ?_⟩
  · intro h
    obtain ⟨u, w, huw⟩ := List.append_of_mem h
    have hnil : w ++ ws' = [] := by
      apply hnl (ws ++ u)
      rw [hline, huw]
      simp
    have hw : w = [] := (List.append_eq_nil_iff.mp hnil).1
    have h10 := hlast 10 (by
      rw [huw, hw, List.getLast?_concat]
      rfl)
    exact absurd h10 (by decide)
  · intro c hc
    cases k with
    | nil => cases hc
    | cons d k =>
        obtain rfl := Option.some.inj hc
        rw [← (List.cons.inj hp).1]
        exact ⟨hb, hne⟩
  · intro c hc
    apply hlast c
    rw [List.getLast?_append, List.getLast?_cons, hc]
    rfl
  · have hlen := congrArg List.length hline
    rw [List.length_append, List.length_append] at hlen
    omega

/-- A well-formed line leaves the map or inserts an item. -/
theorem get_item_of_confLine (h : ConfLine line) (hnul : 0 ∉ line)
    (hnl : ∀ u w, line = u ++ 10 :: w → w = []) (m : KEY_VAL_MAP) :
    ∃ n m', get_item_from_line line m = some (n, m')
      ∧ (m' = m ∨ ∃ k v, Item k v ∧ m' = m.insert k v) := by
  rcases blanks_or_split line with hblank | ⟨ws, b, t, hl, hws, hb⟩
  · exact ⟨1, m, get_item_of_blanks hblank m, Or.inl rfl⟩
  · have hp : strtrim line = b :: strtrimr t := by
      rw [hl]
      exact strtrim_append hws hb t
    by_cases hne : b = 35
    · have hhead : (strtrim line).head? = some 35 := by
        rw [hp, hne]
        rfl
      exact ⟨2, m, get_item_of_comment hhead m, Or.inl rfl⟩
    · have hmem : 61 ∈ b :: t := by
        rcases h.form with hall | hhead | hmem
        · rw [hall b (by rw [hl]; simp)] at hb
          cases hb
        · rw [hl, List.dropWhile_append_of_pos hws, List.dropWhile_cons,
            hb] at hhead
          exact absurd (Option.some.inj hhead) hne
        · rw [hl] at hmem
          rcases List.mem_append.mp hmem with hmem | hmem
          · exact absurd (hws 61 hmem) (by decide)
          · exact hmem
      have hcut : 61 ∈ b :: strtrimr t := by
        obtain ⟨u, w, huw⟩ := List.append_of_mem hmem
        rw [← strtrimr_cons hb, huw, strtrimr_append (by decide)]
        simp
      obtain ⟨k, v, hkv, hk⟩ := List.eq_append_cons_of_mem hcut
      have hitem : Item k v :=
        item_of_strtrim hl hb hne hkv hk hnul hnl h.short
      refine ⟨0, m.insert k v, ?_, Or.inr ⟨k, v, hitem, rfl⟩⟩
      exact get_item_of_strtrim (hp.trans hkv) hk
        (fun c hc => (hitem.head c hc).2) m

-- ============================================================ the readings

/-- The loop of `file_to_items` takes the text and the map to a map. -/
inductive Reads : List UInt8 → KEY_VAL_MAP → KEY_VAL_MAP → Prop where
  | done (m : KEY_VAL_MAP) : Reads [] m m
  | line {text line rest : List UInt8} {m m₁ m' : KEY_VAL_MAP} {n : Nat} :
      fgets 10 (LINE_MAX_LEN - 1) text = some (line, rest) →
      get_item_from_line (cstr line) m = some (n, m₁) →
      Reads rest m₁ m' → Reads text m m'

theorem cstr_self (h : 0 ∉ line) : cstr line = line := by
  unfold cstr
  rw [List.takeWhile_eq_self_iff]
  intro b hb
  rw [bne_iff_ne]
  intro heq
  obtain rfl := heq
  exact h hb

/-- The loop follows the derivation, whatever fuel is enough. -/
theorem readItems_of_reads {m' : KEY_VAL_MAP} (h : Reads text m m')
    {fuel : Nat} (hfuel : text.length < fuel) :
    readItems fuel text m = some m' := by
  induction h generalizing fuel with
  | done m =>
      cases fuel with
      | zero => cases hfuel
      | succ fuel => rfl
  | @line text line rest m m₁ m' n hgets hitem _ ih =>
      cases fuel with
      | zero => cases hfuel
      | succ fuel =>
          have hrest : rest.length < text.length := by
            unfold fgets at hgets
            split at hgets
            · cases hgets
            · rename_i hne
              have hsnd : (readLine 10 398 text).2 = rest :=
                congrArg Prod.snd (Option.some.inj hgets)
              rw [← hsnd]
              exact readLine_shorter (by decide) hne
          unfold readItems
          rw [hgets]
          dsimp only
          rw [hitem]
          exact ih (by omega)

theorem file_to_items_of_reads {m' : KEY_VAL_MAP} (h : Reads text m m') :
    file_to_items (some text) m = some (0, m') := by
  unfold file_to_items
  dsimp only
  rw [readItems_of_reads h (Nat.lt_succ_self _)]
  rfl

/-- A well-formed file is read to its end, and only items come in. -/
theorem reads_confFile {file : List UInt8} (h : ConfFile file)
    (hm : Items m) : ∃ m', Reads file m m' ∧ Items m' := by
  generalize hls : lines 10 file = ls
  induction ls generalizing file m with
  | nil =>
      rw [lines_eq_nil hls]
      exact ⟨m, Reads.done m, hm⟩
  | cons l ls ih =>
      have hmem : l ∈ lines 10 file := hls ▸ List.mem_cons_self
      have hline := h.line l hmem
      obtain ⟨hfst, hsnd⟩ := readLine_lines hls hline.short
      have hgets : fgets 10 (LINE_MAX_LEN - 1) file
          = some (l, (readLine 10 398 file).2) := by
        unfold fgets
        rw [if_neg, ← hfst]
        · rfl
        · intro heq
          obtain rfl := heq
          cases hls
      have hnul : 0 ∉ l := fun hl => h.nul (mem_of_mem_lines hmem hl)
      obtain ⟨n, m₁, hitem, hm₁⟩ := get_item_of_confLine hline hnul
        (fun u w => newline_last hmem) m
      have hitems : Items m₁ := by
        rcases hm₁ with rfl | ⟨k, v, hkv, rfl⟩
        · exact hm
        · intro e he
          rcases SortedMap.mem_insert he with rfl | he
          · exact hkv
          · exact hm e he
      have hrest : ConfFile (readLine 10 398 file).2 := by
        constructor
        · intro h0
          apply h.nul
          rw [← readLine_append 10 398 file]
          exact List.mem_append_right _ h0
        · intro l' hl'
          rw [hsnd] at hl'
          exact h.line l' (hls ▸ List.mem_cons_of_mem l hl')
      obtain ⟨m', hreads, hm'⟩ := ih hrest hitems hsnd
      rw [← cstr_self hnul] at hitem
      exact ⟨m', Reads.line hgets hitem hreads, hm'⟩

theorem newline_blank : ∀ b ∈ [(10 : UInt8)], isSpace b = true :=
  List.forall_mem_singleton.mpr rfl

/-- What `writeItem` writes is read as the item. -/
theorem reads_writeItem (h : Item k v) {m' : KEY_VAL_MAP}
    (hrest : Reads text (m.insert k v) m') :
    Reads (writeItem (k, v) ++ text) m m' := by
  have hwrite : writeItem (k, v) ++ text
      = (k ++ 61 :: v) ++ 10 :: text := by
    unfold writeItem
    simp
  have hne : (k ++ 61 :: v) ++ 10 :: text ≠ [] := by simp
  rw [hwrite]
  rcases Nat.lt_or_ge (k ++ 61 :: v).length 398 with hlt | hge
  · -- the newline is read with the line
    have hgets : fgets 10 (LINE_MAX_LEN - 1) ((k ++ 61 :: v) ++ 10 :: text)
        = some ((k ++ 61 :: v) ++ [10], text) := by
      unfold fgets
      rw [if_neg hne]
      exact congrArg some (readLine_line h.newline hlt text)
    have hnul : 0 ∉ (k ++ 61 :: v) ++ [10] := by
      intro h0
      rcases List.mem_append.mp h0 with h0 | h0
      · exact h.nul h0
      · exact absurd h0 (by decide)
    have hitem := get_item_of_item h [10] newline_blank m
    rw [← cstr_self hnul] at hitem
    exact Reads.line hgets hitem hrest
  · -- the newline comes as a line of its own
    have hlen : (k ++ 61 :: v).length = 398 := Nat.le_antisymm h.short hge
    have hgets : fgets 10 (LINE_MAX_LEN - 1) ((k ++ 61 :: v) ++ 10 :: text)
        = some (k ++ 61 :: v, 10 :: text) := by
      unfold fgets
      rw [if_neg hne]
      have hfull := readLine_full h.newline (10 :: text)
      rw [hlen] at hfull
      exact congrArg some hfull
    have hblank : get_item_from_line (cstr [10]) (m.insert k v)
        = some (1, m.insert k v) := get_item_of_blanks newline_blank _
    have hitem := get_item_of_item h []
      (fun b hb => absurd hb List.not_mem_nil) m
    rw [List.append_nil, ← cstr_self h.nul] at hitem
    exact Reads.line hgets hitem (Reads.line rfl hblank hrest)

/-- Written pairs are inserted one after the other. -/
theorem reads_written {l : List (List UInt8 × List UInt8)}
    (h : ∀ e ∈ l, Item e.1 e.2) (m : KEY_VAL_MAP) :
    Reads (l.flatMap writeItem) m (m.build l) := by
  induction l generalizing m with
  | nil => exact Reads.done m
  | cons e l ih =>
      rw [List.flatMap_cons]
      apply reads_writeItem (h e List.mem_cons_self)
      exact ih (fun d hd => h d (List.mem_cons_of_mem e hd)) _

/-- A map of items is read back from what is written of it. -/
theorem file_to_items_written (h : Items m) :
    file_to_items (some (m.items.flatMap writeItem)) SortedMap.empty
      = some (0, m) := by
  have hreads := reads_written h SortedMap.empty
  rw [SortedMap.build_items] at hreads
  exact file_to_items_of_reads hreads

-- ============================================================== the write

/-- A key and a value for it that can be written. -/
structure ConfValue (key value : List UInt8) : Prop where
  nul_key : 0 ∉ key
  nul : 0 ∉ value
  newline : 10 ∉ value
  last : ∀ b ∈ value.getLast?, isSpace b = false
  short : key.length + value.length + 2 ≤ 398

/-- With a key that is bound, such a value makes an item. -/
theorem ConfValue.item {key value : List UInt8} (h : ConfValue key value)
    (hk : Item key v) : Item key value := by
  refine ⟨?_, ?_, hk.split, hk.head, h.last, ?_⟩
  · intro h0
    rcases List.mem_append.mp h0 with h0 | h0
    · exact h.nul_key h0
    · exact h.nul (List.mem_of_ne_of_mem (by decide) h0)
  · intro h10
    rcases List.mem_append.mp h10 with h10 | h10
    · exact hk.newline (List.mem_append_left _ h10)
    · exact h.newline (List.mem_of_ne_of_mem (by decide) h10)
  · have hshort := h.short
    rw [List.length_append, List.length_cons]
    omega

/-- What `write_conf_value` makes of the map. -/
def written (m : KEY_VAL_MAP) (key value : List UInt8) : KEY_VAL_MAP :=
  match m.find key with
  | none => m
  | some _ => m.assign key value

theorem written_items {key value : List UInt8} (h : ConfValue key value)
    (hm : Items m) : Items (written m key value) := by
  unfold written
  split
  · exact hm
  · rename_i w hw
    intro e he
    rcases SortedMap.mem_assign he with rfl | he
    · exact h.item (hm _ (SortedMap.mem_of_find hw))
    · exact hm e he

/-- The second time nothing is left to change. -/
theorem written_written (m : KEY_VAL_MAP) (key value : List UInt8) :
    written (written m key value) key value = written m key value := by
  cases hf : m.find key with
  | none =>
      have hw : written m key value = m := by
        unfold written
        rw [hf]
      rw [hw, hw]
  | some w =>
      have hw : written m key value = m.assign key value := by
        unfold written
        rw [hf]
      have hsome : (m.assign key value).find key = some value := by
        rw [SortedMap.find_assign, if_pos rfl, hf, Option.map_some]
      rw [hw]
      unfold written
      rw [hsome]
      exact SortedMap.assign_assign m key value

theorem write_conf_value_of_items {file : List UInt8} {n : Nat}
    (key value : List UInt8)
    (h : file_to_items (some file) SortedMap.empty = some (n, m)) :
    write_conf_value key value (some file) true SortedMap.empty
      = some (0, some ((written m key value).items.flatMap writeItem),
        SortedMap.empty) := by
  unfold write_conf_value
  rw [h]
  rfl

/-- After a write the file gives the map it gave, with the value at the
key if the key was bound, and the next write of the same leaves the file as
it is. -/
theorem write_conf_value_read_back {file key value : List UInt8}
    (hfile : ConfFile file) (hvalue : ConfValue key value) :
    ∃ m m' file',
      file_to_items (some file) SortedMap.empty = some (0, m)
      ∧ write_conf_value key value (some file) true SortedMap.empty
        = some (0, some file', SortedMap.empty)
      ∧ file_to_items (some file') SortedMap.empty = some (0, m')
      ∧ ((m.find key).isSome →
        m'.find = Function.update m.find key (some value))
      ∧ (m.find key = none → m' = m)
      ∧ write_conf_value key value (some file') true SortedMap.empty
        = some (0, some file', SortedMap.empty) := by
  have hempty : Items SortedMap.empty := fun e he =>
    absurd he List.not_mem_nil
  obtain ⟨m, hreads, hm⟩ := reads_confFile hfile hempty
  have hitems := file_to_items_of_reads hreads
  have hagain := file_to_items_written (written_items hvalue hm)
  refine ⟨m, written m key value, _, hitems,
    write_conf_value_of_items key value hitems, hagain, ?_, ?_, ?_⟩
  · intro hbound
    obtain ⟨w, hw⟩ := Option.isSome_iff_exists.mp hbound
    unfold written
    rw [hw]
    exact SortedMap.find_assign_update hbound value
  · intro hfree
    unfold written
    rw [hfree]
  · have hwrite := write_conf_value_of_items key value hagain
    rwa [written_written] at hwrite

/-- ` a = 1`, `# b=2` and `b=3=4`, the last one without a newline. -/
def sampleConf : List UInt8 :=
  [32, 97, 32, 61, 32, 49, 10, 35, 32, 98, 61, 50, 10, 98, 61, 51, 61, 52]

theorem sampleConf_line : ∀ l ∈ lines 10 sampleConf, ConfLine l := by
  have hlines : lines 10 sampleConf
      = [[32, 97, 32, 61, 32, 49, 10], [35, 32, 98, 61, 50, 10],
        [98, 61, 51, 61, 52]] := by decide
  rw [hlines]
  refine List.forall_mem_cons.mpr ⟨⟨by decide, ?_⟩, ?_⟩
  · exact Or.inr (Or.inr (by decide))
  · refine List.forall_mem_cons.mpr ⟨⟨by decide, ?_⟩, ?_⟩
    · exact Or.inr (Or.inl (by decide))
    · refine List.forall_mem_singleton.mpr ⟨by decide, ?_⟩
      exact Or.inr (Or.inr (by decide))

/-- Writing ` x#` at `b`. -/
theorem sampleConf_read_back :
    ∃ m m' file',
      file_to_items (some sampleConf) SortedMap.empty = some (0, m)
      ∧ write_conf_value [98] [32, 120, 35] (some sampleConf) true
          SortedMap.empty = some (0, some file', SortedMap.empty)
      ∧ file_to_items (some file') SortedMap.empty = some (0, m')
      ∧ ((m.find [98]).isSome →
        m'.find = Function.update m.find [98] (some [32, 120, 35]))
      ∧ (m.find [98] = none → m' = m)
      ∧ write_conf_value [98] [32, 120, 35] (some file') true
          SortedMap.empty = some (0, some file', SortedMap.empty) :=
  write_conf_value_read_back ⟨by decide, sampleConf_line⟩
    { nul_key := by decide
      nul := by decide
      newline := by decide
      last := fun b hb => by
        obtain rfl := Option.some.inj hb
        rfl
      short := by decide }

end CorrectGps
