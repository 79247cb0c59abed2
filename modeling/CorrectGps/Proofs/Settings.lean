/-
Which value a setting has: the first one that any reading of the
configuration file has found for its key.

# Reading again

The maps are never cleared, and `insert` keeps what is there. So a file
that has changed since it was read can only add settings: what the first
file with a key says stays (`readings_first`). That `Ccfg` goes back to
its defaults and `Cdbdo` to what it had makes no difference, since a key
once bound stays bound.

# Writing

`write_conf_value` changes the setting of its key and no other, for both
readers, and only if the key stands in the file (`write_changes_setting`);
if the readers open the file that was written, whose name they have from
a pointer to a destroyed string. What is written has no blanks in front
of its lines (`written_unindented`).
-/
import CorrectGps.Ccfg
import CorrectGps.Proofs.Framing

namespace CorrectGps

open Lib

variable (atoi : List UInt8 → Int) {m : KEY_VAL_MAP}
variable {file : Option (List UInt8)}

-- =========================================================== one reading

/-- No file has a NUL. -/
def Textual (file : Option (List UInt8)) : Prop := ∀ text ∈ file, 0 ∉ text

/-- Every piece of the file can be read, and none is copied over itself. -/
def AllReadable (file : Option (List UInt8)) : Prop :=
  ∀ text ∈ file, Unindented text ∧ ∀ p ∈ chunks text, Readable p

/-- The pairs of a file, in order. -/
def pairs (file : Option (List UInt8)) : List (List UInt8 × List UInt8) :=
  (file.map fun text => (chunks text).filterMap entry).getD []

/-- A file is inserted into the map pair by pair, or stops the process. -/
theorem file_to_items_map (htext : Textual file) (m : KEY_VAL_MAP) :
    (AllReadable file → (Strict.file_to_items file m).map Prod.snd
        = some (m.build (pairs file)))
      ∧ (¬ AllReadable file → Strict.file_to_items file m = none) := by
  cases file with
  | none => exact ⟨fun _ => rfl, fun h => absurd (fun _ h => by cases h) h⟩
  | some text =>
      have hnul : 0 ∉ text := htext text rfl
      obtain ⟨hsame, hnone⟩ := strict_file_to_items hnul m
      constructor
      · intro hread
        obtain ⟨hapart, hpieces⟩ := hread text rfl
        rw [hsame hapart,
          file_to_items_of_reads (reads_chunks hnul hpieces m)]
        rfl
      · intro hbad
        by_cases hapart : Unindented text
        · have hpiece : ∃ p ∈ chunks text, ¬ Readable p := by
            by_contra hno
            push Not at hno
            refine hbad fun t ht => ?_
            obtain rfl := Option.some.inj ht
            exact ⟨hapart, hno⟩
          rw [hsame hapart]
          show Option.map _ (readItems _ text m) = none
          rw [readItems_stuck hnul hpiece]
          rfl
        · exact hnone hapart

-- =========================================================== the members

/-- The members of `Cdbdo`, given the map. -/
def Cdbdo.ofMap (atoi : List UInt8 → Int) (kvmap : KEY_VAL_MAP) :
    Cdbdo where
  kvmap := kvmap
  m_strServerName := stringSetting kvmap "db_host_ip" new.m_strServerName
  m_strDBName := stringSetting kvmap "db_name" new.m_strDBName
  m_strUserName := stringSetting kvmap "db_user" new.m_strUserName
  m_strPassword := stringSetting kvmap "db_psw" new.m_strPassword
  m_port := intSetting atoi kvmap "db_port" new.m_port

/-- What a map has stays in a map that is built on it. -/
theorem stringSetting_build (m : KEY_VAL_MAP) (name : String)
    (l : List (List UInt8 × List UInt8)) (d : List UInt8) :
    stringSetting (m.build l) name (stringSetting m name d)
      = stringSetting (m.build l) name d := by
  unfold stringSetting
  rw [SortedMap.find_build]
  cases m.find (confKey name) <;> rfl

theorem intSetting_build (m : KEY_VAL_MAP) (name : String)
    (l : List (List UInt8 × List UInt8)) (d : Int) :
    intSetting atoi (m.build l) name (intSetting atoi m name d)
      = intSetting atoi (m.build l) name d := by
  unfold intSetting
  rw [SortedMap.find_build]
  cases m.find (confKey name) <;> rfl

theorem Ccfg.readConfigFile_map (cfg : Ccfg) (htext : Textual file) :
    (AllReadable file → cfg.readConfigFile atoi file
        = some (.ofMap atoi (cfg.kvmap.build (pairs file))))
      ∧ (¬ AllReadable file → cfg.readConfigFile atoi file = none) := by
  obtain ⟨hsome, hnone⟩ := file_to_items_map htext cfg.kvmap
  constructor
  · intro hread
    obtain ⟨r, hr, hmap⟩ := Option.map_eq_some_iff.mp (hsome hread)
    unfold Ccfg.readConfigFile
    rw [hr, ← hmap]
    rfl
  · intro hbad
    unfold Ccfg.readConfigFile
    rw [hnone hbad]
    rfl

/-- `Cdbdo` reads as if it went back to its defaults. -/
theorem Cdbdo.readConfigFile_map (htext : Textual file) (m : KEY_VAL_MAP) :
    (AllReadable file → (Cdbdo.ofMap atoi m).readConfigFile atoi file
        = some (.ofMap atoi (m.build (pairs file))))
      ∧ (¬ AllReadable file →
        (Cdbdo.ofMap atoi m).readConfigFile atoi file = none) := by
  obtain ⟨hsome, hnone⟩ := file_to_items_map htext m
  constructor
  · intro hread
    obtain ⟨r, hr, hmap⟩ := Option.map_eq_some_iff.mp (hsome hread)
    have hitems : Strict.file_to_items file (Cdbdo.ofMap atoi m).kvmap
        = some r := hr
    unfold Cdbdo.readConfigFile
    rw [hitems, Option.map_some, hmap]
    simp only [Cdbdo.ofMap, stringSetting_build, intSetting_build]
  · intro hbad
    have hitems : Strict.file_to_items file (Cdbdo.ofMap atoi m).kvmap
        = none := hnone hbad
    unfold Cdbdo.readConfigFile
    rw [hitems]
    rfl

-- ========================================================== all readings

/-- The file is read once more for each of its contents. -/
def Ccfg.readings (atoi : List UInt8 → Int)
    (files : List (Option (List UInt8))) (cfg : Ccfg) : Option Ccfg :=
  files.foldlM (fun cfg file => cfg.readConfigFile atoi file) cfg

def Cdbdo.readings (atoi : List UInt8 → Int)
    (files : List (Option (List UInt8))) (db : Cdbdo) : Option Cdbdo :=
  files.foldlM (fun db file => db.readConfigFile atoi file) db

theorem readings_map {files : List (Option (List UInt8))}
    (htext : ∀ file ∈ files, Textual file) (m : KEY_VAL_MAP) :
    ((∀ file ∈ files, AllReadable file) →
        (Ccfg.ofMap atoi m).readings atoi files
            = some (.ofMap atoi (m.build (files.flatMap pairs)))
          ∧ (Cdbdo.ofMap atoi m).readings atoi files
            = some (.ofMap atoi (m.build (files.flatMap pairs))))
      ∧ ((¬ ∀ file ∈ files, AllReadable file) →
        (Ccfg.ofMap atoi m).readings atoi files = none
          ∧ (Cdbdo.ofMap atoi m).readings atoi files = none) := by
  unfold Ccfg.readings Cdbdo.readings
  induction files generalizing m with
  | nil => exact ⟨fun _ => ⟨rfl, rfl⟩, fun h => absurd (by simp) h⟩
  | cons file files ih =>
      have hfirst := htext file List.mem_cons_self
      have ⟨hcfg, hcfg'⟩ :=
        Ccfg.readConfigFile_map atoi (.ofMap atoi m) hfirst
      have ⟨hdb, hdb'⟩ := Cdbdo.readConfigFile_map atoi hfirst m
      obtain ⟨hall, hbad⟩ := ih
        (fun f hf => htext f (List.mem_cons_of_mem file hf))
        (m.build (pairs file))
      have hbuild : (m.build (pairs file)).build (files.flatMap pairs)
          = m.build ((file :: files).flatMap pairs) := by
        rw [List.flatMap_cons]
        exact List.foldl_append.symm
      rw [List.foldlM_cons, List.foldlM_cons, List.forall_mem_cons]
      by_cases hread : AllReadable file
      · rw [hcfg hread, hdb hread, ← hbuild]
        exact ⟨fun h => hall h.2, fun h => hbad fun h' => h ⟨hread, h'⟩⟩
      · rw [hcfg' hread, hdb' hread]
        exact ⟨fun h => absurd h.1 hread, fun _ => ⟨rfl, rfl⟩⟩

/-- Every setting is the first one found for its key in any of the
readings, in the order in which they were made, or its default; a reading
that comes on a line without `=`, or copies one over itself, stops the
process. -/
theorem readings_first (cfg : Ccfg) (hnew : cfg.kvmap = SortedMap.empty)
    {files : List (Option (List UInt8))}
    (htext : ∀ f ∈ file :: files, Textual f) :
    ((∀ f ∈ file :: files, AllReadable f) →
        ∃ m, cfg.readings atoi (file :: files) = some (.ofMap atoi m)
          ∧ Cdbdo.new.readings atoi (file :: files)
            = some (.ofMap atoi m)
          ∧ ∀ k, m.find k = ((file :: files).flatMap pairs).lookup k)
      ∧ ((¬ ∀ f ∈ file :: files, AllReadable f) →
        cfg.readings atoi (file :: files) = none
          ∧ Cdbdo.new.readings atoi (file :: files) = none) := by
  -- what the members were before the first reading plays no part
  have hcfg : cfg.readings atoi (file :: files)
      = (Ccfg.ofMap atoi SortedMap.empty).readings atoi (file :: files) := by
    unfold Ccfg.readings
    rw [List.foldlM_cons, List.foldlM_cons]
    unfold Ccfg.readConfigFile
    rw [hnew]
    rfl
  obtain ⟨hall, hbad⟩ := readings_map atoi htext SortedMap.empty
  rw [hcfg]
  refine ⟨fun hread => ?_, hbad⟩
  obtain ⟨hc, hd⟩ := hall hread
  refine ⟨_, hc, hd, fun k => ?_⟩
  rw [SortedMap.find_build]
  exact Option.none_or

/-- Lines of `correctgps.conf`; the third one is no comment. -/
def someConf : List UInt8 :=
  bytes "db_port=3306\n\n;WORKERS=8\nLINK_TIMEOUT=5\n".toList

theorem someConf_readable : AllReadable (some someConf) := by
  intro text ht
  obtain rfl := Option.some.inj ht
  refine ⟨by unfold Unindented; decide +kernel, ?_⟩
  have hchunks : chunks someConf = [bytes "db_port=3306\n".toList, [10],
      bytes ";WORKERS=8\n".toList, bytes "LINK_TIMEOUT=5\n".toList] := by
    decide +kernel
  intro p hp
  rw [hchunks] at hp
  simp only [List.mem_cons, List.not_mem_nil, or_false] at hp
  rcases hp with rfl | rfl | rfl | rfl
  · exact Or.inr (Or.inr (by decide))
  · refine Or.inl fun b hb => ?_
    rw [List.mem_singleton.mp hb]
    rfl
  · exact Or.inr (Or.inr (by decide))
  · exact Or.inr (Or.inr (by decide))

/-- It leaves one worker, also if the file is gone when it is read
again. -/
theorem someConf_first :
    ∃ m, (Ccfg.ofMap CorrectGps.atoi SortedMap.empty).readings
        CorrectGps.atoi [some someConf, none]
        = some (.ofMap CorrectGps.atoi m)
      ∧ (Ccfg.ofMap CorrectGps.atoi m).outtime_s = 5
      ∧ (Ccfg.ofMap CorrectGps.atoi m).max_worker = 1 := by
  have hall : ∀ f ∈ [some someConf, none], AllReadable f := by
    intro f hf
    rcases List.mem_pair.mp hf with rfl | rfl
    · exact someConf_readable
    · exact fun text ht => by cases ht
  have htext : ∀ f ∈ [some someConf, none], Textual f := by
    unfold Textual someConf
    decide
  obtain ⟨m, hcfg, -, hfind⟩ := (readings_first CorrectGps.atoi
    (.ofMap CorrectGps.atoi SortedMap.empty) rfl htext).1 hall
  refine ⟨m, hcfg, ?_, ?_⟩
  · simp only [Ccfg.ofMap, intSetting, hfind]
    decide +kernel
  · simp only [Ccfg.ofMap, intSetting, hfind]
    decide +kernel

-- ============================================================ one writing

/-- `cfg` with the member of `key` given by `value`. -/
def Ccfg.assign (atoi : List UInt8 → Int) (key value : List UInt8)
    (cfg : Ccfg) : Ccfg where
  kvmap := cfg.kvmap.assign key value
  carserver_port :=
    if key = confKey "CARSERVER_PORT" then UInt32.ofInt (atoi value)
    else cfg.carserver_port
  carserver_ip :=
    if key = confKey "CARSERVER_IP" then value else cfg.carserver_ip
  carserv_domainname :=
    if key = confKey "CARSERVER_DOMAINNAME" then value
    else cfg.carserv_domainname
  local_port :=
    if key = confKey "LOCAL_PORT" then value else cfg.local_port
  max_clients :=
    if key = confKey "MAX_CONNECTION_NUM" then UInt32.ofInt (atoi value)
    else cfg.max_clients
  outtime_s :=
    if key = confKey "LINK_TIMEOUT" then UInt32.ofInt (atoi value)
    else cfg.outtime_s
  max_worker :=
    if key = confKey "MAX_WORKER" then UInt32.ofInt (atoi value)
    else cfg.max_worker

/-- `db` with the member of `key` given by `value`. -/
def Cdbdo.assign (atoi : List UInt8 → Int) (key value : List UInt8)
    (db : Cdbdo) : Cdbdo where
  kvmap := db.kvmap.assign key value
  m_strServerName :=
    if key = confKey "db_host_ip" then value else db.m_strServerName
  m_strDBName := if key = confKey "db_name" then value else db.m_strDBName
  m_strUserName :=
    if key = confKey "db_user" then value else db.m_strUserName
  m_strPassword :=
    if key = confKey "db_psw" then value else db.m_strPassword
  m_port := if key = confKey "db_port" then atoi value else db.m_port

variable {key value : List UInt8}

theorem find_assigned (hbound : (m.find key).isSome) (name : String) :
    (m.assign key value).find (confKey name)
      = if key = confKey name then some value
        else m.find (confKey name) := by
  rw [SortedMap.find_assign_update hbound, Function.update_apply]
  simp only [eq_comm]

theorem stringSetting_assign (hbound : (m.find key).isSome) (name : String)
    (d : List UInt8) :
    stringSetting (m.assign key value) name d
      = if key = confKey name then value else stringSetting m name d := by
  unfold stringSetting
  rw [find_assigned hbound]
  split <;> rfl

theorem intSetting_assign (hbound : (m.find key).isSome) (name : String)
    (d : Int) :
    intSetting atoi (m.assign key value) name d
      = if key = confKey name then atoi value
        else intSetting atoi m name d := by
  unfold intSetting
  rw [find_assigned hbound]
  split <;> rfl

theorem Ccfg.ofMap_assign (hbound : (m.find key).isSome) :
    Ccfg.ofMap atoi (m.assign key value)
      = (Ccfg.ofMap atoi m).assign atoi key value := by
  simp only [Ccfg.ofMap, Ccfg.assign, stringSetting_assign hbound,
    intSetting_assign atoi hbound, apply_ite UInt32.ofInt]

theorem Cdbdo.ofMap_assign (hbound : (m.find key).isSome) :
    Cdbdo.ofMap atoi (m.assign key value)
      = (Cdbdo.ofMap atoi m).assign atoi key value := by
  simp only [Cdbdo.ofMap, Cdbdo.assign, stringSetting_assign hbound,
    intSetting_assign atoi hbound]

/-- A reading of a file that gives `m` to an empty map. -/
theorem readConfigFile_of_items {text : List UInt8} {n : Nat} (cfg : Ccfg)
    (hnew : cfg.kvmap = SortedMap.empty)
    (h : Strict.file_to_items (some text) SortedMap.empty = some (n, m)) :
    cfg.readConfigFile atoi (some text) = some (.ofMap atoi m)
      ∧ Cdbdo.new.readConfigFile atoi (some text)
        = some (.ofMap atoi m) := by
  constructor
  · unfold Ccfg.readConfigFile
    rw [hnew, h]
    rfl
  · have hitems : Strict.file_to_items (some text) Cdbdo.new.kvmap
        = some (n, m) := h
    unfold Cdbdo.readConfigFile
    rw [hitems]
    rfl

/-- A text whose first byte is no blank is not copied. -/
theorem apart_of_head {b : UInt8} (hb : isSpace b = false)
    (t : List UInt8) : Strict.Apart (strtrimr (b :: t)) := by
  rw [strtrimr_cons hb]
  refine Or.inl (congrArg List.length (strtriml_self fun c hc => ?_))
  obtain rfl := Option.some.inj hc
  exact hb

/-- An item does not begin with a blank. -/
theorem Item.apart {k v : List UInt8} (h : Item k v) (ws : List UInt8) :
    Strict.Apart (strtrimr (k ++ 61 :: v ++ ws)) := by
  cases k with
  | nil => exact apart_of_head (by decide) (v ++ ws)
  | cons b k => exact apart_of_head (h.head b rfl).1 _

/-- No piece of what is written is copied over itself. -/
theorem written_unindented {l : List (List UInt8 × List UInt8)}
    (h : ∀ e ∈ l, Item e.1 e.2) : Unindented (l.flatMap writeItem) := by
  induction l with
  | nil => exact fun p hp => by cases hp
  | cons e l ih =>
      obtain ⟨k, v⟩ := e
      have hitem : Item k v := h _ List.mem_cons_self
      have hrest := ih fun d hd => h d (List.mem_cons_of_mem _ hd)
      have hwrite : ((k, v) :: l).flatMap writeItem
          = (k ++ 61 :: v) ++ 10 :: l.flatMap writeItem := by
        rw [List.flatMap_cons]
        unfold writeItem
        simp
      unfold Unindented chunks
      rw [hwrite, pieces_step (by decide) (by simp), List.forall_mem_cons]
      rcases Nat.lt_or_ge (k ++ 61 :: v).length 398 with hlt | hge
      · rw [show LINE_MAX_LEN - 1 - 1 = 398 from rfl,
          readLine_line hitem.newline hlt]
        exact ⟨hitem.apart [10], hrest⟩
      · -- the newline is a piece of its own
        have hlen : (k ++ 61 :: v).length = 398 :=
          Nat.le_antisymm hitem.short hge
        have hfull := readLine_full hitem.newline
          (10 :: l.flatMap writeItem)
        rw [hlen] at hfull
        rw [show LINE_MAX_LEN - 1 - 1 = 398 from rfl, hfull]
        refine ⟨by simpa using hitem.apart [], ?_⟩
        have hnewline : pieces 10 398 (10 :: l.flatMap writeItem)
            = [10] :: pieces 10 398 (l.flatMap writeItem) :=
          pieces_step (by decide) (by simp)
        rw [hnewline, List.forall_mem_cons]
        exact ⟨by decide, hrest⟩

/-- What `fopen` finds under a name. -/
abbrev Files : Type := List UInt8 → Option (List UInt8)

/-- If the readers open the file that is written, `write_conf_value`
changes what its key sets, for the reader that asks for it, and nothing
else, if the key stands in the file; if it does not, nothing changes. -/
theorem write_changes_setting (files : Files)
    (path exedir exedir' : List UInt8)
    (hcfg : exedir ++ CONFIG_FILE = path)
    (hdb : exedir' ++ CONFIG_FILE = path) {text : List UInt8}
    (hopen : files path = some text) (hfile : ConfFile text)
    (hapart : Unindented text) (hvalue : ConfValue key value)
    (cfg : Ccfg) (hnew : cfg.kvmap = SortedMap.empty) :
    ∃ m text',
      cfg.readConfigFile atoi (files (exedir ++ CONFIG_FILE))
        = some (.ofMap atoi m)
      ∧ Cdbdo.new.readConfigFile atoi (files (exedir' ++ CONFIG_FILE))
        = some (.ofMap atoi m)
      ∧ write_conf_value key value (files path) true SortedMap.empty
        = some (0, some text', SortedMap.empty)
      ∧ ((m.find key).isSome →
        cfg.readConfigFile atoi (Function.update files path (some text')
              (exedir ++ CONFIG_FILE))
            = some ((Ccfg.ofMap atoi m).assign atoi key value)
          ∧ Cdbdo.new.readConfigFile atoi
              (Function.update files path (some text')
                (exedir' ++ CONFIG_FILE))
            = some ((Cdbdo.ofMap atoi m).assign atoi key value))
      ∧ (m.find key = none →
        cfg.readConfigFile atoi (Function.update files path (some text')
              (exedir ++ CONFIG_FILE)) = some (.ofMap atoi m)
          ∧ Cdbdo.new.readConfigFile atoi
              (Function.update files path (some text')
                (exedir' ++ CONFIG_FILE)) = some (.ofMap atoi m)) := by
  obtain ⟨m, hreads, hm⟩ :=
    reads_confFile hfile (m := SortedMap.empty) fun e he =>
      absurd he List.not_mem_nil
  have hitems := file_to_items_of_reads hreads
  have hwritten := written_items hvalue hm
  have hagain := file_to_items_written hwritten
  have hclean : 0 ∉ (written m key value).items.flatMap writeItem := by
    intro h0
    obtain ⟨e, he, hb⟩ := List.mem_flatMap.mp h0
    have hnul := (hwritten e he).nul
    unfold writeItem at hb
    rw [← List.cons_append, ← List.append_assoc] at hb
    rcases List.mem_append.mp hb with hb | hb
    · exact hnul hb
    · exact absurd hb (by decide)
  -- neither file has a piece that is copied over itself
  rw [← (strict_file_to_items hclean _).1 (written_unindented hwritten)]
    at hagain
  have hstrict := hitems
  rw [← (strict_file_to_items hfile.nul _).1 hapart] at hstrict
  obtain ⟨hread, hread'⟩ := readConfigFile_of_items atoi cfg hnew hstrict
  obtain ⟨hmore, hmore'⟩ := readConfigFile_of_items atoi cfg hnew hagain
  rw [hcfg, hdb, hopen]
  simp only [Function.update_self]
  refine ⟨m, _, hread, hread', write_conf_value_of_items key value hitems,
    ?_, ?_⟩
  · intro hbound
    obtain ⟨w, hw⟩ := Option.isSome_iff_exists.mp hbound
    have hmap : written m key value = m.assign key value := by
      unfold written
      rw [hw]
    rw [hmore, hmore', hmap, Ccfg.ofMap_assign atoi hbound,
      Cdbdo.ofMap_assign atoi hbound]
    exact ⟨rfl, rfl⟩
  · intro hfree
    have hmap : written m key value = m := by
      unfold written
      rw [hfree]
    rw [hmore, hmore', hmap]
    exact ⟨rfl, rfl⟩

def timeoutConf : List UInt8 := bytes "LINK_TIMEOUT=5\n".toList

theorem timeoutConf_file : ConfFile timeoutConf := by
  refine ⟨by decide, ?_⟩
  have hlines : lines 10 timeoutConf = [timeoutConf] := by decide +kernel
  rw [hlines]
  refine List.forall_mem_singleton.mpr ⟨by decide, ?_⟩
  exact Or.inr (Or.inr (by decide))

/-- The file is the only one, in the directory `/`. -/
def timeoutFiles : Files := fun name =>
  if name = CONFIG_FILE then some timeoutConf else none

/-- Writing ` 60`. -/
theorem timeoutConf_changed :
    ∃ m text',
      write_conf_value (confKey "LINK_TIMEOUT") (bytes " 60".toList)
          (timeoutFiles CONFIG_FILE) true SortedMap.empty
        = some (0, some text', SortedMap.empty)
      ∧ (Ccfg.ofMap CorrectGps.atoi SortedMap.empty).readConfigFile
          CorrectGps.atoi (Function.update timeoutFiles CONFIG_FILE
            (some text') CONFIG_FILE)
        = some ((Ccfg.ofMap CorrectGps.atoi m).assign CorrectGps.atoi
          (confKey "LINK_TIMEOUT") (bytes " 60".toList)) := by
  have hvalue :
      ConfValue (confKey "LINK_TIMEOUT") (bytes " 60".toList) :=
    { nul_key := by decide
      nul := by decide
      newline := by decide
      last := fun b hb => by
        obtain rfl := Option.some.inj hb
        rfl
      short := by decide }
  have hkey : ((Ccfg.ofMap CorrectGps.atoi SortedMap.empty).readConfigFile
      CorrectGps.atoi (timeoutFiles CONFIG_FILE)).all (fun cfg =>
        (cfg.kvmap.find (confKey "LINK_TIMEOUT")).isSome) = true := by
    decide +kernel
  obtain ⟨m, text', hcfg, -, hwrite, hbound, -⟩ :=
    write_changes_setting CorrectGps.atoi timeoutFiles CONFIG_FILE [] []
      rfl rfl rfl timeoutConf_file
      (by unfold Unindented; decide +kernel) hvalue
      (.ofMap CorrectGps.atoi SortedMap.empty) rfl
  rw [List.nil_append] at hcfg hbound
  rw [hcfg] at hkey
  exact ⟨m, text', hwrite, (hbound hkey).1⟩

end CorrectGps
