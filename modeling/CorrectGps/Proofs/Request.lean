/-
The size of the request that is forwarded.

Of the text `Send` prints 367 bytes are its own; the domain name and the
port stand in it twice, the serial, the MD5 and the two coordinates once
(`data_length`). Without a table for its latitude a client is sent on with
the numbers its texts denote, and `%.8f` writes all digits of an integer
part: 309 of them for the five bytes `1e308`. With a table that has no row
for its longitude, the numbers are what an unassigned local holds. The
request fits in `data` exactly if these lengths leave room, 656 bytes in
all (`dataFits_iff`).
-/
import CorrectGps.Ccorrectit
import CorrectGps.Request

namespace CorrectGps

open Lib

variable {cfg : Cfg} {c : CClient} {info : INFO_MAP}

/-- The number a finite double is. -/
def Lib.Double.toRat : Double → Rat
  | .finite neg mag => if neg then -mag else mag
  | .inf _ => 0
  | .nan _ => 0

namespace Csender

/-- The text and its NUL fit in `data`. -/
def DataFits (cfg : Cfg) (obj : CClient) (xgps ygps : Double) : Prop :=
  (data cfg obj xgps ygps).length + 1 ≤ DATA_SIZE

/-- The numbers forwarded if no row has the keys of the client: those of
its texts if there is no table for the latitude; if there is one, what the
local of `getGpsxy` holds without having been assigned. -/
def forwarded (table : Option CXArray) (point : Double × Double)
    (c : CClient) : Double × Double :=
  match table with
  | none => (atof (c.str .xbaidu), atof (c.str .ybaidu))
  | some _ => point

/-- The row scan of the table, if there is one, ends without a row. -/
def Unmatched (table : Option CXArray) (c : CClient) : Prop :=
  ∀ a, table = some a → ∃ x1, chang2uint (c.str .xbaidu) = some x1
    ∧ a.search x1 = some ARRAY_COUNT

/-- Twice the lengths of the domain name and of the port's digits, the
lengths of serial and MD5, and the widths of the two numbers, come to 656
at most. -/
def RequestShort (cfg : Cfg) (c : CClient) (n : Double × Double) : Prop :=
  2 * cfg.carserv_domainname.length
    + 2 * (Nat.log 10 cfg.carserver_port + 1)
    + (c.str .serial).length + (c.str .md5).length
    + n.1.width 8 + n.2.width 8 ≤ 656

theorem header_length : header.length = 291 := by decide +kernel

theorem data_length (cfg : Cfg) (obj : CClient) (xgps ygps : Double) :
    (data cfg obj xgps ygps).length
      = 367 + 2 * cfg.carserv_domainname.length
        + 2 * (Nat.log 10 cfg.carserver_port + 1)
        + (obj.str .serial).length + (obj.str .md5).length
        + xgps.width 8 + ygps.width 8 := by
  have hown : (bytes "GET http://".toList).length = 11
      ∧ (bytes ":".toList).length = 1
      ∧ (bytes "/api/navigate.api.php?serial=".toList).length = 29
      ∧ (bytes "&md5=".toList).length = 5
      ∧ (bytes "&xgps=".toList).length = 6
      ∧ (bytes "&ygps=".toList).length = 6
      ∧ (bytes " HTTP/1.1\r\nHost: ".toList).length = 17 := by decide
  obtain ⟨h1, h2, h3, h4, h5, h6, h7⟩ := hown
  unfold data
  simp only [List.flatten_cons, List.flatten_nil, List.length_append,
    List.length_nil, h1, h2, h3, h4, h5, h6, h7, header_length,
    decimal_length, fixed_length (k := 8) (by omega)]
  -- the texts are not looked into any further
  clear h1 h2 h3 h4 h5 h6 h7
  generalize obj.str .serial = serial
  generalize obj.str .md5 = md5
  omega

/-- The client gets the forwarded numbers. -/
theorem worker_unmatched (point : Double × Double) {y1 : UInt32}
    (hxz : 0 ∈ c.member .xbaidu) (hyz : 0 ∈ c.member .ybaidu)
    (hy : chang2uint (c.str .ybaidu) = some y1)
    (hmiss : Unmatched (info y1) c) :
    Ccorrectit.correctgps_worker (fun s => (atof s).toRat)
        ⟨point.1.toRat, point.2.toRat⟩ info c
      = some (c.corrected ⟨(forwarded (info y1) point c).1.toRat,
        (forwarded (info y1) point c).2.toRat⟩) := by
  have hx : c.text .xbaidu = some (c.str .xbaidu) := if_pos hxz
  have hy' : c.text .ybaidu = some (c.str .ybaidu) := if_pos hyz
  unfold Ccorrectit.correctgps_worker
  simp only [hx, hy', hy]
  cases htable : info y1 with
  | none => rfl
  | some a =>
      obtain ⟨x1, hx1, hscan⟩ := hmiss a htable
      have hlocal : ∀ gpsxy baiduxy,
          a.getGpsxy gpsxy baiduxy x1 = some gpsxy := by
        intro gpsxy baiduxy
        unfold CXArray.getGpsxy
        rw [hscan, Option.map_some, if_neg (Nat.lt_irrefl _)]
      simp only [hx1, hlocal]
      rfl

/-- Its request with these numbers. -/
theorem dataFits_corrected (cfg : Cfg) (c : CClient) (p : CPOI)
    (n : Double × Double) :
    DataFits cfg (c.corrected p) n.1 n.2 ↔ RequestShort cfg c n := by
  have hserial : (c.corrected p).str .serial = c.str .serial := rfl
  have hmd5 : (c.corrected p).str .md5 = c.str .md5 := rfl
  have hsize : DATA_SIZE = 1024 := rfl
  unfold DataFits RequestShort
  rw [data_length, hserial, hmd5]
  omega

/-- The request of a client that no row matches fits exactly if it is
short with the forwarded numbers. -/
theorem dataFits_iff (cfg : Cfg) (info : INFO_MAP) (point : Double × Double)
    (c : CClient) (y1 : UInt32) (hxz : 0 ∈ c.member .xbaidu)
    (hyz : 0 ∈ c.member .ybaidu)
    (hy : chang2uint (c.str .ybaidu) = some y1)
    (hmiss : Unmatched (info y1) c) :
    ∃ c', Ccorrectit.correctgps_worker (fun s => (atof s).toRat)
          ⟨point.1.toRat, point.2.toRat⟩ info c = some c'
      ∧ c'.xgps = (forwarded (info y1) point c).1.toRat
      ∧ c'.ygps = (forwarded (info y1) point c).2.toRat
      ∧ (DataFits cfg c' (forwarded (info y1) point c).1
            (forwarded (info y1) point c).2
        ↔ RequestShort cfg c (forwarded (info y1) point c)) :=
  ⟨_, worker_unmatched point hxz hyz hy hmiss, rfl, rfl,
    dataFits_corrected cfg c _ _⟩

/-- A client with these coordinates. -/
def requestAt (x y : String) : CClient :=
  (((CClient.blank.put .serial (bytes "356823032255122".toList)).put .md5
    (bytes "2eb399b9588b1ac2ccc35dce6f266033".toList)).put .xbaidu
      (bytes x.toList)).put .ybaidu (bytes y.toList)

/-- The car server of the source's example. -/
def exampleCfg : Cfg where
  carserv_domainname := bytes "58.61.160.95".toList
  carserver_port := 81

/-- Without a table. -/
theorem shenzhen_dataFits :
    ∃ c', Ccorrectit.correctgps_worker (fun s => (atof s).toRat)
        ⟨0, 0⟩ INFO_MAP.empty
        (requestAt "114.05" "22.54") = some c'
      ∧ DataFits exampleCfg c'
        (atof ((requestAt "114.05" "22.54").str .xbaidu))
        (atof ((requestAt "114.05" "22.54").str .ybaidu)) := by
  obtain ⟨c', hworker, -, -, hfits⟩ := dataFits_iff exampleCfg
    INFO_MAP.empty (.finite false 0, .finite false 0)
    (requestAt "114.05" "22.54") 2254 (by decide) (by decide) (by decide)
    nofun
  refine ⟨c', hworker, hfits.mpr ?_⟩
  unfold RequestShort
  decide +kernel

/-- Two coordinates of five bytes, `1e308`. -/
theorem not_dataFits :
    ¬ ∀ (cfg : Cfg) (info : INFO_MAP) (gpsxy : CPOI) (c c' : CClient)
      (y1 : UInt32), cfg.carserv_domainname.length ≤ 64 →
      cfg.carserver_port < 65536 → (c.str .serial).length ≤ 15 →
      (c.str .md5).length ≤ 32 → (c.str .xbaidu).length ≤ 10 →
      (c.str .ybaidu).length ≤ 10 →
      chang2uint (c.str .ybaidu) = some y1 → info y1 = none →
      Ccorrectit.correctgps_worker (fun s => (atof s).toRat) gpsxy info c
        = some c' →
      DataFits cfg c' (atof (c.str .xbaidu)) (atof (c.str .ybaidu)) := by
  intro hall
  have hy : chang2uint ((requestAt "1e308" "1e308").str .ybaidu) = some 1 := by
    decide
  have hmiss : Unmatched (INFO_MAP.empty 1) (requestAt "1e308" "1e308") :=
    nofun
  have hworker := worker_unmatched (Double.inf false, Double.inf false)
    (by decide) (by decide) hy hmiss
  have hfits := hall exampleCfg INFO_MAP.empty _
    (requestAt "1e308" "1e308") _ 1 (by decide) (by decide)
    (by decide +kernel) (by decide +kernel) (by decide) (by decide) hy rfl
    hworker
  have hshort := (dataFits_corrected exampleCfg _ _
    (atof ((requestAt "1e308" "1e308").str .xbaidu),
      atof ((requestAt "1e308" "1e308").str .ybaidu))).mp hfits
  unfold RequestShort at hshort
  exact absurd hshort (by decide +kernel)

end Csender

end CorrectGps
