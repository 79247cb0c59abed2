/-
`Cdbdo::getdb`: the offset rows from the database into the tables, one
table for each latitude.

The server is the argument `select`: what it returns for the page that
begins at a row number, or `none` if it fails. A page is read until a
row has a NULL in one of its four columns; that row and the rest of the
page are skipped. `atof` is a parameter.

The result is the map and whether the call has set `allExitFlag`; a
memory fault on the way, in a key conversion or in a table, is `none`.
That another thread sets the flag is left out.
-/
import CorrectGps.CXArray
import CorrectGps.Tools

namespace CorrectGps

/-- Rows of one `LIMIT`. -/
def COUNT_PER_READ : Nat := 10000000

/-- Where the pages end. -/
def MAX_RECORD : Nat := 30000000

/-- A fetched row: `lat`, `lng`, `offsetlng`, `offsetlat`. -/
structure DbRow where
  lat : Option (List UInt8)
  lng : Option (List UInt8)
  offsetlng : Option (List UInt8)
  offsetlat : Option (List UInt8)

/-- `m_mapinfo`: latitude key to table. -/
abbrev INFO_MAP : Type := UInt32 → Option CXArray

/-- The map before anything is loaded. -/
def INFO_MAP.empty : INFO_MAP := fun _ => none

namespace Cdbdo

variable (atof : List UInt8 → Rat)

/-- Insert a row: into the table of its latitude, a new one if there is
none. -/
def insertRow (info : INFO_MAP) (key : UInt32) (t : Coffsetdata) :
    Option INFO_MAP :=
  (((info key).getD CXArray.new).append t).map fun a =>
    Function.update info key (some a)

/-- One row: the map it leaves, or `some none` at a NULL. -/
def loadRow (info : INFO_MAP) (row : DbRow) : Option (Option INFO_MAP) :=
  match row.lat with
  | none => some none
  | some lat =>
    match chang2uint lat with
    | none => none
    | some key =>
      match row.lng with
      | none => some none
      | some lng =>
        match chang2uint lng with
        | none => none
        | some lngkey =>
          match row.offsetlng, row.offsetlat with
          | some dx, some dy =>
              (insertRow info key ⟨lngkey, atof dx, atof dy⟩).map some
          | _, _ => some none

/-- The rows of one page. -/
def loadRows (info : INFO_MAP) : List DbRow → Option INFO_MAP
  | [] => some info
  | row :: rows =>
      match loadRow atof info row with
      | none => none
      | some none => some info
      | some (some info') => loadRows info' rows

/-- The values of `m` for which `while (!allExitFlag && m < max)` reads
a page. -/
def pageStarts : List Nat :=
  (List.range (MAX_RECORD / COUNT_PER_READ)).map (· * COUNT_PER_READ)

/-- The pages from these starts on, until one cannot be fetched. -/
def loadPages (select : Nat → Option (List DbRow)) (info : INFO_MAP) :
    List Nat → Option (INFO_MAP × Bool)
  | [] => some (info, false)
  | m :: ms =>
      match select m with
      -- setallthreadexitflag(400)
      | none => some (info, true)
      | some rows =>
          match loadRows atof info rows with
          | none => none
          | some info' => loadPages select info' ms

/-- `getdb`, with the answer of `checklink`. -/
def getdb (checklink : Bool) (select : Nat → Option (List DbRow))
    (info : INFO_MAP) : Option (INFO_MAP × Bool) :=
  if checklink then loadPages atof select info pageStarts
  else some (info, false)

end Cdbdo

end CorrectGps
