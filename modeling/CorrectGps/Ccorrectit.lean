/-
`Ccorrectit::correctgps_worker`: the correction of one client.

The longitude key is only computed if the latitude has a table, and the
point `getGpsxy` returns is taken whether it found the longitude or not.
A member without a NUL, a key text that is too long, and a probe outside
the table are `none`.
-/
import CorrectGps.CClient
import CorrectGps.Cdbdo

namespace CorrectGps

/-- A field's member as the C string a callee reads. -/
def CClient.text (c : CClient) (f : Field) : Option (List UInt8) :=
  if 0 ∈ c.member f then some (c.str f) else none

/-- The end of `correctgps_worker`: store the point, `status = 2`. -/
def CClient.corrected (c : CClient) (p : CPOI) : CClient :=
  { c with xgps := p.dx, ygps := p.dy, status := 2 }

namespace Ccorrectit

/-- `correctgps_worker(pclient, pinfomap)`; `gpsxy` is what the local
point of `getGpsxy` holds before it is assigned. -/
def correctgps_worker (atof : List UInt8 → Rat) (gpsxy : CPOI)
    (info : INFO_MAP) (c : CClient) : Option CClient :=
  match c.text .xbaidu, c.text .ybaidu with
  | some x, some y =>
      let baiduxy : CPOI := { dx := atof x, dy := atof y }
      match chang2uint y with
      | none => none
      | some y1 =>
          match info y1 with
          | some a =>
              match chang2uint x with
              | none => none
              | some x1 =>
                  (a.getGpsxy gpsxy baiduxy x1).map c.corrected
          -- not found: the uncorrected point
          | none => some (c.corrected baiduxy)
  | _, _ => none

end Ccorrectit

end CorrectGps
