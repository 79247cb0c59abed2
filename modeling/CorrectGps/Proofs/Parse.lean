/-
What the parser promises about a connection, and what it does not.

The daemon survives a connection exactly if no text that is taken for an
entire request lacks one of the three asserted names (`receives_iff`):
the header's byte count decides, not the content, so ninety-three bytes
from `navto` on are enough to stop the process (`not_survives`).

A completed request is read correctly exactly if its four parameters are
well formed (`soundCall_iff`). The parser checks next to nothing: it
does not look for the `=`, copies serial and md5 by length, and reports
a request without its last parameter as complete (`not_soundCall`).
-/
import CorrectGps.Proofs.Text
import Mathlib.Data.List.TakeWhile

namespace CorrectGps

open Lib

/-- Lengths a parameter of a well-formed request has. -/
def Field.LengthOk (f : Field) (n : Nat) : Prop :=
  match f with
  | .serial => n = SERIAL_LEN
  | .md5 => n = MD5_LEN
  | .xbaidu => 1 ≤ n ∧ n < GPS_LEN
  | .ybaidu => 1 ≤ n ∧ n < GPS_LEN

instance (f : Field) (n : Nat) : Decidable (f.LengthOk n) :=
  match f with
  | .serial => inferInstanceAs (Decidable (_ = _))
  | .md5 => inferInstanceAs (Decidable (_ = _))
  | .xbaidu => inferInstanceAs (Decidable (_ ∧ _))
  | .ybaidu => inferInstanceAs (Decidable (_ ∧ _))

namespace CClient

variable {c : CClient} {text chunk : List UInt8} {f : Field}

-- ======================================================== the assertions

/-- If the kept bytes and the chunk make a text that is taken for an
entire request, the asserted names are in it. -/
def Parsable (c : CClient) (chunk : List UInt8) : Prop :=
  Completes (c.kept ++ chunk) →
    NamesPresent (c.kept ++ chunk) (navtoAt (c.kept ++ chunk) + 6)

/-- One call stops the process exactly on a text that is not so. -/
theorem receiveStep_none_iff (h : Receivable c chunk) :
    receiveStep c chunk = none ↔ ¬ Parsable c chunk := by
  obtain ⟨hne, hfit⟩ := h
  obtain ⟨rest, hloaded⟩ := loaded_text hfit
  unfold receiveStep
  rw [receive_eq hfit hne]
  by_cases hfull : Completes (c.kept ++ chunk)
  · have hj : navtoAt (c.kept ++ chunk) + 6 ≤ (c.kept ++ chunk).length := by
      unfold Completes at hfull
      omega
    rw [parseAt_completes hfull]
    by_cases hnames : NamesPresent (c.kept ++ chunk)
        (navtoAt (c.kept ++ chunk) + 6)
    · rw [takeFields_ok hloaded hj hnames]
      simp [Parsable, hnames]
    · obtain ⟨f, hf⟩ := takeFields_error hloaded hj hnames
      rw [hf]
      simp [Parsable, hnames, hfull]
  · have hparsable : Parsable c chunk := fun h => absurd h hfull
    by_cases hnavto : navtoAt (c.kept ++ chunk) < (c.kept ++ chunk).length
    · rw [parseAt_more hfull hnavto]
      simp [hparsable]
    · rw [parseAt_none hnavto]
      simp [hparsable]

/-- The daemon survives what a connection sends exactly if every chunk
leaves a parsable text. -/
theorem receives_iff (c : CClient) (chunks : List (List UInt8))
    (hsent : Meets receiveStep Receivable c chunks) :
    run receiveStep c chunks ≠ none ↔ Meets receiveStep Parsable c chunks :=
  run_ne_none_iff (fun _ _ h => receiveStep_none_iff h) hsent

/-- A chunk that fits can be the only one of a connection. -/
theorem receivable_single (c : CClient) (fd : Int) (chunk : List UInt8)
    (hne : chunk ≠ []) (hfit : chunk.length ≤ MAXBUF) :
    Meets receiveStep Receivable (c.ini fd) [chunk] := by
  refine ⟨⟨hne, ?_⟩, ?_⟩
  · show 0 + chunk.length ≤ MAXBUF
    omega
  · cases receiveStep (c.ini fd) chunk with
    | none => trivial
    | some c' => trivial

/-- A new client keeps nothing. -/
theorem kept_ini (c : CClient) (fd : Int) : (c.ini fd).kept = [] :=
  List.take_zero ..

/-- Nothing but `navto` and bytes that are no name. -/
def barePage : List UInt8 := bytes ['n', 'a', 'v', 't', 'o'] ++
  List.replicate 88 61

theorem not_survives :
    ¬ ∀ (c : CClient) (fd : Int) (chunks : List (List UInt8)),
      Meets receiveStep Receivable (c.ini fd) chunks →
      run receiveStep (c.ini fd) chunks ≠ none := by
  intro hall
  have hsent := receivable_single blank 5 barePage (by decide) (by decide)
  have hnone : receiveStep (blank.ini 5) barePage = none := by
    rw [receiveStep_none_iff hsent.1]
    unfold Parsable
    rw [kept_ini]
    decide
  refine hall blank 5 [barePage] hsent ?_
  rw [run, hnone]

/-- A request as the clients send it, from `navto` on. -/
def sampleRequest : List UInt8 :=
  bytes ("navto?serial=356823032255122".toList
    ++ "&md5=2eb399b9588b1ac2ccc35dce6f266033".toList
    ++ "&xbaidu=114.73&ybaidu=10.64 HTTP".toList)

theorem sampleRequest_survives :
    run receiveStep (blank.ini 5) [sampleRequest] ≠ none := by
  have hsent := receivable_single blank 5 sampleRequest
    (by decide +kernel) (by decide +kernel)
  rw [receives_iff _ _ hsent]
  refine ⟨?_, ?_⟩
  · unfold Parsable
    rw [kept_ini]
    decide +kernel
  · cases receiveStep (blank.ini 5) sampleRequest with
    | none => trivial
    | some c => trivial

-- ============================================================== soundness

/-- `v` is the value of parameter `f` in the text, from `j` on: the name
is followed by `=`, and `v` is what stands before the next delimiter,
which is in the text, and has the right length. -/
def IsValue (text : List UInt8) (j : Nat) (f : Field) (v : List UInt8) :
    Prop :=
  fieldAt text f j < text.length
    ∧ text[fieldAt text f j + f.name.length]? = some 61
    ∧ ∃ d tail, text.drop (fieldAt text f j + f.skip) = v ++ d :: tail
      ∧ isDelimiter d = true ∧ (∀ b ∈ v, isDelimiter b = false)
      ∧ f.LengthOk v.length

/-- A parameter's value is a value the parser reads. -/
theorem IsValue.reads {j : Nat} {v : List UInt8} (h : IsValue text j f v) :
    Reads text j f v := by
  obtain ⟨hfound, -, d, tail, hdrop, hd, hv, hlen⟩ := h
  refine ⟨hfound, ?_, d :: tail, hdrop, fun _ => ⟨hv, d, tail, rfl, hd⟩⟩
  cases f with
  | serial => exact hlen
  | md5 => exact hlen
  | xbaidu => exact hlen.2
  | ybaidu => exact hlen.2

/-- The request in the text starts after `navto` and one more byte; all
four of its parameters are well formed. -/
def WellFormed (text : List UInt8) : Prop :=
  ∀ f, ∃ v, IsValue text (navtoAt text + 6) f v

/-- A byte that does not end a value. -/
def inValue (b : UInt8) : Bool := !isDelimiter b

/-- Where the bytes of a value end before the text does there is a
delimiter. -/
theorem delimiter_split {l : List UInt8}
    (h : (l.takeWhile inValue).length < l.length) :
    ∃ d tail, l = l.takeWhile inValue ++ d :: tail
      ∧ isDelimiter d = true := by
  have hsplit : l.takeWhile inValue ++ l.dropWhile inValue = l :=
    List.takeWhile_append_dropWhile
  cases hrest : l.dropWhile inValue with
  | nil =>
      rw [hrest, List.append_nil] at hsplit
      rw [hsplit] at h
      exact absurd h (Nat.lt_irrefl _)
  | cons d tail =>
      have hne : l.dropWhile inValue ≠ [] := by
        rw [hrest]
        simp
      have hd := List.head_dropWhile_not inValue hne
      simp only [hrest, List.head_cons, inValue, Bool.not_eq_false'] at hd
      exact ⟨d, tail, by rw [← hrest, hsplit], hd⟩

theorem not_delimiter_of_mem {l : List UInt8} {b : UInt8}
    (hb : b ∈ l.takeWhile inValue) : isDelimiter b = false := by
  simpa [inValue] using List.mem_takeWhile_imp hb

/-- The bytes from the value of `f` on, up to the next delimiter or the
end of the text. -/
def valueAt (text : List UInt8) (j : Nat) (f : Field) : List UInt8 :=
  (text.drop (fieldAt text f j + f.skip)).takeWhile inValue

/-- Whether a parameter is well formed can be computed. -/
theorem exists_isValue_iff {j : Nat} :
    (∃ v, IsValue text j f v) ↔
      fieldAt text f j < text.length
        ∧ text[fieldAt text f j + f.name.length]? = some 61
        ∧ (valueAt text j f).length
          < (text.drop (fieldAt text f j + f.skip)).length
        ∧ f.LengthOk (valueAt text j f).length := by
  have hpos : ∀ b, isDelimiter b = false → inValue b = true := by
    intro b hb
    unfold inValue
    rw [hb]
    rfl
  constructor
  · rintro ⟨v, hfound, heq, d, tail, hdrop, hd, hv, hlen⟩
    have hvalue : valueAt text j f = v := by
      have hneg : ¬ inValue d = true := by
        unfold inValue
        rw [hd]
        simp
      unfold valueAt
      rw [hdrop, List.takeWhile_append_of_pos fun b hb => hpos b (hv b hb),
        List.takeWhile_cons_of_neg hneg, List.append_nil]
    rw [hvalue]
    refine ⟨hfound, heq, ?_, hlen⟩
    rw [hdrop, List.length_append, List.length_cons]
    omega
  · rintro ⟨hfound, heq, hshort, hlen⟩
    obtain ⟨d, tail, hdrop, hd⟩ := delimiter_split hshort
    exact ⟨valueAt text j f, hfound, heq, d, tail, hdrop, hd,
      fun _ hb => not_delimiter_of_mem hb, hlen⟩

instance (text : List UInt8) : Decidable (WellFormed text) :=
  decidable_of_iff
    (∀ f ∈ fields, fieldAt text f (navtoAt text + 6) < text.length
      ∧ text[fieldAt text f (navtoAt text + 6) + f.name.length]? = some 61
      ∧ (valueAt text (navtoAt text + 6) f).length < (text.drop
        (fieldAt text f (navtoAt text + 6) + f.skip)).length
      ∧ f.LengthOk (valueAt text (navtoAt text + 6) f).length)
    ⟨fun h f => exists_isValue_iff.mpr (h f (mem_fields f)),
      fun h f _ => exists_isValue_iff.mp (h f)⟩

/-- If the call reports a request as complete, it has stored the values
of all four parameters. -/
def SoundCall (c : CClient) (chunk : List UInt8) : Prop :=
  ∀ (c' : CClient) (effects : List Effect),
    c.receive (.data chunk) = .ok (c', effects) →
    c'.status = 1 → .notified c.fd ∈ effects →
    ∀ f, ∃ v, IsValue (c.kept ++ chunk) (navtoAt (c.kept ++ chunk) + 6) f v
      ∧ .stored f v ∈ effects ∧ (v ++ [0]) <+: c'.member f

/-- A call that notifies nobody has taken another branch. -/
theorem notified_completes {c' : CClient} {effects : List Effect}
    (h : Receivable c chunk)
    (hok : c.receive (.data chunk) = .ok (c', effects))
    (hnotified : .notified c.fd ∈ effects) :
    Completes (c.kept ++ chunk) := by
  obtain ⟨hne, hfit⟩ := h
  by_contra hmore
  rw [receive_eq hfit hne] at hok
  by_cases hnavto : navtoAt (c.kept ++ chunk) < (c.kept ++ chunk).length
  · rw [parseAt_more hmore hnavto] at hok
    cases hok
    cases hnotified
  · rw [parseAt_none hnavto] at hok
    cases hok
    cases hnotified

/-- A call is sound exactly if the request it reports as complete, if
it does, is well formed. -/
theorem soundCall_iff (c : CClient) (chunk : List UInt8)
    (h : Receivable c chunk) :
    SoundCall c chunk ↔
      (Completes (c.kept ++ chunk) →
        NamesPresent (c.kept ++ chunk) (navtoAt (c.kept ++ chunk) + 6) →
        WellFormed (c.kept ++ chunk)) := by
  constructor
  · intro hsound hfull hnames f
    obtain ⟨c', effects, hok, hstatus, -, hnotified, -, -⟩ :=
      receive_completes h hfull hnames
    obtain ⟨v, hv, -, -⟩ := hsound c' effects hok hstatus hnotified f
    exact ⟨v, hv⟩
  · intro hwell c' effects hok _ hnotified f
    have hfull := notified_completes h hok hnotified
    have hnames : NamesPresent (c.kept ++ chunk)
        (navtoAt (c.kept ++ chunk) + 6) := by
      by_contra hmissing
      have hnone : receiveStep c chunk = none := by
        rw [receiveStep_none_iff h]
        exact fun hp => hmissing (hp hfull)
      unfold receiveStep at hnone
      rw [hok] at hnone
      cases hnone
    obtain ⟨v, hv⟩ := hwell hfull hnames f
    obtain ⟨c'', effects', hok', -, -, -, -, hreads⟩ :=
      receive_completes h hfull hnames
    rw [hok] at hok'
    cases hok'
    exact ⟨v, hv, hreads f v hv.reads⟩

theorem sampleRequest_sound : SoundCall (blank.ini 5) sampleRequest := by
  have hsent : Receivable (blank.ini 5) sampleRequest :=
    ⟨by decide +kernel, by decide +kernel⟩
  rw [soundCall_iff _ _ hsent, kept_ini]
  intro _ _
  decide +kernel

/-- A request without its last parameter. -/
def requestWithoutY : List UInt8 :=
  bytes ("navto?serial=356823032255122".toList
    ++ "&md5=2eb399b9588b1ac2ccc35dce6f266033".toList
    ++ "&xbaidu=114.73427 HTTP/1.1 Host:".toList)

theorem not_soundCall :
    ¬ ∀ (c : CClient) (fd : Int) (chunk : List UInt8),
      Receivable (c.ini fd) chunk → SoundCall (c.ini fd) chunk := by
  intro hall
  have hsent : Receivable (blank.ini 5) requestWithoutY :=
    ⟨by decide +kernel, by decide +kernel⟩
  have hkept : (blank.ini 5).kept ++ requestWithoutY = requestWithoutY := by
    rw [kept_ini, List.nil_append]
  obtain ⟨c', effects, hok, hstatus, -, hnotified, -, -⟩ :=
    receive_completes hsent (by rw [hkept]; decide +kernel)
      (by rw [hkept]; decide +kernel)
  obtain ⟨v, hv, -, -⟩ := hall blank 5 requestWithoutY hsent c' effects hok
    hstatus hnotified .ybaidu
  rw [hkept] at hv
  exact absurd hv.1 (by decide +kernel)

end CClient

end CorrectGps
