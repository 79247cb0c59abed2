/-
A request as the clients send it is taken, if the log call returns.

# Requests

A `Request` is four parameters in any order, their names in any letter
case, their values of the right length and alphabet. `query` is its
text.

# Why the searches find the right place

The first letter of a field's name (`initial`) occurs in no other name,
in no value and in no separator (`param_initial`). So from the byte
after `navto` on, nothing before the field's own parameter begins like
its name (`Request.fieldAt_query`), and a search ends there. What
follows is the value and a delimiter, which is all that the copy looks
at (`Request.reads`).

# The log call

In front of the searches the buffer is logged, as a format. What stands
around a request can stop the process there: the request is taken exactly
if the string in the buffer can be printed (`takesRequest_iff`).
-/
import CorrectGps.Proofs.Log

namespace CorrectGps

open Lib

-- ============================================================== requests

def isDigit (b : UInt8) : Bool := decide (48 ≤ b ∧ b ≤ 57)

def isHexDigit (b : UInt8) : Bool :=
  isDigit b || decide (65 ≤ b ∧ b ≤ 70) || decide (97 ≤ b ∧ b ≤ 102)

/-- Digits, `.` and `-`. -/
def isCoordinate (b : UInt8) : Bool := isDigit b || b == 46 || b == 45

/-- The bytes a value of `f` consists of. -/
def Field.alphabet : Field → UInt8 → Bool
  | .serial => isDigit
  | .md5 => isHexDigit
  | .xbaidu => isCoordinate
  | .ybaidu => isCoordinate

/-- A spelling of a name, in any letter case. -/
def Spells (w : List UInt8) (q : Pat) : Prop :=
  q.at w = true ∧ w.length = q.length

/-- The four parameters as a client sends them. -/
structure Request where
  order : List Field
  name : Field → List UInt8
  value : Field → List UInt8
  perm : order.Perm CClient.fields
  spells : ∀ f : Field, Spells (name f) f.name
  length_ok : ∀ f : Field, f.LengthOk (value f).length
  alphabet_ok : ∀ f : Field, ∀ b ∈ value f, f.alphabet b = true

/-- Parameters in an order, with `&` between them. -/
def joined (p : Field → List UInt8) : List Field → List UInt8
  | [] => []
  | [f] => p f
  | f :: g :: fs => p f ++ 38 :: joined p (g :: fs)

namespace Request

/-- One parameter: its name, `=`, its value. -/
def param (r : Request) (f : Field) : List UInt8 :=
  r.name f ++ 61 :: r.value f

def query (r : Request) : List UInt8 := joined r.param r.order

end Request

-- ========================================================= no false start

/-- The first letter of a name, in both cases. -/
def Field.initial (f : Field) : UInt8 × UInt8 := f.name.headD (0, 0)

/-- The byte is that letter. -/
def Field.begins (f : Field) (b : UInt8) : Bool :=
  b == f.initial.1 || b == f.initial.2

variable {f g : Field} {r : Request}

/-- A name is only found where its first letter is. -/
theorem begins_of_at {b : UInt8} {m : List UInt8}
    (h : f.name.at (b :: m) = true) : f.begins b = true := by
  have hname : f.name = f.initial :: f.name.tail := by cases f <;> rfl
  rw [hname, Pat.at, Bool.and_eq_true] at h
  exact h.1

/-- The bytes of a spelling are those the name accepts. -/
theorem Spells.mem {w : List UInt8} {q : Pat} (h : Spells w q) :
    ∀ b ∈ w, ∃ c ∈ q, b = c.1 ∨ b = c.2 := by
  obtain ⟨hat, hlen⟩ := h
  induction q generalizing w with
  | nil =>
      rw [List.length_nil, List.length_eq_zero_iff] at hlen
      simp [hlen]
  | cons c q ih =>
      cases w with
      | nil => simp at hlen
      | cons b w =>
          rw [Pat.at, Bool.and_eq_true, Bool.or_eq_true, beq_iff_eq,
            beq_iff_eq] at hat
          intro b' hb'
          rcases List.mem_cons.mp hb' with rfl | hb'
          · exact ⟨c, List.mem_cons_self, hat.1⟩
          · obtain ⟨c', hc', hb⟩ := ih hat.2 (Nat.succ_inj.mp hlen) b' hb'
            exact ⟨c', List.mem_cons_of_mem c hc', hb⟩

/-- No name contains another one's first letter. -/
theorem name_initial (hne : g ≠ f) :
    ∀ c ∈ g.name, f.begins c.1 = false ∧ f.begins c.2 = false := by
  have hall : (g.name.all fun c => !f.begins c.1 && !f.begins c.2)
      = true := by
    cases f <;> cases g <;> first | exact absurd rfl hne | decide
  intro c hc
  simpa using List.all_eq_true.mp hall c hc

/-- No value contains a first letter or
ends early. -/
theorem alphabet_initial {b : UInt8} (h : g.alphabet b = true) :
    f.begins b = false ∧ CClient.isDelimiter b = false := by
  refine ⟨?_, ?_⟩
  · rw [Bool.eq_false_iff]
    intro hb
    unfold Field.begins at hb
    rw [Bool.or_eq_true, beq_iff_eq, beq_iff_eq] at hb
    rcases hb with rfl | rfl <;> cases f <;> cases g <;>
      exact absurd h (by decide)
  · rw [Bool.eq_false_iff]
    intro hb
    unfold CClient.isDelimiter at hb
    rw [Bool.or_eq_true, beq_iff_eq, beq_iff_eq] at hb
    rcases hb with rfl | rfl <;> cases g <;> exact absurd h (by decide)

/-- Neither does another field's parameter. -/
theorem param_initial (r : Request) (hne : g ≠ f) :
    ∀ b ∈ r.param g, f.begins b = false := by
  intro b hb
  unfold Request.param at hb
  rcases List.mem_append.mp hb with hb | hb
  · obtain ⟨c, hc, hbc⟩ := (r.spells g).mem b hb
    obtain ⟨h1, h2⟩ := name_initial hne c hc
    rcases hbc with rfl | rfl
    · exact h1
    · exact h2
  · rcases List.mem_cons.mp hb with rfl | hb
    · cases f <;> decide
    · exact (alphabet_initial (r.alphabet_ok g b hb)).1

-- ========================================================== the searches

/-- A list of parameters around one of them. -/
theorem joined_split (p : Field → List UInt8) (before after : List Field)
    (f : Field) :
    joined p (before ++ f :: after)
      = (before.flatMap fun g => p g ++ [38])
        ++ (p f ++ after.flatMap fun g => 38 :: p g) := by
  induction before with
  | nil =>
      induction after generalizing f with
      | nil => simp [joined]
      | cons g after ih =>
          have hrest := ih g
          rw [List.nil_append, List.flatMap_nil, List.nil_append] at hrest ⊢
          rw [joined, hrest, List.flatMap_cons, List.cons_append]
  | cons g before ih =>
      have hcons : joined p (g :: (before ++ f :: after))
          = p g ++ 38 :: joined p (before ++ f :: after) := by
        cases before with
        | nil => rfl
        | cons h before => rfl
      rw [List.cons_append, hcons, ih, List.flatMap_cons]
      simp

/-- A search passes over a front without the first letter. -/
theorem fieldAt_front {front m : List UInt8}
    (hfront : ∀ b ∈ front, f.begins b = false) (hat : f.name.at m = true) :
    CClient.fieldAt (front ++ m) f 0 = front.length := by
  have hle : front.length ≤ (front ++ m).length := by
    rw [List.length_append]
    omega
  unfold CClient.fieldAt
  rw [scan_eq_iff (Nat.zero_le _) (by omega)]
  refine ⟨fun z _ hz => ?_, fun _ => ?_⟩
  · rw [List.drop_append_of_le_length (Nat.le_of_lt hz),
      List.drop_eq_getElem_cons hz, List.cons_append, Bool.eq_false_iff]
    intro h
    have hbegins := begins_of_at h
    rw [hfront _ (List.getElem_mem hz)] at hbegins
    cases hbegins
  · rw [List.drop_left]
    exact hat

/-- Every parameter of a request is read, whatever delimiter and text
follow the query. -/
theorem Request.reads (r : Request) (f : Field) {e : UInt8}
    (he : CClient.isDelimiter e = true) (tail : List UInt8) :
    CClient.Reads (r.query ++ e :: tail) 0 f (r.value f) := by
  have hf : f ∈ r.order := r.perm.symm.subset (CClient.mem_fields f)
  obtain ⟨before, after, horder⟩ := List.append_of_mem hf
  have hnotin : f ∉ before := by
    have hnodup : r.order.Nodup :=
      r.perm.nodup_iff.mpr (by decide : CClient.fields.Nodup)
    rw [horder] at hnodup
    intro hmem
    exact (List.nodup_append.mp hnodup).2.2 f hmem f List.mem_cons_self rfl
  -- what follows the value: a separator, or the end of the query
  obtain ⟨d, rest, hrest, hd⟩ : ∃ d rest,
      (after.flatMap fun g => 38 :: r.param g) ++ e :: tail = d :: rest
        ∧ CClient.isDelimiter d = true := by
    cases after with
    | nil => exact ⟨e, tail, rfl, he⟩
    | cons g after => exact ⟨38, _, rfl, rfl⟩
  have hquery : r.query ++ e :: tail
      = (before.flatMap fun g => r.param g ++ [38])
        ++ (r.name f ++ 61 :: (r.value f ++ d :: rest)) := by
    unfold Request.query
    rw [horder, joined_split, List.append_assoc, List.append_assoc, hrest]
    simp [Request.param]
  have hfront : ∀ b ∈ before.flatMap fun g => r.param g ++ [38],
      f.begins b = false := by
    intro b hb
    obtain ⟨g, hg, hb⟩ := List.mem_flatMap.mp hb
    rcases List.mem_append.mp hb with hb | hb
    · have hne : g ≠ f := by
        rintro rfl
        exact hnotin hg
      exact param_initial r hne b hb
    · rw [List.mem_singleton.mp hb]
      cases f <;> decide
  have hplace := fieldAt_front hfront (Pat.at_append_of_at
    (61 :: (r.value f ++ d :: rest)) (r.spells f).1)
  have hskip : f.skip = (r.name f).length + 1 := by
    rw [(r.spells f).2]
    cases f <;> rfl
  rw [hquery]
  refine ⟨?_, ?_, d :: rest, ?_, fun _ => ⟨?_, d, rest, rfl, hd⟩⟩
  · rw [hplace]
    simp only [List.length_append, List.length_cons]
    omega
  · have hlen := r.length_ok f
    cases f with
    | serial => exact hlen
    | md5 => exact hlen
    | xbaidu => exact hlen.2
    | ybaidu => exact hlen.2
  · rw [hplace, hskip, ← List.drop_drop, List.drop_left]
    have happ : r.name f ++ 61 :: (r.value f ++ d :: rest)
        = (r.name f ++ [61]) ++ (r.value f ++ d :: rest) := by simp
    rw [happ, List.drop_left' (by simp)]
  · exact fun b hb => (alphabet_initial (f := f) (r.alphabet_ok f b hb)).2

-- =============================================================== the call

namespace CClient

variable {c : CClient} {text rest : List UInt8}

/-- A pass over fields whose values lie in the text stores these
values. -/
theorem stages_reads {fs : List Field} {j : Nat}
    {value : Field → List UInt8} (h : c.Loaded text rest)
    (hreads : ∀ f ∈ fs, Reads text j f (value f)) :
    (stages c text j fs).2 = fs.map fun f => .stored f (value f) := by
  induction fs generalizing c with
  | nil => rfl
  | cons f fs ih =>
      have hstored := (stage_reads h (hreads f List.mem_cons_self)).1
      have hrest := ih (h.stage j f)
        fun g hg => hreads g (List.mem_cons_of_mem f hg)
      rw [stages, List.map_cons]
      simp only
      rw [hstored, hrest, List.singleton_append]

/-- The request in a text: after the first `navto` and one more byte. -/
def requestText (r : Request) (pre nav : List UInt8) (b e : UInt8)
    (tail : List UInt8) : List UInt8 :=
  pre ++ (nav ++ b :: (r.query ++ e :: tail))

/-- A text with a request that is long enough, received at the front of
the buffer: the call stores the four values and nothing else, terminated,
and notifies once. -/
theorem receive_request (r : Request) (c : CClient)
    (pre nav tail : List UInt8) (b e : UInt8) (hnew : c.offset = 0)
    (hnav : Spells nav navto) (he : isDelimiter e = true)
    (hfirst : ∀ k < pre.length,
      navto.at ((requestText r pre nav b e tail).drop k) = false)
    (hlong : IN_DATA_LEN ≤ (r.query ++ e :: tail).length)
    (hfit : (requestText r pre nav b e tail).length ≤ MAXBUF) :
    ∃ c', c.receive (.data (requestText r pre nav b e tail))
        = .ok (c', (fields.map fun f => .stored f (r.value f))
          ++ [.notified c.fd])
      ∧ c'.status = 1 ∧ ∀ f, (r.value f ++ [0]) <+: c'.member f := by
  have hfive : nav.length = 5 := hnav.2
  have hhead : requestText r pre nav b e tail
      = (pre ++ (nav ++ [b])) ++ (r.query ++ e :: tail) := by
    simp [requestText]
  have hlen : (pre ++ (nav ++ [b])).length = pre.length + 6 := by
    simp [hfive]
  have hkept : c.kept = [] := by
    unfold kept
    rw [hnew, List.take_zero]
  have htext : c.kept ++ requestText r pre nav b e tail
      = requestText r pre nav b e tail := by
    rw [hkept, List.nil_append]
  have hat : FirstNavto (requestText r pre nav b e tail) pre.length := by
    refine ⟨?_, hfirst⟩
    unfold requestText
    rw [List.drop_left]
    exact Pat.at_append_of_at _ hnav.1
  have hi := hat.navtoAt.1
  have hfull : Completes (requestText r pre nav b e tail) := by
    unfold Completes
    rw [hi, hhead, List.length_append, hlen]
    omega
  have hreads : ∀ f, Reads (requestText r pre nav b e tail)
      (navtoAt (requestText r pre nav b e tail) + 6) f (r.value f) := by
    intro f
    rw [hi, ← hlen, ← Nat.add_zero (List.length _), reads_drop, hhead,
      List.drop_left]
    exact r.reads f he tail
  have hreceivable : Receivable c (requestText r pre nav b e tail) := by
    refine ⟨?_, by omega⟩
    rw [hhead]
    simp
  obtain ⟨c', effects, hok, hstatus, -, -, -, hstored⟩ :=
    receive_completes hreceivable (by rw [htext]; exact hfull)
      (by rw [htext]; exact fun f _ => (hreads f).1)
  -- the effects, from the pass over the fields
  obtain ⟨rest, hloaded⟩ := loaded_text hreceivable.2
  rw [htext] at hloaded hstored
  have hpass := takeFields_ok hloaded
    (Nat.le_of_add_right_le hfull) (fun f _ => (hreads f).1)
  rw [stages_reads hloaded fun f _ => hreads f] at hpass
  rw [← parseAt_completes hfull] at hpass
  have hcall := receive_eq hreceivable.2 hreceivable.1
  rw [htext, hpass] at hcall
  refine ⟨_, hcall, rfl, fun f => ?_⟩
  rw [hok] at hcall
  cases hcall
  exact (hstored f _ (hreads f)).2

/-- Four parameters in another order, in mixed case. -/
def mixedRequest : Request where
  order := [.md5, .ybaidu, .serial, .xbaidu]
  name
    | .serial => bytes "SeriaL".toList
    | .md5 => bytes "MD5".toList
    | .xbaidu => bytes "xBaidu".toList
    | .ybaidu => bytes "ybaiDU".toList
  value
    | .serial => bytes "356823032255122".toList
    | .md5 => bytes "2eb399b9588B1ac2ccc35dce6f266033".toList
    | .xbaidu => bytes "-114.73427".toList
    | .ybaidu => bytes "1".toList
  perm := by decide
  spells := fun f => by cases f <;> exact ⟨by decide, by decide⟩
  length_ok := fun f => by cases f <;> decide
  alphabet_ok := fun f => List.all_eq_true.mp (by cases f <;> decide)

/-- Whatever the time is, the call returns, with the status set, the four
values stored, terminated, and nothing else, and one notification. -/
def TakesRequest (r : Request) (c : CClient) (chunk : List UInt8) : Prop :=
  ∀ t, ∃ c', c.receiveLogged t (.data chunk)
      = some (.ok (c', (fields.map fun f => .stored f (r.value f))
        ++ [.notified c.fd]))
    ∧ c'.status = 1 ∧ ∀ f, (r.value f ++ [0]) <+: c'.member f

/-- A text with a request that is long enough, received at the front of
the buffer, is taken exactly if the string that then stands in `iobuf`
can be printed and has room in the log's buffer. -/
theorem takesRequest_iff (r : Request) (c : CClient)
    (pre nav tail : List UInt8) (b e : UInt8) (hnew : c.offset = 0)
    (hnav : Spells nav navto) (he : isDelimiter e = true)
    (hfirst : ∀ k < pre.length,
      navto.at ((requestText r pre nav b e tail).drop k) = false)
    (hlong : IN_DATA_LEN ≤ (r.query ++ e :: tail).length)
    (hfit : (requestText r pre nav b e tail).length ≤ MAXBUF) :
    TakesRequest r c (requestText r pre nav b e tail) ↔
      CallPrints c (requestText r pre nav b e tail) := by
  constructor
  · intro htakes
    obtain ⟨c', hcall, -, -⟩ := htakes Tm.epoch
    rw [receiveLogged_data] at hcall
    split at hcall
    · next hprints => exact hprints
    · cases hcall
  · intro hprints t
    obtain ⟨c', hok, hstatus, hfront⟩ := receive_request r c pre nav tail b
      e hnew hnav he hfirst hlong hfit
    refine ⟨c', ?_, hstatus, hfront⟩
    rw [receiveLogged_data, if_pos hprints, hok]

theorem mixedRequest_taken :
    TakesRequest mixedRequest blank (requestText mixedRequest
      (bytes "GET /".toList) (bytes "NAVto".toList) 63 32 []) :=
  (takesRequest_iff mixedRequest blank (bytes "GET /".toList)
    (bytes "NAVto".toList) [] 63 32 rfl ⟨by decide, by decide⟩ (by decide)
    (by decide +kernel) (by decide +kernel) (by decide +kernel)).mpr
    (by decide +kernel)

/-- `%n` behind the request. -/
theorem not_takesRequest :
    ¬ ∀ (r : Request) (c : CClient) (pre nav tail : List UInt8)
      (b e : UInt8), c.offset = 0 → Spells nav navto →
      isDelimiter e = true →
      (∀ k < pre.length,
        navto.at ((requestText r pre nav b e tail).drop k) = false) →
      IN_DATA_LEN ≤ (r.query ++ e :: tail).length →
      (requestText r pre nav b e tail).length ≤ MAXBUF →
      TakesRequest r c (requestText r pre nav b e tail) := by
  intro hall
  obtain ⟨c', hcall, -, -⟩ := hall mixedRequest blank (bytes "GET /".toList)
    (bytes "NAVto".toList) [37, 110] 63 32 rfl ⟨by decide, by decide⟩
    (by decide) (by decide +kernel) (by decide +kernel) (by decide +kernel)
    Tm.epoch
  rw [receiveLogged_data, if_neg (by decide +kernel)] at hcall
  cases hcall

end CClient
end CorrectGps
