/-
What `createListener` leaves open.

# The search

An address is passed over if nothing of it stays: no socket, or one that
cannot be bound and is closed. The first address that is not passed over
ends the search, with a socket that is bound or with one that could not be
set up, and is not closed (`bindFirst_cases`).

# The exits

So of the five ways to fail, two leave a socket open that nobody knows,
and the list of addresses is given back only behind the search
(`createListener_opens`).
-/
import CorrectGps.Cserver

namespace CorrectGps.Cserver

variable {s : Sockets} {p : Address} {l : List Address}

/-- `socket` fails or gives a number that is not open. -/
def Given (s : Sockets) (p : Address) : Prop :=
  p.socket = -1 ∨ 0 ≤ p.socket ∧ p.socket ∉ s.opened

instance (s : Sockets) (p : Address) : Decidable (Given s p) :=
  inferInstanceAs (Decidable (_ ∨ _))

/-- The search goes on behind the address. -/
def Passed (p : Address) : Prop :=
  p.socket = -1
    ∨ p.reuseaddr = true ∧ p.deferAccept = true ∧ p.bind = false

/-- The search ends well at the address. -/
def Binds (p : Address) : Prop :=
  p.socket ≠ -1 ∧ p.reuseaddr = true ∧ p.deferAccept = true
    ∧ p.bind = true

-- ============================================================ the search

theorem binds_not_passed (h : Binds p) : ¬ Passed p := by
  obtain ⟨hsocket, -, -, hbind⟩ := h
  rintro (hno | ⟨-, -, hfail⟩)
  · exact hsocket hno
  · rw [hbind] at hfail
    cases hfail

/-- Behind an address that is passed over the same sockets are open. -/
theorem bindFirst_passed (hgiven : Given s p) (hp : Passed p) :
    ∃ closed, ∀ rest, bindFirst s (p :: rest)
      = bindFirst { opened := s.opened, closed := closed } rest := by
  by_cases hno : p.socket = -1
  · refine ⟨s.closed, fun rest => ?_⟩
    rw [bindFirst, if_pos hno]
  · obtain ⟨-, hfresh⟩ := hgiven.resolve_left hno
    obtain ⟨hreuse, hdefer, hbind⟩ := hp.resolve_left hno
    refine ⟨p.socket :: s.closed, fun rest => ?_⟩
    rw [bindFirst, if_neg hno, hreuse, hdefer, hbind]
    have hclose : ({ s with opened := insert p.socket s.opened }
          : Sockets).close p.socket
        = { opened := s.opened, closed := p.socket :: s.closed } := by
      unfold Sockets.close
      rw [Finset.erase_insert hfresh]
    simp [hclose]

/-- Any other address ends the search, and its socket is open. -/
theorem bindFirst_ends (hp : ¬ Passed p) (rest : List Address) :
    ∃ verdict, bindFirst s (p :: rest)
        = ({ s with opened := insert p.socket s.opened }, verdict)
      ∧ (verdict = .inl 202 ∨ verdict = .inl 203
        ∨ Binds p ∧ verdict = .inr p.socket)
      ∧ (Binds p → verdict = .inr p.socket) := by
  have hsocket : p.socket ≠ -1 := fun h => hp (Or.inl h)
  rw [bindFirst, if_neg hsocket]
  cases hreuse : p.reuseaddr with
  | false =>
      refine ⟨_, rfl, Or.inl rfl, fun h => ?_⟩
      rw [h.2.1] at hreuse
      cases hreuse
  | true =>
      cases hdefer : p.deferAccept with
      | false =>
          refine ⟨_, rfl, Or.inr (Or.inl rfl), fun h => ?_⟩
          rw [h.2.2.1] at hdefer
          cases hdefer
      | true =>
          cases hbind : p.bind with
          | false => exact absurd (Or.inr ⟨hreuse, hdefer, hbind⟩) hp
          | true =>
              exact ⟨_, rfl,
                Or.inr (Or.inr ⟨⟨hsocket, hreuse, hdefer, hbind⟩, rfl⟩),
                fun _ => rfl⟩

/-- The search runs through the list, or ends at the first address that is
not passed over. -/
theorem bindFirst_cases (hgiven : ∀ p ∈ l, Given s p) :
    ((∀ q ∈ l, Passed q) ∧ ∃ closed, bindFirst s l
        = ({ opened := s.opened, closed := closed }, .inl 204))
      ∨ ∃ pre p post closed, l = pre ++ p :: post
        ∧ (∀ q ∈ pre, Passed q) ∧ ¬ Passed p
        ∧ bindFirst s l = bindFirst
          { opened := s.opened, closed := closed } (p :: post) := by
  induction l generalizing s with
  | nil => exact Or.inl ⟨by simp, s.closed, rfl⟩
  | cons p l ih =>
      obtain ⟨hfirst, hrest⟩ := List.forall_mem_cons.mp hgiven
      by_cases hp : Passed p
      · obtain ⟨closed, heq⟩ := bindFirst_passed hfirst hp
        rcases ih (s := { opened := s.opened, closed := closed }) hrest
          with ⟨hall, closed', hend⟩ | ⟨pre, q, post, closed', rfl, hpre, hq,
            hend⟩
        · refine Or.inl ⟨List.forall_mem_cons.mpr ⟨hp, hall⟩, closed', ?_⟩
          rw [heq]
          exact hend
        · refine Or.inr ⟨p :: pre, q, post, closed', rfl,
            List.forall_mem_cons.mpr ⟨hp, hpre⟩, hq, ?_⟩
          rw [heq]
          exact hend
      · exact Or.inr ⟨[], p, l, s.closed, rfl, by simp, hp, rfl⟩

/-- Only one address can be the first that is not passed over. -/
theorem first_unique {pre pre' post post' : List Address} {q : Address}
    (heq : pre ++ p :: post = pre' ++ q :: post')
    (hpre : ∀ r ∈ pre, Passed r) (hpre' : ∀ r ∈ pre', Passed r)
    (hp : ¬ Passed p) (hq : ¬ Passed q) : p = q := by
  induction pre generalizing pre' with
  | nil =>
      cases pre' with
      | nil => exact (List.cons.inj heq).1
      | cons r pre' =>
          have hr := hpre' r List.mem_cons_self
          rw [← (List.cons.inj heq).1] at hr
          exact absurd hr hp
  | cons r pre ih =>
      cases pre' with
      | nil =>
          have hr := hpre r List.mem_cons_self
          rw [(List.cons.inj heq).1] at hr
          exact absurd hr hq
      | cons r' pre' =>
          exact ih (List.cons.inj heq).2
            (fun r hr => hpre r (List.mem_cons_of_mem _ hr))
            (fun r hr => hpre' r (List.mem_cons_of_mem _ hr))

-- ============================================================= the exits

/-- One socket more is open, which was not. -/
def OneMore (s s' : Sockets) (fd : Int) : Prop :=
  0 ≤ fd ∧ fd ∉ s.opened ∧ s'.opened = insert fd s.opened

/-- What is left behind, by how `createListener` ends. -/
structure Leaves (s : Sockets) (r : Outcome) : Prop where
  /-- it returns the one socket that it has opened -/
  ok : r.exit = none → OneMore s r.sockets r.fd
  error : r.exit ≠ none → r.fd = CKERROR
  /-- a socket that could not be set up stays open -/
  leak : r.exit = some 202 ∨ r.exit = some 203 →
    ∃ fd, OneMore s r.sockets fd
  clean : r.exit = some 201 ∨ r.exit = some 204 ∨ r.exit = some 205 →
    r.sockets.opened = s.opened
  exits : r.exit = none ∨ r.exit = some 201 ∨ r.exit = some 202
    ∨ r.exit = some 203 ∨ r.exit = some 204 ∨ r.exit = some 205
  freed : r.freed = true ↔ r.exit = none ∨ r.exit = some 205

/-- An error of the search: the sockets are those from before, or one
more with 202 and 203. -/
theorem leaves_error {s' : Sockets} {code : Nat} (listens : Bool)
    (h : bindFirst s l = (s', .inl code))
    (hcode : code = 204 ∧ s'.opened = s.opened
      ∨ (code = 202 ∨ code = 203) ∧ ∃ fd, OneMore s s' fd) :
    Leaves s (createListener s (some l) listens)
      ∧ (createListener s (some l) listens).exit ≠ none := by
  have heq : createListener s (some l) listens
      = { sockets := s', fd := CKERROR, exit := some code
          freed := false } := by
    unfold createListener
    simp only [h]
  rw [heq]
  refine ⟨?_, by simp⟩
  rcases hcode with ⟨rfl, hopened⟩ | ⟨rfl | rfl, hmore⟩
  · constructor <;> simp [hopened]
  · constructor <;> simp [hmore]
  · constructor <;> simp [hmore]

theorem leaves_bound {s' : Sockets} {fd : Int} (listens : Bool)
    (h : bindFirst s l = (s', .inr fd)) (hmore : OneMore s s' fd) :
    Leaves s (createListener s (some l) listens)
      ∧ ((createListener s (some l) listens).exit = none
        ↔ listens = true) := by
  cases listens with
  | true =>
      have heq : createListener s (some l) true
          = { sockets := s', fd := fd, exit := none, freed := true } := by
        unfold createListener
        simp only [h, if_true]
      rw [heq]
      refine ⟨?_, by simp⟩
      constructor <;> simp [hmore]
  | false =>
      have heq : createListener s (some l) false
          = { sockets := s'.close fd, fd := CKERROR, exit := some 205
              freed := true } := by
        unfold createListener
        simp [h]
      have hclose : (s'.close fd).opened = s.opened := by
        show s'.opened.erase fd = s.opened
        rw [hmore.2.2, Finset.erase_insert hmore.2.1]
      rw [heq]
      refine ⟨?_, by simp⟩
      constructor <;> simp [hclose]

/-- `createListener` succeeds exactly if the first address that is not
passed over can be bound and listened at. Then the socket it returns is
the only one it leaves open; of its errors, 202 and 203 leave one open,
and the others none. -/
theorem createListener_opens {servinfo : Option (List Address)}
    (listens : Bool) (hgiven : ∀ l ∈ servinfo, ∀ p ∈ l, Given s p) :
    Leaves s (createListener s servinfo listens)
      ∧ ((createListener s servinfo listens).exit = none
        ↔ listens = true ∧ ∃ pre p post,
          servinfo = some (pre ++ p :: post)
            ∧ (∀ q ∈ pre, Passed q) ∧ Binds p) := by
  cases servinfo with
  | none =>
      refine ⟨?_, by simp [createListener]⟩
      constructor <;> simp [createListener]
  | some l =>
      have hl := hgiven l rfl
      rcases bindFirst_cases hl with ⟨hall, closed, hend⟩
        | ⟨pre, p, post, closed, rfl, hpre, hp, hend⟩
      · obtain ⟨hleaves, hexit⟩ :=
          leaves_error listens hend (Or.inl ⟨rfl, rfl⟩)
        refine ⟨hleaves, iff_of_false hexit ?_⟩
        rintro ⟨-, pre, p, post, heq, -, hbinds⟩
        have hmem : p ∈ l := by
          rw [Option.some.inj heq]
          exact List.mem_append_right _ List.mem_cons_self
        exact binds_not_passed hbinds (hall p hmem)
      · have hmem : p ∈ pre ++ p :: post :=
          List.mem_append_right _ List.mem_cons_self
        have hsocket : p.socket ≠ -1 := fun h => hp (Or.inl h)
        obtain ⟨hpos, hfresh⟩ := (hl p hmem).resolve_left hsocket
        obtain ⟨verdict, hverdict, hcases, hbound⟩ :=
          bindFirst_ends (s := { opened := s.opened, closed := closed })
            hp post
        rw [hverdict] at hend
        -- a list that binds binds at this address
        have hfirst : (∃ pre' q post', some (pre ++ p :: post)
              = some (pre' ++ q :: post')
            ∧ (∀ r ∈ pre', Passed r) ∧ Binds q) ↔ Binds p := by
          constructor
          · rintro ⟨pre', q, post', heq, hpre', hq⟩
            rw [first_unique (Option.some.inj heq) hpre hpre' hp
              (binds_not_passed hq)]
            exact hq
          · intro hb
            exact ⟨pre, p, post, rfl, hpre, hb⟩
        rw [hfirst]
        rcases hcases with rfl | rfl | ⟨hb, rfl⟩
        · obtain ⟨hleaves, hexit⟩ := leaves_error listens hend
            (Or.inr ⟨Or.inl rfl, p.socket, hpos, hfresh, rfl⟩)
          refine ⟨hleaves, iff_of_false hexit fun h => ?_⟩
          cases hbound h.2
        · obtain ⟨hleaves, hexit⟩ := leaves_error listens hend
            (Or.inr ⟨Or.inr rfl, p.socket, hpos, hfresh, rfl⟩)
          refine ⟨hleaves, iff_of_false hexit fun h => ?_⟩
          cases hbound h.2
        · obtain ⟨hleaves, hexit⟩ :=
            leaves_bound listens hend ⟨hpos, hfresh, rfl⟩
          exact ⟨hleaves, hexit.trans ⟨fun h => ⟨h, hb⟩, And.left⟩⟩

/-- No socket for the first address, no `bind` for the second one. -/
def threeAddresses : List Address :=
  [{ socket := -1, reuseaddr := true, deferAccept := true, bind := true },
    { socket := 4, reuseaddr := true, deferAccept := true, bind := false },
    { socket := 4, reuseaddr := true, deferAccept := true, bind := true }]

theorem threeAddresses_opens :
    Leaves ⟨{3}, []⟩ (createListener ⟨{3}, []⟩ (some threeAddresses) true)
      ∧ (createListener ⟨{3}, []⟩ (some threeAddresses) true).fd = 4 := by
  refine ⟨(createListener_opens true ?_).1, by decide⟩
  intro l hl
  obtain rfl := Option.some.inj hl
  decide

end CorrectGps.Cserver
