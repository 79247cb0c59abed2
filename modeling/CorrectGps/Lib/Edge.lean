/-
Edge-triggered readiness over a set of watched descriptors.

# The kernel's side

`level d` says that there is something to read from `d`. A descriptor is
put into the ready list when something arrives for it while it is watched
(`arrive`), and when it is put into the watched set with something to
read (`follow`). Waiting takes descriptors out of the list (`take`), and
reading does not put them back (`drain`): what a reader leaves behind is
not announced again.

# The reader's side

`Heard` is what keeps such a reader from sleeping on input: whatever is
watched and has something to read is in the ready list or in the reader's
hands. A reader keeps it by taking a descriptor out of the watched set
before it lets go of it (`heard_let_go`), and putting it back afterwards
(`heard_follow`).
-/
import Mathlib.Data.Finset.Basic

namespace CorrectGps.Lib

variable {ι : Type} [DecidableEq ι]

/-- What there is to read, and what has been announced. -/
structure Edge (ι : Type) where
  level : ι → Bool
  ready : Finset ι

namespace Edge

def quiet : Edge ι where
  level := fun _ => false
  ready := ∅

/-- Something arrives for `d`. -/
def arrive (e : Edge ι) (watched : Finset ι) (d : ι) : Edge ι where
  level := Function.update e.level d true
  ready := if d ∈ watched then insert d e.ready else e.ready

/-- The descriptors `ds` are returned by a wait. -/
def take (e : Edge ι) (ds : List ι) : Edge ι :=
  { e with ready := e.ready.filter (· ∉ ds) }

/-- All there is for `d` is read. -/
def drain (e : Edge ι) (d : ι) : Edge ι :=
  { e with level := Function.update e.level d false }

/-- The watched set changes from `old` to `new`, and the descriptors that
are not `kept` lose what there was to read. -/
def follow (e : Edge ι) (old new : Finset ι) (kept : ι → Bool) :
    Edge ι where
  level := fun d => e.level d && kept d
  ready := e.ready.filter (· ∈ new)
    ∪ (new.filter (· ∉ old)).filter fun d => (e.level d && kept d) = true

/-- What is watched, of interest and has something to read has been
announced, or is in the reader's hands. -/
def Heard (e : Edge ι) (watched : Finset ι) (of : ι → Prop)
    (hands : List ι) : Prop :=
  ∀ d ∈ watched, of d → e.level d = true → d ∈ e.ready ∨ d ∈ hands

variable {e : Edge ι} {watched old new : Finset ι} {of : ι → Prop}
variable {hands : List ι} {d : ι}

omit [DecidableEq ι] in
theorem heard_quiet : Heard (quiet : Edge ι) watched of hands := by
  intro d _ _ h
  cases h

theorem heard_arrive (h : Heard e watched of hands) (d : ι) :
    Heard (e.arrive watched d) watched of hands := by
  intro k hk hof hlevel
  by_cases hkd : k = d
  · subst hkd
    exact Or.inl (by simp [arrive, hk])
  · have hold : e.level k = true := by simpa [arrive, hkd] using hlevel
    refine (h k hk hof hold).imp_left fun hready => ?_
    unfold arrive
    split
    · exact Finset.mem_insert_of_mem hready
    · exact hready

/-- What a wait returns goes into the reader's hands. -/
theorem heard_take (h : Heard e watched of []) (ds : List ι) :
    Heard (e.take ds) watched of ds := by
  intro k hk hof hlevel
  by_cases hkd : k ∈ ds
  · exact Or.inr hkd
  · rcases h k hk hof hlevel with hready | hnil
    · exact Or.inl (by simp [take, hready, hkd])
    · cases hnil

theorem heard_drain (h : Heard e watched of hands) (d : ι) :
    Heard (e.drain d) watched of hands := by
  intro k hk hof hlevel
  by_cases hkd : k = d
  · subst hkd
    simp [drain] at hlevel
  · exact h k hk hof (by simpa [drain, hkd] using hlevel)

/-- What has been read empty is so after the watched set has changed. -/
theorem level_follow_drain (kept : ι → Bool) :
    ((e.drain d).follow old new kept).level d = false := by
  simp [follow, drain]

/-- What is put into the watched set is announced if there is something
to read. -/
theorem heard_follow (h : Heard e old of hands) (kept : ι → Bool) :
    Heard (e.follow old new kept) new of hands := by
  intro k hk hof hlevel
  have hold : e.level k = true := (Bool.and_eq_true_iff.mp hlevel).1
  by_cases hkold : k ∈ old
  · refine (h k hkold hof hold).imp_left fun hready => ?_
    exact Finset.mem_union_left _ (Finset.mem_filter.mpr ⟨hready, hk⟩)
  · refine Or.inl (Finset.mem_union_right _ ?_)
    exact Finset.mem_filter.mpr
      ⟨Finset.mem_filter.mpr ⟨hk, hkold⟩, hlevel⟩

omit [DecidableEq ι] in
/-- The reader may let go of what is not watched, of no interest or read
empty. -/
theorem heard_let_go (h : Heard e watched of (d :: hands))
    (hd : d ∈ watched → of d → e.level d = false) :
    Heard e watched of hands := by
  intro k hk hof hlevel
  refine (h k hk hof hlevel).imp_right fun hmem => ?_
  rcases List.mem_cons.mp hmem with hkd | hmem
  · rw [hkd] at hk hof hlevel
    rw [hd hk hof] at hlevel
    cases hlevel
  · exact hmem

omit [DecidableEq ι] in
/-- A reader with nothing in hands and nothing announced has nothing to
read. -/
theorem Heard.nothing (h : Heard e watched of [])
    (hready : ∀ d ∈ e.ready, e.level d = false) (hd : d ∈ watched)
    (hof : of d) : e.level d = false := by
  cases hlevel : e.level d with
  | false => rfl
  | true =>
      rcases h d hd hof hlevel with hmem | hnil
      · exact hlevel.symm.trans (hready d hmem)
      · cases hnil

end Edge

end CorrectGps.Lib
