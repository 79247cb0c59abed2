/-
SIGTERM, SIGHUP and `setallthreadexitflag` end the main loop.

# What is left to do

`left` is how many steps of the main thread are left once `allExitFlag`
is set: the events it has got, one way round past `sleep` if a SIGHUP is
pending, and the tests. Every step of the main thread lowers it, and a
SIGHUP that comes late raises it by the pause it costs (`left_step`).

# Nothing else ends it

Neither a signal that interrupts `epoll_wait` nor its failure does: only
what sets `allExitFlag` (`flag_eq`).
-/
import CorrectGps.Control

namespace CorrectGps.Control

open Lib

variable {most : Nat} {s s' : State} {a : Label}

-- ========================================================== the measure

/-- How many steps away the end is, apart from a pending SIGHUP. -/
def Pos.left (most : Nat) : Pos → Nat
  | .head => 1
  | .asking => 3
  | .polling => most + 4
  | .handling n => n + 2
  | .sleeping => 4
  | .ended => 0

def State.left (most : Nat) (s : State) : Nat :=
  s.pos.left most + if s.hupmReceived then 3 else 0

/-- What a SIGHUP costs. -/
def Label.worth : Label → Nat
  | .sighup => 3
  | _ => 0

theorem worth_byMain (h : a.byMain = true) : a.worth = 0 := by
  cases a <;> first | rfl | cases h

theorem worth_sum (as : List Label) :
    (as.map Label.worth).sum = 3 * as.count .sighup := by
  induction as with
  | nil => rfl
  | cons a as ih =>
      rw [List.map_cons, List.sum_cons, ih, List.count_cons]
      cases a <;> simp [Label.worth]
      omega

theorem left_le (most : Nat) (s : State)
    (hn : ∀ n, s.pos = .handling n → n ≤ most) :
    s.left most ≤ most + 7 := by
  unfold State.left
  have hhup : (if s.hupmReceived then 3 else 0) ≤ 3 := by
    split <;> omega
  have hpos : s.pos.left most ≤ most + 4 := by
    cases hp : s.pos with
    | handling n =>
        have := hn n hp
        simp only [Pos.left]
        omega
    | _ => simp [Pos.left]
  omega

/-- With the flag set, every step of the main thread brings the end
nearer. -/
theorem left_step (he : s.allExitFlag = true)
    (h : step most s a = some s') :
    s'.allExitFlag = true
      ∧ s'.left most + (if a.byMain then 1 else 0)
        ≤ s.left most + a.worth := by
  cases a with
  | sigterm =>
      cases h
      exact ⟨rfl, by simp [Label.byMain, State.left]⟩
  | sighup =>
      cases h
      refine ⟨rfl, ?_⟩
      simp only [State.left, Label.byMain, Label.worth]
      simp
  | setallthreadexitflag =>
      cases h
      exact ⟨rfl, by simp [Label.byMain, State.left]⟩
  | test =>
      simp only [step] at h
      split at h
      case isFalse => cases h
      case isTrue hp =>
        cases h
        refine ⟨he, ?_⟩
        simp [State.left, Label.byMain, he, hp, Pos.left]
        omega
  | ask =>
      simp only [step] at h
      split at h
      case isFalse => cases h
      case isTrue hp =>
        cases h
        refine ⟨he, ?_⟩
        simp [State.left, Label.byMain, he, hp, Pos.left]
        omega
  | wait r =>
      simp only [step] at h
      split at h
      case isFalse => cases h
      case isTrue hp =>
        cases r with
        | events n =>
            simp only at h
            split at h
            case isFalse => cases h
            case isTrue hn =>
              cases h
              refine ⟨he, ?_⟩
              simp only [State.left, Label.byMain, hp, Pos.left,
                Label.worth, if_true]
              omega
        | interrupted =>
            cases h
            refine ⟨he, ?_⟩
            simp only [State.left, Label.byMain, hp, Pos.left,
              Label.worth, if_true]
            omega
        | failed =>
            cases h
            refine ⟨he, ?_⟩
            simp only [State.left, Label.byMain, hp, Pos.left,
              Label.worth, if_true]
            omega
  | handle =>
      simp only [step] at h
      split at h
      case h_2 => cases h
      case h_1 n hp =>
        cases h
        refine ⟨he, ?_⟩
        simp only [State.left, Label.byMain, hp, Pos.left, Label.worth,
          if_true]
        omega
  | tail =>
      simp only [step] at h
      split at h
      case h_2 => cases h
      case h_1 hp =>
        split at h
        all_goals
          next hhup =>
          cases h
          refine ⟨he, ?_⟩
          simp [State.left, Label.byMain, hp, Pos.left, Label.worth, hhup]
  | wake =>
      simp only [step] at h
      split at h
      case isFalse => cases h
      case isTrue hp =>
        cases h
        refine ⟨he, ?_⟩
        simp only [State.left, Label.byMain, hp, Pos.left, Label.worth,
          if_true]
        omega

/-- Short of the end the main thread has a step, signals or not. -/
theorem main_goes_on (hp : s.pos ≠ .ended) :
    ∃ a s', step most s a = some s' ∧ a.byMain = true := by
  cases hpos : s.pos with
  | head => exact ⟨.test, _, if_pos hpos, rfl⟩
  | asking => exact ⟨.ask, _, if_pos hpos, rfl⟩
  | polling => exact ⟨.wait .failed, _, if_pos hpos, rfl⟩
  | handling n =>
      cases n with
      | zero =>
          cases hhup : s.hupmReceived with
          | true => exact ⟨.tail, _, by simp only [step, hpos, hhup]; rfl, rfl⟩
          | false => exact ⟨.tail, _, by simp only [step, hpos, hhup]; rfl, rfl⟩
      | succ n => exact ⟨.handle, _, by simp only [step, hpos]; rfl, rfl⟩
  | sleeping => exact ⟨.wake, _, if_pos hpos, rfl⟩
  | ended => exact absurd hpos hp

-- ========================================================= the invariant

/-- The loop has got no more events than `epoll_wait` may return, and is
left only by a flag. -/
structure Inv (most : Nat) (s : State) : Prop where
  few : ∀ n, s.pos = .handling n → n ≤ most
  flagged : s.pos = .ended → s.allExitFlag = true
  term : s.termReceived = true → s.allExitFlag = true

theorem inv_step (hi : Inv most s) (h : step most s a = some s') :
    Inv most s' := by
  cases a with
  | sigterm =>
      cases h
      exact ⟨hi.few, fun _ => rfl, fun _ => rfl⟩
  | sighup =>
      cases h
      exact ⟨hi.few, fun _ => rfl, fun _ => rfl⟩
  | setallthreadexitflag =>
      cases h
      exact ⟨hi.few, fun _ => rfl, fun _ => rfl⟩
  | test =>
      simp only [step] at h
      split at h
      case isFalse => cases h
      case isTrue hp =>
        cases h
        have hterm := hi.term
        refine ⟨?_, ?_, hterm⟩
        · intro n hn
          simp only at hn
          split at hn <;> cases hn
        · simp only
          split
          · exact fun h => by cases h
          · next hno =>
            intro _
            cases he : s.allExitFlag with
            | true => rfl
            | false => simp_all
  | ask =>
      simp only [step] at h
      split at h
      case isFalse => cases h
      case isTrue hp =>
        cases h
        refine ⟨?_, ?_, hi.term⟩
        · intro n hn
          simp only at hn
          split at hn <;> cases hn
          exact Nat.zero_le most
        · intro hn
          simp only at hn
          split at hn <;> cases hn
  | wait r =>
      simp only [step] at h
      split at h
      case isFalse => cases h
      case isTrue hp =>
        cases r with
        | events n =>
            simp only at h
            split at h
            case isFalse => cases h
            case isTrue hle =>
              cases h
              refine ⟨?_, fun h => (by cases h), hi.term⟩
              intro n hn
              cases hn
              exact hle
        | interrupted =>
            cases h
            exact ⟨fun n hn => (by cases hn), fun h => (by cases h), hi.term⟩
        | failed =>
            cases h
            refine ⟨?_, fun h => (by cases h), hi.term⟩
            intro n hn
            cases hn
            exact Nat.zero_le most
  | handle =>
      simp only [step] at h
      split at h
      case h_2 => cases h
      case h_1 n hp =>
        cases h
        have hle := hi.few _ hp
        refine ⟨?_, fun h => (by cases h), hi.term⟩
        intro n hn
        cases hn
        omega
  | tail =>
      simp only [step] at h
      split at h
      case h_2 => cases h
      case h_1 hp =>
        split at h
        all_goals
          cases h
          exact ⟨fun n hn => (by cases hn), fun h => (by cases h), hi.term⟩
  | wake =>
      simp only [step] at h
      split at h
      case isFalse => cases h
      case isTrue hp =>
        cases h
        exact ⟨fun n hn => (by cases hn), fun h => (by cases h), hi.term⟩

theorem inv_run {as : List Label}
    (hrun : run (step most) init as = some s) : Inv most s :=
  run_inv (h := []) (I := fun _ => Inv most) (g := fun _ _ => True)
    (fun hi _ hs => inv_step hi hs)
    ⟨fun n hn => (by cases hn), fun h => (by cases h), fun h => (by cases h)⟩
    (meets_of_forall (fun _ _ => trivial) as _) hrun

/-- A step of the main thread leaves `allExitFlag` alone, any other sets
it. -/
theorem flag_step (h : step most s a = some s') :
    s'.allExitFlag = (s.allExitFlag || !a.byMain) := by
  cases a with
  | sigterm =>
      cases h
      simp [Label.byMain]
  | sighup =>
      cases h
      simp [Label.byMain]
  | setallthreadexitflag =>
      cases h
      simp [Label.byMain]
  | wait r =>
      simp only [step] at h
      cases r <;> grind [Label.byMain]
  | _ =>
      simp only [step] at h
      grind [Label.byMain]

/-- It is set exactly if something has set it. -/
theorem flag_eq {as : List Label}
    (hrun : run (step most) init as = some s) :
    s.allExitFlag = as.any (fun a => !a.byMain) :=
  run_inv (h := []) (g := fun _ _ => True)
    (I := fun h s => s.allExitFlag = h.any (fun a => !a.byMain))
    (fun hi _ hs => by
      rw [flag_step hs, hi, List.any_append, List.any_cons, List.any_nil,
        Bool.or_false])
    rfl (meets_of_forall (fun _ _ => trivial) as _) hrun

-- ============================================================ the end

/-- `main` leaves its loop only if a signal has come or
`setallthreadexitflag` has been called. After the first of these it makes
at most `most + 7` steps and three for each further SIGHUP, and has such
steps to the end at any point. -/
theorem main_ends {as bs : List Label}
    (hrun : run (step most) init (as ++ bs) = some s) :
    (s.pos = .ended → ∃ a ∈ as ++ bs, a.byMain = false)
      ∧ ((∃ a ∈ as, a.byMain = false) →
        bs.countP Label.byMain ≤ most + 7 + 3 * bs.count .sighup
          ∧ ∃ cs s', run (step most) s cs = some s'
            ∧ (∀ c ∈ cs, c.byMain = true) ∧ s'.pos = .ended) := by
  constructor
  · intro hp
    have hflag := (inv_run hrun).flagged hp
    rw [flag_eq hrun] at hflag
    simpa only [List.any_eq_true, Bool.not_eq_true'] using hflag
  · intro hasked
    obtain ⟨s₀, hrun₀, hmore⟩ := run_split hrun
    have he : s₀.allExitFlag = true := by
      rw [flag_eq hrun₀]
      simpa using hasked
    obtain ⟨he', hspent⟩ : s.allExitFlag = true
        ∧ s.left most + bs.countP Label.byMain
          ≤ s₀.left most + (bs.map Label.worth).sum :=
      run_spent (I := fun s => s.allExitFlag = true)
        (fun he hs => left_step he hs) he hmore
    constructor
    · have hle := left_le most s₀ (inv_run hrun₀).few
      rw [worth_sum] at hspent
      omega
    · obtain ⟨cs, s', hrun', hall, -, hend⟩ :
          ∃ cs s', run (step most) s cs = some s'
            ∧ (∀ c ∈ cs, c.byMain = true) ∧ s'.allExitFlag = true
            ∧ s'.pos = .ended := by
        refine exists_run_to (m := State.left most)
          (I := fun s => s.allExitFlag = true) ?_ he'
        intro s he hp
        obtain ⟨a, s₁, hs, hby⟩ := main_goes_on hp
        obtain ⟨he₁, hlt⟩ := left_step he hs
        refine ⟨a, s₁, hs, hby, he₁, ?_⟩
        rw [hby, worth_byMain hby, if_pos rfl] at hlt
        exact hlt
      exact ⟨cs, s', hrun', hall, hend⟩

/-- A SIGHUP that interrupts `epoll_wait`, and a second one while the
first is slept over. -/
def hupRun : List Label :=
  [.test, .ask, .sighup]

def hupRest : List Label :=
  [.wait .interrupted, .ask, .tail, .sighup, .wake, .ask, .tail, .wake,
    .ask, .tail, .test]

theorem hupRun_ends :
    (∃ s, run (step 32) init (hupRun ++ hupRest) = some s
      ∧ s.pos = .ended)
    ∧ hupRest.countP Label.byMain ≤ 32 + 7 + 3 * hupRest.count .sighup := by
  obtain ⟨s, hrun, hp⟩ :
      ∃ s, run (step 32) init (hupRun ++ hupRest) = some s
        ∧ s.pos = .ended := exists_run_of_any (by decide)
  exact ⟨⟨s, hrun, hp⟩, ((main_ends hrun).2 (by decide)).1⟩

end CorrectGps.Control
