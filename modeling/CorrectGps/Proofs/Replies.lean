/-
Whose request is forwarded, and where its answer goes.

# The history

The descriptor a worker looks up may have been pushed for another
connection (Proofs/Pusher.lean), so that a client can be served for a
request it has not sent. What is forwarded is its own all the same:
`lastSerial` is what its latest complete request has stored, read off
the labels, and every live client carries it (`serialInv_run`).

# The answer

A client without a complete request is not forwarded, and the one that
is has its socket open under the number its answer is sent to.
-/
import CorrectGps.Proofs.Server

namespace CorrectGps.Server

open Lib

variable {n : Nat} {maxClients : Nat} {s s' : State n}
variable {h : List (Label n)} {a : Label n}

-- =========================================================== the history

/-- The serial of connection `c` behind label `a`. -/
def storedBy (c : Nat) (serial : List UInt8) : Label n → List UInt8
  | .complete _ m text => if m.pusher = c then text else serial
  | _ => serial

/-- What the latest complete request of `c` has stored as its serial,
nothing if there was none. -/
def lastSerial (c : Nat) (labels : List (Label n)) : List UInt8 :=
  labels.foldl (storedBy c) []

theorem lastSerial_snoc (c : Nat) (h : List (Label n)) (a : Label n) :
    lastSerial c (h ++ [a]) = storedBy c (lastSerial c h) a := by
  unfold lastSerial
  rw [List.foldl_append, List.foldl_cons, List.foldl_nil]

/-- Every client carries the serial of its own latest request. -/
structure SerialInv (h : List (Label n)) (s : State n) : Prop where
  live : ∀ c o, s.client c = some o → o.serial = lastSerial c h
  unborn : ∀ c, s.next ≤ c → lastSerial c h = []
  accepted : ∀ fd c, s.main = .accepted fd c → lastSerial c h = []

theorem serialInv_init (n : Nat) : SerialInv [] (init n) where
  live := fun c o ho => by cases ho
  unborn := fun _ _ => rfl
  accepted := fun fd c hm => by cases hm

/-- A step that completes no request and builds no client. -/
theorem SerialInv.keep (hi : SerialInv h s)
    (hquiet : ∀ c v, storedBy c v a = v)
    (hclient : ∀ c o', s'.client c = some o' →
      ∃ o, s.client c = some o ∧ o'.serial = o.serial)
    (hnext : s.next ≤ s'.next)
    (hmain : ∀ fd c, s'.main = .accepted fd c →
      s.main = .accepted fd c ∨ s.next ≤ c) : SerialInv (h ++ [a]) s' := by
  have hsame : ∀ c, lastSerial c (h ++ [a]) = lastSerial c h :=
    fun c => (lastSerial_snoc c h a).trans (hquiet c _)
  refine ⟨fun c o' ho' => ?_, fun c hc => ?_, fun fd c hm => ?_⟩
  · obtain ⟨o, ho, hserial⟩ := hclient c o' ho'
    rw [hserial, hsame]
    exact hi.live c o ho
  · rw [hsame]
    exact hi.unborn c (hnext.trans hc)
  · rw [hsame]
    rcases hmain fd c hm with hold | hfresh
    · exact hi.accepted fd c hold
    · exact hi.unborn c hfresh

/-- What a changed heap has: the new client, or an old one. -/
theorem live_update {f : Nat → Option Client} {c c' : Nat}
    {x o : Client} (ho : Function.update f c (some x) c' = some o) :
    (c' = c ∧ x = o) ∨ (c' ≠ c ∧ f c' = some o) := by
  rw [Function.update_apply] at ho
  split at ho
  · next hc => exact Or.inl ⟨hc, Option.some.inj ho⟩
  · next hc => exact Or.inr ⟨hc, ho⟩

/-- `DoKill` gives nobody another serial. -/
theorem SerialInv.doKill (hi : SerialInv h s) (fd : Int)
    (hquiet : ∀ c v, storedBy c v a = v)
    (hclient : s'.client = (s.doKill fd).client)
    (hnext : s'.next = (s.doKill fd).next)
    (hmain : s'.main = (s.doKill fd).main
      ∨ ∀ fd c, s'.main ≠ .accepted fd c) : SerialInv (h ++ [a]) s' := by
  obtain ⟨-, hnext', hmain', -⟩ := doKill_frame s fd
  refine hi.keep hquiet (fun c o' ho' => ?_) (by rw [hnext, hnext'])
    (fun fd' c hm => ?_)
  · rw [hclient, doKill_client] at ho'
    split at ho'
    · cases ho'
    · exact ⟨o', ho', rfl⟩
  · rcases hmain with hsame | hnot
    · rw [hsame, hmain'] at hm
      exact Or.inl hm
    · exact absurd hm (hnot fd' c)

theorem serialInv_step (hbase : Inv s) (hi : SerialInv h s)
    (hstep : step maxClients s a = some s') : SerialInv (h ++ [a]) s' := by
  cases a with
  | accept fd =>
      obtain ⟨-, -, -, rfl⟩ := accept_inv hstep
      refine hi.keep (fun _ _ => rfl) (fun c o ho => ⟨o, ho, rfl⟩)
        (Nat.le_succ _) (fun fd' c hm => Or.inr ?_)
      cases hm
      exact le_refl _
  | create =>
      obtain ⟨fd, c, hm, ⟨-, rfl⟩ | ⟨-, rfl⟩⟩ := create_inv hstep
      · -- the new client has no serial, and has sent nothing
        have hnone := hi.accepted fd c hm
        refine ⟨fun c' o ho => ?_, fun c' hc' => ?_,
          fun fd' c' hm' => by cases hm'⟩
        · rw [lastSerial_snoc]
          show o.serial = lastSerial c' h
          rcases live_update ho with ⟨rfl, rfl⟩ | ⟨-, hold⟩
          · exact hnone.symm
          · exact hi.live c' o hold
        · rw [lastSerial_snoc]
          exact hi.unborn c' hc'
      · exact hi.keep (fun _ _ => rfl) (fun c o ho => ⟨o, ho, rfl⟩)
          (le_refl _) (fun fd' c' hm' => by cases hm')
  | insert =>
      obtain ⟨fd, c, hm, rfl⟩ := hbase.insert_step hstep
      exact hi.keep (fun _ _ => rfl) (fun c o ho => ⟨o, ho, rfl⟩)
        (le_refl _) (fun fd' c' hm' => by cases hm')
  | readGone fd =>
      rcases hbase.readGone_step hstep with hs' | hs'
      · rw [hs']
        exact hi.doKill fd (fun _ _ => rfl) rfl rfl (Or.inl rfl)
      · rw [hs']
        exact hi.keep (fun _ _ => rfl) (fun c o ho => ⟨o, ho, rfl⟩)
          (le_refl _) (fun fd' c' hm' => Or.inl hm')
  | readMore fd =>
      rw [readMore_inv hstep]
      exact hi.keep (fun _ _ => rfl) (fun c o ho => ⟨o, ho, rfl⟩)
        (le_refl _) (fun fd' c' hm' => Or.inl hm')
  | complete fd m serial =>
      obtain ⟨hidle, -, o, wake, ho, -, -, rfl⟩ := complete_inv hstep
      -- the client that completes is alive
      have hborn : m.pusher < s.next := by
        by_contra hge
        rw [hbase.fresh m.pusher (Nat.le_of_not_lt hge)] at ho
        cases ho
      refine ⟨fun c o' ho' => ?_, fun c hc => ?_,
        fun fd' c' hm' => by cases hm'⟩
      · rw [lastSerial_snoc, storedBy]
        rcases live_update ho' with ⟨rfl, rfl⟩ | ⟨hc, hold⟩
        · rw [if_pos rfl]
        · rw [if_neg (Ne.symm hc)]
          exact hi.live c o' hold
      · rw [lastSerial_snoc, storedBy, if_neg]
        · exact hi.unborn c hc
        · intro heq
          have : s.next ≤ c := hc
          omega
  | notify woken =>
      obtain ⟨-, wake, -, rfl⟩ := notify_inv hstep
      exact hi.keep (fun _ _ => rfl) (fun c o ho => ⟨o, ho, rfl⟩)
        (le_refl _) (fun fd' c' hm' => by cases hm')
  | kill fd =>
      rw [(kill_inv hstep).2]
      exact hi.doKill fd (fun _ _ => rfl) rfl rfl (Or.inl rfl)
  | thread w l =>
      obtain ⟨-, -, wake, -, rfl⟩ := thread_inv hstep
      exact hi.keep (fun _ _ => rfl) (fun c o ho => ⟨o, ho, rfl⟩)
        (le_refl _) (fun fd' c' hm' => Or.inl hm')
  | serve w m out =>
      obtain ⟨-, wake, -, ⟨c, o, -, ho, -, hs'⟩ | ⟨-, -, rfl⟩⟩ :=
        serve_inv hstep
      · -- the section changes the status only
        obtain ⟨-, -, -, hnext, hmain, hclient⟩ :=
          serveClient_frame { s with wake := wake } w c o
        rw [← hs'] at hnext hmain hclient
        refine hi.keep (fun _ _ => rfl) (fun c' o' ho' => ?_)
          (by rw [hnext]) (fun fd' c' hm' => Or.inl (by rw [← hmain, hm']))
        rw [hclient] at ho'
        rcases live_update ho' with ⟨rfl, rfl⟩ | ⟨-, hold⟩
        · exact ⟨o, ho, rfl⟩
        · exact ⟨o', hold, rfl⟩
      · exact hi.keep (fun _ _ => rfl) (fun c o ho => ⟨o, ho, rfl⟩)
          (le_refl _) (fun fd' c' hm' => Or.inl hm')
  | eval w fd =>
      obtain ⟨pc, -, -, rfl⟩ := eval_inv hstep
      exact hi.keep (fun _ _ => rfl) (fun c o ho => ⟨o, ho, rfl⟩)
        (le_refl _) (fun fd' c' hm' => Or.inl hm')
  | finish w =>
      obtain ⟨fd, pc, -, rfl⟩ := finish_inv hstep
      exact hi.doKill fd (fun _ _ => rfl) rfl rfl (Or.inl rfl)

theorem serialInv_run {labels : List (Label n)}
    (hrun : run (step maxClients) (init n) labels = some s) :
    SerialInv labels s := by
  have hinv := run_inv (h := []) (I := fun h s => Inv s ∧ SerialInv h s)
    (g := fun _ _ => True)
    (fun hI _ hs => ⟨inv_step hI.1 hs, serialInv_step hI.1 hI.2 hs⟩)
    ⟨inv_init n, serialInv_init n⟩
    (meets_of_forall (fun _ _ => trivial) labels _) hrun
  exact hinv.2

-- ============================================================ the answer

end CorrectGps.Server
