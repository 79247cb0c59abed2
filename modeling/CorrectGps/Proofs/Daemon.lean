/-
One process comes out of `becomeDaemon`, and what it has open.

# The processes

Whatever the calls do, all processes but the last one made are left by
`_exit`, and the last one returns. It returns 0 exactly if every call was
willing (`becomeDaemon_once`).

# The descriptors

`open` returns 0 because 0 has just been closed and nothing is lower
(`lowest_zero`); so the test that it does can only fail with `open`. The
descriptors from the limit that was guessed on stay open.

# The log

A log call changes no number but the one it has had and the one it gets
(`logMsg_fds`), and it gets none of 0, 1 and 2 as long as they are open
(`logMsg_std`).
-/
import CorrectGps.Daemon

namespace CorrectGps.Daemon

variable {flags : Nat} {k : Calls} {p : Process}

-- ====================================================== the descriptors

/-- The loop closes every number below its bound, and no other. -/
theorem closeAll_eq (p : Process) (maxfd : Nat) :
    p.closeAll maxfd
      = { p with fds := fun fd => if fd < maxfd then none else p.fds fd } := by
  unfold Process.closeAll
  induction maxfd with
  | zero => simp
  | succ maxfd ih =>
      rw [List.range_succ, List.foldl_append, ih, List.foldl_cons,
        List.foldl_nil, Process.close]
      congr 1
      funext fd
      show Function.update (fun fd => if fd < maxfd then none else p.fds fd)
        maxfd none fd = _
      rw [Function.update_apply]
      by_cases heq : fd = maxfd
      · rw [if_pos heq, if_pos (by omega)]
      · rw [if_neg heq]
        exact if_congr (by omega) rfl rfl

/-- Of the numbers that are not open 0 is the lowest. -/
theorem lowest_zero (h : p.fds 0 = none) (limit : Nat) :
    p.lowest limit = if 0 < limit then some 0 else none := by
  unfold Process.lowest
  cases limit with
  | zero => rfl
  | succ limit =>
      rw [List.range_succ_eq_map, List.find?_cons, h]
      rfl

theorem close_stdin (p : Process) :
    (p.close STDIN_FILENO).fds 0 = none := by
  simp [Process.close, STDIN_FILENO]

/-- The calls that open descriptors 0, 1 and 2 again. -/
def Calls.Reopens (k : Calls) : Prop :=
  k.openNull = true ∧ 0 < k.limit ∧ k.dupOut = true ∧ k.dupErr = true

/-- Descriptors 0, 1 and 2 refer to `/dev/null`. -/
def nullFds (fds : Nat → Option File) (fd : Nat) : Option File :=
  if fd < 3 then some .null else fds fd

theorem reopen_ok (hk : k.Reopens) :
    reopen k p
      = ({ p with fds := nullFds p.fds } : Process).returns k 0 := by
  obtain ⟨hopen, hlimit, hout, herr⟩ := hk
  have hlow : (p.close STDIN_FILENO).lowest k.limit = some 0 := by
    rw [lowest_zero (close_stdin p), if_pos hlimit]
  have hfds : Function.update (Function.update (Function.update p.fds 0
      (some File.null)) 1 (some File.null)) 2 (some File.null)
      = nullFds p.fds := by
    funext fd
    simp only [Function.update_apply, nullFds]
    grind
  unfold reopen
  simp only [hopen, if_true, hlow]
  simp [hout, herr, STDIN_FILENO, STDOUT_FILENO, STDERR_FILENO,
    Process.refer, Process.close, hfds]

theorem reopen_fails (hk : ¬ k.Reopens) :
    ∃ q, reopen k p = .returns (-1) q := by
  unfold reopen Process.returns
  cases hopen : k.openNull with
  | false => exact ⟨_, rfl⟩
  | true =>
      have hlow := lowest_zero (close_stdin p) k.limit
      by_cases hlimit : 0 < k.limit
      · rw [if_pos hlimit] at hlow
        simp only [if_true, hlow]
        cases hout : k.dupOut with
        | false => exact ⟨_, by simp [STDIN_FILENO]; rfl⟩
        | true =>
            cases herr : k.dupErr with
            | false => exact ⟨_, by simp [STDIN_FILENO]; rfl⟩
            | true => exact absurd ⟨hopen, hlimit, hout, herr⟩ hk
      · rw [if_neg hlimit] at hlow
        simp only [if_true, hlow]
        exact ⟨_, rfl⟩

-- =============================================================== the log

/-- Closing the log's number leaves the others. -/
theorem closeLog_frame (p : Process) :
    p.closeLog.leader = p.leader ∧ p.closeLog.umask = p.umask
      ∧ p.closeLog.atRoot = p.atRoot
      ∧ ∀ fd, p.log ≠ some fd → p.closeLog.fds fd = p.fds fd := by
  unfold Process.closeLog
  cases hlog : p.log with
  | none => exact ⟨rfl, rfl, rfl, fun _ _ => rfl⟩
  | some d =>
      refine ⟨rfl, rfl, rfl, fun fd hfd => ?_⟩
      exact Function.update_of_ne (fun h => hfd (by rw [h])) _ _

/-- What a log call leaves of the process: nothing is changed, or a
number is given up and perhaps another one taken. -/
theorem logMsg_cases (p : Process) (limit : Nat) (l : Logged) :
    p.logMsg limit l = p
      ∨ p.logMsg limit l = { p.closeLog with log := none }
      ∨ ∃ fd, p.closeLog.fds fd = none ∧ p.logMsg limit l
        = { p.closeLog.refer fd (some .log) with log := some fd } := by
  unfold Process.logMsg
  split
  · exact Or.inl rfl
  · dsimp only
    split
    · next fd hopen =>
      refine Or.inr (Or.inr ⟨fd, ?_, rfl⟩)
      split at hopen
      · unfold Process.lowest at hopen
        exact Option.isNone_iff_eq_none.mp
          (List.find?_some (p := fun fd => Option.isNone _) hopen)
      · cases hopen
    · exact Or.inr (Or.inl rfl)

theorem logMsg_same (p : Process) (limit : Nat) (l : Logged) :
    (p.logMsg limit l).leader = p.leader
      ∧ (p.logMsg limit l).umask = p.umask
      ∧ (p.logMsg limit l).atRoot = p.atRoot := by
  obtain ⟨hleader, humask, hroot, -⟩ := closeLog_frame p
  rcases logMsg_cases p limit l with h | h | ⟨fd, -, h⟩
  · rw [h]
    exact ⟨rfl, rfl, rfl⟩
  · rw [h]
    exact ⟨hleader, humask, hroot⟩
  · rw [h]
    exact ⟨hleader, humask, hroot⟩

/-- Other numbers than the log's stay what they are. -/
theorem logMsg_fds {limit : Nat} {l : Logged} {fd : Nat}
    (hold : p.log ≠ some fd) (hnew : (p.logMsg limit l).log ≠ some fd) :
    (p.logMsg limit l).fds fd = p.fds fd := by
  obtain ⟨-, -, -, hfds⟩ := closeLog_frame p
  rcases logMsg_cases p limit l with h | h | ⟨d, -, h⟩
  · rw [h]
  · rw [h]
    exact hfds fd hold
  · rw [h] at hnew ⊢
    show Function.update p.closeLog.fds d (some File.log) fd = _
    rw [Function.update_of_ne fun heq => hnew (by rw [heq])]
    exact hfds fd hold

/-- Descriptors 0, 1 and 2 are open, and none of them is the log's. -/
def Process.Std (p : Process) : Prop :=
  ∀ fd < 3, p.fds fd ≠ none ∧ p.log ≠ some fd

/-- They stay what they are. -/
theorem logMsg_std (h : p.Std) (limit : Nat) (l : Logged) :
    (p.logMsg limit l).Std
      ∧ ∀ fd < 3, (p.logMsg limit l).fds fd = p.fds fd := by
  have hlog : ∀ fd < 3, (p.logMsg limit l).log ≠ some fd := by
    intro fd hfd
    rcases logMsg_cases p limit l with heq | heq | ⟨d, hfree, heq⟩
    · rw [heq]
      exact (h fd hfd).2
    · rw [heq]
      exact fun hc => by cases hc
    · rw [heq]
      intro hc
      obtain rfl := Option.some.inj hc
      rw [(closeLog_frame p).2.2.2 d (h d hfd).2] at hfree
      exact (h d hfd).1 hfree
  have hsame : ∀ fd < 3, (p.logMsg limit l).fds fd = p.fds fd :=
    fun fd hfd => logMsg_fds (h fd hfd).2 (hlog fd hfd)
  refine ⟨fun fd hfd => ⟨?_, hlog fd hfd⟩, hsame⟩
  rw [hsame fd hfd]
  exact (h fd hfd).1

-- ========================================================= the processes

/-- What the daemon has open. -/
def daemonFds (flags : Nat) (k : Calls) (p : Process) (fd : Nat) :
    Option File :=
  if unset flags BD_NO_REOPEN_STD_FDS = true ∧ fd < 3 then some .null
  else if unset flags BD_NO_CLOSE_FILES = true
      ∧ fd < k.openMax.getD BD_MAX_CLOSE then none
  else p.fds fd

/-- What `p` has become when it returns. -/
structure Settled (flags : Nat) (k : Calls) (p q : Process) : Prop where
  fds : ∀ fd, p.log ≠ some fd → q.log ≠ some fd →
    q.fds fd = daemonFds flags k p fd
  std : unset flags BD_NO_REOPEN_STD_FDS = true →
    (∀ fd < 3, p.log ≠ some fd) → ∀ fd < 3, q.fds fd = some .null
  leader : q.leader = p.leader
  umask : q.umask = if unset flags BD_NO_UMASK0 then 0 else p.umask
  atRoot : q.atRoot = (unset flags BD_NO_CHDIR || p.atRoot)

theorem prepare_eq (flags : Nat) (k : Calls) (p : Process) :
    prepare flags k p
      = { fds := fun fd => if unset flags BD_NO_CLOSE_FILES = true
            ∧ fd < k.openMax.getD BD_MAX_CLOSE then none else p.fds fd
          log := p.log
          leader := p.leader
          umask := if unset flags BD_NO_UMASK0 then 0 else p.umask
          atRoot := unset flags BD_NO_CHDIR || p.atRoot } := by
  unfold prepare
  simp only [closeAll_eq]
  cases unset flags BD_NO_UMASK0 <;> cases unset flags BD_NO_CHDIR
    <;> cases unset flags BD_NO_CLOSE_FILES <;> simp

/-- The process before its last log call. -/
def daemon (flags : Nat) (k : Calls) (p : Process) : Process where
  fds := daemonFds flags k p
  log := p.log
  leader := p.leader
  umask := if unset flags BD_NO_UMASK0 then 0 else p.umask
  atRoot := unset flags BD_NO_CHDIR || p.atRoot

theorem daemon_settled (flags : Nat) (k : Calls) (p : Process) :
    Settled flags k p
      ((daemon flags k p).logMsg k.limit k.logEnd) := by
  obtain ⟨hleader, humask, hroot⟩ :=
    logMsg_same (daemon flags k p) k.limit k.logEnd
  refine ⟨fun fd hold hnew => logMsg_fds hold hnew, fun hflag hlog => ?_,
    hleader, humask, hroot⟩
  have hnull : ∀ fd < 3, (daemon flags k p).fds fd = some .null :=
    fun fd hfd => if_pos ⟨hflag, hfd⟩
  have hstd : (daemon flags k p).Std := by
    refine fun fd hfd => ⟨?_, hlog fd hfd⟩
    rw [hnull fd hfd]
    exact fun hc => by cases hc
  intro fd hfd
  rw [(logMsg_std hstd k.limit k.logEnd).2 fd hfd, hnull fd hfd]

theorem settle_cases (flags : Nat) (k : Calls) (p : Process) :
    (∃ q, settle flags k p = .returns 0 q ∧ Settled flags k p q
        ∧ (unset flags BD_NO_REOPEN_STD_FDS = true → k.Reopens))
      ∨ ∃ q, settle flags k p = .returns (-1) q
        ∧ unset flags BD_NO_REOPEN_STD_FDS = true ∧ ¬ k.Reopens := by
  have hsettled := daemon_settled flags k p
  unfold settle
  cases hflag : unset flags BD_NO_REOPEN_STD_FDS with
  | false =>
      refine Or.inl ⟨_, ?_, hsettled, fun h => by cases h⟩
      have hfds : prepare flags k p = daemon flags k p := by
        rw [prepare_eq, daemon]
        congr 1
        funext fd
        simp [daemonFds, hflag]
      rw [hfds]
      rfl
  | true =>
      by_cases hk : k.Reopens
      · refine Or.inl ⟨_, ?_, hsettled, fun _ => hk⟩
        have hnull : nullFds (prepare flags k p).fds
            = daemonFds flags k p := by
          funext fd
          simp [prepare_eq, daemonFds, nullFds, hflag]
        have hfds : ({ prepare flags k p with
            fds := nullFds (prepare flags k p).fds } : Process)
            = daemon flags k p := by
          rw [hnull, prepare_eq]
          rfl
        show reopen k (prepare flags k p) = _
        rw [reopen_ok hk, hfds]
        rfl
      · obtain ⟨q, hq⟩ := reopen_fails (p := prepare flags k p) hk
        exact Or.inr ⟨q, hq, rfl, hk⟩

/-- Every call was willing. -/
def Calls.Succeed (flags : Nat) (k : Calls) : Prop :=
  k.fork = true ∧ k.setsid = true ∧ k.forkAgain = true
    ∧ (unset flags BD_NO_REOPEN_STD_FDS = true → k.Reopens)

/-- One process returns, the last one made, and all others exit. It
returns 0 exactly if every call was willing; then it is the second child,
leads no session, and of the descriptors has only those that it was told
to leave or to open, and the log's. Where 0, 1 and 2 were open and none
was the log's, they are at `/dev/null`. -/
theorem becomeDaemon_once (flags : Nat) (k : Calls) (p : Process) :
    ∃ n r q, becomeDaemon flags k p
        = List.replicate n .exits ++ [.returns r q]
      ∧ (r = 0 ∨ r = -1) ∧ (r = 0 ↔ k.Succeed flags)
      ∧ (r = 0 → n = 2
        ∧ Settled flags k
          { p.logMsg k.limit k.logBegin with leader := false } q
        ∧ (∀ fd, some fd ∉ [p.log, (p.logMsg k.limit k.logBegin).log, q.log]
          → q.fds fd = daemonFds flags k p fd)
        ∧ (unset flags BD_NO_REOPEN_STD_FDS = true → p.Std →
          ∀ fd < 3, q.fds fd = some .null)) := by
  unfold becomeDaemon Calls.Succeed
  cases hfork : k.fork with
  | false => exact ⟨0, -1, _, by simp; rfl⟩
  | true =>
      cases hsetsid : k.setsid with
      | false => exact ⟨1, -1, _, by simp; rfl⟩
      | true =>
          cases hagain : k.forkAgain with
          | false => exact ⟨1, -1, _, by simp; rfl⟩
          | true =>
              rcases settle_cases flags k
                  { p.logMsg k.limit k.logBegin with leader := false } with
                ⟨q, hq, hsettled, hk⟩ | ⟨q, hq, hflag, hk⟩
              · refine ⟨2, 0, q, ?_, by simp, by simpa using hk, fun _ =>
                  ⟨rfl, hsettled, fun fd hfd => ?_, fun hflag hstd => ?_⟩⟩
                · simp [hq, List.replicate]
                · simp only [List.mem_cons, List.not_mem_nil, or_false,
                    not_or] at hfd
                  obtain ⟨hfirst, hsecond, hlast⟩ := hfd
                  rw [hsettled.fds fd (Ne.symm hsecond) (Ne.symm hlast)]
                  unfold daemonFds
                  rw [logMsg_fds (Ne.symm hfirst) (Ne.symm hsecond)]
                · exact hsettled.std hflag fun fd hfd =>
                    ((logMsg_std hstd k.limit k.logBegin).1 fd hfd).2
              · refine ⟨2, -1, q, ?_, by simp, by simp [hflag, hk], by simp⟩
                simp [hq, List.replicate]

end CorrectGps.Daemon
