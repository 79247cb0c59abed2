/-
`becomeDaemon`: from the process that was started to the one that stays.

# Processes

A `fork` that succeeds makes a second process, which goes on with a copy
of what the first one had; the first one is left by `_exit(0)`. What each
process does in the end is listed, the first process first.

# Descriptors

`open` returns the lowest number that is not open, if there is one below
the limit of the process. `sysconf` says where that limit is, or that it
is indeterminate. Whether the calls are willing otherwise is given.

# The log

`syslog` keeps a descriptor of its own and does not learn that the loop
has closed it. It finds out when it sends the next message, closes the
number and opens another one. So the message at the very end opens a
descriptor behind the loop.
-/
import Mathlib.Logic.Function.Basic

namespace CorrectGps.Daemon

def BD_NO_CHDIR : Nat := 1
def BD_NO_CLOSE_FILES : Nat := 2
def BD_NO_REOPEN_STD_FDS : Nat := 4
def BD_NO_UMASK0 : Nat := 8
def BD_MAX_CLOSE : Nat := 8192
def STDIN_FILENO : Nat := 0
def STDOUT_FILENO : Nat := 1
def STDERR_FILENO : Nat := 2

/-- What a descriptor refers to. -/
inductive File
  /-- `/dev/null` -/
  | null
  /-- the socket of `syslog` -/
  | log
  | other (k : Nat)
  deriving DecidableEq, Repr

structure Process where
  /-- its open descriptors -/
  fds : Nat → Option File
  /-- the number that `syslog` takes for its own -/
  log : Option Nat
  /-- whether it leads its session -/
  leader : Bool
  umask : Nat
  /-- whether its directory is `/` -/
  atRoot : Bool

/-- How a call of `syslog` turns out. -/
structure Logged where
  /-- what it has open takes the message -/
  sends : Bool
  /-- if not, a new socket can be opened -/
  opens : Bool

/-- How the calls turn out. -/
structure Calls where
  /-- the log calls: the first, and the last before a return -/
  logBegin : Logged
  logEnd : Logged
  /-- the first `fork` -/
  fork : Bool
  setsid : Bool
  /-- the second one -/
  forkAgain : Bool
  /-- `sysconf(_SC_OPEN_MAX)`, `none` for -1 -/
  openMax : Option Nat
  /-- the limit for numbers of descriptors -/
  limit : Nat
  openNull : Bool
  dupOut : Bool
  dupErr : Bool

/-- What a process does in the end. -/
inductive End
  /-- `_exit(0)` -/
  | exits
  | returns (r : Int) (p : Process)

/-- `close(fd)` -/
def Process.close (p : Process) (fd : Nat) : Process :=
  { p with fds := Function.update p.fds fd none }

/-- `fd` refers to `f`. -/
def Process.refer (p : Process) (fd : Nat) (f : Option File) : Process :=
  { p with fds := Function.update p.fds fd f }

/-- The loop over all descriptors below `maxfd`. -/
def Process.closeAll (p : Process) (maxfd : Nat) : Process :=
  (List.range maxfd).foldl Process.close p

/-- The number that `open` returns. -/
def Process.lowest (p : Process) (limit : Nat) : Option Nat :=
  (List.range limit).find? fun fd => (p.fds fd).isNone

/-- `syslog` has a connection that can take a message. -/
def Process.connected (p : Process) : Bool :=
  match p.log with
  | some fd => p.fds fd ≠ none ∧ p.fds fd ≠ some .null
  | none => false

/-- `syslog` closes the number that it takes for its own. -/
def Process.closeLog (p : Process) : Process :=
  match p.log with
  | some fd => p.close fd
  | none => p

/-- `FLOG_MSG` or `FLOG_ERR` -/
def Process.logMsg (p : Process) (limit : Nat) (l : Logged) : Process :=
  if p.connected && l.sends then p
  else
    let p := p.closeLog
    match if l.opens then p.lowest limit else none with
    | some fd => { p.refer fd (some .log) with log := some fd }
    | none => { p with log := none }

/-- The last log call and the return. -/
def Process.returns (p : Process) (k : Calls) (r : Int) : End :=
  .returns r (p.logMsg k.limit k.logEnd)

/-- `!(flags & flag)` -/
def unset (flags flag : Nat) : Bool := flags &&& flag = 0

/-- Descriptors 0, 1 and 2 are opened again. -/
def reopen (k : Calls) (p : Process) : End :=
  let p := p.close STDIN_FILENO
  match if k.openNull then p.lowest k.limit else none with
  | none => p.returns k (-1)
  | some fd =>
      let p := p.refer fd (some .null)
      if fd ≠ STDIN_FILENO then p.returns k (-1)
      else if !k.dupOut then p.returns k (-1)
      else
        let p := p.refer STDOUT_FILENO (p.fds STDIN_FILENO)
        if !k.dupErr then p.returns k (-1)
        else (p.refer STDERR_FILENO (p.fds STDIN_FILENO)).returns k 0

/-- What follows the second `fork`, up to the loop that closes. -/
def prepare (flags : Nat) (k : Calls) (p : Process) : Process :=
  let p := if unset flags BD_NO_UMASK0 then { p with umask := 0 } else p
  let p := if unset flags BD_NO_CHDIR then { p with atRoot := true } else p
  if unset flags BD_NO_CLOSE_FILES then
    p.closeAll (k.openMax.getD BD_MAX_CLOSE)
  else p

/-- What follows the second `fork`. -/
def settle (flags : Nat) (k : Calls) (p : Process) : End :=
  let p := prepare flags k p
  if unset flags BD_NO_REOPEN_STD_FDS then reopen k p else p.returns k 0

/-- `becomeDaemon(flags)`; the first message comes from both processes. -/
def becomeDaemon (flags : Nat) (k : Calls) (p : Process) : List End :=
  let p := p.logMsg k.limit k.logBegin
  if !k.fork then [p.returns k (-1)]
  else .exits ::
    if !k.setsid then [p.returns k (-1)]
    else
      let p := { p with leader := true }
      if !k.forkAgain then [p.returns k (-1)]
      else [.exits, settle flags k { p with leader := false }]

end CorrectGps.Daemon
