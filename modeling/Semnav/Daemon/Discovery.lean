import Mathlib.Logic.Function.Basic

/-!
# The files of the daemon and the liveness probe

What the processes of one root share: the path `daemon.sock`, the `flock` on `daemon.lock` and
the kernel's side of the sockets.  `probeLiveness` is `probe_liveness` in its atomic steps: the
test of the path, the connect, and the removal of the file.
-/

namespace Semnav.Daemon

/-- A process; its number is not used again. -/
abbrev Pid := Nat

/-- A socket file.  The path may come to name another one. -/
abbrev Inode := Nat

/-- The connection of a `daemon stop` with the daemon that it reached. -/
structure StopLink where
  daemon : Pid
  /-- `listener.accept()` has taken it from the backlog. -/
  accepted : Bool
  /-- The `Shutdown` envelope is written. -/
  requested : Bool
  /-- `handle_connection` has sent on `stop_tx`. -/
  forwarded : Bool
  /-- The response is written. -/
  answered : Bool
  deriving DecidableEq, Repr

structure Os where
  /-- What `daemon.sock` names. -/
  sock : Option Inode
  /-- Who holds the `flock` on `daemon.lock`. -/
  lock : Option Pid
  /-- Which process listens on a socket. -/
  listeners : Inode → Option Pid
  nextInode : Inode
  /-- The connection of a `daemon stop` process. -/
  links : Pid → Option StopLink
  /-- There is a message in the daemon's `stop_rx`. -/
  stops : Pid → Bool
  /-- How many writes to `graph.db` a process has issued. -/
  writes : Pid → Nat

/-- The machine before any process starts; a socket file may be left over. -/
def Os.boot (leftover : Option Inode) : Os :=
  { sock := leftover
    lock := none
    listeners := fun _ => none
    nextInode := (leftover.map (· + 1)).getD 0
    links := fun _ => none
    stops := fun _ => false
    writes := fun _ => 0 }

/-- The process that listens on the socket which the path names. -/
def Os.listener (os : Os) : Option Pid := os.sock.bind os.listeners

/-- `remove_file(&sock)`; that the file is missing is not an error for its callers. -/
def Os.removeSock (os : Os) : Os := { os with sock := none }

/-- The listener is dropped: the kernel resets what is still in its backlog. -/
def Os.closeListener (os : Os) (p : Pid) : Os :=
  { os with
    listeners := fun i => if os.listeners i = some p then none else os.listeners i
    links := fun q => (os.links q).filter fun link => link.daemon != p || link.accepted }

/-- What the kernel does when a process has exited, for any reason. -/
def Os.exit (os : Os) (p : Pid) : Os :=
  { os.closeListener p with
    lock := if os.lock = some p then none else os.lock
    links := fun q => if q = p then none else (os.links q).filter fun link => link.daemon != p }

/-- How a connect comes out: `Ok(Ok(_))`, `Ok(Err(_))`, or not within `CONNECT_TIMEOUT`. -/
inductive Attempt where
  | accepted
  | failed
  | timedOut
  deriving DecidableEq, Repr

/-- Nobody accepts, and nobody leaves a connect pending, where no process listens.  An error is
    possible at any time: descriptors run out, or the backlog of a nonblocking socket is full. -/
def Os.mayBe (os : Os) : Attempt → Bool
  | .failed => true
  | .accepted | .timedOut => os.listener.isSome

inductive Liveness where
  | live
  | notRunning
  deriving DecidableEq, Repr

/-- Where `probe_liveness` is. -/
inductive ProbePc where
  /-- Before `sock.exists()`. -/
  | testing
  /-- Before the connect. -/
  | connecting
  /-- The connect has failed, and `remove_file` is next. -/
  | removing
  deriving DecidableEq, Repr

/-- One step of `probe_liveness`, with the outcome of the connect if the step is one. -/
def probeLiveness (os : Os) (a : Attempt) : ProbePc → Option (Os × (ProbePc ⊕ Liveness))
  | .testing =>
    if os.sock.isSome then some (os, .inl .connecting) else some (os, .inr .notRunning)
  | .connecting =>
    if os.mayBe a then
      match a with
      | .accepted => some (os, .inr .live)
      | .failed => some (os, .inl .removing)
      | .timedOut => some (os, .inr .notRunning)
    else none
  | .removing => some (os.removeSock, .inr .notRunning)

end Semnav.Daemon
