import Semnav.ForStd.Processes
import Semnav.Daemon.Discovery

/-!
# The processes of a root

`semnav serve` on its way to a daemon (`ensure_and_connect`), `semnav daemon` from its self-check
to its exit (`run_daemon`) and `semnav daemon stop` (`run_daemon_stop`), each in the steps that
the others can see.  A `serve` process that has lost its connection runs `ensure_and_connect`
again; that is a process of its own here.  Time is left out: a timeout or a deadline may pass
at any moment, and so may the idle timeout of `server::run`.
-/

namespace Semnav.Daemon

open Semnav.ForStd

/-- For whom `probe_liveness` runs. -/
inductive Caller where
  /-- `ensure_daemon_running`, before it takes the lock. -/
  | ensure
  /-- `wait_for_daemon_ready`. -/
  | wait
  /-- `run_daemon`, before it takes the lock. -/
  | selfCheck
  /-- `run_daemon_stop`, before it connects. -/
  | stopCheck
  /-- The loop of `run_daemon_stop`, which has contacted a daemon. -/
  | stopPoll (daemon : Pid) (polls : Nat)
  deriving DecidableEq, Repr

/-- How a process exits. -/
inductive Exit where
  | success
  | failure
  /-- `daemon stop: stopped`, after the daemon was contacted. -/
  | stopped (daemon : Pid)
  | killed
  deriving DecidableEq, Repr

/-- Where a process is: before which of its steps. -/
inductive Proc where
  | unstarted
  | probing (caller : Caller) (pc : ProbePc)
  -- `ensure_and_connect`
  | tryLock
  | dropLock
  | spawning
  | pausing
  | attaching
  -- `run_daemon`
  | acquiring
  | clearing
  | binding
  | listening (sock : Inode)
  | openingDb (sock : Inode)
  | abandoning (sock : Inode)
  | closing (sock : Inode)
  | running (sock : Inode)
  | stoppingWatcher
  | stoppingServers
  | removingSock
  | releasing
  /-- `run_daemon` has returned; its tasks and the blocking thread of the `DbActor` go on until the
  runtime is shut down. -/
  | draining
  -- `run_daemon_stop`
  | contacting
  | sending (daemon : Pid)
  | awaiting (daemon : Pid)
  | sleeping (daemon : Pid) (polls : Nat)
  | exited (how : Exit)
  deriving DecidableEq, Repr

/-- What a process was started as. -/
inductive Command where
  | serve
  | daemon
  | daemonStop
  deriving DecidableEq, Repr

/-- Where a process begins. -/
def Command.entry : Command → Proc
  | .serve => .probing .ensure .testing
  | .daemon => .probing .selfCheck .testing
  | .daemonStop => .probing .stopCheck .testing

/-- What the caller of `probe_liveness` does with its answer. -/
def Caller.resume : Caller → Liveness → Proc
  | .ensure, .live => .attaching
  | .ensure, .notRunning => .tryLock
  | .wait, .live => .attaching
  | .wait, .notRunning => .pausing
  | .selfCheck, .live => .exited .failure
  | .selfCheck, .notRunning => .acquiring
  | .stopCheck, .live => .contacting
  | .stopCheck, .notRunning => .exited .success
  | .stopPoll d n, .live => .sleeping d n
  | .stopPoll d _, .notRunning => .exited (.stopped d)

/-- The probe goes on, or it has its answer. -/
def Caller.follow (caller : Caller) : ProbePc ⊕ Liveness → Proc
  | .inl pc => .probing caller pc
  | .inr answer => caller.resume answer

/-- `for _ in 0..50` -/
def stopPolls : Nat := 50

/-- Started and not exited. -/
def Proc.isAlive : Proc → Bool
  | .unstarted | .exited _ => false
  | _ => true

/-- The process has `graph.db` open, so that its tasks may write to it. -/
def Proc.hasDb : Proc → Bool
  | .openingDb _ | .running _ | .stoppingWatcher | .stoppingServers | .removingSock | .releasing
  | .draining => true
  | _ => false

/-- Why `server::run` returned. -/
inductive ShutdownReason where
  | signal
  | explicitStop
  | idle
  deriving DecidableEq, Repr

/-- What a process does next. -/
inductive Action where
  | start (cmd : Command)
  /-- The next step; `a` is the outcome of the connect, if it is one. -/
  | go (a : Attempt)
  /-- The next step comes back with an error, or its deadline has passed. -/
  | fail
  /-- The process is killed. -/
  | crash
  /-- `listener.accept()`. -/
  | accept (client : Pid)
  /-- `handle_connection` reads a `Shutdown` and sends on `stop_tx`. -/
  | forward (client : Pid)
  /-- `handle_connection` writes the response. -/
  | answer (client : Pid)
  /-- `server::run` returns. -/
  | finish (reason : ShutdownReason)
  /-- A write to `graph.db`. -/
  | write
  deriving DecidableEq, Repr

/-- `ensure_and_connect`: the steps after its first probe. -/
def ensureAndConnect (os : Os) (p : Pid) (a : Attempt) : Proc → Option (Os × Proc)
  | .tryLock =>
    match os.lock with
    | none => some ({ os with lock := some p }, .dropLock)
    | some _ => some (os, .probing .wait .testing)
  | .dropLock => some ({ os with lock := none }, .spawning)
  | .spawning => some (os, .probing .wait .testing)
  | .pausing => some (os, .probing .wait .testing)
  | .attaching =>
    if os.mayBe a then
      some (os, .exited (if a = .accepted then .success else .failure))
    else none
  | _ => none

/-- `run_daemon`: the steps after its self-check; `server::run` returns by `finish`. -/
def runDaemon (os : Os) (p : Pid) : Proc → Option (Os × Proc)
  | .acquiring =>
    match os.lock with
    | none => some ({ os with lock := some p }, .clearing)
    | some _ => some (os, .exited .failure)
  | .clearing => some (os.removeSock, .binding)
  | .binding =>
    match os.sock with
    | none =>
      some ({ os with sock := some os.nextInode, nextInode := os.nextInode + 1 },
        .listening os.nextInode)
    | some _ => some (os, .exited .failure)
  | .listening i =>
    some ({ os with listeners := Function.update os.listeners i (some p) }, .openingDb i)
  | .openingDb i => some (os, .running i)
  | .abandoning i => some (os.removeSock, .closing i)
  | .closing _ => some (os.closeListener p, .exited .failure)
  | .stoppingWatcher => some (os, .stoppingServers)
  | .stoppingServers => some (os, .removingSock)
  | .removingSock => some (os.removeSock, .releasing)
  | .releasing => some ({ os with lock := none }, .draining)
  | .draining => some (os, .exited .success)
  | _ => none

/-- `run_daemon_stop`: the steps after its first probe. -/
def runDaemonStop (os : Os) (p : Pid) (a : Attempt) : Proc → Option (Os × Proc)
  | .contacting =>
    match a, os.listener with
    | .accepted, some d =>
      some ({ os with links := Function.update os.links p (some ⟨d, false, false, false, false⟩) },
        .sending d)
    | .failed, _ => some (os, .exited .failure)
    | _, _ => none
  | .sending d =>
    match os.links p with
    | some link =>
      some ({ os with links := Function.update os.links p (some { link with requested := true }) },
        .awaiting d)
    | none => some (os, .exited .failure)
  | .awaiting d =>
    match os.links p with
    | some link => if link.answered then some (os, .probing (.stopPoll d 0) .testing) else none
    -- the end of the stream or an error is `unwrap_or(None)`
    | none => some (os, .probing (.stopPoll d 0) .testing)
  | .sleeping d n =>
    if n + 1 < stopPolls then some (os, .probing (.stopPoll d (n + 1)) .testing)
    else some (os, .exited .failure)
  | _ => none

/-- The next step of a process, by the function it is in. -/
def goOn (os : Os) (p : Pid) (a : Attempt) (l : Proc) : Option (Os × Proc) :=
  match l with
  | .probing caller pc =>
    (probeLiveness os a pc).map fun res => (res.1, caller.follow res.2)
  | _ =>
    (ensureAndConnect os p a l).or ((runDaemon os p l).or (runDaemonStop os p a l))

/-- The next step fails: the lock file cannot be opened, the child not spawned, the database not
    opened; or the wait for a daemon is over. -/
def failStep (os : Os) : Proc → Option (Os × Proc)
  | .tryLock | .spawning | .pausing | .acquiring | .binding | .listening _ | .sending _ =>
    some (os, .exited .failure)
  | .openingDb i => some (os, .abandoning i)
  | _ => none

/-- The daemon's side of a connection: what `accept`, `forward` and `answer` do to it. -/
def serveLink (os : Os) (p client : Pid) (may : StopLink → Bool) (upd : StopLink → StopLink) :
    Option Os :=
  match os.links client with
  | some link =>
    if link.daemon = p ∧ may link then
      some { os with links := Function.update os.links client (some (upd link)) }
    else none
  | none => none

/-- What a process does before the kernel has cleaned up after it. -/
def act (p : Pid) (e : Action) (os : Os) (l : Proc) : Option (Os × Proc) :=
  match e with
  | .start cmd => if l = .unstarted then some (os, cmd.entry) else none
  | .go a => goOn os p a l
  | .fail => failStep os l
  | .crash => if l.isAlive then some (os, .exited .killed) else none
  | .accept client =>
    match l with
    | .running _ =>
      (serveLink os p client (fun link => !link.accepted)
        fun link => { link with accepted := true }).map (·, l)
    | _ => none
  | .forward client =>
    if l.hasDb then
      (serveLink { os with stops := Function.update os.stops p true } p client
        (fun link => link.accepted && link.requested && !link.forwarded)
        fun link => { link with forwarded := true }).map (·, l)
    else none
  | .answer client =>
    if l.hasDb then
      (serveLink os p client (fun link => link.forwarded && !link.answered)
        fun link => { link with answered := true }).map (·, l)
    else none
  | .finish reason =>
    match l with
    | .running _ =>
      if reason = .explicitStop → os.stops p = true then
        some (os.closeListener p, .stoppingWatcher)
      else none
    | _ => none
  | .write =>
    if l.hasDb then
      some ({ os with writes := Function.update os.writes p (os.writes p + 1) }, l)
    else none

/-- The kernel closes whatever a process that has exited still held. -/
def settle (p : Pid) (osl : Os × Proc) : Os × Proc :=
  match osl.2 with
  | .exited how => (osl.1.exit p, .exited how)
  | l => (osl.1, l)

/-- A step of a process. -/
def move (p : Pid) (e : Action) (os : Os) (l : Proc) : Option (Os × Proc) :=
  (act p e os l).map (settle p)

/-- All processes of the root. -/
abbrev Root := Processes Pid Os Proc

/-- Nothing has started yet. -/
def Root.boot (leftover : Option Inode) : Root := ⟨Os.boot leftover, fun _ => .unstarted⟩

end Semnav.Daemon
