import Semnav.Daemon.Lifecycle

/-!
# The accept loop

`IdleTracker` and the loop of `run` (`src/daemon/server.rs`).  The loop is polled again and again;
each time the first branch of its `select!` that is ready is taken (`biased`).  The task of a
connection tells the tracker when it has ended.  Instants and durations are ticks of the monotonic
clock, and every `Instant::now()` is read while the tracker is locked.

A connection holds a file descriptor, so there are fewer than `usize::MAX` of them and the count of
the active ones does not wrap.
-/

namespace Semnav.Daemon

/-- A reading of the monotonic clock, in ticks. -/
abbrev Instant := Nat

/-- A span of time, in ticks. -/
abbrev Duration := Nat

/-- Connection count and idle clock. -/
structure IdleTracker where
  active : Nat
  /-- Since when no connection has been active; `none` while one is. -/
  idleSince : Option Instant
deriving DecidableEq

namespace IdleTracker

/-- No connection, idle since now. -/
def new (now : Instant) : IdleTracker := ⟨0, some now⟩

/-- One more connection, idle no longer. -/
def onConnect (t : IdleTracker) : IdleTracker := ⟨t.active + 1, none⟩

/-- One fewer; idle from now when it was the last. -/
def onDisconnect (t : IdleTracker) (now : Instant) : IdleTracker :=
  -- `saturating_sub(1)`, as the subtraction of `Nat` is
  let active := t.active - 1
  if active = 0 then ⟨active, some now⟩ else ⟨active, t.idleSince⟩

/-- Idle for at least the timeout. -/
def shouldShutDown (t : IdleTracker) (now : Instant) (timeout : Duration) : Bool :=
  match t.idleSince with
  -- `saturating_duration_since` likewise
  | some since => t.active == 0 && decide (now - since ≥ timeout)
  | none => false

end IdleTracker

/-- `run`, what its select waits for and the tasks it has spawned. -/
structure Server where
  tracker : IdleTracker
  /-- The connections whose task has not ended. -/
  live : List Nat
  nextConnId : Nat
  /-- `shutdown_rx` has changed. -/
  signalled : Bool
  /-- The channel of `stop_rx`, of capacity one, is full. -/
  stopQueued : Bool
  returned : Option ShutdownReason
  /-- The latest reading of the clock. -/
  clock : Instant
deriving DecidableEq

/-- The server as it starts. -/
def Server.boot (now : Instant) : Server where
  tracker := .new now
  live := []
  nextConnId := 0
  signalled := false
  stopQueued := false
  returned := none
  clock := now

/-- The branches of the `select!`, and no branch. -/
inductive Branch where
  | signal
  | stop
  | idleCheck
  /-- `listener.accept()` is ready, with a connection or with an error. -/
  | accepted (ok : Bool)
  | pending
deriving DecidableEq

/-- The first branch that is ready. -/
def Server.select (s : Server) (slept : Bool) (accept : Option Bool) : Branch :=
  if s.signalled then .signal
  else if s.stopQueued then .stop
  else if slept then .idleCheck
  else match accept with
    | some ok => .accepted ok
    | none => .pending

/-- What the loop does in a branch. -/
def Server.take (s : Server) (timeout : Duration) (now : Instant) : Branch → Server
  | .signal => { s with returned := some .signal }
  | .stop => { s with stopQueued := false, returned := some .explicitStop }
  | .idleCheck =>
    if s.tracker.shouldShutDown now timeout then { s with returned := some .idle } else s
  | .accepted true =>
    { s with
      tracker := s.tracker.onConnect
      live := s.live ++ [s.nextConnId]
      nextConnId := s.nextConnId + 1 }
  | .accepted false => s
  | .pending => s

/-- What happens to the server, a round of its loop among it. -/
inductive ServerEvent where
  /-- Ctrl-c or SIGTERM. -/
  | signal
  /-- `handle_connection` reads a `Shutdown` and sends on `stop_tx`. -/
  | stop (conn : Nat)
  /-- The loop is polled: has its sleep elapsed, and is there a connection or an error to accept? -/
  | poll (now : Instant) (slept : Bool) (accept : Option Bool)
  /-- The task of a connection ends. -/
  | ended (conn : Nat) (now : Instant)
deriving DecidableEq

/-- One event; a round of the loop is refused once it has returned. -/
def Server.step (timeout : Duration) (s : Server) : ServerEvent → Option Server
  | .signal => some { s with signalled := true }
  | .stop conn =>
    if conn ∈ s.live ∧ s.stopQueued = false then some { s with stopQueued := true } else none
  | .poll now slept accept =>
    if s.returned = none ∧ s.clock ≤ now then
      some { s.take timeout now (s.select slept accept) with clock := now }
    else none
  | .ended conn now =>
    if conn ∈ s.live ∧ s.clock ≤ now then
      some { s with
        tracker := s.tracker.onDisconnect now
        live := s.live.erase conn
        clock := now }
    else none

end Semnav.Daemon
