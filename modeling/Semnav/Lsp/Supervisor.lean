import Mathlib.Algebra.Group.Nat.Defs
import Semnav.ForStd.Prog

/-!
# The supervisor of a language server

The health state machine of one language server with its restarts (`src/lsp/supervisor.rs`): an
actor that owns all its state and handles one event after the other.  What it reads and writes of
its state, what it awaits and what it hands over to detached tasks are the commands of
`SupervisorCmd`.
-/

namespace Semnav.Lsp

open Semnav.ForStd

/-- A server process, by which its client and its exit watcher are known too. -/
abbrev ServerId := Nat

/-- In milliseconds. -/
abbrev Duration := Nat

/-- What the supervisor publishes of a server. -/
inductive ServerState where
  | notStarted
  | starting
  | healthy
  | restarting
  | down
deriving DecidableEq

/-- The string written to `<lang>.lsp_status`. -/
def ServerState.asStr : ServerState → String
  | .notStarted => "not_started"
  | .starting => "starting"
  | .healthy => "healthy"
  | .restarting => "restarting"
  | .down => "down"

/-- Why a server failed to start. -/
inductive StartError where
  | provision (msg : String)
  | spawnOrInit (msg : String)
deriving DecidableEq

/-- Why `acquire` could not hand out a client. -/
inductive AcquireError where
  | down (msg : String)
  | restarting
  | startFailed (msg : String)
deriving DecidableEq

/-- How a server failed. -/
inductive FailureKind where
  | childExit
  | transport
  | timeout
deriving DecidableEq

/-- When a failed server is started again. -/
structure RestartPolicy where
  backoff : Vector Duration 5
  maxFailures : Nat
  downRetry : Duration

/-- `RestartPolicy::default_real`. -/
def RestartPolicy.defaultReal : RestartPolicy where
  backoff := #v[1000, 2000, 4000, 8000, 16000]
  maxFailures := 5
  downRetry := 30000

/-- The wait before a restart attempt, clamped to the last slot. -/
def RestartPolicy.nthBackoff (policy : RestartPolicy) (n : Nat) : Duration :=
  policy.backoff.get ⟨min n 4, by omega⟩

/-- A started server: its client, its exit watcher and what keeps its process alive, if it has
    one. -/
structure StartedServer where
  client : ServerId
  exit : ServerId
  keepAlive : Option ServerId
  /-- They belong to the same server. -/
  same : exit = client ∧ ∀ p ∈ keepAlive, p = client

/-- The state that the actor owns. -/
structure Supervisor where
  language : String
  policy : RestartPolicy
  state : ServerState
  currentClient : Option ServerId
  currentExit : Option ServerId
  currentKeepalive : Option ServerId
  failures : Nat
  lastSuccessAt : Int
  restartTimer : Option Duration

/-- `ServerSupervisor::spawn`. -/
def Supervisor.spawn (language : String) (policy : RestartPolicy) : Supervisor where
  language := language
  policy := policy
  state := .notStarted
  currentClient := none
  currentExit := none
  currentKeepalive := none
  failures := 0
  lastSuccessAt := 0
  restartTimer := none

/-- The commands of the actor. -/
inductive SupervisorCmd : Type → Type where
  /-- Its own state. -/
  | get : SupervisorCmd Supervisor
  | update (f : Supervisor → Supervisor) : SupervisorCmd Unit
  /-- `factory.start()`. -/
  | start : SupervisorCmd (Except StartError StartedServer)
  /-- `record_meta`, which ignores the outcome of the write. -/
  | recordMeta (key value : String) : SupervisorCmd Unit
  | nowSecs : SupervisorCmd Int
  /-- A detached task that runs the shutdown escalation. -/
  | spawnShutdown (server : ServerId) : SupervisorCmd Unit
  /-- The shutdown escalation, awaited. -/
  | shutdown (server : ServerId) : SupervisorCmd Unit
  /-- A process that nothing holds any more: its stdin is closed. -/
  | dropServer (server : ServerId) : SupervisorCmd Unit

/-- The supervisor's programs. -/
abbrev SupervisorM := Prog SupervisorCmd

namespace SupervisorM

/-- The fields are read. -/
def get : SupervisorM Supervisor := Prog.perform .get

/-- The fields are written through a function. -/
def modify (f : Supervisor → Supervisor) : SupervisorM Unit := Prog.perform (.update f)

end SupervisorM

open SupervisorM

/-- The outcome of an attempted start. -/
inductive StartOutcome where
  | started (client : ServerId)
  | provisionFailed
  | spawnOrInitFailed

namespace Supervisor

/-- Persist the state, the failure count and the time of the last success. -/
def recordState : SupervisorM Unit := do
  let s ← get
  Prog.perform (.recordMeta (s.language ++ ".lsp_status") s.state.asStr)
  Prog.perform (.recordMeta (s.language ++ ".lsp_consecutive_failures") (toString s.failures))
  Prog.perform (.recordMeta (s.language ++ ".lsp_last_success_at") (toString s.lastSuccessAt))

/-- A keep-alive that is overwritten is dropped. -/
def dropKeepalive : Option ServerId → SupervisorM Unit
  | some server => Prog.perform (.dropServer server)
  | none => pure ()

/-- `drop_current`. -/
def dropCurrent : SupervisorM Unit := do
  let s ← get
  modify fun s =>
    { s with currentClient := none, currentExit := none, currentKeepalive := none }
  dropKeepalive s.currentKeepalive

/-- Clear the held state, and let a detached task shut the process down. -/
def dropCurrentGracefully : SupervisorM Unit := do
  let s ← get
  modify fun s =>
    { s with currentClient := none, currentExit := none, currentKeepalive := none }
  match s.currentKeepalive with
  | some server => Prog.perform (.spawnShutdown server)
  | none => pure ()

/-- Take a freshly started server into the healthy state. -/
def setHealthy (server : StartedServer) : SupervisorM ServerId := do
  let s ← get
  modify fun s =>
    { s with
      currentClient := some server.client
      currentExit := some server.exit
      currentKeepalive := server.keepAlive
      state := .healthy
      failures := 0 }
  dropKeepalive s.currentKeepalive
  let now ← Prog.perform .nowSecs
  modify fun s => { s with lastSuccessAt := now }
  pure server.client

/-- The state after one more failure, a `u32` that saturates. -/
def afterFailure (s : Supervisor) : Supervisor :=
  let failures := min (s.failures + 1) (2 ^ 32 - 1)
  if failures ≥ s.policy.maxFailures then
    { s with failures, state := .down, restartTimer := some s.policy.downRetry }
  else
    { s with failures, state := .restarting,
             restartTimer := some (s.policy.nthBackoff (failures - 1)) }

/-- `transition_after_anomaly`. -/
def transitionAfterAnomaly : SupervisorM Unit := do
  dropCurrentGracefully
  modify afterFailure
  recordState

/-- A fresh attempt to start the server. -/
def attemptStart : SupervisorM StartOutcome := do
  match ← Prog.perform .start with
  | .ok server =>
    let client ← setHealthy server
    recordState
    pure (.started client)
  | .error (.provision _) =>
    dropCurrent
    modify fun s => { s with state := .down, restartTimer := none }
    recordState
    pure .provisionFailed
  | .error (.spawnOrInit _) =>
    transitionAfterAnomaly
    pure .spawnOrInitFailed

/-- The timer has fired: whatever comes of the attempt, it has settled the state. -/
def onRestartTimer : SupervisorM Unit := do
  let _ ← attemptStart

/-- The first start, and what is answered to its `acquire`. -/
def startAndSettle : SupervisorM (Except AcquireError ServerId) := do
  match ← attemptStart with
  | .started client => pure (.ok client)
  | .provisionFailed =>
    let s ← get
    pure (.error (.down (s.language ++
      " language server provision failed; runtime must be installed before retry")))
  | .spawnOrInitFailed =>
    let s ← get
    if s.state = .down then
      pure (.error (.down (s.language ++
        " language server start failed repeatedly; now down")))
    else
      pure (.error (.startFailed (s.language ++ " language server start failed; restarting")))

/-- Serve a live client, start lazily, or report the degraded state. -/
def handleAcquire : SupervisorM (Except AcquireError ServerId) := do
  let s ← get
  match s.state with
  | .healthy =>
    match s.currentClient with
    | some client => pure (.ok client)
    | none => pure (.error (.startFailed "healthy state had no client"))
  | .restarting => pure (.error .restarting)
  | .down =>
    pure (.error (.down (s.language ++ " language server is down after " ++
      toString s.failures ++ " consecutive failures")))
  | .notStarted =>
    modify fun s => { s with state := .starting }
    recordState
    startAndSettle
  | .starting => pure (.error .restarting)

/-- `shutdown_graceful`. -/
def shutdownGraceful : SupervisorM Unit := do
  let s ← get
  modify fun s => { s with currentKeepalive := none }
  match s.currentKeepalive with
  | some server => Prog.perform (.shutdown server)
  | none => pure ()
  modify fun s => { s with currentClient := none, currentExit := none, restartTimer := none }

end Supervisor

/-! ## The loop -/

/-- A message to the actor. -/
inductive SupervisorMsg where
  | acquire
  | reportFailure (kind : FailureKind)
  | shutdown
deriving DecidableEq

/-- What the loop waits for. -/
inductive SupervisorEvent where
  /-- The exit watcher has changed. -/
  | childExit
  /-- The backoff or down-retry timer has fired. -/
  | timer
  | msg (m : SupervisorMsg)
  /-- All handles were dropped. -/
  | closed
deriving DecidableEq

/-- An event needs what it comes from: the watcher or the timer. -/
def SupervisorEvent.Ready (s : Supervisor) : SupervisorEvent → Prop
  | .childExit => s.currentExit.isSome
  | .timer => s.restartTimer.isSome
  | .msg _ => True
  | .closed => True

/-- What comes of an event. -/
inductive SupervisorReply where
  | none
  | acquired (res : Except AcquireError ServerId)
  | reported
  /-- The loop ends. -/
  | stopped

namespace Supervisor

/-- An anomaly counts only while healthy. -/
def anomalyIfHealthy : SupervisorM Unit := do
  let s ← get
  if s.state = .healthy then
    transitionAfterAnomaly

/-- The body of the loop. -/
def handle : SupervisorEvent → SupervisorM SupervisorReply
  | .childExit => do
    anomalyIfHealthy
    pure .none
  | .timer => do
    modify fun s => { s with restartTimer := none }
    onRestartTimer
    pure .none
  | .msg .acquire => do
    let res ← handleAcquire
    pure (.acquired res)
  | .msg (.reportFailure _) => do
    anomalyIfHealthy
    pure .reported
  | .msg .shutdown => do
    shutdownGraceful
    pure .stopped
  | .closed => do
    shutdownGraceful
    pure .stopped

end Supervisor

end Semnav.Lsp
