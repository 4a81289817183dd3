import Mathlib.Logic.Basic

/-!
# The shutdown escalation

`ServerProcess::shutdown` (`src/lsp/server.rs`) with what happens beside it: the task that waits for
the child and publishes its exit (`wait_exit`), the child, its pid, and the clock.
-/

namespace Semnav.Lsp

/-- Which process a pid belongs to. -/
inductive PidHolder where
  | child
  /-- The child has exited and was not waited for. -/
  | zombie
  | free
  | other
deriving DecidableEq, Repr

/-- Where `wait_exit` is. -/
inductive ExitWatch where
  | waiting
  /-- `child.wait()` has returned. -/
  | publishing
  | published
deriving DecidableEq, Repr

inductive Signal where
  | term
  | kill
deriving DecidableEq, Repr

/-- A call of `kill(2)`. -/
structure SentSignal where
  signal : Signal
  sentAt : Nat
  target : PidHolder
deriving DecidableEq, Repr

/-- What a `wait_exit_bounded` follows. -/
inductive Stage where
  | exit
  | signal (sig : Signal)
deriving DecidableEq, Repr

/-- Where `shutdown` is: before which of its steps. -/
inductive ShutdownPc where
  /-- It was not called yet. -/
  | uncalled
  | entered
  /-- `time::timeout(grace, client.request("shutdown"))`. -/
  | requesting (deadline : Nat)
  /-- `client.notify("exit")`, which waits for room in the client's queue. -/
  | notifying
  /-- The check at the beginning of `wait_exit_bounded`. -/
  | checking (stage : Stage)
  | waiting (stage : Stage) (deadline : Nat)
  /-- The check at the beginning of `signal`. -/
  | signalling (sig : Signal)
  | killing (sig : Signal)
  | returned
deriving DecidableEq, Repr

structure Teardown where
  clock : Nat
  holder : PidHolder
  watch : ExitWatch
  /-- `child.id()` was known after the spawn. -/
  pid : Bool
  pc : ShutdownPc
  signals : List SentSignal
  enteredAt : Nat
  /-- When `exit` was queued. -/
  notifiedAt : Nat
  /-- How long `notify` has waited. -/
  stalled : Nat
deriving DecidableEq, Repr

/-- The child was spawned. -/
def Teardown.spawned (pid : Bool) : Teardown :=
  ⟨0, .child, .waiting, pid, .uncalled, [], 0, 0, 0⟩

inductive TeardownEvent where
  | tick
  /-- The child exits, for whatever reason. -/
  | exit
  /-- `child.wait()` returns; with an error it has reaped nothing. -/
  | reap (ok : Bool)
  | publish
  /-- A new process gets the pid, or that process ends. -/
  | reuse (held : Bool)
  /-- The `shutdown` request is answered or fails. -/
  | answered
  /-- The next step of `shutdown`. -/
  | go
deriving DecidableEq, Repr

/-- What follows a bounded wait that has not seen the exit. -/
def Stage.next : Stage → ShutdownPc
  | .exit => .signalling .term
  | .signal .term => .signalling .kill
  | .signal .kill => .returned

namespace Teardown

/-- `is_exited` -/
def isExited (s : Teardown) : Bool := s.watch == .published

/-- The next step of `shutdown`. -/
def advance (grace : Nat) (s : Teardown) : Option Teardown :=
  match s.pc with
  | .uncalled => some { s with pc := .entered, enteredAt := s.clock }
  | .entered =>
    if s.isExited then some { s with pc := .returned }
    else some { s with pc := .requesting (s.clock + grace) }
  | .requesting deadline =>
    if deadline ≤ s.clock then some { s with pc := .notifying } else none
  | .notifying => some { s with pc := .checking .exit, notifiedAt := s.clock }
  | .checking stage =>
    if s.isExited then some { s with pc := .returned }
    else some { s with pc := .waiting stage (s.clock + grace) }
  | .waiting stage deadline =>
    if s.isExited then some { s with pc := .returned }
    else if deadline ≤ s.clock then some { s with pc := stage.next }
    else none
  | .signalling sig =>
    if s.isExited || !s.pid then some { s with pc := .checking (.signal sig) }
    else some { s with pc := .killing sig }
  | .killing sig =>
    some { s with
      pc := .checking (.signal sig), signals := s.signals ++ [⟨sig, s.clock, s.holder⟩] }
  | .returned => none

def step (grace : Nat) (s : Teardown) : TeardownEvent → Option Teardown
  | .tick => some { s with
      clock := s.clock + 1, stalled := if s.pc = .notifying then s.stalled + 1 else s.stalled }
  | .exit => if s.holder = .child then some { s with holder := .zombie } else none
  | .reap ok =>
    if s.watch = .waiting then
      if ok then
        if s.holder = .zombie then some { s with holder := .free, watch := .publishing } else none
      else some { s with watch := .publishing }
    else none
  | .publish => if s.watch = .publishing then some { s with watch := .published } else none
  | .reuse held =>
    if s.holder = .free ∨ s.holder = .other then
      some { s with holder := if held then .other else .free }
    else none
  | .answered =>
    match s.pc with
    | .requesting _ => some { s with pc := .notifying }
    | _ => none
  | .go => s.advance grace

/-- Can `shutdown` go on without waiting? -/
def ready (s : Teardown) : Bool :=
  match s.pc with
  | .requesting deadline => decide (deadline ≤ s.clock)
  | .waiting _ deadline => s.isExited || decide (deadline ≤ s.clock)
  | .uncalled | .notifying | .returned => false
  | .entered | .checking _ | .signalling _ | .killing _ => true

end Teardown

/-- The steps one after the other, each of which `ok` admits in the state before it. -/
inductive TeardownRun (grace : Nat) (ok : Teardown → TeardownEvent → Prop) (s : Teardown) :
    Teardown → Prop where
  | refl : TeardownRun grace ok s s
  | tail {s' s'' : Teardown} {e : TeardownEvent} (hrun : TeardownRun grace ok s s')
      (hok : ok s' e) (hstep : s'.step grace e = some s'') : TeardownRun grace ok s s''

end Semnav.Lsp
