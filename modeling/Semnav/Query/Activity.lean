import Semnav.ForStd.Processes

/-!
# The query-activity gate

Foreground queries hold a guard, and the watcher waits until none is held
(`enter_query`, `wait_until_query_idle` and `QueryActivityGuard::drop` of `src/query/pool.rs`).
The gate is a counter and a `tokio::sync::Notify`.  A `Notified` future remembers how often
`notify_waiters` had been called when it was created, and is ready once there was another call.

Each atomic operation is a step, and the tasks' steps interleave.  A guard lives in a future, so
there are fewer than `usize::MAX` of them and the counter does not wrap.
-/

namespace Semnav.Query

open Semnav.ForStd

/-- `query_active` and `query_idle`. -/
structure Gate where
  active : Nat
  /-- How often `notify_waiters` was called. -/
  calls : Nat
deriving DecidableEq

/-- Where a task is. -/
inductive GatePc where
  | outside
  /-- It holds a guard. -/
  | querying
  /-- In `drop`: it has decremented the counter from one, and has not notified yet. -/
  | notifying
  /-- At the head of the loop of `wait_until_query_idle`. -/
  | looping
  /-- It has created the future `notified`, and has not loaded the counter yet. -/
  | checking (seen : Nat)
  /-- At `notified.await`. -/
  | parked (seen : Nat)
  /-- `wait_until_query_idle` has returned. -/
  | returned
deriving DecidableEq

inductive GateAction where
  /-- `enter_query`. -/
  | enter
  /-- The guard's `fetch_sub`. -/
  | drop
  /-- The guard's `notify_waiters`. -/
  | notify
  /-- `wait_until_query_idle` is called. -/
  | wait
  /-- `query_idle.notified()`. -/
  | create
  /-- `query_active.load()`. -/
  | load
  /-- `notified.await` is ready. -/
  | wake
  /-- The task goes on. -/
  | leave
  /-- The waiting future is dropped. -/
  | cancel
deriving DecidableEq

/-- A step of a task. -/
def gateMove {ι : Type*} (_ : ι) : GateAction → Gate → GatePc → Option (Gate × GatePc)
  | .enter, s, .outside => some ({ s with active := s.active + 1 }, .querying)
  | .drop, s, .querying =>
    some ({ s with active := s.active - 1 }, if s.active = 1 then .notifying else .outside)
  | .notify, s, .notifying => some ({ s with calls := s.calls + 1 }, .outside)
  | .wait, s, .outside => some (s, .looping)
  | .create, s, .looping => some (s, .checking s.calls)
  | .load, s, .checking seen => some (s, if s.active = 0 then .returned else .parked seen)
  | .wake, s, .parked seen => if s.calls = seen then none else some (s, .looping)
  | .leave, s, .returned => some (s, .outside)
  | .cancel, s, .looping => some (s, .outside)
  | .cancel, s, .checking _ => some (s, .outside)
  | .cancel, s, .parked _ => some (s, .outside)
  | _, _, _ => none

/-- Any number of tasks at one gate. -/
abbrev GateTasks (ι : Type*) := Processes ι Gate GatePc

/-- No query has been there yet. -/
def GateTasks.start (ι : Type*) : GateTasks ι := ⟨⟨0, 0⟩, fun _ => .outside⟩

/-- The tasks' steps in any order. -/
abbrev GateRuns {ι : Type*} [DecidableEq ι] (events : List (ι × GateAction)) :
    GateTasks ι → Prop :=
  Processes.Runs gateMove Processes.anyStep (GateTasks.start ι) events

end Semnav.Query
