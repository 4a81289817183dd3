import Semnav.ForStd.Actor
import Semnav.Query.Engine

/-!
# The db actor and its callers

`DbActor` of `src/graph/db.rs`: the one owner of the database, which takes the commands of all tasks
from one channel and runs each to its end before it sends the reply.  A caller is `ready` before
`self.tx.send(..)`, `sent` and `answered` in `rx.await`; its future may be dropped at any time.
What else a query does, and the actor is not concerned with, is atomic as before.
-/

namespace Semnav.Query

open Semnav.ForStd Semnav.Graph

/-- `mpsc::channel::<DbCommand>(64)` -/
def dbCapacity : Nat := 64

/-- The commands that go over the channel. -/
def Cmd.viaDb (β : Type) : Cmd β → Bool
  | .db _ => true
  | _ => false

/-- The tables, the channel and the tasks. -/
abbrev DbActorTasks (ρ : Type) := Served Cmd World DbError ρ

/-- `DbActor::spawn`, before the first task. -/
def DbActorTasks.spawn (ρ : Type) (w : World) : DbActorTasks ρ := ⟨w, [], []⟩

/-- A run of tasks with the actor. -/
abbrev DbActorRun {ρ : Type} (S : Servers) (env : World → World → Prop) (may : QueryM ρ → Prop) :
    DbActorTasks ρ → DbActorTasks ρ → Prop :=
  Served.Reaches (Cmd.handle S) env may Cmd.viaDb dbCapacity

/-- One step of it. -/
abbrev DbActorStep {ρ : Type} (S : Servers) (env : World → World → Prop) (may : QueryM ρ → Prop) :
    DbActorTasks ρ → DbActorTasks ρ → Prop :=
  Served.Step (Cmd.handle S) env may Cmd.viaDb dbCapacity

end Semnav.Query
