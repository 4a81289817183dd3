import Semnav.Query.DbActor

/-!
# A command of the db actor is atomic

The queries are modelled as programs whose commands are atomic.  With the channel of the actor in
between, and with callers that are given up at any time, they do nothing else: a run with the actor
has the tables of a run without it, and the same replies.

## Key results

- `db_actor_atomic`: the refinement, and that the actor does not get stuck
-/

namespace Semnav.Query

open Semnav.ForStd Semnav.Graph

section Refinement

variable {ρ : Type} {S : Servers} {env : World → World → Prop} {may : QueryM ρ → Prop}

/-- In every state that a run with the actor gets to: it is the state of a run with atomic
    commands, in which every task has had the same replies and is where it is here, up to a reply
    that it did not take yet or never will; the channel holds each command that a task has sent and
    the actor did not take, once, and the actor can take the next. -/
theorem db_actor_atomic {w : World} {served : DbActorTasks ρ}
    (hrun : DbActorRun S env may (DbActorTasks.spawn ρ w) served) :
    (∃ sys : System Cmd World ρ, System.Reaches (Cmd.handle S) env may ⟨w, []⟩ sys ∧
      sys.state = served.state ∧ List.Forall₂ Served.Stands served.tasks sys.tasks) ∧
    Served.Waiting dbCapacity served ∧
    ∀ i queue, served.queue = i :: queue →
      ∃ next, DbActorStep S env may served next ∧ next.queue = queue := by
  have hspawn : Served.Refines (DbActorTasks.spawn ρ w) ⟨w, []⟩ := ⟨rfl, .nil⟩
  obtain ⟨sys, hsys, hrel⟩ := hrun.refines hspawn
  have hempty : Served.Waiting dbCapacity (DbActorTasks.spawn ρ w) :=
    ⟨Nat.zero_le _, List.nodup_nil, fun i => ⟨nofun, nofun⟩⟩
  have hwaiting := hrun.waiting hempty
  exact ⟨⟨sys, hsys, hrel.state, hrel.tasks⟩, hwaiting, fun i queue hqueue =>
    hwaiting.serve_next hqueue⟩

end Refinement

/-- A world without nodes, and servers that never start. -/
def blankWorld : World := ⟨.empty, fun _ => none, fun _ _ => none, [], []⟩

def absentServers : Servers where
  reply _ _ _ := .error .other
  openReply _ _ _ _ := .error .other
  acquireReply _ _ := .error .down

/-- How many nodes there are. -/
def countNodes : QueryM Nat := .op (.db (.listNodes none)) fun nodes => .pure nodes.length

/-- Two callers, of which the first is given up with its command in the channel. -/
def countedNodes : DbActorTasks Nat where
  state := blankWorld
  queue := []
  tasks := [⟨countNodes, [], .gone⟩, ⟨countNodes, [⟨.db (.listNodes none), []⟩], .ready (.pure 0)⟩]

private theorem countedNodes_run :
    DbActorRun absentServers (fun _ _ => False) (fun _ => True) (DbActorTasks.spawn Nat blankWorld)
      countedNodes := by
  let c : Cmd (List Node) := .db (.listNodes none)
  let k : List Node → QueryM Nat := fun nodes => .pure nodes.length
  refine .head (.start blankWorld [] [] (x := countNodes) trivial) ?_
  refine .head (.start blankWorld [] _ (x := countNodes) trivial) ?_
  refine .head (.send blankWorld [] [] [⟨countNodes, [], .ready countNodes⟩] countNodes [] k rfl
    (by decide)) ?_
  refine .head (.drop blankWorld [0] [] [⟨countNodes, [], .ready countNodes⟩]
    ⟨countNodes, [], .sent c k false⟩) ?_
  refine .head (.send blankWorld [0] [⟨countNodes, [], .sent c k true⟩] [] countNodes [] k rfl
    (by decide)) ?_
  refine .head (.serve blankWorld [1] [] [⟨countNodes, [], .sent c k false⟩] countNodes [] c k
    true) ?_
  refine .head (.serve blankWorld [] [⟨countNodes, [], .gone⟩] [] countNodes [] c k false) ?_
  exact .single (.take blankWorld [] [⟨countNodes, [], .gone⟩] [] countNodes [] c k [])

theorem db_actor_atomic_counted :
    (∃ sys : System Cmd World Nat,
      System.Reaches (Cmd.handle absentServers) (fun _ _ => False) (fun _ => True) ⟨blankWorld, []⟩ sys ∧
        sys.state = blankWorld ∧ List.Forall₂ Served.Stands countedNodes.tasks sys.tasks) ∧
      Served.Waiting dbCapacity countedNodes :=
  have h := db_actor_atomic countedNodes_run
  ⟨h.1, h.2.1⟩

end Semnav.Query
