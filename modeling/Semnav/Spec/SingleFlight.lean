import Semnav.ForStd.Forks
import Semnav.Spec.Grants

/-!
# Background refreshes

A warm query answers from the cache and has its anchor refreshed in the background
(`spawn_refresh` of `src/query/pool.rs`).  The table `refreshing` is there so that many queries
of one anchor start one refresh: an entry is made where the refresh is spawned, and it is removed
as the last thing that the refresh does, whether it got through or failed.

## Key results

- `Tracked`: the table holds the refreshes that are in flight, each anchor and edge type once
- `refresh_single_flight`: what holds of the refreshes in every run
-/

namespace Semnav.Query

open Semnav.ForStd Semnav.Graph Semnav.Indexer Semnav.Adapters

/-! ## Queries that spawn refreshes -/

/-- What a daemon runs as a task of its own. -/
inductive Origin where
  | call (call : ToolCall)
  | refresh (r : Refresh)

/-- The entry of the table: the anchor with the edge type. -/
def Refresh.key (r : Refresh) : RowId × EdgeType := (r.anchorId, r.edgeType)

/-- The refresh that a command asks for. -/
def Cmd.refresh? {β : Type} : Cmd β → Option Refresh
  | .spawnRefresh r => some r
  | _ => none

/-- `spawn_refresh`: a task, unless the table has an entry. -/
def Cmd.spawned {β : Type} (c : Cmd β) (w : World) : List Origin :=
  match c.refresh? with
  | some r => if r.key ∈ w.refreshes.map Refresh.key then [] else [.refresh r]
  | none => []

/-- The end of the spawned task: its entry is removed. -/
def Origin.clear : Origin → World → World
  | .call _, w => w
  | .refresh r, w => { w with refreshes := w.refreshes.filter fun r' => r'.key ≠ r.key }

/-- The tasks of a daemon. -/
def QueryRuntime.tasks (rt : QueryRuntime) (S : Servers) :
    Forking Cmd World DbError (List String) Origin where
  handle := Cmd.handle S
  program
    | .call call => call.shown rt
    | .refresh r => rt.runRefresh r >>= fun _ => pure []
  forks := Cmd.spawned
  clear := Origin.clear

/-- A query or a refresh that a daemon has started. -/
abbrev DaemonTask := Worker Cmd (List String) Origin

/-- What a daemon gets to. -/
abbrev DaemonCrew := Crew Cmd World (List String) Origin

/-- Queries come from outside. -/
def Origin.IsCall : Origin → Prop
  | .call _ => True
  | .refresh _ => False

/-- Anything else that happens: it leaves the table alone. -/
def Around (H : Hasher) (w w' : World) : Prop := EnvStep H w w' ∧ w'.refreshes = w.refreshes

/-- A run, from an empty graph and with nothing in flight. -/
def CrewRun (rt : QueryRuntime) (S : Servers) (crew : DaemonCrew) : Prop :=
  ∃ w : World, w.db = .empty ∧ w.refreshes = [] ∧
    Crew.Reaches (rt.tasks S) (Around rt.hasher) Origin.IsCall ⟨w, []⟩ crew

/-- The refresh, if it is one that has not removed its entry. -/
def inFlight? (worker : DaemonTask) : Option Refresh :=
  match worker.cleared, worker.origin with
  | false, .refresh r => some r
  | _, _ => none

/-- The refreshes in flight, in the order in which they were spawned. -/
def inFlight (crew : DaemonCrew) : List Refresh := crew.workers.filterMap inFlight?

/-! ## The table -/

/-- Whether a refresh is under way is asked of its key. -/
private theorem refreshes_any_iff (w : World) (r : Refresh) :
    (w.refreshes.any fun r' => r'.anchorId = r.anchorId ∧ r'.edgeType = r.edgeType) = true ↔
      r.key ∈ w.refreshes.map Refresh.key := by
  simp [Refresh.key, and_comm]

/-- What a command does to the table. -/
theorem handle_refreshes {β : Type} (S : Servers) (c : Cmd β) (w : World) :
    (c.handle S w).2.refreshes = w.refreshes ++
      (match c.refresh? with
      | some r => if r.key ∈ w.refreshes.map Refresh.key then [] else [r]
      | none => []) := by
  cases c with
  | db c =>
    simp only [Cmd.handle, Cmd.refresh?]
    split <;> simp
  | spawnRefresh r =>
    simp only [Cmd.handle, Cmd.refresh?]
    by_cases h : r.key ∈ w.refreshes.map Refresh.key
    · rw [if_pos ((refreshes_any_iff w r).mpr h), if_pos h, List.append_nil]
    · rw [if_neg (mt (refreshes_any_iff w r).mp h), if_neg h]
  | _ => simp [Cmd.handle, Cmd.refresh?, World.note]

/-- A refresh that was asked for is in flight then. -/
private theorem handle_inFlight {β : Type} (S : Servers) {c : Cmd β} {w : World} {r : Refresh}
    (hr : c.refresh? = some r) : r.key ∈ (c.handle S w).2.refreshes.map Refresh.key := by
  rw [handle_refreshes, hr, List.map_append]
  dsimp only
  split
  · exact List.mem_append_left _ ‹_›
  · exact List.mem_append_right _ (List.mem_singleton_self _)

/-- The table holds the refreshes in flight, each anchor and edge type once. -/
structure Tracked (crew : DaemonCrew) : Prop where
  table : crew.state.refreshes = inFlight crew
  keys : (crew.state.refreshes.map Refresh.key).Nodup

/-- One worker is replaced. -/
theorem filterMap_inFlight_middle (before after : List DaemonTask) {w w' : DaemonTask}
    (h : inFlight? w' = inFlight? w) :
    (before ++ w' :: after).filterMap inFlight? =
      (before ++ w :: after).filterMap inFlight? := by
  simp only [List.filterMap_append, List.filterMap_cons, h]

section Runs

variable (rt : QueryRuntime) {S : Servers} {crew crew' : DaemonCrew}

/-- What a command spawns is in flight. -/
private theorem spawned_inFlight {β : Type} (c : Cmd β) (w : World) :
    ((c.spawned w).map (rt.tasks S).worker).filterMap inFlight? =
      match c.refresh? with
      | some r => if r.key ∈ w.refreshes.map Refresh.key then [] else [r]
      | none => [] := by
  unfold Cmd.spawned
  cases c.refresh? with
  | none => rfl
  | some r =>
    dsimp only
    split <;> rfl

/-- A command is answered: the refresh it asks for is in the table afterwards, once. -/
private theorem Tracked.reply {β : Type} {c : Cmd β} {s s' : World} {b : β}
    {before after : List DaemonTask} {w w' : DaemonTask} (h : Tracked ⟨s, before ++ w :: after⟩)
    (hc : c.handle S s = (.ok b, s')) (hsame : inFlight? w' = inFlight? w) :
    Tracked ⟨s', (before ++ w' :: after) ++ (c.spawned s).map (rt.tasks S).worker⟩ := by
  have hrefreshes := handle_refreshes S c s
  rw [hc] at hrefreshes
  have htable : s.refreshes = (before ++ w :: after).filterMap inFlight? := h.table
  -- The command moves its own task on, and the table grows by what it spawns.
  refine ⟨?_, ?_⟩
  · show s'.refreshes = ((before ++ w' :: after) ++ _).filterMap inFlight?
    rw [List.filterMap_append, filterMap_inFlight_middle before after hsame, spawned_inFlight,
      ← htable]
    exact hrefreshes
  · -- A refresh is spawned only if no other with its key is under way.
    show (s'.refreshes.map Refresh.key).Nodup
    rw [hrefreshes]
    cases c.refresh? with
    | none => simpa using h.keys
    | some r =>
      dsimp only
      split
      · simpa using h.keys
      · rename_i hnew
        rw [List.map_append, List.nodup_append]
        refine ⟨h.keys, List.nodup_singleton _, fun key hkey key' hkey' heq => hnew ?_⟩
        rw [List.map_singleton, List.mem_singleton] at hkey'
        exact hkey' ▸ heq ▸ hkey

/-- A worker clears up: its entry is gone. -/
private theorem Tracked.clear {s : World} {before after : List DaemonTask} {o : Origin}
    {t : Task Cmd (List String)} (h : Tracked ⟨s, before ++ ⟨o, t, false⟩ :: after⟩) :
    Tracked ⟨o.clear s, before ++ ⟨o, t, true⟩ :: after⟩ := by
  have htable : s.refreshes = (before ++ ⟨o, t, false⟩ :: after).filterMap inFlight? := h.table
  -- The end of a call clears nothing; that of a refresh takes its key out of the table.
  cases o with
  | call call =>
    refine ⟨?_, h.keys⟩
    show s.refreshes = (before ++ ⟨.call call, t, true⟩ :: after).filterMap inFlight?
    rw [htable]
    exact filterMap_inFlight_middle before after rfl
  | refresh r =>
    have hkeys : (s.refreshes.map Refresh.key).Nodup := h.keys
    have hmiddle : (before ++ ⟨.refresh r, t, false⟩ :: after).filterMap inFlight? =
        before.filterMap inFlight? ++ r :: after.filterMap inFlight? :=
      List.filterMap_append
    rw [hmiddle] at htable
    refine ⟨?_, ?_⟩
    · show s.refreshes.filter (fun r' => r'.key ≠ r.key) =
        (before ++ ⟨.refresh r, t, true⟩ :: after).filterMap inFlight?
      -- The key is in the table once, so only this refresh goes.
      rw [htable] at hkeys ⊢
      rw [List.filter_key_middle Refresh.key hkeys, List.filterMap_append]
      rfl
    · exact hkeys.sublist (List.filter_sublist.map Refresh.key)

/-- The table is kept right by every step. -/
private theorem Tracked.step (h : Tracked crew)
    (hstep : Crew.Step (rt.tasks S) (Around rt.hasher) Origin.IsCall crew crew') :
    Tracked crew' := by
  cases hstep with
  | env workers hs => exact ⟨hs.2.trans h.table, hs.2.symm ▸ h.keys⟩
  | @start s workers o ho =>
    cases o with
    | refresh r => exact absurd ho id
    | call call =>
      refine ⟨?_, h.keys⟩
      have hnone : inFlight ⟨s, workers ++ [(rt.tasks S).worker (.call call)]⟩ =
          inFlight ⟨s, workers⟩ := by
        simp [inFlight, inFlight?, Forking.worker]
      rw [hnone]
      exact h.table
  | reply before after o x trace k hc => exact h.reply rt hc rfl
  | @fail s s' before after o x trace γ c k e hc =>
    -- A command that fails asks for no refresh.
    have hrefreshes := handle_refreshes S c s
    have hc : c.handle S s = (.error e, s') := hc
    have hnone : c.refresh? = none := by
      cases c with
      | spawnRefresh r => cases hc
      | _ => rfl
    rw [hc, hnone, List.append_nil] at hrefreshes
    have hrefreshes : s'.refreshes = s.refreshes := hrefreshes
    refine ⟨?_, hrefreshes.symm ▸ h.keys⟩
    exact hrefreshes.trans (h.table.trans (filterMap_inFlight_middle before after rfl))
  | clear s before after o ht => exact h.clear

/-- The refreshes that have been asked for. -/
def asked (crew : DaemonCrew) : List Refresh :=
  crew.workers.flatMap fun worker => worker.task.trace.filterMap fun e => e.cmd.refresh?

/-- At the start no worker has asked for a refresh. -/
private theorem asked_spawned (os : List Origin) :
    ((os.map (rt.tasks S).worker).flatMap fun worker =>
      worker.task.trace.filterMap fun e => e.cmd.refresh?) = [] := by
  induction os with
  | nil => rfl
  | cons o os ih => exact ih

/-- Where a step asks for a refresh, one of its anchor and edge type is in flight then. -/
private theorem Tracked.served (h : Tracked crew)
    (hstep : Crew.Step (rt.tasks S) (Around rt.hasher) Origin.IsCall crew crew') {r : Refresh}
    (hasks : (asked crew).count r < (asked crew').count r) :
    r.key ∈ (inFlight crew').map Refresh.key := by
  -- Only a command that asks for `r` makes the count grow;
  have hafter := h.step rt hstep
  rw [← hafter.table]
  cases hstep with
  | env workers hs => exact absurd hasks (lt_irrefl _)
  | @start s workers o ho =>
    refine absurd hasks (not_lt_of_ge (le_of_eq (congrArg _ ?_)))
    simp [asked, Forking.worker]
  | @reply s s' before after o x trace γ c k b hc =>
    -- this one did, as neither the other steps nor another command's refresh count.
    have hnow : c.refresh? = some r := by
      by_contra hnot
      refine absurd hasks (not_lt_of_ge (le_of_eq ?_))
      have hspawned := asked_spawned rt (S := S) (c.spawned s)
      show List.count r (List.flatMap _ (_ ++ (c.spawned s).map (rt.tasks S).worker)) = _
      rw [List.flatMap_append, hspawned]
      cases hother : c.refresh? with
      | none => simp [asked, hother]
      | some r' =>
        have hne : r' ≠ r := fun heq => hnot (hother.trans (congrArg some heq))
        simp [asked, hother, hne]
    -- Once asked for, a refresh with the key is under way: this one, or the one before.
    have hc : c.handle S s = (.ok b, s') := hc
    have hflight := handle_inFlight S (w := s) hnow
    rwa [hc] at hflight
  | fail before after o x trace k hc =>
    refine absurd hasks (not_lt_of_ge (le_of_eq (congrArg _ ?_)))
    simp [asked]
  | clear s before after o ht =>
    refine absurd hasks (not_lt_of_ge (le_of_eq (congrArg _ ?_)))
    simp [asked]

/-! ## Who spawns a refresh -/

/-- A refresh spawns no others. -/
private theorem runRefresh_asks_none (r : Refresh) :
    Prog.Issues (fun _ c => Cmd.refresh? c = none) ((rt.tasks S).program (.refresh r)) := by
  have honly : OnlyKinds (· ≠ .spawn) (rt.runRefresh r) := by
    have hincoming : MaterializesIncoming (· ≠ .spawn) :=
      ⟨nofun, nofun, nofun, nofun, nofun, nofun⟩
    obtain ⟨anchorId, edgeType, kind, anchor, client⟩ := r
    -- A refresh is a materialization of one of three kinds, and none of them spawns another.
    cases kind with
    | references =>
      exact materializeIncoming_onlyKinds hincoming rt.rootUri .references anchorId anchor client
    | calls dir =>
      cases dir with
      | incoming =>
        exact materializeIncoming_onlyKinds hincoming rt.rootUri .calls anchorId anchor client
      | outgoing =>
        exact materializeOutgoing_onlyKinds
          ⟨⟨nofun, nofun, nofun, nofun, nofun⟩, nofun, nofun, nofun⟩ rt.rootUri anchorId anchor
          client
  refine Prog.Issues.bind (Prog.Issues.mono honly fun β c hc => ?_) fun _ => trivial
  cases c with
  | spawnRefresh r => exact absurd rfl hc
  | _ => rfl

/-- The tasks of a crew are ones of a run in which refreshes start at any time. -/
private theorem CrewRun.daemonRun (hrun : CrewRun rt S crew) : DaemonRun rt S crew.system := by
  obtain ⟨w, hempty, -, hrun⟩ := hrun
  refine ⟨w, hempty, hrun.system (fun w w' hs => hs.1) (fun o w => ?_) fun o => ?_⟩
  · cases o with
    | call call => exact .settle w w.refreshes
    | refresh r => exact .settle w _
  · cases o with
    | call call => exact .call call
    | refresh r => exact .refresh r

/-- A refresh is spawned by the command that asks for it. -/
private theorem refresh?_of_spawned {β : Type} {c : Cmd β} {w : World} {r : Refresh}
    (h : .refresh r ∈ c.spawned w) : c.refresh? = some r := by
  unfold Cmd.spawned at h
  split at h
  · rename_i r' hr'
    split at h
    · exact absurd h List.not_mem_nil
    · cases List.mem_singleton.mp h
      exact hr'
  · exact absurd h List.not_mem_nil

/-- What a command relies on when it asks for a refresh is what the refresh relies on. -/
private theorem relies_of_refresh? {β : Type} {c : Cmd β} {r : Refresh} (h : c.refresh? = some r) :
    c.relies = r.grants := by
  cases c with
  | spawnRefresh r' =>
    cases h
    rfl
  | _ => cases h

/-- A task that has asked for a refresh does not run one. -/
private theorem not_refresh_of_asks {task : Task Cmd (List String)}
    (hfollows : System.Follows (MayRun rt) task) {e : Exchange Cmd} (he : e ∈ task.trace)
    {r : Refresh} (hr : e.cmd.refresh? = some r) (r' : Refresh) :
    task.start ≠ (rt.tasks S).program (.refresh r') := by
  intro hstart
  obtain ⟨-, y, hpath, -⟩ := hfollows
  rw [hstart] at hpath
  have hnone := (hpath.issued (runRefresh_asks_none rt (S := S) r')).1 e he
  rw [hr] at hnone
  cases hnone

/-- The spawner of a refresh. -/
private theorem CrewRun.spawned (hrun : CrewRun rt S crew) {worker : DaemonTask}
    (hworker : worker ∈ crew.workers) {r : Refresh} (horigin : worker.origin = .refresh r) :
    ∃ spawner ∈ crew.workers, spawner.origin.IsCall ∧
      ∃ pre e post, spawner.task.trace = pre ++ e :: post ∧ e.cmd.refresh? = some r ∧
        ∀ g ∈ r.grants, ∃ e' ∈ pre, Brings g e' := by
  obtain ⟨w, -, hsystem⟩ := hrun.daemonRun
  obtain ⟨_, -, -, hcrew⟩ := hrun
  have hforked := hcrew.forked fun p hp => absurd hp List.not_mem_nil
  have hfollows := hsystem.follows fun t ht => absurd ht List.not_mem_nil
  -- The worker of a refresh was spawned by a task's command.
  obtain ⟨-, hmay | ⟨spawner, hspawner, e, he, s, hspawned⟩⟩ := hforked worker hworker
  · rw [horigin] at hmay
    exact absurd hmay id
  · rw [horigin] at hspawned
    have hr : e.cmd.refresh? = some r := refresh?_of_spawned hspawned
    have htask : spawner.task ∈ crew.system.tasks := List.mem_map_of_mem hspawner
    have hnot := not_refresh_of_asks rt (S := S) (hfollows _ htask) he hr
    obtain ⟨pre, post, htrace⟩ := List.append_of_mem he
    -- That task is a call, since a refresh asks for none,
    refine ⟨spawner, hspawner, ?_, pre, e, post, htrace, hr, fun g hg => ?_⟩
    · have hstart := (hforked spawner hspawner).1
      cases horigin' : spawner.origin with
      | call call => trivial
      | refresh r' => exact absurd (horigin' ▸ hstart) (hnot r')
    · -- and what the refresh relies on was brought about before it was asked for.
      rw [← relies_of_refresh? hr] at hg
      refine (granted_before rt hsystem htask htrace hg).resolve_right fun hstart => ?_
      obtain ⟨r', hstart, -⟩ := hstart
      exact hnot r' hstart

end Runs

end Semnav.Query
