import Semnav.ForStd.BoundedBfs
import Semnav.Spec.CallEdges
import Semnav.Spec.GroupByNode

/-!
# The search loop of `find_call_path`

One expansion is free on a cache hit, refused without a client or without budget, and a
materialization otherwise.  `SearchInv` connects the loop's state to the search of
`Semnav.ForStd.BoundedBfs`, over the callee lists that the log says were read.

## Key results

- `expand_returns`: the three ways an expansion can go
- `searchLoop_returns`: the loop ends, and how
-/

namespace Semnav.Query

open Semnav.ForStd Semnav.Graph Semnav.Indexer QueryEngine

/-! ## One expansion -/

/-- The kinds of command of a materialization, past the invalidation. -/
def CmdKind.materializes : CmdKind → Prop
  | .request _ | .read | .file | .openDocument | .upsertEdge _ => True
  | _ => False

/-- What an expansion may issue. -/
private theorem materializes_outgoing : MaterializesOutgoing CmdKind.materializes :=
  ⟨⟨trivial, trivial, trivial, trivial, trivial⟩, trivial, trivial, trivial⟩

/-- A materialization's events: the invalidation, then round trips. -/
theorem rematerialize_log {S : Servers} {w w' : World} {t : Bool} {engine : QueryEngine}
    {anchorId : RowId} {anchor : Node} {client : Client}
    (h : (engine.rematerialize anchorId anchor client).run S w = (.ok t, w')) :
    ∃ trips, w'.log = w.log ++ .invalidated anchorId :: trips ∧
      ∀ e ∈ trips, ∃ method outcome, e = .trip method outcome := by
  obtain ⟨_, w₁, hinv, hrun⟩ := run_bind_eq_ok.mp h
  cases (run_invalidateOutgoingCalls S w anchorId).symm.trans hinv
  obtain ⟨trips, hlog, hkinds⟩ :=
    (materializeOutgoing_onlyKinds materializes_outgoing engine.rootUri anchorId anchor
      client).run_log (S := S) ((w.note (.invalidated anchorId)).setDb (w.db.invalidateOutgoingCalls anchorId))
  rw [hrun] at hlog
  refine ⟨trips, by simpa using hlog, fun e he => ?_⟩
  have hk := hkinds e he
  cases e with
  | trip method outcome => exact ⟨method, outcome, rfl⟩
  | _ => exact absurd hk id

/-- Storing the hash marks the callees of the anchor fresh and leaves all else. -/
private theorem storeHash_returns {S : Servers} {w : World} {anchorId : RowId}
    (hwf : w.db.WF) (hanchor : w.db.hasNode anchorId = true) (hash : Option String) :
    (storeHash anchorId hash).Returns S w fun _ w' =>
      w'.db.WF ∧ w'.text = w.text ∧ w'.log = w.log ∧ w'.db.nodes = w.db.nodes ∧
        (∀ a b, w'.db.Calls a b ↔ w.db.Calls a b) ∧
        ∀ a, w'.db.calleesCache a =
          if a = anchorId then hash.or (w.db.calleesCache a) else w.db.calleesCache a := by
  cases hash with
  -- A file that could not be read gives no hash, and the cache stays as it is.
  | none => exact Prog.Returns.pure ⟨hwf, rfl, rfl, rfl, fun _ _ => .rfl, by simp⟩
  | some hash =>
    refine ⟨(), _, run_setCalleesCacheHash S w hanchor hash, ?_, rfl, rfl, rfl, fun _ _ => .rfl,
      by simp [World.setDb]⟩
    -- Only the anchor's cache entry changes, and the anchor is a row.
    exact { hwf with
      cache_ok := fun a ha => by
        simp only [World.setDb] at ha
        split at ha
        · rename_i hid
          rw [hid]
          exact hanchor
        · exact hwf.cache_ok a ha }

/-- What an expansion leaves as it was. -/
structure ExpandFrame (anchorId : RowId) (w w' : World) : Prop where
  wf : w'.db.WF
  text : w'.text = w.text
  nodes : w'.db.nodes = w.db.nodes
  calls : ∀ a b, a ≠ anchorId → (w'.db.Calls a b ↔ w.db.Calls a b)
  cache : ∀ a, a ≠ anchorId → w'.db.calleesCache a = w.db.calleesCache a

/-- The anchor's outgoing calls were materialized, and the hash of its file was stored. -/
structure Made (S : Servers) (client : Client) (anchor : Node) (hash : Option String)
    (targets : List RowId) (w w' : World) : Prop extends ExpandFrame anchor.id w w' where
  log : ∃ trips, w'.log = w.log ++ .invalidated anchor.id :: trips ∧
    ∀ e ∈ trips, ∃ method outcome, e = .trip method outcome
  valid : ∀ id ∈ targets, w.db.ValidId id
  callees : ∀ b, w'.db.Calls anchor.id b ↔ b ∈ targets
  stored : w'.db.calleesCache anchor.id = hash.or (w.db.calleesCache anchor.id)
  answers : ∀ A, S.Lists A w.text → targets = outgoingTargets A w.db client anchor

/-- After a miss the anchor's calls were invalidated and asked for again. -/
private theorem missPath_returns {α : Type} {S : Servers} {w : World} (hwf : w.db.WF)
    (engine : QueryEngine) (client : Client) {anchor : Node} (hanchor : anchor ∈ w.db.nodes)
    (hash : Option String) (f : Bool → α) :
    (missPath engine anchor.id anchor client hash f).Returns S w fun a w' =>
      (∃ t, a = f t) ∧ ∃ targets, Made S client anchor hash targets w w' := by
  have hid := Db.hasNode_of_mem hanchor
  -- First the calls of the anchor are invalidated and asked for again,
  obtain ⟨t, w₁, hrun, ⟨targets, hw₁, hA⟩, htext₁⟩ :=
    returns_text (rematerialize_returns (S := S) engine client hwf anchor hid)
  have hid₁ : w₁.db.hasNode anchor.id = true := by rw [Db.hasNode_congr hw₁.rows.nodes, hid]
  -- then the hash is stored, whatever came of the first step.
  obtain ⟨_, w₂, hstore, hwf₂, htext₂, hlog₂, hnodes₂, hcalls₂, hcache₂⟩ :=
    storeHash_returns (S := S) hw₁.wf hid₁ hash
  obtain ⟨trips, hlog, htrips⟩ := rematerialize_log hrun
  refine Prog.Returns.bind_run hrun (Prog.Returns.bind_run hstore
    (Prog.Returns.pure ⟨⟨t, rfl⟩, targets, ?_⟩))
  exact {
    wf := hwf₂
    text := htext₂.trans htext₁
    nodes := hnodes₂.trans hw₁.rows.nodes
    calls := fun a b hne => by
      rw [hcalls₂, hw₁.calls]
      simp [hne]
    cache := fun a hne => by rw [hcache₂, if_neg hne, hw₁.rows.calleesCache]
    log := ⟨trips, by rw [hlog₂, hlog], htrips⟩
    valid := hw₁.valid
    callees := fun b => by
      rw [hcalls₂, hw₁.calls]
      simp
    stored := by rw [hcache₂, if_pos rfl, hw₁.rows.calleesCache]
    answers := hA }

/-- A `didOpen` before a materialization is no part of what it changes. -/
private theorem Made.of_openedWith {S : Servers} {client c : Client} {anchor : Node}
    {hash text : Option String} {targets : List RowId} {uri : String} {w w' : World}
    (h : Made S client anchor hash targets (w.openedWith c uri text) w') :
    Made S client anchor hash targets w w' where
  wf := h.wf
  -- Opening the document changes only the documents and the log.
  text := h.text.trans (openedWith_text ..)
  nodes := h.nodes.trans (by rw [openedWith_db])
  calls := fun a b hne => (h.calls a b hne).trans (by rw [openedWith_db])
  cache := fun a hne => (h.cache a hne).trans (by rw [openedWith_db])
  log := by
    obtain ⟨trips, hlog, htrips⟩ := h.log
    exact ⟨trips, by rw [hlog, openedWith_log], htrips⟩
  valid := fun id hid => by
    have := h.valid id hid
    rwa [openedWith_db] at this
  callees := h.callees
  stored := by rw [h.stored, openedWith_db]
  answers := fun A hA => by
    rw [h.answers A (by rw [openedWith_text]; exact hA), openedWith_db]

/-- The three ways an expansion can go: what it returns, and what it did. -/
inductive ExpandCase (S : Servers) (engine : QueryEngine) (client : Option Client) (anchor : Node)
    (remaining : Nat) (w w' : World) : Expansion → Prop where
  | hit (hclient : client.isSome = true) (hhit : CacheHit engine w anchor.id anchor)
      (hdb : w'.db = w.db) (hlog : w'.log = w.log) :
      ExpandCase S engine client anchor remaining w w' ⟨true, false, remaining⟩
  | refused (hwhy : client.isSome = true → ¬ CacheHit engine w anchor.id anchor ∧ remaining = 0)
      (hdb : w'.db = w.db) (hlog : w'.log = w.log) :
      ExpandCase S engine client anchor remaining w w' ⟨false, false, remaining⟩
  | made {c : Client} {t : Bool} {targets : List RowId} (hclient : client = some c)
      (hmiss : ¬ CacheHit engine w anchor.id anchor) (hbudget : remaining ≠ 0)
      (hmade : Made S c anchor ((w.text anchor.uri).map (contentHash engine.hasher)) targets w w') :
      ExpandCase S engine client anchor remaining w w' ⟨true, t, remaining - 1⟩

/-- An expansion changes the calls of its anchor only. -/
private theorem expand_returns {S : Servers} {w : World} (hwf : w.db.WF) (engine : QueryEngine)
    (client : Option Client) {anchor : Node} (hanchor : anchor ∈ w.db.nodes) (remaining : Nat) :
    (engine.expandOutgoingCalls anchor.id anchor client remaining).Returns S w fun exp w' =>
      ExpandFrame anchor.id w w' ∧ ExpandCase S engine client anchor remaining w w' exp := by
  cases client with
  -- Without a client nothing is asked, and the expansion is refused.
  | none =>
    refine Prog.Returns.pure ⟨⟨hwf, rfl, rfl, fun _ _ _ => .rfl, fun _ _ => rfl⟩, ?_⟩
    exact .refused nofun rfl rfl
  | some c =>
    have hopened : ∀ text, ExpandFrame anchor.id w (w.openedWith c anchor.uri text) := fun text =>
      ⟨by rw [openedWith_db]; exact hwf, openedWith_text .., by rw [openedWith_db],
        fun _ _ _ => by rw [openedWith_db], fun _ _ => by rw [openedWith_db]⟩
    have hrun : (engine.expandOutgoingCalls anchor.id anchor (some c) remaining).run S w = _ :=
      run_expandOutgoingCalls engine remaining
    -- With one, the text is opened first; the hash of that text decides on hit or miss.
    by_cases hhit : CacheHit engine w anchor.id anchor
    · rw [if_pos hhit] at hrun
      exact ⟨_, _, hrun, hopened _, .hit rfl hhit (openedWith_db ..) (openedWith_log ..)⟩
    · -- A miss costs one unit of the budget, and is refused when there is none left.
      by_cases hbudget : remaining = 0
      · rw [if_neg hhit, if_pos hbudget] at hrun
        exact ⟨_, _, hrun, hopened _,
          .refused (fun _ => ⟨hhit, hbudget⟩) (openedWith_db ..) (openedWith_log ..)⟩
      · rw [if_neg hhit, if_neg hbudget] at hrun
        obtain ⟨a, w', hmiss, ⟨t, rfl⟩, targets, hmade⟩ := missPath_returns (S := S)
          (w := w.openedWith c anchor.uri (w.text anchor.uri)) (by rw [openedWith_db]; exact hwf)
          engine c (by rw [openedWith_db]; exact hanchor)
          ((w.text anchor.uri).map (contentHash engine.hasher))
          fun timedOut => (⟨true, timedOut, remaining - 1⟩ : Expansion)
        have hmade' := hmade.of_openedWith
        exact ⟨_, _, hrun.trans hmiss, hmade'.toExpandFrame, .made rfl hhit hbudget hmade'⟩

/-! ## What the search reads -/

/-- The groups of a node's neighbors have the nodes of its neighbor rows. -/
private theorem mem_groupByNode_neighbors {d : Db} (hwf : d.WF) (id : RowId) (n : Node) :
    n ∈ (groupByNode (d.getNeighbors id .calls .outgoing)).map (·.1) ↔
      ∃ row ∈ d.getNeighbors id .calls .outgoing, row.1 = n :=
  mem_groupByNode (neighbors_keyed hwf id .calls .outgoing) n

/-- The ids that a search reads as the callees of a node. -/
def calleeIds (d : Db) (id : RowId) : List RowId :=
  (groupByNode (d.getNeighbors id .calls .outgoing)).map (·.1.id)

/-- The callees of a node are its valid neighbours. -/
theorem mem_calleeIds_iff_row {d : Db} (hwf : d.WF) (id b : RowId) :
    b ∈ calleeIds d id ↔ ∃ row ∈ d.getNeighbors id .calls .outgoing, row.1.id = b := by
  have hids : calleeIds d id =
      ((groupByNode (d.getNeighbors id .calls .outgoing)).map (·.1)).map (·.id) := by
    simp [calleeIds]
  rw [hids, List.mem_map]
  constructor
  · rintro ⟨n, hn, rfl⟩
    obtain ⟨row, hrow, rfl⟩ := (mem_groupByNode_neighbors hwf id n).mp hn
    exact ⟨row, hrow, rfl⟩
  · rintro ⟨row, hrow, rfl⟩
    exact ⟨row.1, (mem_groupByNode_neighbors hwf id row.1).mpr ⟨row, hrow, rfl⟩, rfl⟩

/-- The callees of a node are the live ends of its calls. -/
theorem mem_calleeIds {d : Db} (hwf : d.WF) (id b : RowId) :
    b ∈ calleeIds d id ↔ d.ValidId b ∧ d.Calls id b := by
  rw [mem_calleeIds_iff_row hwf]
  constructor
  · rintro ⟨row, hrow, rfl⟩
    obtain ⟨hn, hvalid, hcalls⟩ := (Db.mem_getNeighbors_outgoing hwf id row.1).mp ⟨row, hrow, rfl⟩
    exact ⟨⟨row.1, hn, hvalid, rfl⟩, hcalls⟩
  · rintro ⟨⟨n, hn, hvalid, rfl⟩, hcalls⟩
    obtain ⟨row, hrow, rfl⟩ := (Db.mem_getNeighbors_outgoing hwf id n).mpr ⟨hn, hvalid, hcalls⟩
    exact ⟨row, hrow, rfl⟩

/-- The callee lists among the events, each with the node they were read for. -/
def readsOf (events : List Event) : List (RowId × List RowId) :=
  events.filterMap fun
    | .neighbors id .calls .outgoing rows => some (id, (groupByNode rows).map (·.1.id))
    | _ => none

/-- An edge that was read: `b` stands in a row read for the callees of `a`. -/
def EdgeRead (events : List Event) (a b : RowId) : Prop :=
  ∃ rows, .neighbors a .calls .outgoing rows ∈ events ∧ ∃ row ∈ rows, row.1.id = b

/-- The reads of two parts are read in turn. -/
@[simp] theorem readsOf_append (xs ys : List Event) :
    readsOf (xs ++ ys) = readsOf xs ++ readsOf ys := List.filterMap_append

/-- Round trips and invalidations read nothing. -/
private theorem readsOf_made {id : RowId} {trips : List Event}
    (h : ∀ e ∈ trips, ∃ method outcome, e = .trip method outcome) :
    readsOf (.invalidated id :: trips) = [] := by
  rw [readsOf, List.filterMap_eq_nil_iff]
  intro e he
  rcases List.mem_cons.mp he with rfl | he
  · rfl
  · obtain ⟨method, outcome, rfl⟩ := h e he
    rfl

/-! ## The scan of a node's callees -/

/-- A queue item, as the search of the library sees it. -/
def QueryEngine.QueueItem.ids (item : QueueItem) : RowId × List RowId :=
  (item.nodeId, item.path.map (·.id))

/-- When the target is among the callees the scan returns the path to it. -/
theorem scanCallees_found {toId : RowId} (path : List Node) {callees : List Node}
    (visited : List RowId) (queue : List QueueItem) (h : toId ∈ callees.map (·.id)) :
    ∃ callee ∈ callees, callee.id = toId ∧
      scanCallees toId path callees visited queue = .inl (path ++ [callee]) := by
  induction callees generalizing visited queue with
  | nil => exact absurd h List.not_mem_nil
  | cons callee rest ih =>
    unfold scanCallees
    split
    · rename_i hid
      exact ⟨callee, List.mem_cons_self, hid, rfl⟩
    · rename_i hid
      -- This callee is another node, so the one sought is behind it.
      have hrest : toId ∈ rest.map (·.id) := (List.mem_cons.mp h).resolve_left fun heq => hid heq.symm
      split
      · -- It was visited: the queue stays. Else it is put at the queue's end.
        obtain ⟨c, hc, hcid, hscan⟩ := ih visited queue hrest
        exact ⟨c, List.mem_cons_of_mem _ hc, hcid, hscan⟩
      · obtain ⟨c, hc, hcid, hscan⟩ := ih (callee.id :: visited)
          (queue ++ [⟨callee.id, callee, path ++ [callee]⟩]) hrest
        exact ⟨c, List.mem_cons_of_mem _ hc, hcid, hscan⟩

/-- Without the target among the callees, the scan enqueues the unvisited ones. -/
theorem scanCallees_not_found {toId : RowId} (path : List Node) {callees : List Node}
    (visited : List RowId) (queue : List QueueItem) (h : toId ∉ callees.map (·.id)) :
    ∃ visited' queue', scanCallees toId path callees visited queue = .inr (visited', queue') ∧
      (visited', queue'.map (·.ids)) =
        enqueue (path.map (·.id)) (callees.map (·.id)) visited (queue.map (·.ids)) ∧
      ∀ item ∈ queue', item ∈ queue ∨
        ∃ callee ∈ callees, item = ⟨callee.id, callee, path ++ [callee]⟩ := by
  -- Induction on the callees, along the recursion of `enqueue`.
  induction callees generalizing visited queue with
  | nil => exact ⟨visited, queue, rfl, rfl, fun item hitem => .inl hitem⟩
  | cons callee rest ih =>
    rw [List.map_cons, List.mem_cons, not_or] at h
    unfold scanCallees
    rw [if_neg fun heq => h.1 heq.symm, List.map_cons, enqueue]
    -- A callee seen before is skipped, a new one is queued behind the others.
    split
    · obtain ⟨visited', queue', hscan, heq, hitems⟩ := ih visited queue h.2
      refine ⟨visited', queue', hscan, heq, fun item hitem => ?_⟩
      refine (hitems item hitem).imp_right fun h => ?_
      obtain ⟨c, hc, hi⟩ := h
      exact ⟨c, List.mem_cons_of_mem _ hc, hi⟩
    · obtain ⟨visited', queue', hscan, heq, hitems⟩ := ih (callee.id :: visited)
        (queue ++ [⟨callee.id, callee, path ++ [callee]⟩]) h.2
      refine ⟨visited', queue', hscan, ?_, fun item hitem => ?_⟩
      · rw [heq]
        simp [QueueItem.ids]
      · rcases hitems item hitem with hitem | ⟨c, hc, hi⟩
        · rcases List.mem_append.mp hitem with hitem | hitem
          · exact .inl hitem
          · exact .inr ⟨callee, List.mem_cons_self, List.mem_singleton.mp hitem⟩
        · exact .inr ⟨c, List.mem_cons_of_mem _ hc, hi⟩

/-! ## The graph side of the search -/

/-- Is the event the start of a materialization? -/
def Event.isInvalidation : Event → Bool
  | .invalidated _ => true
  | _ => false

/-- The node with this id is fresh: its cache row holds the hash of its file. -/
def Fresh (engine : QueryEngine) (w : World) (id : RowId) : Bool :=
  w.db.nodes.any fun n => n.id == id && decide (CacheHit engine w n.id n)

/-- The number of nodes that were expanded although they were not fresh before the search. -/
def coldReads (engine : QueryEngine) (w₀ : World) (events : List Event) : Nat :=
  (readsOf events).countP fun r => !Fresh engine w₀ r.1

/-- A node is fresh when expanding it would be a hit. -/
private theorem fresh_iff {engine : QueryEngine} {w : World} (hwf : w.db.WF) {n : Node}
    (hn : n ∈ w.db.nodes) : Fresh engine w n.id = true ↔ CacheHit engine w n.id n := by
  simp only [Fresh, List.any_eq_true, Bool.and_eq_true, beq_iff_eq, decide_eq_true_eq]
  constructor
  · rintro ⟨m, hm, hid, hhit⟩
    obtain rfl := hwf.node_ext hm hn hid
    exact hhit
  · exact fun hhit => ⟨n, hn, rfl, hhit⟩

/-- The search had no server for some node, or no budget left for it. -/
def Refused (engine : QueryEngine) (client : Option Client) (maxLspCalls : Nat) (w₀ : World)
    (events : List Event) : Prop :=
  client = none ∨ maxLspCalls < coldReads engine w₀ events

/-- How the callees of a node came to be read: from a cache that was fresh before the search,
    without being fresh, or after a materialization. -/
inductive ReadCase (S : Servers) (engine : QueryEngine) (client : Option Client)
    (maxLspCalls : Nat) (w₀ : World) (events : List Event) (limit : Bool) :
    RowId × List RowId → Prop where
  | hit {n : Node} {ys : List RowId} (hn : n ∈ w₀.db.nodes) (hclient : client.isSome = true)
      (hhit : CacheHit engine w₀ n.id n)
      (hys : ∀ b, b ∈ ys ↔ w₀.db.ValidId b ∧ w₀.db.Calls n.id b) :
      ReadCase S engine client maxLspCalls w₀ events limit (n.id, ys)
  | refused {n : Node} {ys : List RowId} (hn : n ∈ w₀.db.nodes) (hlimit : limit = true)
      (hwhy : Refused engine client maxLspCalls w₀ events) :
      ReadCase S engine client maxLspCalls w₀ events limit (n.id, ys)
  | made {n : Node} {ys targets : List RowId} {c : Client} (hn : n ∈ w₀.db.nodes)
      (hclient : client = some c) (hmiss : ¬ CacheHit engine w₀ n.id n)
      (hinv : .invalidated n.id ∈ events)
      (hys : ∀ b, b ∈ ys ↔ b ∈ targets)
      (hanswers : ∀ A, S.Lists A w₀.text → targets = outgoingTargets A w₀.db c n) :
      ReadCase S engine client maxLspCalls w₀ events limit (n.id, ys)

/-- The search has expanded some nodes, as the events since `w₀` tell, and touched no other. -/
structure Expanding (S : Servers) (engine : QueryEngine) (client : Option Client)
    (maxLspCalls : Nat) (w₀ : World) (events : List Event) (remaining : Nat) (limit : Bool)
    (w : World) : Prop where
  wf : w.db.WF
  nodes : w.db.nodes = w₀.db.nodes
  text : w.text = w₀.text
  log : w.log = w₀.log ++ events
  calls : ∀ a, a ∉ (readsOf events).map (·.1) → ∀ b, w.db.Calls a b ↔ w₀.db.Calls a b
  cache : ∀ a, a ∉ (readsOf events).map (·.1) → w.db.calleesCache a = w₀.db.calleesCache a
  cases : ∀ r ∈ readsOf events, ReadCase S engine client maxLspCalls w₀ events limit r
  listed : ∀ a b, EdgeRead events a b ↔ ∃ ys, (a, ys) ∈ readsOf events ∧ b ∈ ys
  budget : events.countP Event.isInvalidation + remaining = maxLspCalls
  invalidated : ∀ id, .invalidated id ∈ events → id ∈ (readsOf events).map (·.1)
  made_cold : events.countP Event.isInvalidation ≤ coldReads engine w₀ events
  cold_made : limit = false → coldReads engine w₀ events ≤ events.countP Event.isInvalidation

section Expanding

variable {S : Servers} {engine : QueryEngine} {client : Option Client} {maxLspCalls : Nat}
  {w₀ : World} {events : List Event} {remaining : Nat} {limit : Bool}

/-- Before the search nothing is read. -/
theorem Expanding.init (hwf : w₀.db.WF) :
    Expanding S engine client maxLspCalls w₀ [] maxLspCalls false w₀ where
  wf := hwf
  nodes := rfl
  text := rfl
  log := (List.append_nil _).symm
  calls := fun _ _ _ => .rfl
  cache := fun _ _ => rfl
  cases := fun _ hr => absurd hr List.not_mem_nil
  listed := fun a b => by simp [EdgeRead, readsOf]
  budget := Nat.zero_add _
  invalidated := fun _ h => absurd h List.not_mem_nil
  made_cold := Nat.zero_le _
  cold_made := fun _ => Nat.le_refl 0

/-- Earlier reads stay what they were, and a refusal stays one: the cold reads only grow. -/
theorem ReadCase.mono {events' : List Event} {limit' : Bool} {r : RowId × List RowId}
    (h : ReadCase S engine client maxLspCalls w₀ events limit r)
    (hlimit : limit = true → limit' = true) (hsub : ∀ e ∈ events, e ∈ events')
    (hcold : coldReads engine w₀ events ≤ coldReads engine w₀ events') :
    ReadCase S engine client maxLspCalls w₀ events' limit' r := by
  cases h with
  | hit hn hclient hhit hys => exact .hit hn hclient hhit hys
  | refused hn hl hwhy => exact .refused hn (hlimit hl) (hwhy.imp_right (·.trans_le hcold))
  | made hn hclient hmiss hinv hys hanswers =>
    exact .made hn hclient hmiss (hsub _ hinv) hys hanswers

/-- The events of an expansion, before its callees are read. -/
private theorem ExpandCase.newEvents {anchor : Node} {w w' : World} {exp : Expansion}
    (h : ExpandCase S engine client anchor remaining w w' exp) :
    ∃ evs, w'.log = w.log ++ evs ∧ readsOf evs = [] ∧
      (∀ a b, ¬ EdgeRead evs a b) ∧
      (∀ id, .invalidated id ∈ evs → id = anchor.id) ∧
      evs.countP Event.isInvalidation + exp.remaining = remaining ∧
      (CacheHit engine w anchor.id anchor → evs.countP Event.isInvalidation = 0) ∧
      (¬ CacheHit engine w anchor.id anchor → evs.countP Event.isInvalidation ≤ 1 ∧
        (exp.usable = true → evs.countP Event.isInvalidation = 1)) ∧
      (exp.usable = false → client = none ∨
        (¬ CacheHit engine w anchor.id anchor ∧ remaining = 0)) := by
  cases h with
  | hit _ hhit _ hlog =>
    exact ⟨[], by simpa using hlog, rfl, by simp [EdgeRead], by simp, by simp, fun _ => rfl,
      fun hmiss => absurd hhit hmiss, nofun⟩
  | refused hwhy _ hlog =>
    refine ⟨[], by simpa using hlog, rfl, by simp [EdgeRead], by simp, by simp, fun _ => rfl,
      fun _ => ⟨Nat.zero_le _, nofun⟩, fun _ => ?_⟩
    cases client with
    | none => exact .inl rfl
    | some c => exact .inr (hwhy rfl)
  -- Only a miss that is paid for logs events: one invalidation, and the round trips after it.
  | made hclient hmiss hbudget hmade =>
    obtain ⟨trips, hlog, htrips⟩ := hmade.log
    have hnone : trips.countP Event.isInvalidation = 0 := by
      rw [List.countP_eq_zero]
      intro e he
      obtain ⟨method, outcome, rfl⟩ := htrips e he
      exact Bool.false_ne_true
    have hone : (Event.invalidated anchor.id :: trips).countP Event.isInvalidation = 1 := by
      rw [List.countP_cons_of_pos rfl, hnone]
    refine ⟨_, hlog, readsOf_made htrips, ?_, fun id hid => ?_, ?_, fun hhit => absurd hhit hmiss,
      fun _ => ⟨hone.le, fun _ => hone⟩, nofun⟩
    · rintro a b ⟨rows, hrows, -⟩
      obtain ⟨method, outcome, heq⟩ := htrips _ ((List.mem_cons.mp hrows).resolve_left nofun)
      exact nomatch heq
    · rcases List.mem_cons.mp hid with heq | hid
      · cases heq
        rfl
      · obtain ⟨method, outcome, heq⟩ := htrips _ hid
        exact nomatch heq
    · rw [hone]
      dsimp only
      omega

/-- A node that was not expanded is as fresh as before the search. -/
private theorem Expanding.cacheHit_iff {w : World} {anchor : Node}
    (h : Expanding S engine client maxLspCalls w₀ events remaining limit w)
    (hfirst : anchor.id ∉ (readsOf events).map (·.1)) :
    CacheHit engine w anchor.id anchor ↔ CacheHit engine w₀ anchor.id anchor := by
  rw [CacheHit, CacheHit, h.text, h.cache _ hfirst]

/-- How the callees of a node that is expanded now came to be read. -/
private theorem Expanding.newCase {w w₁ : World} {anchor : Node} {exp : Expansion}
    {evs : List Event}
    (h : Expanding S engine client maxLspCalls w₀ events remaining limit w)
    (hanchor : anchor ∈ w₀.db.nodes) (hfirst : anchor.id ∉ (readsOf events).map (·.1))
    (hframe : ExpandFrame anchor.id w w₁)
    (hcase : ExpandCase S engine client anchor remaining w w₁ exp)
    (hlog : w₁.log = w.log ++ evs) (rows : List Neighbor)
    (hrefused : exp.usable = false → Refused engine client maxLspCalls w₀
      (events ++ (evs ++ [.neighbors anchor.id .calls .outgoing rows]))) :
    ReadCase S engine client maxLspCalls w₀
      (events ++ (evs ++ [.neighbors anchor.id .calls .outgoing rows]))
      (limit || !exp.usable) (anchor.id, calleeIds w₁.db anchor.id) := by
  -- Which rows are live is what it was at the start of the search.
  have hids := mem_calleeIds hframe.wf anchor.id
  have hvalid : ∀ b, w₁.db.ValidId b ↔ w₀.db.ValidId b := fun b => by
    rw [Db.ValidId, Db.ValidId, hframe.nodes, h.nodes]
  cases hcase with
  | hit hclient hhit hdb hlog' =>
    -- A hit reads the calls stored at the start, as this node is expanded for the first time.
    refine .hit hanchor hclient ((h.cacheHit_iff hfirst).mp hhit) fun b => ?_
    rw [hids b, hvalid b, hdb, h.calls _ hfirst]
  | refused => exact .refused hanchor (Bool.or_true _) (hrefused rfl)
  | @made c t targets hclient hmiss hbudget hmade =>
    -- A miss reads what was stored just now, the server's answers where it answered.
    obtain ⟨trips, hlog', -⟩ := hmade.log
    have hevs : evs = _ := List.append_cancel_left (hlog.symm.trans hlog')
    have hys : ∀ b, b ∈ calleeIds w₁.db anchor.id ↔ b ∈ targets := fun b => by
      rw [hids b, hmade.callees b]
      refine and_iff_right_of_imp fun hb => ?_
      exact (hmade.valid b hb).congr hmade.nodes.symm
    have hmiss₀ : ¬ CacheHit engine w₀ anchor.id anchor :=
      fun hhit => hmiss ((h.cacheHit_iff hfirst).mpr hhit)
    refine .made hanchor hclient hmiss₀ (by rw [hevs]; simp) hys fun A hA => ?_
    rw [hmade.answers A (by rw [h.text]; exact hA)]
    exact outgoingTargets_congr A c h.nodes anchor

/-- The step of the graph side: expand a node for the first time, and read its callees. -/
private theorem Expanding.step {w : World} {anchor : Node} (hwf₀ : w₀.db.WF)
    (h : Expanding S engine client maxLspCalls w₀ events remaining limit w)
    (hanchor : anchor ∈ w₀.db.nodes) (hfirst : anchor.id ∉ (readsOf events).map (·.1)) :
    (engine.expandOutgoingCalls anchor.id anchor client remaining).Returns S w fun exp w₁ =>
      ∃ events', readsOf events' = readsOf events ++ [(anchor.id, calleeIds w₁.db anchor.id)] ∧
        (exp.usable = false → Refused engine client maxLspCalls w₀ events') ∧
        Expanding S engine client maxLspCalls w₀ events' exp.remaining (limit || !exp.usable)
          (w₁.note (.neighbors anchor.id .calls .outgoing
            (w₁.db.getNeighbors anchor.id .calls .outgoing))) := by
  refine (expand_returns h.wf engine client (by rw [h.nodes]; exact hanchor) remaining).mono
    fun exp w₁ ⟨hframe, hcase⟩ => ?_
  obtain ⟨evs, hlog, hreads, hedges, hinv, hbudget, hhit, hmiss, hunusable⟩ := hcase.newEvents
  have hreads' : readsOf (events ++ (evs ++ [.neighbors anchor.id .calls .outgoing
      (w₁.db.getNeighbors anchor.id .calls .outgoing)])) =
      readsOf events ++ [(anchor.id, calleeIds w₁.db anchor.id)] := by
    rw [readsOf_append, readsOf_append, hreads]
    rfl
  have hcount : (events ++ (evs ++ [Event.neighbors anchor.id .calls .outgoing
      (w₁.db.getNeighbors anchor.id .calls .outgoing)])).countP Event.isInvalidation =
      events.countP Event.isInvalidation + evs.countP Event.isInvalidation := by
    rw [List.countP_append, List.countP_append, List.countP_singleton]
    rfl
  -- The anchor is read for the first time, so it is as fresh as it was before the search.
  have hfresh : Fresh engine w₀ anchor.id = true ↔ CacheHit engine w anchor.id anchor :=
    (fresh_iff hwf₀ hanchor).trans (h.cacheHit_iff hfirst).symm
  have hcold : coldReads engine w₀ (events ++ (evs ++ [.neighbors anchor.id .calls .outgoing
      (w₁.db.getNeighbors anchor.id .calls .outgoing)])) =
      coldReads engine w₀ events + if Fresh engine w₀ anchor.id then 0 else 1 := by
    rw [coldReads, coldReads, hreads', List.countP_append, List.countP_singleton]
    cases Fresh engine w₀ anchor.id <;> rfl
  have hrefused : exp.usable = false → Refused engine client maxLspCalls w₀ (events ++ (evs ++
      [.neighbors anchor.id .calls .outgoing (w₁.db.getNeighbors anchor.id .calls .outgoing)])) := by
    -- Each cold read so far has used up one of the calls.
    intro husable
    refine (hunusable husable).imp_right fun ⟨hnot, hzero⟩ => ?_
    rw [hcold, if_neg fun hf => hnot (hfresh.mp hf)]
    have := h.budget
    have := h.made_cold
    omega
  refine ⟨_, hreads', hrefused, ?_⟩
  have hkeys : ∀ a, a ∉ (readsOf (events ++ (evs ++ [.neighbors anchor.id .calls .outgoing
      (w₁.db.getNeighbors anchor.id .calls .outgoing)]))).map (·.1) →
      a ∉ (readsOf events).map (·.1) ∧ a ≠ anchor.id := by
    intro a ha
    rw [hreads', List.map_append, List.mem_append, not_or] at ha
    exact ⟨ha.1, fun heq => ha.2 (by simp [heq])⟩
  exact {
    wf := hframe.wf
    nodes := hframe.nodes.trans h.nodes
    text := hframe.text.trans h.text
    log := by rw [note_log, hlog, h.log, List.append_assoc, List.append_assoc]
    calls := fun a ha b => by
      obtain ⟨hold, hne⟩ := hkeys a ha
      exact (hframe.calls a b hne).trans (h.calls a hold b)
    cache := fun a ha => by
      obtain ⟨hold, hne⟩ := hkeys a ha
      exact (hframe.cache a hne).trans (h.cache a hold)
    cases := fun r hr => by
      rw [hreads', List.mem_append] at hr
      rcases hr with hr | hr
      · exact (h.cases r hr).mono (fun hl => by rw [hl]; rfl)
          (fun e he => List.mem_append_left _ he) (by rw [hcold]; exact Nat.le_add_right _ _)
      · rw [List.mem_singleton.mp hr]
        exact h.newCase hanchor hfirst hframe hcase hlog _ hrefused
    listed := fun a b => by
      rw [hreads']
      simp only [EdgeRead, List.mem_append, List.mem_singleton, or_and_right, exists_or]
      have hold := h.listed a b
      have hnone := hedges a b
      simp only [EdgeRead] at hold hnone
      rw [hold, or_iff_right hnone]
      refine or_congr_right ⟨?_, ?_⟩
      · rintro ⟨rows, heq, hrow⟩
        cases heq
        exact ⟨_, rfl, (mem_calleeIds_iff_row hframe.wf _ b).mpr hrow⟩
      · rintro ⟨ys, heq, hb⟩
        cases heq
        exact ⟨_, rfl, (mem_calleeIds_iff_row hframe.wf _ b).mp hb⟩
    budget := by
      have := h.budget
      omega
    made_cold := by
      rw [hcount, hcold]
      have := h.made_cold
      split
      · rename_i hf
        rw [hhit (hfresh.mp hf)]
        exact this
      · rename_i hf
        have := (hmiss fun hc => hf (hfresh.mpr hc)).1
        omega
    cold_made := fun hlimit => by
      rw [Bool.or_eq_false_iff] at hlimit
      rw [hcount, hcold]
      have := h.cold_made hlimit.1
      split
      · omega
      · rename_i hf
        have := (hmiss fun hc => hf (hfresh.mpr hc)).2 (by simpa using hlimit.2)
        omega
    invalidated := fun id hid => by
      rw [hreads', List.map_append, List.mem_append]
      rcases List.mem_append.mp hid with hid | hid
      · exact .inl (h.invalidated id hid)
      · rcases List.mem_append.mp hid with hid | hid
        · exact .inr (by simp [hinv id hid])
        · exact nomatch List.mem_singleton.mp hid }

end Expanding

/-! ## The loop -/

/-- The item is a row to expand, at the end of a path of rows. -/
def QueryEngine.QueueItem.Stands (nodes : List Node) (item : QueueItem) : Prop :=
  item.node ∈ nodes ∧ item.nodeId = item.node.id ∧ ∀ n ∈ item.path, n ∈ nodes

/-- The state of the loop between two rounds. -/
structure SearchInv (S : Servers) (engine : QueryEngine) (client : Option Client)
    (fromId toId : RowId) (maxDepth maxLspCalls : Nat) (w₀ : World) (events : List Event)
    (st : SearchState) (w : World) : Prop where
  expanding : Expanding S engine client maxLspCalls w₀ events st.remaining st.limitReached w
  items : ∀ item ∈ st.queue, item.Stands w₀.db.nodes
  visited : ∀ v ∈ st.visited, w₀.db.hasNode v = true
  search : ∃ level cut, Search.Levelled fromId toId maxDepth level
      ⟨st.visited, st.queue.map (·.ids), (readsOf events).reverse, cut⟩ ∧
    (cut = true → st.limitReached = true) ∧
    (st.limitReached = true → cut = true ∨ Refused engine client maxLspCalls w₀ events)

/-- How the search ends: with a path, or with nothing left to expand. -/
inductive SearchEnds (S : Servers) (engine : QueryEngine) (client : Option Client)
    (fromId toId : RowId) (maxDepth maxLspCalls : Nat) (w₀ : World) (events : List Event)
    (w : World) : FindCallPathResult → Prop where
  | found {path : List Node} {remaining : Nat} {limit : Bool}
      (hexpanding : Expanding S engine client maxLspCalls w₀ events remaining limit w)
      (hnodes : ∀ n ∈ path, n ∈ w₀.db.nodes)
      (hpath : IsPath (EdgeRead events) fromId toId (path.map (·.id)))
      (hlength : path.length ≤ maxDepth + 1)
      (hshortest : ∀ k, Steps (EdgeRead events) fromId k toId → path.length ≤ k + 1) :
      SearchEnds S engine client fromId toId maxDepth maxLspCalls w₀ events w
        ⟨true, path.map .fromNode, false, [], []⟩
  | exhausted {st : SearchState}
      (hinv : SearchInv S engine client fromId toId maxDepth maxLspCalls w₀ events st w)
      (hqueue : st.queue = []) :
      SearchEnds S engine client fromId toId maxDepth maxLspCalls w₀ events w
        (notFound st.limitReached)

section Loop

variable {S : Servers} {engine : QueryEngine} {client : Option Client} {fromId toId : RowId}
  {maxDepth maxLspCalls : Nat} {w₀ w : World} {events : List Event}

/-- Vertices without repetition that are ids of rows are no more than the rows. -/
private theorem length_le_rows {ids : List RowId} {d : Db} (hnodup : ids.Nodup)
    (hrows : ∀ v ∈ ids, d.hasNode v = true) : ids.length ≤ d.nodes.length := by
  have hsub : ids ⊆ d.nodes.map (·.id) := fun v hv => by
    obtain ⟨n, hn, rfl⟩ := (d.hasNode_iff v).mp (hrows v hv)
    exact List.mem_map_of_mem hn
  simpa using (List.subperm_of_subset hnodup hsub).length_le

/-- Before the search the start alone is queued. -/
theorem SearchInv.init (hwf : w₀.db.WF) {fromNode : Node} (hfrom : fromNode ∈ w₀.db.nodes)
    (hne : fromNode.id ≠ toId) (timedOut : Bool) :
    SearchInv S engine client fromNode.id toId maxDepth maxLspCalls w₀ []
      (.init fromNode maxLspCalls timedOut) w₀ where
  expanding := .init hwf
  items := fun item hitem => by
    rw [List.mem_singleton.mp hitem]
    exact ⟨hfrom, rfl, fun n hn => by rw [List.mem_singleton.mp hn]; exact hfrom⟩
  visited := fun v hv => by
    rw [List.mem_singleton.mp hv]
    exact Db.hasNode_of_mem hfrom
  search := ⟨_, false, .init maxDepth hne, nofun, fun h => nomatch h⟩

/-- The length of a path fits the counter it is compared as. -/
private theorem SearchInv.path_length {visited : List RowId} {item : QueueItem}
    {queue : List QueueItem}
    {remaining : Nat} {limit timedOut : Bool}
    (h : SearchInv S engine client fromId toId maxDepth maxLspCalls w₀ events
      ⟨visited, item :: queue, remaining, limit, timedOut⟩ w)
    (hsize : maxDepth + 1 < 2 ^ 32 ∨ w₀.db.nodes.length < 2 ^ 32) :
    item.path.length % 2 ^ 32 = item.path.length := by
  obtain ⟨level, cut, hlevel, -⟩ := h.search
  have hmem : item.ids ∈ (item :: queue).map (·.ids) := List.mem_cons_self
  have hshort := hlevel.short _ hmem
  obtain ⟨hnodup, hvisited⟩ := hlevel.path_nodup _ hmem
  have hrows := length_le_rows hnodup fun v hv => h.visited v (hvisited v hv)
  simp only [QueueItem.ids, List.length_map] at hshort hrows
  apply Nat.mod_eq_of_lt
  omega

/-- A round that drops an item. -/
private theorem SearchInv.drop {visited : List RowId} {item : QueueItem} {queue : List QueueItem}
    {remaining : Nat} {limit timedOut : Bool}
    (h : SearchInv S engine client fromId toId maxDepth maxLspCalls w₀ events
      ⟨visited, item :: queue, remaining, limit, timedOut⟩ w)
    (hlong : maxDepth < item.path.length) :
    SearchInv S engine client fromId toId maxDepth maxLspCalls w₀ events
      ⟨visited, queue, remaining, true, timedOut⟩ w := by
  obtain ⟨level, cut, hlevel, -⟩ := h.search
  exact {
    expanding := { h.expanding with
      cases := fun r hr => (h.expanding.cases r hr).mono (fun _ => rfl) (fun _ he => he) le_rfl
      cold_made := nofun }
    items := fun i hi => h.items i (List.mem_cons_of_mem _ hi)
    visited := h.visited
    search := ⟨level, true, hlevel.drop (by simpa using hlong), fun _ => rfl, fun _ => .inl rfl⟩ }

/-- What the scan is given: the nodes that were read, in the order of their groups. -/
private theorem callees_map_id (d : Db) (id : RowId) :
    (((groupByNode (d.getNeighbors id .calls .outgoing)).map (·.1)).map (·.id)) =
      calleeIds d id := by
  simp [calleeIds]

section Expanded

variable {visited : List RowId} {item : QueueItem} {queue : List QueueItem}
  {remaining remaining' : Nat} {limit limit' timedOut : Bool} {events' : List Event} {w' : World}

/-- The edges that are read after an expansion are those of the abstract search. -/
private theorem Expanding.read_iff {cut : Bool} {id : RowId} {ys : List RowId}
    {queue : List (RowId × List RowId)}
    (hexp : Expanding S engine client maxLspCalls w₀ events' remaining' limit' w')
    (hreads : readsOf events' = readsOf events ++ [(id, ys)]) (a b : RowId) :
    Search.Read ⟨visited, queue, (id, ys) :: (readsOf events).reverse, cut⟩ a b ↔
      EdgeRead events' a b := by
  rw [hexp.listed, hreads]
  simp [Search.Read, or_comm]

/-- What the scan is given are rows. -/
private theorem Expanding.callee_row {id : RowId} {n : Node}
    (hexp : Expanding S engine client maxLspCalls w₀ events' remaining' limit' w')
    (hn : n ∈ (groupByNode (w'.db.getNeighbors id .calls .outgoing)).map (·.1)) :
    n ∈ w₀.db.nodes := by
  rw [mem_groupByNode_neighbors hexp.wf, Db.mem_getNeighbors_outgoing hexp.wf, hexp.nodes] at hn
  exact hn.1

/-- The item that is dequeued, as the abstract search sees it. -/
private theorem SearchInv.dequeued
    (h : SearchInv S engine client fromId toId maxDepth maxLspCalls w₀ events
      ⟨visited, item :: queue, remaining, limit, timedOut⟩ w) :
    ∃ level cut, Search.Levelled fromId toId maxDepth level
      ⟨visited, (item.node.id, item.path.map (·.id)) :: queue.map (·.ids),
        (readsOf events).reverse, cut⟩ ∧
      (cut = true → limit = true) ∧
      (limit = true → cut = true ∨ Refused engine client maxLspCalls w₀ events) := by
  obtain ⟨level, cut, hlevel, hwhy⟩ := h.search
  have hhead : (item :: queue).map (·.ids) =
      (item.node.id, item.path.map (·.id)) :: queue.map (·.ids) := by
    rw [List.map_cons, QueueItem.ids, (h.items item List.mem_cons_self).2.1]
  dsimp only at hlevel
  rw [hhead] at hlevel
  exact ⟨level, cut, hlevel, hwhy⟩

/-- An item is dequeued before its callees have been read. -/
private theorem SearchInv.first
    (h : SearchInv S engine client fromId toId maxDepth maxLspCalls w₀ events
      ⟨visited, item :: queue, remaining, limit, timedOut⟩ w) :
    item.node.id ∉ (readsOf events).map (·.1) := by
  obtain ⟨level, cut, hlevel, -⟩ := h.dequeued
  intro hmem
  obtain ⟨r, hr, hrid⟩ := List.mem_map.mp hmem
  refine (hlevel.read_visited r (List.mem_reverse.mpr hr)).2 ?_
  rw [hrid]
  exact List.mem_cons_self

/-- A round that finds the target among the callees. -/
private theorem SearchInv.found
    (h : SearchInv S engine client fromId toId maxDepth maxLspCalls w₀ events
      ⟨visited, item :: queue, remaining, limit, timedOut⟩ w)
    (hshort : item.path.length ≤ maxDepth)
    (hexp : Expanding S engine client maxLspCalls w₀ events' remaining' limit' w')
    (hreads : readsOf events' = readsOf events ++ [(item.node.id, calleeIds w'.db item.node.id)])
    (hto : toId ∈ calleeIds w'.db item.node.id) {callee : Node}
    (hcallee : callee ∈
      (groupByNode (w'.db.getNeighbors item.node.id .calls .outgoing)).map (·.1))
    (hcid : callee.id = toId) :
    SearchEnds S engine client fromId toId maxDepth maxLspCalls w₀ events' w'
      ⟨true, (item.path ++ [callee]).map .fromNode, false, [], []⟩ := by
  -- The levels of the search make the path to the node, and so the one to the target, a shortest
  -- one.
  obtain ⟨level, cut, hlevel, -⟩ := h.dequeued
  obtain ⟨hpath, hshortest⟩ := hlevel.found hto
  have hids : (item.path ++ [callee]).map (·.id) = item.path.map (·.id) ++ [toId] := by
    simp [hcid]
  refine .found hexp ?_ ?_ ?_ fun k hk => ?_
  · intro n hn
    rcases List.mem_append.mp hn with hn | hn
    · exact (h.items item List.mem_cons_self).2.2 n hn
    · rw [List.mem_singleton.mp hn]
      exact hexp.callee_row hcallee
  · rw [hids]
    -- Every step of the path is an edge that was read, and a shorter way would have been one as
    -- well.
    exact hpath.mono fun a b => (hexp.read_iff hreads a b).mp
  · rw [List.length_append, List.length_singleton]
    omega
  · have := hshortest k (hk.mono fun a b => (hexp.read_iff hreads a b).mpr)
    simpa using this

/-- A round that does not: the callees that are not visited yet are enqueued. -/
private theorem SearchInv.expand
    (h : SearchInv S engine client fromId toId maxDepth maxLspCalls w₀ events
      ⟨visited, item :: queue, remaining, limit, timedOut⟩ w)
    (hshort : item.path.length ≤ maxDepth)
    (hexp : Expanding S engine client maxLspCalls w₀ events' remaining' limit' w')
    (hreads : readsOf events' = readsOf events ++ [(item.node.id, calleeIds w'.db item.node.id)])
    (hkeeps : limit = true → limit' = true)
    (hwhy' : limit' = true → limit = true ∨ Refused engine client maxLspCalls w₀ events')
    (hto : toId ∉ calleeIds w'.db item.node.id) {visited' : List RowId} {queue' : List QueueItem}
    (heq : (visited', queue'.map (·.ids)) = enqueue (item.path.map (·.id))
      (calleeIds w'.db item.node.id) visited (queue.map (·.ids)))
    (hitems : ∀ i ∈ queue', i ∈ queue ∨
      ∃ callee ∈ (groupByNode (w'.db.getNeighbors item.node.id .calls .outgoing)).map (·.1),
        i = ⟨callee.id, callee, item.path ++ [callee]⟩) (timedOut' : Bool) :
    SearchInv S engine client fromId toId maxDepth maxLspCalls w₀ events'
      ⟨visited', queue', remaining', limit', timedOut'⟩ w' := by
  obtain ⟨level, cut, hlevel, hcut, hwhy⟩ := h.dequeued
  obtain ⟨level', hlevel'⟩ := hlevel.expand (by simpa using hshort) hto
  rw [← heq] at hlevel'
  exact {
    expanding := hexp
    items := fun i hi => by
      cases hitems i hi with
      | inl hold => exact h.items i (List.mem_cons_of_mem _ hold)
      | inr hnew =>
        obtain ⟨c, hc, rfl⟩ := hnew
        refine ⟨hexp.callee_row hc, rfl, fun n hn => ?_⟩
        rcases List.mem_append.mp hn with hn | hn
        · exact (h.items item List.mem_cons_self).2.2 n hn
        · rw [List.mem_singleton.mp hn]
          exact hexp.callee_row hc
    visited := fun v hv => by
      cases mem_of_mem_enqueue heq hv with
      | inl hold => exact h.visited v hold
      | inr hnew =>
        rw [mem_calleeIds hexp.wf] at hnew
        rw [← Db.hasNode_congr hexp.nodes]
        exact hnew.1.hasNode
    search := by
      refine ⟨level', cut, ?_, fun hc => hkeeps (hcut hc), fun hl => ?_⟩
      · rw [hreads, List.reverse_append]
        exact hlevel'
      · cases hwhy' hl with
        | inr hrefused => exact .inr hrefused
        | inl hold =>
          -- An earlier refusal stays one: the reads only grow.
          refine (hwhy hold).imp_right fun hr => hr.imp_right fun hlt => hlt.trans_le ?_
          rw [coldReads, coldReads, hreads, List.countP_append]
          exact Nat.le_add_right _ _ }

end Expanded

/-- The loop ends, with enough fuel for every row to be dequeued once. -/
theorem searchLoop_returns {st : SearchState} (hwf₀ : w₀.db.WF)
    (hsize : maxDepth + 1 < 2 ^ 32 ∨ w₀.db.nodes.length < 2 ^ 32) (fuel : Nat)
    (h : SearchInv S engine client fromId toId maxDepth maxLspCalls w₀ events st w)
    (hfuel : w₀.db.nodes.length + st.queue.length < fuel + st.visited.length) :
    (engine.searchLoop toId maxDepth client fuel st).Returns S w fun result w' =>
      ∃ r t events', result = some (r, t) ∧
        SearchEnds S engine client fromId toId maxDepth maxLspCalls w₀ events' w' r := by
  induction fuel generalizing events st w with
  | zero =>
    -- Fuel is left as long as a row is: the visited ids are ids of rows, each once.
    obtain ⟨level, cut, hlevel, -⟩ := h.search
    have := length_le_rows hlevel.visited_nodup h.visited
    dsimp only at this
    omega
  | succ fuel ih =>
    obtain ⟨visited, queue, remaining, limit, timedOut⟩ := st
    rcases queue with _ | ⟨item, queue⟩
    · exact Prog.Returns.pure ⟨_, _, events, rfl, .exhausted h rfl⟩
    · unfold searchLoop
      dsimp only at hfuel ⊢
      rw [h.path_length hsize]
      split
      · rename_i hlong
        refine ih (h.drop hlong) ?_
        dsimp only [List.length_cons] at hfuel ⊢
        omega
      · rename_i hshort
        have hshort : item.path.length ≤ maxDepth := Nat.le_of_not_lt hshort
        obtain ⟨hnode, hid, -⟩ := h.items item List.mem_cons_self
        rw [hid]
        refine Prog.Returns.bind (h.expanding.step hwf₀ hnode h.first)
          fun exp w₁ hw₁ => ?_
        obtain ⟨events', hreads, hrefused, hexp⟩ := hw₁
        refine Prog.Returns.bind_run (run_getNeighbors S w₁ _ _ _) ?_
        by_cases hto : toId ∈ calleeIds w₁.db item.node.id
        · -- The target is among the callees: the loop returns.
          obtain ⟨callee, hcallee, hcid, hscan⟩ := scanCallees_found item.path visited queue
            ((callees_map_id w₁.db item.node.id).symm ▸ hto)
          rw [hscan]
          exact Prog.Returns.pure
            ⟨_, _, events', rfl, h.found hshort hexp hreads hto hcallee hcid⟩
        · -- It is not, and each callee that is enqueued is visited from now on.
          obtain ⟨visited', queue', hscan, heq, hitems⟩ := scanCallees_not_found item.path visited
            queue ((callees_map_id w₁.db item.node.id).symm ▸ hto)
          rw [hscan]
          rw [callees_map_id] at heq
          have hlen := enqueue_length (item.path.map (·.id)) (calleeIds w₁.db item.node.id) visited
            (queue.map (·.ids))
          rw [← heq] at hlen
          refine ih (h.expand hshort hexp hreads (fun hl => ?_) (fun hl => ?_) hto heq hitems _) ?_
          · rw [hl, Bool.true_or]
          · exact ((Bool.or_eq_true _ _).mp hl).imp_right fun hl => hrefused (by simpa using hl)
          · simp only [List.length_cons, List.length_map] at hfuel hlen ⊢
            omega

end Loop

end Semnav.Query
