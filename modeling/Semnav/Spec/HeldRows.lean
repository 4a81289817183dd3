import Semnav.ForStd.Pending
import Semnav.Spec.Marker

/-!
# Rows that a query holds

Between two commands a query holds ids of rows that it has read, and later writes edges, a
cache row or a marker about them.  A reconcile that deletes such a row in between makes the
write fail on its foreign key, and the query with it.

## Key results

- `shown_uses`: a query writes about no row that it has not read
- `queries_return`: no query fails in a run whose reconciles spare the rows that queries in
  flight still need
- `needed_row_deleted`: two reconciles are enough to fail a `find_references` for a class
-/

namespace Semnav.Query

open Semnav.ForStd Semnav.Graph Semnav.Indexer Semnav.Adapters

/-! ## References -/

/-- The rows that a command refers to by a foreign key. -/
def Cmd.refs {β : Type} : Cmd β → List RowId
  | .db (.upsertEdge e) => [e.srcId, e.dstId]
  | .db (.setCalleesCacheHash id _) => [id]
  | .db (.markMaterialized id _) => [id]
  | _ => []

/-- The rows that a reply tells of. -/
def Cmd.rows {β : Type} : Cmd β → β → List RowId
  | .db (.getNode _), node => (node.map (·.id)).toList
  | .db (.getNodeByFqn _), node => (node.map (·.id)).toList
  | .db (.findNodeByPosition ..), node => (node.map (·.id)).toList
  | .db (.getNeighbors ..), rows => rows.map (·.1.id)
  | .db (.listNodes _), nodes => nodes.map (·.id)
  | _, _ => []

/-- The command refers to the row. -/
def RefersTo (id : RowId) (β : Type) (c : Cmd β) : Prop := id ∈ c.refs

/-- The exchange tells of the row. -/
def TellsOf (id : RowId) (e : Exchange Cmd) : Prop := id ∈ e.cmd.rows e.reply

/-- A task is still going to refer to the row, unless it reads it again before. -/
abbrev NeededRow (tasks : List (Task Cmd (List String))) (id : RowId) : Prop :=
  System.Needed RefersTo TellsOf tasks id

/-- The part of a query refers to rows in `K` only, as long as it is told of no others, and its
    result has `Q`. -/
abbrev Uses (K : RowId → Prop) {α : Type} (x : QueryM α) (Q : α → Prop) : Prop :=
  Prog.UsesOnly RefersTo TellsOf K Q x

section Handle

variable {β : Type} {S : Servers}

/-- No command of a query deletes a row. -/
private theorem handle_hasNode (c : Cmd β) (w : World) (id : RowId) (h : w.db.hasNode id = true) :
    (c.handle S w).2.db.hasNode id = true := by
  by_cases hc : c.kind = .storeHover
  · cases c with
    | db c =>
      cases c with
      | updateNodeConstruct | updateNodeSignature | updateNodeSignatureByFqn =>
        -- A hover is stored in a row that keeps its id.
        obtain ⟨n, hn, rfl⟩ := (w.db.hasNode_iff id).mp h
        refine (Db.hasNode_iff _ _).mpr ⟨_, List.mem_map.mpr ⟨n, hn, rfl⟩, ?_⟩
        split
        · rfl
        · rfl
      | _ => exact nomatch hc
    | _ => exact nomatch hc
  · rw [Db.hasNode_congr (handle_nodes hc w)]
    exact h

/-- A query is told of rows that are there. -/
private theorem handle_tellsOf {c : Cmd β} {w w' : World} {b : β} (hc : c.handle S w = (.ok b, w'))
    {id : RowId} (h : TellsOf id ⟨c, b⟩) : w.db.hasNode id = true := by
  -- A row that is told was found, so it is in the graph.
  have hfound : ∀ {node : Option Node}, (∀ n, node = some n → n ∈ w.db.nodes) →
      id ∈ (node.map (·.id)).toList → w.db.hasNode id = true := by
    intro node hmem hid
    obtain ⟨n, hn, rfl⟩ := Option.map_eq_some_iff.mp (Option.mem_toList.mp hid)
    exact Db.hasNode_of_mem (hmem n hn)
  -- The five commands that tell a row each read it from the graph.
  cases c with
  | db c =>
    cases c with
    | getNode id' =>
      cases hc
      exact hfound (fun n hn => List.mem_of_find?_eq_some hn) h
    | getNodeByFqn fqn =>
      cases hc
      exact hfound (fun n hn => getNodeByFqn_mem hn) h
    | findNodeByPosition uri line col =>
      cases hc
      exact hfound (fun n hn => (Db.findNodeByPosition_mem hn).1) h
    | getNeighbors id' t dir =>
      cases hc
      obtain ⟨row, hrow, rfl⟩ := List.mem_map.mp h
      exact Db.hasNode_of_mem (Db.getNeighbors_valid hrow).1
    | listNodes language =>
      cases hc
      obtain ⟨n, hn, rfl⟩ := List.mem_map.mp h
      exact Db.hasNode_of_mem (List.mem_filter.mp ((List.mem_insertionSort _).mp hn)).1
    | _ => exact absurd h List.not_mem_nil
  | _ => exact absurd h List.not_mem_nil

/-- A command succeeds if the rows that it refers to are there. -/
private theorem handle_ok (c : Cmd β) (w : World)
    (h : ∀ id, RefersTo id β c → w.db.hasNode id = true) :
    ∃ b w', c.handle S w = (.ok b, w') := by
  cases c with
  | db c =>
    suffices hexec : ∃ b d', c.exec w.db = .ok (b, d') by
      obtain ⟨b, d', hexec⟩ := hexec
      simp [Cmd.handle, hexec]
    cases c with
    -- Only three commands refer to rows: the edge to its ends, the two marks to their anchor.
    | upsertEdge e =>
      obtain ⟨d', id, hd'⟩ := Db.upsertEdge_total w.db e (h _ List.mem_cons_self)
        (h _ (List.mem_cons_of_mem _ List.mem_cons_self))
      exact ⟨id, d', exec_upsertEdge_iff.mpr hd'⟩
    | setCalleesCacheHash id hash =>
      have hid := h id List.mem_cons_self
      exact ⟨(), _, exec_setCalleesCacheHash_iff.mpr ⟨hid, rfl⟩⟩
    | markMaterialized id t =>
      have hid := h id List.mem_cons_self
      exact ⟨(), _, exec_markMaterialized_iff.mpr ⟨hid, rfl⟩⟩
    | _ => exact ⟨_, _, rfl⟩
  | _ => exact ⟨_, _, rfl⟩

end Handle

/-! ## The parts of a query -/

/-- A command of this kind refers to no row. -/
def CmdKind.refersToNone : CmdKind → Prop
  | .upsertEdge _ | .setCache | .mark => False
  | _ => True

/-- Such a command has no row id in it. -/
theorem Cmd.refs_eq_nil {β : Type} {c : Cmd β} (hc : c.kind.refersToNone) : c.refs = [] := by
  cases c with
  | db c =>
    cases c with
    | upsertEdge | setCalleesCacheHash | markMaterialized => exact absurd hc id
    | _ => rfl
  | _ => rfl

section Parts

variable {K : RowId → Prop} {α β : Type}

/-- A part that refers to nothing. -/
theorem uses_of_onlyKinds {x : QueryM α} (hx : OnlyKinds CmdKind.refersToNone x) :
    Uses K x fun _ => True := by
  refine Prog.Issues.under (Prog.Issues.mono hx fun β c hc => ?_)
  intro id hid
  rw [RefersTo, Cmd.refs_eq_nil hc] at hid
  exact absurd hid List.not_mem_nil

/-- A read of one node. -/
private theorem uses_read {c : DbCmd (Option Node)} (hc : (Cmd.db c).refs = [])
    (hrows : ∀ node, (Cmd.db c).rows node = (node.map (·.id)).toList) :
    Uses K (db c) fun node => ∀ n, node = some n → K n.id := by
  refine Prog.Under.perform (fun id hid => ?_) fun node hnode n hn => ?_
  · rw [RefersTo, hc] at hid
    exact absurd hid List.not_mem_nil
  · apply hnode
    rw [TellsOf, hrows, hn]
    exact List.mem_cons_self

/-- The node at a span is in the graph. -/
theorem nodeAt_uses (uri : String) (r : LspRange) :
    Uses K (nodeAt uri r) fun node => ∀ n, node = some n → K n.id :=
  uses_read rfl fun _ => rfl

/-- The node of a name is held. -/
private theorem getNodeByFqn_uses (fqn : String) :
    Uses K (db (.getNodeByFqn fqn)) fun node => ∀ n, node = some n → K n.id :=
  uses_read rfl fun _ => rfl

/-- An edge is upserted between rows that are there. -/
private theorem upsertEdge_uses {e : Edge} (hsrc : K e.srcId) (hdst : K e.dstId) :
    Uses K (db (.upsertEdge e)) fun _ => True := by
  refine Prog.Under.perform (fun id hid => ?_) fun _ _ => trivial
  cases List.mem_cons.mp hid with
  | inl h => exact h ▸ hsrc
  | inr h => exact List.mem_singleton.mp h ▸ hdst

/-- Neighbors are in the graph. -/
private theorem getNeighbors_uses (id : RowId) (t : EdgeType) (dir : Direction) :
    Uses K (db (.getNeighbors id t dir)) fun rows => ∀ row ∈ rows, K row.1.id := by
  refine Prog.Under.perform (fun id hid => absurd hid List.not_mem_nil) fun rows hrows row hrow => ?_
  exact hrows row.1.id (List.mem_map.mpr ⟨row, hrow, rfl⟩)

/-- The first location that is indexed is held. -/
private theorem firstResolved_uses (locs : List Location) :
    Uses K (firstResolved locs) fun node => ∀ n, node = some n → K n.id := by
  induction locs with
  | nil =>
    refine Prog.Under.pure fun n hn => ?_
    cases hn
  | cons loc rest ih =>
    refine Prog.Under.bind (nodeAt_uses loc.uri loc.range) fun node hnode => ?_
    cases node with
    | some node => exact Prog.Under.pure hnode
    | none => exact ih

/-- The anchor of a reference is held. -/
theorem resolveAnchor_uses (symref : SymbolRef) (client : Option Client) :
    Uses K (QueryEngine.resolveAnchor symref client) fun r => ∀ n, r.1 = some n → K n.id := by
  cases symref with
  | fqn fqn => exact Prog.Under.bind (getNodeByFqn_uses fqn) fun node hnode => Prog.Under.pure hnode
  | «at» uri line character =>
    have hposition : Uses K (db (.findNodeByPosition uri line character))
        fun node => ∀ n, node = some n → K n.id := uses_read rfl fun _ => rfl
    cases client with
    | none => exact Prog.Under.bind hposition fun node hnode => Prog.Under.pure hnode
    | some client =>
      refine Prog.Under.bind (uses_of_onlyKinds (onlyKinds_request client trivial)) fun reply _ => ?_
      refine Prog.Under.bind (firstResolved_uses _) fun node hnode => ?_
      cases node with
      | some node => exact Prog.Under.pure hnode
      | none => exact Prog.Under.bind hposition fun node hnode => Prog.Under.pure hnode

/-- Opening a document refers to no row. -/
private theorem ensureOpen_uses (uri : String) (client : Client) :
    Uses K (ensureOpen uri client) fun _ => True :=
  uses_of_onlyKinds (ensureOpen_onlyKinds trivial trivial uri client)

/-- References are upserted into the anchor. -/
private theorem addReferences_uses {anchorId : RowId} (hanchor : K anchorId)
    (locs : List Location) :
    Uses K (addReferences anchorId locs) fun _ => True := by
  induction locs with
  | nil => exact Prog.Under.pure trivial
  | cons loc rest ih =>
    refine Prog.Under.bind (nodeAt_uses loc.uri loc.range) fun container hcontainer => ?_
    cases container with
    | none => exact ih
    | some container =>
      exact Prog.Under.bind (upsertEdge_uses (hcontainer container rfl) hanchor) fun _ _ => ih

/-- A materialization refers to its anchor and to what it has looked up. -/
private theorem materializeReferences_uses {anchorId : RowId} (hanchor : K anchorId) (anchor : Node)
    (client : Client) : Uses K (materializeReferences anchorId anchor client) fun _ => True := by
  refine Prog.Under.bind (uses_of_onlyKinds (onlyKinds_request client trivial)) fun reply _ => ?_
  exact Prog.Under.bind (addReferences_uses hanchor _) fun _ _ => Prog.Under.pure trivial

/-- Calls are upserted between two rows that are held. -/
private theorem addCallSites_uses {src dst : RowId} (hsrc : K src) (hdst : K dst) (uri : String)
    (ranges : List LspRange) : Uses K (addCallSites src dst uri ranges) fun _ => True := by
  induction ranges with
  | nil => exact Prog.Under.pure trivial
  | cons range rest ih => exact Prog.Under.bind (upsertEdge_uses hsrc hdst) fun _ _ => ih

/-- The caller of an item is in the graph. -/
private theorem incomingCaller_uses (rootUri : String) (item : CallHierarchyItem) :
    Uses K (incomingCaller rootUri item) fun node => ∀ n, node = some n → K n.id := by
  unfold incomingCaller
  split
  · exact getNodeByFqn_uses _
  · exact nodeAt_uses _ _

/-- The callers are looked up and linked to the anchor. -/
private theorem addIncoming_uses {anchorId : RowId} (hanchor : K anchorId) (rootUri : String)
    (calls : List IncomingCall) : Uses K (addIncoming rootUri anchorId calls) fun _ => True := by
  induction calls with
  | nil => exact Prog.Under.pure trivial
  | cons call rest ih =>
    refine Prog.Under.bind (incomingCaller_uses rootUri call.from) fun caller hcaller => ?_
    cases caller with
    | none => exact ih
    | some caller =>
      exact Prog.Under.bind (addCallSites_uses (hcaller caller rfl) hanchor _ _) fun _ _ => ih

/-- The implementations that are returned are in the graph. -/
private theorem addImplementations_uses {calleeId : RowId} (hcallee : K calleeId)
    (locs : List Location) :
    Uses K (addImplementations calleeId locs) fun ids => ∀ id ∈ ids, K id := by
  induction locs with
  | nil => exact Prog.Under.pure fun id hid => absurd hid List.not_mem_nil
  | cons loc rest ih =>
    refine Prog.Under.bind (nodeAt_uses loc.uri loc.range) fun concrete hconcrete => ?_
    cases concrete with
    | none => exact ih
    | some concrete =>
      have hid := hconcrete concrete rfl
      refine Prog.Under.bind (upsertEdge_uses hcallee hid) fun _ _ => ?_
      refine Prog.Under.bind ih fun ids hids => Prog.Under.pure fun id hmem => ?_
      cases List.mem_cons.mp hmem with
      | inl h => exact h ▸ hid
      | inr h => exact hids id h

/-- The targets that a callee stands for are held. -/
private theorem resolveOutgoingCallee_uses {callee : Node} (hcallee : K callee.id) (anchor : Node)
    (client : Client) :
    Uses K (resolveOutgoingCallee anchor callee client) fun r => ∀ id ∈ r.1, K id := by
  have hself : ∀ id ∈ [callee.id], K id := fun id hid => List.mem_singleton.mp hid ▸ hcallee
  unfold resolveOutgoingCallee
  split
  · -- Only TypeScript and Go anchors are asked further, and of their callees only an interface's.
    exact Prog.Under.pure hself
  · refine Prog.Under.bind (uses_of_onlyKinds (inInterface_onlyKinds trivial callee))
      fun interface _ => ?_
    split
    · exact Prog.Under.pure hself
    · -- The implementations the server names are added, with the callee itself as the fallback.
      refine Prog.Under.bind (ensureOpen_uses _ _) fun _ _ => ?_
      refine Prog.Under.bind (uses_of_onlyKinds (onlyKinds_request client trivial))
        fun reply _ => ?_
      refine Prog.Under.bind (addImplementations_uses hcallee _) fun ids hids => ?_
      split
      · exact Prog.Under.pure hself
      · exact Prog.Under.pure hids

/-- The anchor is linked to its targets. -/
private theorem addTargets_uses {anchorId : RowId} (hanchor : K anchorId) (uri : String)
    (ranges : List LspRange) {targets : List RowId} (htargets : ∀ id ∈ targets, K id) :
    Uses K (addTargets anchorId uri ranges targets) fun _ => True := by
  induction targets with
  | nil => exact Prog.Under.pure trivial
  | cons target rest ih =>
    have htarget := htargets target List.mem_cons_self
    exact Prog.Under.bind (addCallSites_uses hanchor htarget _ _) fun _ _ =>
      ih fun id hid => htargets id (List.mem_cons_of_mem _ hid)

/-- The callees are looked up and linked to the anchor. -/
private theorem addOutgoing_uses {anchorId : RowId} (hanchor : K anchorId) (anchor : Node)
    (client : Client)
    (calls : List OutgoingCall) :
    Uses K (addOutgoing anchorId anchor client calls) fun _ => True := by
  induction calls with
  | nil => exact Prog.Under.pure trivial
  | cons call rest ih =>
    refine Prog.Under.bind (nodeAt_uses _ _) fun callee hcallee => ?_
    cases callee with
    | none => exact ih
    | some callee =>
      refine Prog.Under.bind (resolveOutgoingCallee_uses (hcallee callee rfl) anchor client)
        fun resolved hresolved => ?_
      refine Prog.Under.bind (addTargets_uses hanchor _ _ hresolved) fun _ _ => ?_
      exact Prog.Under.bind ih fun _ _ => Prog.Under.pure trivial

/-- Either direction refers to the anchor and to what was looked up. -/
private theorem materializeCallEdges_uses {anchorId : RowId} (hanchor : K anchorId)
    (rootUri : String)
    (anchor : Node) (dir : Direction) (client : Client) :
    Uses K (materializeCallEdges rootUri anchorId anchor dir client) fun _ => True := by
  refine Prog.Under.bind (uses_of_onlyKinds (onlyKinds_request client trivial)) fun reply _ => ?_
  dsimp only
  split
  · exact Prog.Under.pure trivial
  · cases dir with
    | incoming =>
      refine Prog.Under.bind (uses_of_onlyKinds (onlyKinds_request client trivial)) fun reply _ => ?_
      exact Prog.Under.bind (addIncoming_uses hanchor _ _) fun _ _ => Prog.Under.pure trivial
    | outgoing =>
      refine Prog.Under.bind (uses_of_onlyKinds (onlyKinds_request client trivial)) fun reply _ => ?_
      exact Prog.Under.bind (addOutgoing_uses hanchor _ _ _) fun _ _ => Prog.Under.pure trivial

/-! ## The engine -/

/-- The cache row belongs to the anchor. -/
private theorem setCache_uses {anchorId : RowId} (hanchor : K anchorId) (hash : String) :
    Uses K (db (.setCalleesCacheHash anchorId hash)) fun _ => True :=
  Prog.Under.perform (fun _ hid => List.mem_singleton.mp hid ▸ hanchor) fun _ _ => trivial

/-- The marker belongs to the anchor. -/
private theorem mark_uses {anchorId : RowId} (hanchor : K anchorId) (t : EdgeType) :
    Uses K (db (.markMaterialized anchorId t)) fun _ => True :=
  Prog.Under.perform (fun _ hid => List.mem_singleton.mp hid ▸ hanchor) fun _ _ => trivial

/-- The hash is stored for the anchor. -/
private theorem storeHash_uses {anchorId : RowId} (hanchor : K anchorId) (hash : Option String) :
    Uses K (QueryEngine.storeHash anchorId hash) fun _ => True := by
  cases hash with
  | none => exact Prog.Under.pure trivial
  | some hash => exact setCache_uses hanchor hash

/-- The invalidation is of the anchor's calls. -/
private theorem rematerialize_uses {anchorId : RowId} (hanchor : K anchorId) (engine : QueryEngine)
    (anchor : Node) (client : Client) :
    Uses K (engine.rematerialize anchorId anchor client) fun _ => True :=
  Prog.Under.bind (uses_of_onlyKinds (onlyKinds_db trivial)) fun _ _ =>
    materializeCallEdges_uses hanchor _ _ _ _

/-- The miss path. -/
private theorem missPath_uses {anchorId : RowId} (hanchor : K anchorId) (engine : QueryEngine)
    (anchor : Node) (client : Client) (hash : Option String) (f : Bool → α) :
    Uses K (missPath engine anchorId anchor client hash f) fun _ => True := by
  refine Prog.Under.bind (rematerialize_uses hanchor engine anchor client) fun _ _ => ?_
  exact Prog.Under.bind (storeHash_uses hanchor hash) fun _ _ => Prog.Under.pure trivial

/-- The check of `find_callees` refers to its anchor. -/
private theorem refreshCallees_uses {anchorId : RowId} (hanchor : K anchorId) (engine : QueryEngine)
    (anchor : Node) (client : Client) :
    Uses K (engine.refreshCallees anchorId anchor client) fun _ => True := by
  refine Prog.Under.bind (uses_of_onlyKinds (onlyKinds_readFileText trivial)) fun text _ => ?_
  refine Prog.Under.bind (uses_of_onlyKinds (openText_onlyKinds trivial client _ text)) fun _ _ => ?_
  refine Prog.Under.bind (uses_of_onlyKinds (isFresh_onlyKinds trivial _ _)) fun fresh _ => ?_
  cases fresh with
  | true => exact Prog.Under.pure trivial
  | false => exact missPath_uses hanchor engine anchor client _ id

/-- An expansion of the search refers to held rows only. -/
private theorem expandOutgoingCalls_uses {anchorId : RowId} (hanchor : K anchorId)
    (engine : QueryEngine)
    (anchor : Node) (client : Option Client) (remaining : Nat) :
    Uses K (engine.expandOutgoingCalls anchorId anchor client remaining) fun _ => True := by
  cases client with
  | none => exact Prog.Under.pure trivial
  | some client =>
    refine Prog.Under.bind (uses_of_onlyKinds (onlyKinds_readFileText trivial)) fun text _ => ?_
    refine Prog.Under.bind (uses_of_onlyKinds (openText_onlyKinds trivial client _ text)) fun _ _ => ?_
    refine Prog.Under.bind (uses_of_onlyKinds (isFresh_onlyKinds trivial _ _)) fun fresh _ => ?_
    cases fresh with
    | true => exact Prog.Under.pure trivial
    | false =>
      simp only [Bool.false_eq_true, if_false]
      split
      · exact Prog.Under.pure trivial
      · exact missPath_uses hanchor engine anchor client _ _

/-- Hints are names only. -/
theorem hints_uses (engine : QueryEngine) (symref : SymbolRef) :
    Uses K (engine.hintFqnsForSymref symref) fun _ => True :=
  uses_of_onlyKinds (hintFqnsForSymref_onlyKinds trivial engine symref)

/-- A page is read, and none of its rows is written to. -/
private theorem readCallsPage_uses (anchorId : RowId) (dir : Direction) (filter : Filter)
    (page : Page) :
    Uses K (QueryEngine.readCallsPage anchorId dir filter page) fun _ => True :=
  uses_of_onlyKinds (readCallsPage_onlyKinds trivial ..)

/-- `find_callees` refers to its anchor. -/
private theorem engine_findCallees_uses (engine : QueryEngine) (symref : SymbolRef)
    (filter : Filter)
    (page : Page) (client : Option Client) :
    Uses K (engine.findCallees symref filter page client) fun _ => True := by
  refine Prog.Under.bind (resolveAnchor_uses symref client) fun r hr => ?_
  obtain ⟨anchor, timedOut⟩ := r
  cases anchor with
  | none => exact Prog.Under.bind (hints_uses engine symref) fun _ _ => Prog.Under.pure trivial
  | some anchor =>
    -- The page is read last, whatever the refresh did.
    have hpage : ∀ t, Uses K (do
        let result ← QueryEngine.readCallsPage anchor.id .outgoing filter page
        pure (result, timedOut || t)) fun _ => True := fun t =>
      Prog.Under.bind (readCallsPage_uses ..) fun _ _ => Prog.Under.pure trivial
    cases client with
    | none => exact hpage false
    | some client =>
      exact Prog.Under.bind (refreshCallees_uses (hr anchor rfl) engine anchor client)
        fun t _ => hpage t

/-- The scan queues callees that the search has just been told of. -/
private theorem scanCallees_held {toId : RowId} {path callees : List Node}
    {visited visited' : List RowId}
    {queue queue' : List QueryEngine.QueueItem} (hcallees : ∀ n ∈ callees, K n.id)
    (hqueue : ∀ item ∈ queue, K item.nodeId)
    (h : QueryEngine.scanCallees toId path callees visited queue = .inr (visited', queue')) :
    ∀ item ∈ queue', K item.nodeId := by
  -- Induction on the callees: a found target ends the scan, a visited one is passed over.
  induction callees generalizing visited queue with
  | nil =>
    cases h
    exact hqueue
  | cons callee rest ih =>
    have hrest : ∀ n ∈ rest, K n.id := fun n hn => hcallees n (List.mem_cons_of_mem _ hn)
    unfold QueryEngine.scanCallees at h
    split at h
    · cases h
    · split at h
      · exact ih hrest hqueue h
      · refine ih hrest (fun item hitem => ?_) h
        cases List.mem_append.mp hitem with
        | inl hold => exact hqueue item hold
        -- What is put in the queue is a callee, which is held.
        | inr hnew =>
          rw [List.mem_singleton.mp hnew]
          exact hcallees callee List.mem_cons_self

/-- The search refers to the nodes in its queue, which it has read. -/
private theorem searchLoop_uses (engine : QueryEngine) (toId : RowId) (maxDepth : Nat)
    (client : Option Client) (fuel : Nat) {st : QueryEngine.SearchState}
    (hqueue : ∀ item ∈ st.queue, K item.nodeId) :
    Uses K (engine.searchLoop toId maxDepth client fuel st) fun _ => True := by
  induction fuel generalizing st with
  | zero => exact Prog.Under.pure trivial
  | succ fuel ih =>
    unfold QueryEngine.searchLoop
    split
    · exact Prog.Under.pure trivial
    · rename_i item queue hq
      rw [hq] at hqueue
      have hitem := hqueue item List.mem_cons_self
      have hrest : ∀ item ∈ queue, K item.nodeId := fun item hitem =>
        hqueue item (List.mem_cons_of_mem _ hitem)
      split
      · exact ih hrest
      · refine Prog.Under.bind (expandOutgoingCalls_uses hitem engine _ client _) fun expansion _ => ?_
        refine Prog.Under.bind (getNeighbors_uses _ _ _) fun rows hrows => ?_
        split
        · exact Prog.Under.pure trivial
        · rename_i visited queue' hscan
          apply ih
          refine scanCallees_held (fun n hn => ?_) hrest hscan
          -- A callee is the node of a row.
          obtain ⟨g, hg, rfl⟩ := List.mem_map.mp hn
          obtain ⟨row, hrow, heq⟩ := groupByNode_node hg
          exact heq ▸ hrows row hrow

/-- A path search starts at an anchor and refers to held rows only. -/
private theorem engine_findCallPath_uses (engine : QueryEngine) (fuel : Nat) (from_ to_ : SymbolRef)
    (maxDepth maxLspCalls : Nat) (client : Option Client) :
    Uses K (engine.findCallPath fuel from_ to_ maxDepth maxLspCalls client) fun _ => True := by
  refine Prog.Under.bind (resolveAnchor_uses from_ client) fun r₁ hr₁ => ?_
  obtain ⟨fromAnchor, fromTimedOut⟩ := r₁
  refine Prog.Under.bind (resolveAnchor_uses to_ client) fun r₂ hr₂ => ?_
  obtain ⟨toAnchor, toTimedOut⟩ := r₂
  dsimp only
  split
  · rename_i fromNode toNode
    split
    · exact Prog.Under.pure trivial
    · apply searchLoop_uses
      intro item hitem
      rw [List.mem_singleton.mp hitem]
      exact hr₁ fromNode rfl
  · -- An end that did not resolve gets hints.
    split
    · refine Prog.Under.bind (hints_uses engine from_) fun _ _ => ?_
      split
      · exact Prog.Under.bind (hints_uses engine to_) fun _ _ => Prog.Under.pure trivial
      · exact Prog.Under.pure trivial
    · show Uses K (if toAnchor.isNone then _ else _) fun _ => True
      split
      · exact Prog.Under.bind (hints_uses engine to_) fun _ _ => Prog.Under.pure trivial
      · exact Prog.Under.pure trivial

/-! ## The tools -/

/-- A hover is stored by fqn or for a row that was looked up, and refers to none that is needed. -/
private theorem refersToNone_hovers : Hovers CmdKind.refersToNone :=
  ⟨trivial, trivial, trivial, trivial, trivial⟩

/-- Backfilling signatures refers to no row. -/
private theorem withSignatures_uses (withSignature : Bool) (client : Client)
    (result : CallGraphResult) :
    Uses K (QueryRuntime.withSignatures withSignature client result) fun _ => True :=
  uses_of_onlyKinds (withSignatures_onlyKinds refersToNone_hovers ..)

/-- Spawning a refresh writes nothing; it refers to its anchor when it runs. -/
private theorem spawnRefresh_uses (r : Refresh) :
    Uses K (Prog.perform (.spawnRefresh r)) fun _ => True :=
  uses_of_onlyKinds (Prog.Issues.perform (c := Cmd.spawnRefresh r) trivial)

variable (rt : QueryRuntime)

/-- Acquiring a client refers to no row. -/
theorem clientFor_uses (symref : SymbolRef) : Uses K (rt.clientFor symref) fun _ => True :=
  uses_of_onlyKinds (clientFor_onlyKinds trivial trivial rt symref)

/-- The tool `find_references` as a whole. -/
private theorem findReferences_uses (symref : SymbolRef) (filter : Filter) (page : Page) :
    Uses K (rt.findReferences symref filter page) fun _ => True := by
  have hpage : ∀ id, Uses K (QueryEngine.referencesFromCache id filter page) fun _ => True :=
    fun id => uses_of_onlyKinds (referencesFromCache_onlyKinds trivial ..)
  refine Prog.Under.bind (clientFor_uses rt symref) fun acquired _ => ?_
  obtain ⟨client, degradation⟩ := acquired
  refine Prog.Under.bind (resolveAnchor_uses symref client) fun r hr => ?_
  -- The anchor is a row that the resolution told, so it may be referred to.
  obtain ⟨anchor, timedOut⟩ := r
  dsimp only
  split
  · exact Prog.Under.bind (hints_uses rt.toQueryEngine symref) fun _ _ => Prog.Under.pure trivial
  · exact Prog.Under.bind (hpage _) fun _ _ => Prog.Under.pure trivial
  · rename_i anchor client
    have hanchor := hr anchor rfl
    refine Prog.Under.bind (ensureOpen_uses _ _) fun _ _ => ?_
    refine Prog.Under.bind (uses_of_onlyKinds (onlyKinds_db trivial)) fun warm _ => ?_
    -- A warm anchor is read and refreshed, a cold one is materialized and marked first.
    split
    · refine Prog.Under.bind (hpage _) fun _ _ => ?_
      exact Prog.Under.bind (spawnRefresh_uses _) fun _ _ => Prog.Under.pure trivial
    · refine Prog.Under.bind (materializeReferences_uses hanchor _ _) fun _ _ => ?_
      refine Prog.Under.bind (mark_uses hanchor _) fun _ _ => ?_
      refine Prog.Under.bind (hpage _) fun _ _ => ?_
      exact Prog.Under.bind (spawnRefresh_uses _) fun _ _ => Prog.Under.pure trivial

/-- The tool `find_callers` as a whole. -/
private theorem findCallers_uses (symref : SymbolRef) (filter : Filter) (page : Page)
    (withSignature : Bool) :
    Uses K (rt.findCallers symref filter page withSignature) fun _ => True := by
  refine Prog.Under.bind (clientFor_uses rt symref) fun acquired _ => ?_
  obtain ⟨client, degradation⟩ := acquired
  refine Prog.Under.bind (resolveAnchor_uses symref client) fun r hr => ?_
  -- The anchor is a row that the resolution told, so it may be referred to.
  obtain ⟨anchor, timedOut⟩ := r
  dsimp only
  split
  · exact Prog.Under.bind (hints_uses rt.toQueryEngine symref) fun _ _ => Prog.Under.pure trivial
  · exact Prog.Under.bind (readCallsPage_uses ..) fun _ _ => Prog.Under.pure trivial
  · rename_i anchor client
    have hanchor := hr anchor rfl
    refine Prog.Under.bind (ensureOpen_uses _ _) fun _ _ => ?_
    refine Prog.Under.bind (uses_of_onlyKinds (onlyKinds_db trivial)) fun warm _ => ?_
    -- A warm anchor is read and refreshed, a cold one is materialized and marked first.
    split
    · refine Prog.Under.bind (readCallsPage_uses ..) fun _ _ => ?_
      refine Prog.Under.bind (withSignatures_uses ..) fun _ _ => ?_
      exact Prog.Under.bind (spawnRefresh_uses _) fun _ _ => Prog.Under.pure trivial
    · refine Prog.Under.bind (materializeCallEdges_uses hanchor _ _ _ _) fun _ _ => ?_
      refine Prog.Under.bind (mark_uses hanchor _) fun _ _ => ?_
      refine Prog.Under.bind (readCallsPage_uses ..) fun _ _ => ?_
      refine Prog.Under.bind (withSignatures_uses ..) fun _ _ => ?_
      exact Prog.Under.bind (spawnRefresh_uses _) fun _ _ => Prog.Under.pure trivial

/-- The tool `find_callees` as a whole. -/
private theorem findCallees_uses (symref : SymbolRef) (filter : Filter) (page : Page)
    (withSignature : Bool) :
    Uses K (rt.findCallees symref filter page withSignature) fun _ => True := by
  refine Prog.Under.bind (clientFor_uses rt symref) fun acquired _ => ?_
  obtain ⟨client, degradation⟩ := acquired
  refine Prog.Under.bind (engine_findCallees_uses _ symref filter page client) fun found _ => ?_
  obtain ⟨result, timedOut⟩ := found
  cases client with
  | none => exact Prog.Under.pure trivial
  | some client => exact Prog.Under.bind (withSignatures_uses ..) fun _ _ => Prog.Under.pure trivial

/-- The tool `find_call_path` as a whole. -/
private theorem findCallPath_uses (fuel : Nat) (from_ to_ : SymbolRef)
    (maxDepth maxLspCalls : Nat) :
    Uses K (rt.findCallPath fuel from_ to_ maxDepth maxLspCalls) fun _ => True := by
  refine Prog.Under.bind (clientFor_uses rt from_) fun acquired _ => ?_
  exact Prog.Under.bind (engine_findCallPath_uses ..) fun _ _ => Prog.Under.pure trivial

/-- A query writes about no row that it has not been told of. -/
private theorem shown_uses (call : ToolCall) : Uses K (call.shown rt) fun _ => True := by
  -- What is shown is computed from the answer without another command.
  have hdone : ∀ fqns : List String, Uses K (pure fqns : QueryM (List String)) fun _ => True :=
    fun _ => Prog.Under.pure trivial
  cases call with
  | findSymbol pattern mode ignoreCase options filter page =>
    exact Prog.Under.bind (uses_of_onlyKinds
      (findSymbol_onlyKinds refersToNone_hovers trivial rt ..)) fun _ _ => hdone _
  | findDefinition symref =>
    exact Prog.Under.bind (uses_of_onlyKinds
      (findDefinition_onlyKinds refersToNone_hovers trivial trivial rt symref)) fun _ _ => hdone _
  | findReferences symref filter page =>
    exact Prog.Under.bind (findReferences_uses rt symref filter page) fun _ _ => hdone _
  | findCallers symref filter page withSignature =>
    exact Prog.Under.bind (findCallers_uses rt symref filter page withSignature) fun _ _ => hdone _
  | findCallees symref filter page withSignature =>
    exact Prog.Under.bind (findCallees_uses rt symref filter page withSignature) fun _ _ => hdone _
  | findCallPath fuel from_ to_ maxDepth maxLspCalls =>
    refine Prog.Under.bind (findCallPath_uses rt fuel from_ to_ maxDepth maxLspCalls)
      fun found _ => ?_
    cases found with
    | none => exact hdone _
    | some found => exact hdone _

end Parts

/-! ## Runs -/

/-- The tasks are queries. -/
def IsCall (rt : QueryRuntime) (x : QueryM (List String)) : Prop := ∃ call : ToolCall, x = call.shown rt

/-- A step of everything else: a reconcile, an upsert of an index pass, an edit of a file. -/
def AnyStep (H : Hasher) (_ : List (Task Cmd (List String))) : World → World → Prop := EnvStep H

/-- The step is a reconcile that gives a row its second strike: the row had its first one, and no
    symbol matches it. -/
def StrikesOut (H : Hasher) (w w' : World) (id : RowId) : Prop :=
  ∃ (args : FileArgs) (syms : List ReconcileSymbol) (db' : Db) (o : ReconcileOutcome) (old : Node),
    reconcileFileSymbols H w.db args syms = .ok (db', o) ∧ w' = w.setDb db' ∧ old.id = id ∧
    old ∈ w.db.nodesByUri args.uri ∧ old.orphan = true ∧ ∀ i, claimedRow
      (w.db.nodesByUri args.uri) (matchSymbols H (w.db.nodesByUri args.uri) syms) i ≠ some old

/-- Such a step that gives no second strike to a row which a query in flight still needs. -/
def SparingStep (H : Hasher) (tasks : List (Task Cmd (List String))) (w w' : World) : Prop :=
  EnvStep H w w' ∧ ∀ id, NeededRow tasks id → ¬ StrikesOut H w w' id

/-- Nothing else deletes a row. -/
private theorem EnvStep.deletes {H : Hasher} {w w' : World} (hs : EnvStep H w w') (h : w.db.Stored)
    {id : RowId} (hbefore : w.db.hasNode id = true) (hafter : w'.db.hasNode id = false) :
    StrikesOut H w w' id := by
  have hkept : ¬ w'.db.hasNode id = true := fun htrue => Bool.noConfusion (htrue.symm.trans hafter)
  obtain ⟨y, hy, rfl⟩ := (w.db.hasNode_iff id).mp hbefore
  cases hs with
  | edit text => exact absurd hbefore hkept
  | setMeta key value => exact absurd hbefore hkept
  | settle refreshes => exact absurd hbefore hkept
  | @upsertNode args containerId sym hline db' r hok =>
    -- An upsert rewrites a row in place, or adds one.
    refine absurd ((Db.hasNode_iff _ _).mpr ?_) hkept
    obtain ⟨hrows, hhits⟩ := upsertNode_rows h.toWF hok
    by_cases hhit : (sym.toNode H args containerId).Hits y
    · exact ⟨_, (hrows _).mpr (.inl rfl), ((hhits y hy).mpr hhit).symm⟩
    · exact ⟨y, (hrows y).mpr (.inr ⟨hy, hhit⟩), rfl⟩
  | @reconcile args syms hline db' o hok =>
    obtain ⟨ids, hr⟩ := reconcile_reconciled H h hline hok
    have hm := matched_of_stored H h args hline
    cases hdeleted : deletedIds (w.db.nodesByUri args.uri)
        (matchSymbols H (w.db.nodesByUri args.uri) syms) y.id with
    | false => exact absurd (hr.hasNode_of_not_deleted hm hy hdeleted) hkept
    | true =>
      obtain ⟨j, old, hj, hfree, horphan, hid⟩ := Reconciled.deletedIds_iff.mp hdeleted
      exact ⟨args, syms, db', o, old, hok, rfl, hid, List.mem_of_getElem? hj, horphan,
        hm.not_claimed hj hfree⟩

/-- No query fails in a run that spares the rows which queries in flight still need: whatever the
    servers answer, however the queries, reconciles, index passes and edits interleave, no query
    has ended with an error, and each one, left alone, runs to its end. -/
theorem queries_return (rt : QueryRuntime) (S : Servers) {w : World} (hempty : w.db = .empty)
    {sys : System Cmd World (List String)}
    (hrun : System.AwareReaches (Cmd.handle S) (SparingStep rt.hasher) (IsCall rt) ⟨w, []⟩ sys) :
    ∀ t ∈ sys.tasks, ∃ x, t.rest = some x ∧
      ∃ fqns w', QueryM.run S x sys.state = (.ok fqns, w') := by
  have hstored := (System.AwareReaches.guarded (J := fun w : World => w.db.Stored)
    (fun _ _ _ hs => hs.1.stored) (fun c w => handle_stored c) hrun (hempty ▸ Db.empty_stored)).1
  -- A step of the world spares the rows that some task still needs.
  have hspares : ∀ tasks w w' id, SparingStep rt.hasher tasks w w' ∧ w.db.Stored →
      NeededRow tasks id → w.db.hasNode id = true → w'.db.hasNode id = true := by
    intro tasks w w' id hs hneeded hbefore
    by_contra hafter
    exact hs.1.2 id hneeded (hs.1.1.deletes hs.2 hbefore (Bool.eq_false_iff.mpr hafter))
  -- No call refers to a row that it was not told before.
  have hcalls : ∀ x, IsCall rt x → ∀ id, ¬ Prog.MayIssue (RefersTo id) (TellsOf id) x := by
    intro x hx id
    obtain ⟨call, rfl⟩ := hx
    exact Prog.not_mayIssue_of_usesOnly (fun K => shown_uses rt call) id
  -- At the start no task is there to need any.
  have hstart : ∀ id, NeededRow [] id → w.db.hasNode id = true := by
    intro id hneeded
    obtain ⟨t, ht, -⟩ := hneeded
    exact absurd ht List.not_mem_nil
  exact System.AwareReaches.returns (fun c w id h => handle_hasNode c w id h)
    (fun c w w' b id hc h => handle_tellsOf hc h) hspares hcalls (fun c w h => handle_ok c w h)
    hstored hstart fun t ht => absurd ht List.not_mem_nil

/-! ## Two reconciles while a query waits -/

/-- The graph is empty. -/
def emptyWorld : World := { twoFunctionsWorld with db := .empty }

/-- `find_references` for the class has asked the server, and is about to set the marker. -/
def heldQuery : List (Exchange Cmd) × QueryM (List String) × World :=
  (coldCall.shown appRuntime).advance (Cmd.handle appServers) 7 coldWorld

/-- The graph once the class has vanished from its file: one strike. -/
def struckDb : Db :=
  match reconcileFileSymbols lengthHasher fooDb appPy [] with
  | .ok (db, _) => db
  | .error _ => .empty

/-- The graph after the second strike. -/
def deletedDb : Db :=
  match reconcileFileSymbols lengthHasher struckDb appPy [] with
  | .ok (db, _) => db
  | .error _ => .empty

/-- An empty answer makes both rows orphans. -/
private theorem struckDb_eq : reconcileFileSymbols lengthHasher fooDb appPy [] =
    .ok (struckDb, { orphaned := 2 }) := rfl

/-- A second one deletes them. -/
private theorem deletedDb_eq : reconcileFileSymbols lengthHasher struckDb appPy [] =
    .ok (deletedDb, { deleted := 2 }) := rfl

/-- The run up to the round trip of the query. -/
private theorem heldQuery_run {env : List (Task Cmd (List String)) → World → World → Prop}
    (hindexed : env [] emptyWorld coldWorld) :
    System.AwareReaches (Cmd.handle appServers) env (IsCall appRuntime) ⟨emptyWorld, []⟩
      ⟨heldQuery.2.2, [⟨coldCall.shown appRuntime, heldQuery.1, some heldQuery.2.1⟩]⟩ := by
  refine .head (.env [] hindexed) ?_
  refine .head (.start _ [] ⟨coldCall, rfl⟩) ?_
  exact System.AwareReaches.advance [] [] _ [] 7

/-- The first reconcile fills the graph. -/
theorem indexed_step : EnvStep appRuntime.hasher emptyWorld coldWorld := .reconcile (by decide) fooDb_eq

/-- The second one runs while the query is at its round trip. -/
private theorem struck_step :
    EnvStep appRuntime.hasher heldQuery.2.2 (heldQuery.2.2.setDb struckDb) :=
  @EnvStep.reconcile _ _ appPy [] (by decide) _ _ struckDb_eq

/-- The first strike spares the class, and the query can still return. -/
theorem queries_return_struck : ∃ fqns w',
    QueryM.run appServers heldQuery.2.1 (heldQuery.2.2.setDb struckDb) = (.ok fqns, w') := by
  -- No row has had a strike before.
  have hspares : ∀ (w w' : World), (∀ n ∈ w.db.nodes, n.orphan = false) →
      ∀ id, ¬ StrikesOut appRuntime.hasher w w' id := by
    intro w w' hfresh id hout
    obtain ⟨args, syms, db', o, old, -, -, -, hold, horphan, -⟩ := hout
    exact Bool.noConfusion ((hfresh old (List.mem_of_mem_filter hold)).symm.trans horphan)
  have hindexed : SparingStep appRuntime.hasher [] emptyWorld coldWorld :=
    ⟨indexed_step, fun id _ => hspares _ _ (by decide) id⟩
  have hstruck : ∀ tasks, SparingStep appRuntime.hasher tasks heldQuery.2.2
      (heldQuery.2.2.setDb struckDb) :=
    fun tasks => ⟨struck_step, fun id _ => hspares _ _ (show ∀ n ∈ fooDb.nodes, _ by decide) id⟩
  have hrun := (heldQuery_run hindexed).tail (.env _ (hstruck _))
  obtain ⟨x, hx, hreturns⟩ := queries_return appRuntime appServers rfl hrun _
    List.mem_cons_self
  obtain rfl := Option.some.inj hx
  exact hreturns

/-- The class is valid when the query resolves it, and the server answers; by the time the marker
    is written two reconciles have found the file without the class, and the query fails. -/
theorem needed_row_deleted : ∃ (t : Task Cmd (List String)) (w : World) (anchor : Node),
    System.AwareReaches (Cmd.handle appServers) (AnyStep appRuntime.hasher) (IsCall appRuntime)
      ⟨emptyWorld, []⟩ ⟨w, [t]⟩ ∧
    t.start = coldCall.shown appRuntime ∧ t.rest = none ∧ AllAnswered t.trace ∧
    anchor.valid = true ∧ ⟨.db (.getNodeByFqn "app.Foo"), some anchor⟩ ∈ t.trace := by
  obtain ⟨k, hnext⟩ : ∃ k, heldQuery.2.1 = .op (.db (.markMaterialized 1 .references)) k :=
    ⟨_, rfl⟩
  have hheld := heldQuery_run (show AnyStep appRuntime.hasher [] emptyWorld coldWorld from indexed_step)
  rw [hnext] at hheld
  have hdeleted : EnvStep appRuntime.hasher (heldQuery.2.2.setDb struckDb)
      (heldQuery.2.2.setDb deletedDb) := @EnvStep.reconcile _ _ appPy [] (by decide) _ _ deletedDb_eq
  have hanswered : (heldQuery.1.all fun e => e.cmd.answered e.reply) = true := rfl
  refine ⟨⟨coldCall.shown appRuntime, heldQuery.1, none⟩, heldQuery.2.2.setDb deletedDb, _,
    hheld.trans ?_, rfl, rfl, fun e he => List.all_eq_true.mp hanswered e he, ?_,
    List.mem_of_getElem? (i := 2) rfl⟩
  · refine .head (.env _ struck_step) ?_
    refine .head (.env _ hdeleted) ?_
    -- The row is gone, and the marker fails on its foreign key.
    exact .single (.fail [] [] _ _ k rfl)
  · rfl

end Semnav.Query
