import Semnav.Query.Engine

/-!
# On-demand edge construction

The parts of a query that ask the server and store what it says as edges
(`src/query/resolver.rs`).  Every function that makes a round trip returns whether it timed
out; any other failure reads as an empty reply.
-/

namespace Semnav.Query

open Semnav.ForStd Semnav.Graph Semnav.Indexer

/-- `as u32` of an `i64` column. -/
def asU32 (n : Int) : Nat := (n % 2 ^ 32).toNat

/-- Build a valid edge with an optional occurrence site. -/
def locatedEdge (src dst : RowId) (edgeType : EdgeType) (site : Option Site) : Edge :=
  ⟨src, dst, edgeType, site, true⟩

/-- `match reply { Ok(xs) => (xs, false), Err(e) => (Vec::new(), is_timeout(&e)) }`. -/
def orTimedOut {α : Type} : Except LspError (List α) → List α × Bool
  | .ok xs => (xs, false)
  | .error e => ([], e.isTimeout)

/-- The indexed node at the start of a span. -/
def nodeAt (uri : String) (r : LspRange) : QueryM (Option Node) :=
  db (.findNodeByPosition uri r.start.line r.start.character)

/-- Best-effort `didOpen` so that the server has `uri` open before a positional request. -/
def ensureOpen (uri : String) (client : Client) : QueryM Unit := do
  match ← readFileText uri with
  | some text =>
    let _ ← client.openDocument uri text
    pure ()
  | none => pure ()

/-- The first location that lies in an indexed node. -/
def firstResolved : List Location → QueryM (Option Node)
  | [] => pure none
  | loc :: rest => do
    match ← nodeAt loc.uri loc.range with
    | some node => pure (some node)
    | none => firstResolved rest

/-- Resolve a position to the anchor declaration node, definition first. -/
def definitionAnchor (uri : String) (line character : Nat) (client : Client) :
    QueryM (Option Node × Bool) := do
  let (locs, timedOut) := orTimedOut (← client.request (.definition uri line character))
  match ← firstResolved locs with
  | some node => pure (some node, timedOut)
  | none =>
    let node ← db (.findNodeByPosition uri line character)
    pure (node, timedOut)

/-- Attach each reference site to its indexed container node. -/
def addReferences (anchorId : RowId) : List Location → QueryM Unit
  | [] => pure ()
  | loc :: rest => do
    match ← nodeAt loc.uri loc.range with
    | some container =>
      let _ ← db (.upsertEdge (locatedEdge container.id anchorId .references
        (some ⟨loc.uri, loc.range.toGraph⟩)))
      addReferences anchorId rest
    | none => addReferences anchorId rest

/-- Materialize `references` edges into the anchor. -/
def materializeReferences (anchorId : RowId) (anchor : Node) (client : Client) :
    QueryM Bool := do
  let (locs, timedOut) := orTimedOut (← client.request
    (.references anchor.uri (asU32 anchor.sel.startLine) (asU32 anchor.sel.startCol) true))
  addReferences anchorId locs
  pure timedOut

/-- One `calls` edge for each call site. -/
def addCallSites (src dst : RowId) (uri : String) : List LspRange → QueryM Unit
  | [] => pure ()
  | range :: rest => do
    let _ ← db (.upsertEdge (locatedEdge src dst .calls (some ⟨uri, range.toGraph⟩)))
    addCallSites src dst uri rest

/-- The zero-width sentinel `{0,0}-{0,0}` of a module-scope call site. -/
def isSentinel (r : LspRange) : Bool :=
  r.start.line == 0 && r.start.character == 0 && r.end.line == 0 && r.end.character == 0

/-- The caller of an incoming call: the module's own root for the sentinel, else the indexed
    node at the item. -/
def incomingCaller (rootUri : String) (item : CallHierarchyItem) : QueryM (Option Node) :=
  if isSentinel item.selectionRange then db (.getNodeByFqn (modulePathFromUri item.uri rootUri))
  else nodeAt item.uri item.selectionRange

/-- Store the incoming calls of the anchor. -/
def addIncoming (rootUri : String) (anchorId : RowId) : List IncomingCall → QueryM Unit
  | [] => pure ()
  | call :: rest => do
    match ← incomingCaller rootUri call.from with
    | some caller =>
      addCallSites caller.id anchorId call.from.uri call.fromRanges
      addIncoming rootUri anchorId rest
    | none => addIncoming rootUri anchorId rest

/-- Store the `implements` edges of an interface method and collect their targets. -/
def addImplementations (calleeId : RowId) : List Location → QueryM (List RowId)
  | [] => pure []
  | loc :: rest => do
    match ← nodeAt loc.uri loc.range with
    | some concrete =>
      let _ ← db (.upsertEdge (locatedEdge calleeId concrete.id .implements none))
      let ids ← addImplementations calleeId rest
      pure (concrete.id :: ids)
    | none => addImplementations calleeId rest

/-- Is the node declared inside an interface? -/
def inInterface (callee : Node) : QueryM Bool :=
  match callee.containerId with
  | some containerId => do
    let container ← db (.getNode containerId)
    pure (container.any (·.nodeKind == "Interface"))
  | none => pure false

/-- The languages whose servers report interface methods as callees. -/
def correctsInterfaces (language : String) : Bool :=
  language == "typescript" || language == "go"

/-- Resolve an outgoing call's target to the callee ids actually invoked. -/
def resolveOutgoingCallee (anchor callee : Node) (client : Client) :
    QueryM (List RowId × Bool) := do
  if !correctsInterfaces anchor.language then
    pure ([callee.id], false)
  else if !(← inInterface callee) then
    pure ([callee.id], false)
  else
    ensureOpen callee.uri client
    let (locs, timedOut) := orTimedOut (← client.request
      (.implementation callee.uri (asU32 callee.sel.startLine) (asU32 callee.sel.startCol)))
    let concreteIds ← addImplementations callee.id locs
    if concreteIds.isEmpty then pure ([callee.id], timedOut)
    else pure (concreteIds, timedOut)

/-- The call sites of every target. -/
def addTargets (anchorId : RowId) (uri : String) (ranges : List LspRange) :
    List RowId → QueryM Unit
  | [] => pure ()
  | target :: rest => do
    addCallSites anchorId target uri ranges
    addTargets anchorId uri ranges rest

/-- Store the outgoing calls of the anchor; did a correction time out? -/
def addOutgoing (anchorId : RowId) (anchor : Node) (client : Client) :
    List OutgoingCall → QueryM Bool
  | [] => pure false
  | call :: rest => do
    match ← nodeAt call.to.uri call.to.selectionRange with
    | some callee =>
      let (targetIds, timedOut) ← resolveOutgoingCallee anchor callee client
      addTargets anchorId anchor.uri call.fromRanges targetIds
      let restTimedOut ← addOutgoing anchorId anchor client rest
      pure (timedOut || restTimedOut)
    | none => addOutgoing anchorId anchor client rest

/-- Materialize `calls` edges for the anchor in a direction, via call hierarchy. -/
def materializeCallEdges (rootUri : String) (anchorId : RowId) (anchor : Node) (dir : Direction)
    (client : Client) : QueryM Bool := do
  let (items, timedOut) := orTimedOut (← client.request (.prepareCallHierarchy anchor.uri
    (asU32 anchor.sel.startLine) (asU32 anchor.sel.startCol)))
  match items with
  | [] => pure timedOut
  | item :: _ =>
    match dir with
    | .incoming =>
      let (calls, timedOut) := orTimedOut (← client.request (.incomingCalls item))
      addIncoming rootUri anchorId calls
      pure timedOut
    | .outgoing =>
      let (calls, timedOut) := orTimedOut (← client.request (.outgoingCalls item))
      let correctionTimedOut ← addOutgoing anchorId anchor client calls
      pure (timedOut || correctionTimedOut)

/-! ## Grouping neighbors -/

/-- `site_cmp`: by `(uri, line, col)`; no site sorts first. -/
def siteCmp : Option Site → Option Site → Ordering
  | none, none => .eq
  | none, some _ => .lt
  | some _, none => .gt
  | some x, some y => (compare x.uri y.uri).then
      ((compare x.range.startLine y.range.startLine).then
        (compare x.range.startCol y.range.startCol))

/-- One row of `group_by_node`'s loop: a new group, or one more site of the last one. -/
def groupStep (out : List (Node × List Site)) (row : Neighbor) : List (Node × List Site) :=
  match out.getLast? with
  | some last =>
    if nodeCmp last.1 row.1 = .eq then out.dropLast ++ [(last.1, last.2 ++ row.2.toList)]
    else out ++ [(row.1, row.2.toList)]
  | none => [(row.1, row.2.toList)]

/-- Group neighbor rows by their node, collecting each node's occurrence sites. -/
def groupByNode (neighbors : List Neighbor) : List (Node × List Site) :=
  (neighbors.insertionSort fun a b =>
    (nodeCmp a.1 b.1).then (siteCmp a.2 b.2) ≠ .gt).foldl groupStep []

end Semnav.Query
