import Semnav.Query.Resolver

/-!
# The query operations

`find_symbol`, `read_range`, `find_definition`, `find_callees` and `find_call_path` of the engine, with
what they share (`src/query/ops.rs`).  Each takes an optional client; without one it serves what the graph
already holds.

The search loop of `find_call_path` runs on fuel, one unit for each dequeued node; `none` is a
search that is still going when the fuel is spent.
-/

namespace Semnav.Query

open Semnav.ForStd Semnav.Graph Semnav.Indexer Semnav.Adapters

/-- What the engine is set up with. -/
structure QueryEngine where
  rootUri : String
  /-- `DefaultHasher`. -/
  hasher : Hasher
  /-- `fuzzy_eq` without case folding (`strsim`). -/
  fuzzyEq : String → String → Bool

/-- `content_hash`: the fingerprint of a file's full text. -/
def contentHash (H : Hasher) (text : String) : String := hex016 (H [.str text])

/-- `FQN_HINT_LIMIT`. -/
def fqnHintLimit : Nat := 10

namespace QueryEngine

variable (engine : QueryEngine)

/-- Fqns that share the name's last segment, or resemble it. -/
def hintFqnsFor (fqn : String) : QueryM (List String) := do
  let leaf := leafSegment fqn
  let nodes := (← db (.listNodes none)).filter (!·.isExternal)
  let segmentMatches := nodes.filter fun n => (dotSegments n.fqn).any (leaf == ·)
  let matched :=
    if segmentMatches.isEmpty then
      nodes.filter fun n => (dotSegments n.fqn).any (engine.fuzzyEq leaf ·)
    else segmentMatches
  pure (((matched.map (·.fqn)).insertionSort (· ≤ ·)).dedup.take fqnHintLimit)

/-- The hints for a name; a position has none. -/
def hintFqnsForSymref : SymbolRef → QueryM (List String)
  | .fqn fqn => engine.hintFqnsFor fqn
  | .at .. => pure []

/-- List the symbols whose fqn matches. -/
def findSymbol (pattern : String) (mode : MatchMode) (ignoreCase brief : Bool) (filter : Filter)
    (page : Page) : QueryM FindSymbolResult := do
  let nodes ← db (.listNodes filter.language)
  let nodes := nodes.filter fun n =>
    mode.matches engine.fuzzyEq pattern ignoreCase n.fqn && filter.matches n
  let (items, next) := paginate nodes page .fromNode
  if brief then pure ⟨[], items.map (·.fqn), next⟩
  else pure ⟨items.map .fromNode, [], next⟩

/-- The lines of a text from `start` up to `stop`. -/
def linesBetween (text : String) (start stop : Nat) : List String :=
  ((lines text).take stop).drop start

/-- `read_range`, of the text of the file. -/
def readRange (uri text : String) (startLine endLine : Nat) : ReadRangeResult :=
  let total := (lines text).length
  let start := min startLine total
  let stop := min (max endLine start) total
  { uri := uri
    content := "\n".intercalate (linesBetween text start stop)
    range := ⟨⟨.ofNat start, 0⟩, ⟨.ofNat stop, 0⟩⟩
    totalLines := .ofNat total }

/-- Resolve a reference to its anchor row. -/
def resolveAnchor (symref : SymbolRef) (client : Option Client) :
    QueryM (Option Node × Bool) :=
  match symref with
  | .fqn fqn => do
    let node ← db (.getNodeByFqn fqn)
    pure (node, false)
  | .at uri line character =>
    match client with
    | some client => definitionAnchor uri line character client
    | none => do
      let node ← db (.findNodeByPosition uri line character)
      pure (node, false)

/-- Fill in what a hover tells about a resolved definition. -/
def refineByHover (node : Node) (client : Client) : QueryM Node := do
  if node.construct.isSome && node.signature.isSome then
    pure node
  else
    ensureOpen node.uri client
    match ← client.request (.hover node.uri (asU32 node.sel.startLine)
      (asU32 node.sel.startCol)) with
    | .ok (some hover) =>
      let node ← match node.construct, NodeKind.constructFromHover hover with
        | none, some construct =>
          let _ ← db (.updateNodeConstruct node.id construct)
          pure { node with construct := some construct }
        | _, _ => pure node
      let signature := trim hover
      if node.signature.isNone && !signature.isEmpty then
        let _ ← db (.updateNodeSignature node.id signature)
        pure { node with signature := some signature }
      else pure node
    | _ => pure node

/-- The indexed targets of a definition reply. -/
def definitionNodes (client : Client) : List Location → QueryM (List NodeDto)
  | [] => pure []
  | loc :: rest => do
    match ← nodeAt loc.uri loc.range with
    | some node =>
      let node ← refineByHover node client
      let nodes ← definitionNodes client rest
      pure (.fromNode node :: nodes)
    | none => definitionNodes client rest

/-- Resolve a declaration; did the `definition` call time out? -/
def findDefinition (symref : SymbolRef) (client : Option Client) :
    QueryM (FindDefinitionResult × Bool) :=
  match symref with
  | .fqn fqn => do
    let node ← db (.getNodeByFqn fqn)
    pure (⟨node.toList.map .fromNode⟩, false)
  | .at uri line character =>
    match client with
    | none => pure (⟨[]⟩, false)
    | some client => do
      ensureOpen uri client
      let (locs, timedOut) := orTimedOut (← client.request (.definition uri line character))
      let nodes ← definitionNodes client locs
      pure (⟨nodes⟩, timedOut)

/-- Read the anchor's `calls` neighbors, grouped, filtered and paginated. -/
def readCallsPage (anchorId : RowId) (dir : Direction) (filter : Filter) (page : Page) :
    QueryM CallGraphResult := do
  let neighbors ← db (.getNeighbors anchorId .calls dir)
  let filtered := (groupByNode neighbors).filter fun g => filter.matches g.1
  let (items, next) := paginate filtered page fun g => .fromNode g.1
  pure ⟨items.map fun g => ⟨.fromNode g.1, g.2.map fun s => .ofRange s.range⟩, next, []⟩

/-- Cache-only read of the anchor's references. -/
def referencesFromCache (anchorId : RowId) (filter : Filter) (page : Page) :
    QueryM FindReferencesResult := do
  let neighbors ← db (.getNeighbors anchorId .references .incoming)
  let filtered := (groupByNode neighbors).filter fun g => filter.matches g.1
  let (items, next) := paginate filtered page fun g => .fromNode g.1
  pure ⟨items.map fun g => ⟨.fromNode g.1, g.2.map fun s => .ofRange s.range⟩, next, []⟩

/-- Invalidate the anchor's outgoing calls and ask for them again. -/
def rematerialize (anchorId : RowId) (anchor : Node) (client : Client) : QueryM Bool := do
  let _ ← db (.invalidateOutgoingCalls anchorId)
  materializeCallEdges engine.rootUri anchorId anchor .outgoing client

/-- `didOpen` with the text that was read, if any. -/
def openText (client : Client) (uri : String) : Option String → QueryM Unit
  | some text => do
    let _ ← client.openDocument uri text
    pure ()
  | none => pure ()

/-- Does the anchor's cache row hold the hash of its file?  An unreadable file has none. -/
def isFresh (anchorId : RowId) : Option String → QueryM Bool
  | some hash => do
    let cached ← db (.getCalleesCacheHash anchorId)
    pure (cached == some hash)
  | none => pure false

/-- Note that the anchor's edges are those of the hashed text. -/
def storeHash (anchorId : RowId) : Option String → QueryM Unit
  | some hash => db (.setCalleesCacheHash anchorId hash)
  | none => pure ()

/-- The freshness check of `find_callees`: materialize on a cache miss, and always when the
    anchor's file cannot be read. -/
def refreshCallees (anchorId : RowId) (anchor : Node) (client : Client) : QueryM Bool := do
  let text ← readFileText anchor.uri
  openText client anchor.uri text
  let hash := text.map (contentHash engine.hasher)
  if ← isFresh anchorId hash then
    pure false
  else
    let timedOut ← engine.rematerialize anchorId anchor client
    storeHash anchorId hash
    pure timedOut

/-- Find the callees of a symbol, by the content-hash cache. -/
def findCallees (symref : SymbolRef) (filter : Filter) (page : Page) (client : Option Client) :
    QueryM (CallGraphResult × Bool) := do
  let (anchor, timedOut) ← resolveAnchor symref client
  match anchor with
  | none =>
    let hints ← engine.hintFqnsForSymref symref
    pure (⟨[], none, hints⟩, timedOut)
  | some anchor =>
    let refreshTimedOut ← match client with
      | some client => engine.refreshCallees anchor.id anchor client
      | none => pure false
    let result ← readCallsPage anchor.id .outgoing filter page
    pure (result, timedOut || refreshTimedOut)

/-! ## `find_call_path` -/

/-- What `expand_outgoing_calls` returns, with the budget it leaves. -/
structure Expansion where
  usable : Bool
  timedOut : Bool
  remaining : Nat
deriving DecidableEq

/-- Ensure that the anchor's outgoing calls are fresh: a cache hit is free, a miss costs one
    unit of the budget. -/
def expandOutgoingCalls (anchorId : RowId) (anchor : Node) (client : Option Client)
    (remaining : Nat) : QueryM Expansion :=
  match client with
  | none => pure ⟨false, false, remaining⟩
  | some client => do
    let text ← readFileText anchor.uri
    openText client anchor.uri text
    let hash := text.map (contentHash engine.hasher)
    if ← isFresh anchorId hash then
      pure ⟨true, false, remaining⟩
    else if remaining = 0 then
      pure ⟨false, false, remaining⟩
    else
      let timedOut ← engine.rematerialize anchorId anchor client
      storeHash anchorId hash
      pure ⟨true, timedOut, remaining - 1⟩

/-- An entry of the search queue: a node and the path that led to it, itself included. -/
structure QueueItem where
  nodeId : RowId
  node : Node
  path : List Node
deriving DecidableEq

/-- The state of the search between two rounds. -/
structure SearchState where
  visited : List RowId
  queue : List QueueItem
  remaining : Nat
  limitReached : Bool
  timedOut : Bool

/-- The inner loop over a node's callees: the path found, or the visited set and the queue. -/
def scanCallees (toId : RowId) (path : List Node) :
    List Node → List RowId → List QueueItem → List Node ⊕ (List RowId × List QueueItem)
  | [], visited, queue => .inr (visited, queue)
  | callee :: rest, visited, queue =>
    if callee.id = toId then .inl (path ++ [callee])
    else if callee.id ∈ visited then scanCallees toId path rest visited queue
    else scanCallees toId path rest (callee.id :: visited)
      (queue ++ [⟨callee.id, callee, path ++ [callee]⟩])

/-- A negative result. -/
def notFound (limitReached : Bool) : FindCallPathResult :=
  ⟨false, [], limitReached, [], []⟩

/-- The search loop. -/
def searchLoop (toId : RowId) (maxDepth : Nat) (client : Option Client) :
    Nat → SearchState → QueryM (Option (FindCallPathResult × Bool))
  | 0, _ => pure none
  | fuel + 1, st =>
    match st.queue with
    | [] => pure (some (notFound st.limitReached, st.timedOut))
    | item :: queue =>
      -- `path.len() as u32 > max_depth`
      if item.path.length % 2 ^ 32 > maxDepth then
        searchLoop toId maxDepth client fuel { st with queue := queue, limitReached := true }
      else do
        let expansion ← engine.expandOutgoingCalls item.nodeId item.node client st.remaining
        let timedOut := st.timedOut || expansion.timedOut
        let neighbors ← db (.getNeighbors item.nodeId .calls .outgoing)
        match scanCallees toId item.path ((groupByNode neighbors).map (·.1)) st.visited queue with
        | .inl path => pure (some (⟨true, path.map .fromNode, false, [], []⟩, timedOut))
        | .inr (visited, queue) =>
          searchLoop toId maxDepth client fuel
            { visited := visited, queue := queue, remaining := expansion.remaining
              limitReached := st.limitReached || !expansion.usable, timedOut := timedOut }

/-- The state the search from a node starts in. -/
def SearchState.init (from_ : Node) (maxLspCalls : Nat) (timedOut : Bool) : SearchState where
  visited := [from_.id]
  queue := [⟨from_.id, from_, [from_]⟩]
  remaining := maxLspCalls
  limitReached := false
  timedOut := timedOut

/-- Does `from_` reach `to_` through zero or more outgoing `calls` hops? -/
def findCallPath (fuel : Nat) (from_ to_ : SymbolRef) (maxDepth maxLspCalls : Nat)
    (client : Option Client) : QueryM (Option (FindCallPathResult × Bool)) := do
  let (fromAnchor, fromTimedOut) ← resolveAnchor from_ client
  let (toAnchor, toTimedOut) ← resolveAnchor to_ client
  let timedOut := fromTimedOut || toTimedOut
  match fromAnchor, toAnchor with
  | some fromNode, some toNode =>
    if fromNode.id = toNode.id then
      pure (some (⟨true, [.fromNode fromNode], false, [], []⟩, timedOut))
    else
      engine.searchLoop toNode.id maxDepth client fuel (.init fromNode maxLspCalls timedOut)
  | fromAnchor, toAnchor =>
    let fromHints ← if fromAnchor.isNone then engine.hintFqnsForSymref from_ else pure []
    let toHints ← if toAnchor.isNone then engine.hintFqnsForSymref to_ else pure []
    pure (some (⟨false, [], false, fromHints, toHints⟩, timedOut))

end QueryEngine

end Semnav.Query
