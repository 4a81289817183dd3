import Semnav.Adapters.Language
import Semnav.Query.Ops

/-!
# The query runtime

The tools as the MCP layer calls them (`src/query/pool.rs`): acquire the server of the
request's language, run the engine with its client or without one, and say when the answer
is degraded.
-/

namespace Semnav.Query

open Semnav.ForStd Semnav.Graph Semnav.Adapters

/-- Why an operation fell back to cached data. -/
inductive DegradeReason where
  | lspUnavailable
  | lspTimeout
deriving DecidableEq

/-- A cache-only (or partially cache-only) answer. -/
structure Degradation where
  reason : DegradeReason
  status : LspStatus
deriving DecidableEq

/-- `Degradation::from(AcquireError)`. -/
def Degradation.ofAcquireError : AcquireError → Degradation
  | .down => ⟨.lspUnavailable, .down⟩
  | .restarting => ⟨.lspUnavailable, .degraded⟩
  | .startFailed => ⟨.lspUnavailable, .degraded⟩

/-- `timeout_degradation`. -/
def timeoutDegradation (timedOut : Bool) : Option Degradation :=
  if timedOut then some ⟨.lspTimeout, .degraded⟩ else none

/-- The runtime: the engine and the configured adapters. -/
structure QueryRuntime extends QueryEngine where
  adapters : List LanguageAdapter

namespace QueryRuntime

variable (rt : QueryRuntime)

/-- `acquire_opt`, split into the client and the degradation: no language, no server. -/
def acquireOpt : Option String → QueryM (Option Client × Option Degradation)
  | none => pure (none, none)
  | some language => do
    match ← Prog.perform (.acquire language) with
    | .ok () => pure (some ⟨language⟩, none)
    | .error e => pure (none, some (.ofAcquireError e))

/-- The language of a position: that of the uri's adapter. -/
def languageForUri (uri : String) : Option String :=
  (selectForUri rt.adapters uri).map (·.languageName)

/-- `client_for`: the client for a reference's anchor language. -/
def clientFor : SymbolRef → QueryM (Option Client × Option Degradation)
  | .at uri _ _ => acquireOpt (rt.languageForUri uri)
  | .fqn fqn => do
    let node ← db (.getNodeByFqn fqn)
    acquireOpt (node.map (·.language))

/-- `find_definition`. -/
def findDefinition (symref : SymbolRef) : QueryM (FindDefinitionResult × Option Degradation) := do
  let language := match symref with
    | .fqn _ => none
    | .at uri _ _ => rt.languageForUri uri
  let (client, degradation) ← acquireOpt language
  let (result, timedOut) ← QueryEngine.findDefinition symref client
  pure (result, degradation.or (timeoutDegradation timedOut))

/-- The hover round trips of `backfill_signatures`, best effort. -/
def backfillSignatures (client : Client) : List String → List NodeDto → QueryM (List NodeDto)
  | _, [] => pure []
  | opened, node :: rest => do
    if node.signature.isSome || node.language != client.languageId then
      let rest ← backfillSignatures client opened rest
      pure (node :: rest)
    else
      if !opened.contains node.uri then ensureOpen node.uri client
      let opened := node.uri :: opened
      match ← client.request (.hover node.uri node.selectionRange.start.line.toNat
        node.selectionRange.start.character.toNat) with
      | .ok (some hover) =>
        let signature := trim hover
        if signature.isEmpty then
          let rest ← backfillSignatures client opened rest
          pure (node :: rest)
        else
          let _ ← db (.updateNodeSignatureByFqn node.fqn signature)
          let rest ← backfillSignatures client opened rest
          pure ({ node with signature := some signature } :: rest)
      | _ =>
        let rest ← backfillSignatures client opened rest
        pure (node :: rest)

/-- `backfill_signatures` over a page of callers or callees, when asked for. -/
def withSignatures (withSignature : Bool) (client : Client) (result : CallGraphResult) :
    QueryM CallGraphResult := do
  if withSignature then
    let nodes ← backfillSignatures client [] (result.items.map (·.node))
    pure { result with items := (result.items.zip nodes).map fun (item, node) =>
             { item with node := node } }
  else pure result

/-- The languages, one after the other, that `backfill_signatures_by_language` acquires. -/
def backfillLanguages : List String → List NodeDto → QueryM (List NodeDto)
  | [], nodes => pure nodes
  | language :: rest, nodes => do
    let (client, _) ← acquireOpt (some language)
    match client with
    | some client =>
      let nodes ← backfillSignatures client [] nodes
      backfillLanguages rest nodes
    | none => backfillLanguages rest nodes

/-- `backfill_signatures_by_language`: one client for each language that a signature is missing
    in.  The source's set has no order; here it is that of the nodes. -/
def backfillSignaturesByLanguage (nodes : List NodeDto) : QueryM (List NodeDto) :=
  backfillLanguages ((nodes.filter (·.signature.isNone)).map (·.language)).dedup nodes

/-- `find_symbol`: a read of the graph, and a hover for each missing signature when asked for. -/
def findSymbol (pattern : String) (mode : MatchMode) (ignoreCase : Bool)
    (options : FindSymbolOptions) (filter : Filter) (page : Page) : QueryM FindSymbolResult := do
  let result ← rt.toQueryEngine.findSymbol pattern mode ignoreCase options.brief filter page
  if options.withSignature then
    let nodes ← backfillSignaturesByLanguage result.nodes
    pure { result with nodes := nodes }
  else pure result

/-- The body of a background refresh: what `spawn_refresh` spawns. -/
def runRefresh (r : Refresh) : QueryM Bool :=
  match r.kind with
  | .calls dir => materializeCallEdges rt.rootUri r.anchorId r.anchor dir r.client
  | .references => materializeReferences r.anchorId r.anchor r.client

/-- `find_references`: cache first; a cold anchor is materialized before it is answered. -/
def findReferences (symref : SymbolRef) (filter : Filter) (page : Page) :
    QueryM (FindReferencesResult × Option Degradation × Bool) := do
  let (client, degradation) ← rt.clientFor symref
  let (anchor, timedOut) ← QueryEngine.resolveAnchor symref client
  match anchor, client with
  | none, _ =>
    let hints ← rt.hintFqnsForSymref symref
    pure (⟨[], none, hints⟩, degradation.or (timeoutDegradation timedOut), false)
  | some anchor, none =>
    let result ← QueryEngine.referencesFromCache anchor.id filter page
    pure (result, degradation, false)
  | some anchor, some client =>
    ensureOpen anchor.uri client
    let refresh : Refresh := ⟨anchor.id, .references, .references, anchor, client⟩
    if ← db (.isMaterialized anchor.id .references) then
      let result ← QueryEngine.referencesFromCache anchor.id filter page
      Prog.perform (.spawnRefresh refresh)
      pure (result, degradation.or (timeoutDegradation timedOut), true)
    else
      let materializeTimedOut ← materializeReferences anchor.id anchor client
      let _ ← db (.markMaterialized anchor.id .references)
      let result ← QueryEngine.referencesFromCache anchor.id filter page
      Prog.perform (.spawnRefresh refresh)
      pure (result, degradation.or (timeoutDegradation (timedOut || materializeTimedOut)), true)

/-- `find_callers`: as `find_references`, over incoming call hierarchy. -/
def findCallers (symref : SymbolRef) (filter : Filter) (page : Page) (withSignature : Bool) :
    QueryM (CallGraphResult × Option Degradation × Bool) := do
  let (client, degradation) ← rt.clientFor symref
  let (anchor, timedOut) ← QueryEngine.resolveAnchor symref client
  match anchor, client with
  | none, _ =>
    let hints ← rt.hintFqnsForSymref symref
    pure (⟨[], none, hints⟩, degradation.or (timeoutDegradation timedOut), false)
  | some anchor, none =>
    let result ← QueryEngine.readCallsPage anchor.id .incoming filter page
    pure (result, degradation, false)
  | some anchor, some client =>
    ensureOpen anchor.uri client
    let refresh : Refresh := ⟨anchor.id, .calls, .calls .incoming, anchor, client⟩
    if ← db (.isMaterialized anchor.id .calls) then
      let result ← QueryEngine.readCallsPage anchor.id .incoming filter page
      let result ← withSignatures withSignature client result
      Prog.perform (.spawnRefresh refresh)
      pure (result, degradation.or (timeoutDegradation timedOut), true)
    else
      let materializeTimedOut ←
        materializeCallEdges rt.rootUri anchor.id anchor .incoming client
      let _ ← db (.markMaterialized anchor.id .calls)
      let result ← QueryEngine.readCallsPage anchor.id .incoming filter page
      let result ← withSignatures withSignature client result
      Prog.perform (.spawnRefresh refresh)
      pure (result, degradation.or (timeoutDegradation (timedOut || materializeTimedOut)), true)

/-- `find_callees`: on-demand outgoing call hierarchy, else the cached edges. -/
def findCallees (symref : SymbolRef) (filter : Filter) (page : Page) (withSignature : Bool) :
    QueryM (CallGraphResult × Option Degradation) := do
  let (client, degradation) ← rt.clientFor symref
  let (result, timedOut) ← rt.toQueryEngine.findCallees symref filter page client
  let result ← match client with
    | some client => withSignatures withSignature client result
    | none => pure result
  pure (result, degradation.or (timeoutDegradation timedOut))

/-- `find_call_path`: one client, of the language that `from_` is in. -/
def findCallPath (fuel : Nat) (from_ to_ : SymbolRef) (maxDepth maxLspCalls : Nat) :
    QueryM (Option (FindCallPathResult × Option Degradation)) := do
  let (client, degradation) ← rt.clientFor from_
  let found ← rt.toQueryEngine.findCallPath fuel from_ to_ maxDepth maxLspCalls client
  pure (found.map fun (result, timedOut) => (result, degradation.or (timeoutDegradation timedOut)))

end QueryRuntime

end Semnav.Query
