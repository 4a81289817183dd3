import Semnav.ForStd.Pending
import Semnav.Spec.FailedCalls
import Semnav.Spec.Marker

/-!
# What a task may ask of a server

A task talks to the server of a language only once it has acquired it, asks about a document only
once it has opened it, and asks for the calls of an item only once that server has given it the
item.  The graph is written only by tasks that have acquired some server, so a query without one
reads the cache and leaves it.  Only the `definition` of a position that names an anchor is asked
for without its document being opened.

## Key results

- `shown_relies`, `runRefresh_relies`: what a query and a refresh rely on, part by part
- `granted_first`: every task of every run
-/

namespace Semnav.Query

open Semnav.ForStd Semnav.Graph Semnav.Indexer Semnav.Adapters

/-! ## Grants -/

/-- What a command may rely on. -/
inductive Grant where
  /-- Some server was acquired. -/
  | server
  | client (client : Client)
  /-- The document was opened, unless its file could not be read. -/
  | document (client : Client) (uri : String)
  /-- The server has given the item. -/
  | item (client : Client) (item : CallHierarchyItem)

/-- What a request relies on, besides its client. -/
def Request.relies {β : Type} (client : Client) : Request β → List Grant
  | .references uri .. | .implementation uri .. | .prepareCallHierarchy uri .. | .hover uri .. =>
    [.document client uri]
  | .incomingCalls item | .outgoingCalls item => [.item client item]
  | .definition .. | .documentSymbol .. => []

/-- What a db command relies on. -/
def DbCmd.relies {β : Type} (c : DbCmd β) : List Grant :=
  match c.kind with
  | .upsertEdge _ | .invalidate | .setCache | .mark | .storeHover => [.server]
  | _ => []

/-- What a refresh is started with. -/
def Refresh.grants (r : Refresh) : List Grant :=
  [.server, .client r.client, .document r.client r.anchor.uri]

/-- What a command relies on. -/
def Cmd.relies {β : Type} : Cmd β → List Grant
  | .db c => c.relies
  | .openDocument client .. => [.client client]
  | .request client r => .client client :: r.relies client
  | .spawnRefresh r => r.grants
  | .readFileText _ | .acquire _ => []

/-- What the reply of a request grants. -/
def Request.grants {β : Type} (client : Client) : Request β → Except LspError β → Grant → Prop
  | .prepareCallHierarchy .., .ok items, g => ∃ item ∈ items, g = .item client item
  | _, _, _ => False

/-- What a reply grants. -/
def Cmd.grants {β : Type} : Cmd β → β → Grant → Prop
  | .acquire language, .ok _, g => g = .server ∨ g = .client ⟨language⟩
  | .openDocument client uri _, _, g => g = .document client uri
  | .readFileText uri, none, g => ∃ client, g = .document client uri
  | .request client r, reply, g => r.grants client reply g
  | _, _, _ => False

/-- The command relies on the grant. -/
def ReliesOn (g : Grant) (β : Type) (c : Cmd β) : Prop := g ∈ c.relies

/-- The exchange brings the grant. -/
def Brings (g : Grant) (e : Exchange Cmd) : Prop := e.cmd.grants e.reply g

/-- The part of a query relies on grants in `K` only, as long as it is brought no others, and its
    result has `Q`. -/
abbrev Relies (K : Grant → Prop) {α : Type} (x : QueryM α) (Q : α → Prop) : Prop :=
  Prog.UsesOnly ReliesOn Brings K Q x

/-! ## The parts of a query -/

/-- A command of this kind reads, or acquires a server. -/
def CmdKind.onlyReads : CmdKind → Prop
  | .read | .neighbors | .file | .acquire => True
  | _ => False

/-- A command of this kind reads or writes the graph. -/
def CmdKind.onGraph : CmdKind → Prop
  | .read | .neighbors | .upsertEdge _ | .invalidate | .setCache | .mark | .storeHover => True
  | _ => False

/-- What a task has that may talk to a server. -/
structure Holds (K : Grant → Prop) (client : Client) : Prop where
  server : K .server
  client : K (.client client)

section Parts

variable {K : Grant → Prop} {α β : Type}

/-- A part that only reads relies on nothing. -/
theorem relies_of_reads {x : QueryM α} (hx : OnlyKinds CmdKind.onlyReads x) :
    Relies K x fun _ => True := by
  refine Prog.Issues.under (Prog.Issues.mono hx fun β c hc g hg => ?_)
  cases c with
  | db c => cases c <;> first | exact absurd hc id | exact absurd hg List.not_mem_nil
  | readFileText uri => exact absurd hg List.not_mem_nil
  | acquire language => exact absurd hg List.not_mem_nil
  | _ => exact absurd hc id

/-- A part that works on the graph relies on some server. -/
theorem relies_of_graph {x : QueryM α} (hserver : K .server) (hx : OnlyKinds CmdKind.onGraph x) :
    Relies K x fun _ => True := by
  refine Prog.Issues.under (Prog.Issues.mono hx fun β c hc g hg => ?_)
  cases c with
  | db c =>
    have hg : g ∈ c.relies := hg
    unfold DbCmd.relies at hg
    split at hg
    all_goals first | exact List.mem_singleton.mp hg ▸ hserver | exact absurd hg List.not_mem_nil
  | _ => exact absurd hc id

/-- A round trip needs its client and what the request is about. -/
theorem relies_request {client : Client} {r : Request β} (hclient : K (.client client))
    (hr : ∀ g ∈ r.relies client, K g) : Relies K (client.request r) fun _ => True := by
  refine Prog.Under.perform (fun g hg => ?_) fun _ _ => trivial
  cases List.mem_cons.mp hg with
  | inl h => exact h ▸ hclient
  | inr h => exact hr g h

/-- A request about a document. -/
theorem relies_about {client : Client} {r : Request β} {uri : String}
    (hclient : K (.client client)) (huri : K (.document client uri))
    (hr : r.relies client = [.document client uri]) :
    Relies K (client.request r) fun _ => True :=
  relies_request hclient fun g hg => by
    rw [hr] at hg
    exact List.mem_singleton.mp hg ▸ huri

/-- Opening a document grants it. -/
private theorem openDocument_relies {client : Client} (hclient : K (.client client))
    (uri text : String) :
    Relies K (client.openDocument uri text) fun _ => K (.document client uri) :=
  Prog.Under.perform (fun _ hg => List.mem_singleton.mp hg ▸ hclient) fun _ h => h _ rfl

/-- A file that cannot be read counts as open with every server. -/
theorem readFileText_relies (uri : String) :
    Relies K (readFileText uri) fun text => text = none → ∀ client, K (.document client uri) := by
  refine Prog.Under.perform (fun g hg => absurd hg List.not_mem_nil) fun text h htext client => ?_
  subst htext
  exact h _ ⟨client, rfl⟩

/-- Reading and opening a document grants it. -/
theorem ensureOpen_relies {client : Client} (hclient : K (.client client)) (uri : String) :
    Relies K (ensureOpen uri client) fun _ => K (.document client uri) := by
  refine Prog.Under.bind (readFileText_relies uri) fun text htext => ?_
  cases text with
  | none => exact Prog.Under.pure (htext rfl client)
  | some text => exact Prog.Under.bind (openDocument_relies hclient uri text) fun _ h => h

/-- A client comes with what it holds. -/
theorem acquireOpt_relies (language : Option String) :
    Relies K (QueryRuntime.acquireOpt language) fun acquired =>
      ∀ client, acquired.1 = some client → Holds K client := by
  cases language with
  | none => exact Prog.Under.pure fun _ h => by cases h
  | some language =>
    refine Prog.Under.bind (Q := fun reply => ∀ u, reply = .ok u → Holds K ⟨language⟩)
      (Prog.Under.perform (fun g hg => absurd hg List.not_mem_nil) fun reply h u hu => ?_)
      fun reply hreply => ?_
    · subst hu
      exact ⟨h _ (.inl rfl), h _ (.inr rfl)⟩
    · cases reply with
      | error e => exact Prog.Under.pure fun _ h => by cases h
      | ok u =>
        refine Prog.Under.pure fun client h => ?_
        cases h
        exact hreply u rfl

/-! ### The resolver -/

/-- A lookup needs nothing. -/
private theorem nodeAt_relies (uri : String) (r : LspRange) :
    Relies K (nodeAt uri r) fun _ => True :=
  relies_of_reads (nodeAt_onlyKinds trivial uri r)

/-- An anchor by position opens its document before it asks. -/
theorem resolveAnchor_relies (symref : SymbolRef) {client : Option Client}
    (hclient : ∀ c, client = some c → Holds K c) :
    Relies K (QueryEngine.resolveAnchor symref client) fun _ => True := by
  cases symref with
  | fqn fqn => exact relies_of_reads ((onlyKinds_db trivial).bind fun _ => onlyKinds_pure _)
  | «at» uri line character =>
    cases client with
    | none => exact relies_of_reads ((onlyKinds_db trivial).bind fun _ => onlyKinds_pure _)
    | some client =>
      -- The one request about a position that relies on no document.
      refine Prog.Under.bind (relies_request (hclient client rfl).client
        fun g hg => absurd hg List.not_mem_nil) fun reply _ => ?_
      refine Prog.Under.bind (relies_of_reads (firstResolved_onlyKinds trivial _)) fun node _ => ?_
      cases node with
      | some node => exact Prog.Under.pure trivial
      | none => exact relies_of_reads ((onlyKinds_db trivial).bind fun _ => onlyKinds_pure _)

/-- References are asked for in the anchor's document. -/
private theorem materializeReferences_relies {anchor : Node} {client : Client} (h : Holds K client)
    (hanchor : K (.document client anchor.uri)) (anchorId : RowId) :
    Relies K (materializeReferences anchorId anchor client) fun _ => True := by
  refine Prog.Under.bind (relies_about h.client hanchor rfl) fun reply _ => ?_
  refine Prog.Under.bind (relies_of_graph h.server
    (addReferences_onlyKinds trivial trivial anchorId _)) fun _ _ => ?_
  exact Prog.Under.pure trivial

/-- A callee's document is opened before its implementations are asked for. -/
private theorem resolveOutgoingCallee_relies {client : Client} (h : Holds K client)
    (anchor callee : Node) :
    Relies K (resolveOutgoingCallee anchor callee client) fun _ => True := by
  unfold resolveOutgoingCallee
  split
  · exact Prog.Under.pure trivial
  · refine Prog.Under.bind (relies_of_reads (inInterface_onlyKinds trivial callee))
      fun interface _ => ?_
    split
    · exact Prog.Under.pure trivial
    · refine Prog.Under.bind (ensureOpen_relies h.client callee.uri) fun _ hcallee => ?_
      refine Prog.Under.bind (relies_about h.client hcallee rfl) fun reply _ => ?_
      refine Prog.Under.bind (relies_of_graph h.server
        (addImplementations_onlyKinds trivial trivial callee.id _)) fun ids _ => ?_
      split
      · exact Prog.Under.pure trivial
      · exact Prog.Under.pure trivial

/-- Each callee's document is opened before its implementations are asked for. -/
private theorem addOutgoing_relies {client : Client} (h : Holds K client) (anchorId : RowId)
    (anchor : Node) (calls : List OutgoingCall) :
    Relies K (addOutgoing anchorId anchor client calls) fun _ => True := by
  induction calls with
  | nil => exact Prog.Under.pure trivial
  | cons call rest ih =>
    refine Prog.Under.bind (nodeAt_relies _ _) fun callee _ => ?_
    cases callee with
    | none => exact ih
    | some callee =>
      refine Prog.Under.bind (resolveOutgoingCallee_relies h anchor callee) fun resolved _ => ?_
      refine Prog.Under.bind (relies_of_graph h.server
        (addTargets_onlyKinds trivial anchorId _ _ _)) fun _ _ => ?_
      exact Prog.Under.bind ih fun _ _ => Prog.Under.pure trivial

/-- What the server gives of the anchor is asked about. -/
private theorem prepare_relies {client : Client} {uri : String} (h : Holds K client)
    (huri : K (.document client uri)) (line character : Nat) :
    Relies K (client.request (.prepareCallHierarchy uri line character)) fun reply =>
      ∀ items, reply = .ok items → ∀ item ∈ items, K (.item client item) := by
  refine Prog.Under.perform (fun g hg => ?_) fun reply hreply items hitems item hitem => ?_
  · cases List.mem_cons.mp hg with
    | inl hg => exact hg ▸ h.client
    | inr hg => exact List.mem_singleton.mp hg ▸ huri
  · subst hitems
    exact hreply _ ⟨item, hitem, rfl⟩

/-- The hierarchy is prepared in the anchor's document. -/
theorem materializeCallEdges_relies {anchor : Node} {client : Client} (h : Holds K client)
    (hanchor : K (.document client anchor.uri)) (rootUri : String) (anchorId : RowId)
    (dir : Direction) :
    Relies K (materializeCallEdges rootUri anchorId anchor dir client) fun _ => True := by
  -- The items that are asked about come from the reply of this prepare, which grants them.
  refine Prog.Under.bind (prepare_relies h hanchor _ _) fun reply hitems => ?_
  cases reply with
  | error e => exact Prog.Under.pure trivial
  | ok items =>
    cases items with
    | nil => exact Prog.Under.pure trivial
    -- Only the first item is asked about.
    | cons item rest =>
      have hitem : K (.item client item) := hitems _ rfl item List.mem_cons_self
      have hrelies : ∀ g ∈ [Grant.item client item], K g := fun g hg =>
        List.mem_singleton.mp hg ▸ hitem
      cases dir with
      | incoming =>
        refine Prog.Under.bind (relies_request h.client hrelies) fun reply _ => ?_
        refine Prog.Under.bind (relies_of_graph h.server
          (addIncoming_onlyKinds trivial trivial rootUri anchorId _)) fun _ _ => ?_
        exact Prog.Under.pure trivial
      | outgoing =>
        refine Prog.Under.bind (relies_request h.client hrelies) fun reply _ => ?_
        exact Prog.Under.bind (addOutgoing_relies h anchorId anchor _) fun _ _ =>
          Prog.Under.pure trivial

/-- A refresh relies on its client and on its anchor's document. -/
private theorem runRefresh_relies (rt : QueryRuntime) {r : Refresh} (h : Holds K r.client)
    (hanchor : K (.document r.client r.anchor.uri)) :
    Relies K (rt.runRefresh r) fun _ => True := by
  unfold QueryRuntime.runRefresh
  split
  · exact materializeCallEdges_relies h hanchor _ _ _
  · exact materializeReferences_relies h hanchor _

/-! ### The engine -/

/-- A text that was read opens the document; a file that cannot be read counts as open. -/
private theorem openText_relies {client : Client} (hclient : K (.client client)) {uri : String}
    {text : Option String} (htext : text = none → ∀ client, K (.document client uri)) :
    Relies K (QueryEngine.openText client uri text) fun _ => K (.document client uri) := by
  cases text with
  | none => exact Prog.Under.pure (htext rfl client)
  | some text =>
    exact Prog.Under.bind (openDocument_relies hclient uri text) fun _ h => Prog.Under.pure h

/-- A miss of the cache, with the anchor's document open. -/
private theorem missPath_relies {anchor : Node} {client : Client} (h : Holds K client)
    (hanchor : K (.document client anchor.uri)) (engine : QueryEngine) (anchorId : RowId)
    (hash : Option String) (f : Bool → α) :
    Relies K (missPath engine anchorId anchor client hash f) fun _ => True := by
  refine Prog.Under.bind (Q := fun _ => True) ?_ fun _ _ => ?_
  · exact Prog.Under.bind (relies_of_graph h.server (onlyKinds_db trivial)) fun _ _ =>
      materializeCallEdges_relies h hanchor _ _ _
  · refine Prog.Under.bind (relies_of_graph h.server (storeHash_onlyKinds trivial anchorId hash))
      fun _ _ => Prog.Under.pure trivial

/-- The check of `find_callees` opens the anchor's document first. -/
private theorem refreshCallees_relies {client : Client} (h : Holds K client) (engine : QueryEngine)
    (anchorId : RowId) (anchor : Node) :
    Relies K (engine.refreshCallees anchorId anchor client) fun _ => True := by
  refine Prog.Under.bind (readFileText_relies anchor.uri) fun text htext => ?_
  refine Prog.Under.bind (openText_relies h.client htext) fun _ hanchor => ?_
  refine Prog.Under.bind (relies_of_reads (isFresh_onlyKinds trivial anchorId _)) fun fresh _ => ?_
  cases fresh with
  | true => exact Prog.Under.pure trivial
  | false => exact missPath_relies h hanchor engine anchorId _ id

/-- An expansion of the search opens its node's document first. -/
private theorem expandOutgoingCalls_relies {client : Option Client}
    (hclient : ∀ c, client = some c → Holds K c) (engine : QueryEngine) (anchorId : RowId)
    (anchor : Node) (remaining : Nat) :
    Relies K (engine.expandOutgoingCalls anchorId anchor client remaining) fun _ => True := by
  cases client with
  | none => exact Prog.Under.pure trivial
  | some client =>
    have h := hclient client rfl
    -- The text read is granted to the open before anything is asked about the anchor.
    refine Prog.Under.bind (readFileText_relies anchor.uri) fun text htext => ?_
    refine Prog.Under.bind (openText_relies h.client htext) fun _ hanchor => ?_
    refine Prog.Under.bind (relies_of_reads (isFresh_onlyKinds trivial anchorId _))
      fun fresh _ => ?_
    cases fresh with
    | true => exact Prog.Under.pure trivial
    | false =>
      simp only [Bool.false_eq_true, if_false]
      split
      · exact Prog.Under.pure trivial
      · exact missPath_relies h hanchor engine anchorId _ _

/-- Hints ask no server. -/
theorem hints_relies (engine : QueryEngine) (symref : SymbolRef) :
    Relies K (engine.hintFqnsForSymref symref) fun _ => True :=
  relies_of_reads (hintFqnsForSymref_onlyKinds trivial engine symref)

/-- A page asks no server. -/
private theorem readCallsPage_relies (anchorId : RowId) (dir : Direction) (filter : Filter)
    (page : Page) :
    Relies K (QueryEngine.readCallsPage anchorId dir filter page) fun _ => True :=
  relies_of_reads (readCallsPage_onlyKinds trivial ..)

/-- `find_callees` with any client. -/
private theorem engine_findCallees_relies {client : Option Client}
    (hclient : ∀ c, client = some c → Holds K c) (engine : QueryEngine) (symref : SymbolRef)
    (filter : Filter) (page : Page) :
    Relies K (engine.findCallees symref filter page client) fun _ => True := by
  refine Prog.Under.bind (resolveAnchor_relies symref hclient) fun r _ => ?_
  obtain ⟨anchor, timedOut⟩ := r
  cases anchor with
  | none => exact Prog.Under.bind (hints_relies engine symref) fun _ _ => Prog.Under.pure trivial
  | some anchor =>
    -- The page is read last, whatever the refresh did.
    have hpage : ∀ t, Relies K (do
        let result ← QueryEngine.readCallsPage anchor.id .outgoing filter page
        pure (result, timedOut || t)) fun _ => True := fun t =>
      Prog.Under.bind (readCallsPage_relies ..) fun _ _ => Prog.Under.pure trivial
    cases client with
    | none => exact hpage false
    | some client =>
      exact Prog.Under.bind (refreshCallees_relies (hclient client rfl) engine anchor.id anchor)
        fun t _ => hpage t

/-- The search with any client. -/
private theorem searchLoop_relies {client : Option Client}
    (hclient : ∀ c, client = some c → Holds K c)
    (engine : QueryEngine) (toId : RowId) (maxDepth fuel : Nat) (st : QueryEngine.SearchState) :
    Relies K (engine.searchLoop toId maxDepth client fuel st) fun _ => True := by
  induction fuel generalizing st with
  | zero => exact Prog.Under.pure trivial
  | succ fuel ih =>
    unfold QueryEngine.searchLoop
    -- The queue is empty.
    split
    · exact Prog.Under.pure trivial
    · split
      · -- This item is at the depth bound and is skipped.
        exact ih _
      · -- It is expanded, and its callees are scanned for the target.
        refine Prog.Under.bind (expandOutgoingCalls_relies hclient engine _ _ _)
          fun expansion _ => ?_
        refine Prog.Under.bind (relies_of_reads (onlyKinds_db trivial)) fun rows _ => ?_
        split
        · exact Prog.Under.pure trivial
        · exact ih _

/-- The search with its anchors. -/
private theorem engine_findCallPath_relies {client : Option Client}
    (hclient : ∀ c, client = some c → Holds K c) (engine : QueryEngine) (fuel : Nat)
    (from_ to_ : SymbolRef) (maxDepth maxLspCalls : Nat) :
    Relies K (engine.findCallPath fuel from_ to_ maxDepth maxLspCalls client) fun _ => True := by
  refine Prog.Under.bind (resolveAnchor_relies from_ hclient) fun r₁ _ => ?_
  obtain ⟨fromAnchor, fromTimedOut⟩ := r₁
  refine Prog.Under.bind (resolveAnchor_relies to_ hclient) fun r₂ _ => ?_
  obtain ⟨toAnchor, toTimedOut⟩ := r₂
  dsimp only
  split
  · -- Both ends are known, so the search runs, unless they are one node.
    split
    · exact Prog.Under.pure trivial
    · exact searchLoop_relies hclient ..
  · -- Else the answer is hints for the ends that were not found.
    split
    · refine Prog.Under.bind (hints_relies engine from_) fun _ _ => ?_
      split
      · exact Prog.Under.bind (hints_relies engine to_) fun _ _ => Prog.Under.pure trivial
      · exact Prog.Under.pure trivial
    · show Relies K (if toAnchor.isNone then _ else _) fun _ => True
      split
      · exact Prog.Under.bind (hints_relies engine to_) fun _ _ => Prog.Under.pure trivial
      · exact Prog.Under.pure trivial

/-! ### Hovers -/

/-- A definition's document is opened before the hover. -/
private theorem refineByHover_relies {client : Client} (h : Holds K client) (node : Node) :
    Relies K (QueryEngine.refineByHover node client) fun _ => True := by
  unfold QueryEngine.refineByHover
  split
  · exact Prog.Under.pure trivial
  · refine Prog.Under.bind (ensureOpen_relies h.client node.uri) fun _ hnode => ?_
    refine Prog.Under.bind (relies_about h.client hnode rfl) fun reply _ => ?_
    -- What is left stores what the hover tells.
    refine relies_of_graph h.server ?_
    split
    · have hsignature : ∀ (node : Node) (signature : String), OnlyKinds CmdKind.onGraph
          (if node.signature.isNone && !signature.isEmpty then do
            let _ ← db (.updateNodeSignature node.id signature)
            pure { node with signature := some signature }
          else pure node : QueryM Node) := by
        intro node signature
        split
        · exact (onlyKinds_db trivial).bind fun _ => onlyKinds_pure _
        · exact onlyKinds_pure _
      dsimp only
      split
      · exact (onlyKinds_db trivial).bind fun _ => hsignature ..
      · exact hsignature ..
    · exact onlyKinds_pure _

/-- The document of every target is opened before the hover. -/
private theorem definitionNodes_relies {client : Client} (h : Holds K client)
    (locs : List Location) :
    Relies K (QueryEngine.definitionNodes client locs) fun _ => True := by
  induction locs with
  | nil => exact Prog.Under.pure trivial
  | cons loc rest ih =>
    refine Prog.Under.bind (nodeAt_relies _ _) fun node _ => ?_
    cases node with
    | none => exact ih
    | some node =>
      refine Prog.Under.bind (refineByHover_relies h node) fun _ _ => ?_
      exact Prog.Under.bind ih fun _ _ => Prog.Under.pure trivial

/-- The uris of the nodes before are opened. -/
private theorem backfillSignatures_relies {client : Client} (h : Holds K client)
    (opened : List String)
    (hopened : ∀ uri ∈ opened, K (.document client uri)) (nodes : List NodeDto) :
    Relies K (QueryRuntime.backfillSignatures client opened nodes) fun _ => True := by
  -- Induction on the nodes; `opened` are the documents that were opened before in this loop.
  induction nodes generalizing opened with
  | nil => exact Prog.Under.pure trivial
  | cons node rest ih =>
    unfold QueryRuntime.backfillSignatures
    split
    · exact Prog.Under.bind (ih _ hopened) fun _ _ => Prog.Under.pure trivial
    · refine Prog.Under.unless (fun _ => ensureOpen_relies h.client node.uri) (fun hcontains => ?_)
        fun hnode => ?_
      · -- A document that was opened already is granted by its first opening.
        exact hopened node.uri (by simpa using hcontains)
      · -- One that is opened now is granted to the rest too.
        have hrest := ih (node.uri :: opened) fun uri huri => by
          cases List.mem_cons.mp huri with
          | inl heq => exact heq ▸ hnode
          | inr hold => exact hopened uri hold
        refine Prog.Under.bind (relies_about h.client hnode rfl) fun reply _ => ?_
        -- The hover is asked for once the document is open; the signature is stored if there is
        -- one.
        split
        · dsimp only
          split
          · exact Prog.Under.bind hrest fun _ _ => Prog.Under.pure trivial
          · refine Prog.Under.bind (relies_of_graph h.server (onlyKinds_db trivial)) fun _ _ => ?_
            exact Prog.Under.bind hrest fun _ _ => Prog.Under.pure trivial
        · exact Prog.Under.bind hrest fun _ _ => Prog.Under.pure trivial

/-- Every node's document of a page is opened before the hover. -/
private theorem withSignatures_relies {client : Client} (h : Holds K client) (withSignature : Bool)
    (result : CallGraphResult) :
    Relies K (QueryRuntime.withSignatures withSignature client result) fun _ => True := by
  unfold QueryRuntime.withSignatures
  split
  · exact Prog.Under.bind (backfillSignatures_relies h []
      (fun _ huri => absurd huri List.not_mem_nil) _) fun _ _ => Prog.Under.pure trivial
  · exact Prog.Under.pure trivial

/-- Each language has its own client. -/
private theorem backfillLanguages_relies (languages : List String) (nodes : List NodeDto) :
    Relies K (QueryRuntime.backfillLanguages languages nodes) fun _ => True := by
  induction languages generalizing nodes with
  | nil => exact Prog.Under.pure trivial
  | cons language rest ih =>
    refine Prog.Under.bind (acquireOpt_relies (some language)) fun acquired hacquired => ?_
    obtain ⟨client, degradation⟩ := acquired
    cases client with
    | none => exact ih nodes
    | some client =>
      exact Prog.Under.bind (backfillSignatures_relies (hacquired client rfl) _
        (fun _ huri => absurd huri List.not_mem_nil) _) fun nodes _ => ih nodes

/-! ### The tools -/

/-- A refresh is given a client and the anchor's document. -/
private theorem spawnRefresh_relies {r : Refresh} (h : Holds K r.client)
    (hanchor : K (.document r.client r.anchor.uri)) :
    Relies K (Prog.perform (.spawnRefresh r)) fun _ => True := by
  refine Prog.Under.perform (fun g hg => ?_) fun _ _ => trivial
  rcases List.mem_cons.mp hg with rfl | hg
  · exact h.server
  rcases List.mem_cons.mp hg with rfl | hg
  · exact h.client
  · exact List.mem_singleton.mp hg ▸ hanchor

variable (rt : QueryRuntime)

/-- The client of a query holds what it needs. -/
theorem clientFor_relies (symref : SymbolRef) :
    Relies K (rt.clientFor symref) fun acquired =>
      ∀ client, acquired.1 = some client → Holds K client := by
  cases symref with
  | fqn fqn =>
    exact Prog.Under.bind (relies_of_reads (onlyKinds_db trivial)) fun _ _ => acquireOpt_relies _
  | «at» uri line character => exact acquireOpt_relies _

/-- The tool `find_definition` as a whole. -/
private theorem findDefinition_relies (symref : SymbolRef) :
    Relies K (rt.findDefinition symref) fun _ => True := by
  refine Prog.Under.bind (acquireOpt_relies _) fun acquired hacquired => ?_
  refine Prog.Under.bind (Q := fun _ => True) ?_ fun found _ => Prog.Under.pure trivial
  cases symref with
  | fqn fqn => exact relies_of_reads ((onlyKinds_db trivial).bind fun _ => onlyKinds_pure _)
  | «at» uri line character =>
    obtain ⟨client, degradation⟩ := acquired
    cases client with
    | none => exact Prog.Under.pure trivial
    | some client =>
      have h := hacquired client rfl
      refine Prog.Under.bind (ensureOpen_relies h.client uri) fun _ _ => ?_
      refine Prog.Under.bind (relies_request h.client fun g hg => absurd hg List.not_mem_nil)
        fun reply _ => ?_
      exact Prog.Under.bind (definitionNodes_relies h _) fun _ _ => Prog.Under.pure trivial

/-- The tool `find_references` as a whole. -/
private theorem findReferences_relies (symref : SymbolRef) (filter : Filter) (page : Page) :
    Relies K (rt.findReferences symref filter page) fun _ => True := by
  have hpage : ∀ id, Relies K (QueryEngine.referencesFromCache id filter page) fun _ => True :=
    fun id => relies_of_reads (referencesFromCache_onlyKinds trivial ..)
  -- A client that was acquired is granted to all that follows.
  refine Prog.Under.bind (clientFor_relies rt symref) fun acquired hacquired => ?_
  obtain ⟨client, degradation⟩ := acquired
  refine Prog.Under.bind (resolveAnchor_relies symref hacquired) fun r _ => ?_
  obtain ⟨anchor, timedOut⟩ := r
  dsimp only
  split
  · exact Prog.Under.bind (hints_relies rt.toQueryEngine symref) fun _ _ => Prog.Under.pure trivial
  · exact Prog.Under.bind (hpage _) fun _ _ => Prog.Under.pure trivial
  · rename_i anchor client
    have h := hacquired client rfl
    -- The document of the anchor is opened before anything is asked about it.
    refine Prog.Under.bind (ensureOpen_relies h.client _) fun _ hanchor => ?_
    refine Prog.Under.bind (relies_of_reads (onlyKinds_db trivial)) fun warm _ => ?_
    split
    · -- A warm anchor is read and refreshed, a cold one is materialized and marked first.
      refine Prog.Under.bind (hpage _) fun _ _ => ?_
      exact Prog.Under.bind (spawnRefresh_relies h hanchor) fun _ _ => Prog.Under.pure trivial
    · refine Prog.Under.bind (materializeReferences_relies h hanchor _) fun _ _ => ?_
      refine Prog.Under.bind (relies_of_graph h.server (onlyKinds_db trivial)) fun _ _ => ?_
      refine Prog.Under.bind (hpage _) fun _ _ => ?_
      exact Prog.Under.bind (spawnRefresh_relies h hanchor) fun _ _ => Prog.Under.pure trivial

/-- The tool `find_callers` as a whole. -/
private theorem findCallers_relies (symref : SymbolRef) (filter : Filter) (page : Page)
    (withSignature : Bool) :
    Relies K (rt.findCallers symref filter page withSignature) fun _ => True := by
  -- A client that was acquired is granted to all that follows.
  refine Prog.Under.bind (clientFor_relies rt symref) fun acquired hacquired => ?_
  obtain ⟨client, degradation⟩ := acquired
  refine Prog.Under.bind (resolveAnchor_relies symref hacquired) fun r _ => ?_
  obtain ⟨anchor, timedOut⟩ := r
  dsimp only
  split
  · exact Prog.Under.bind (hints_relies rt.toQueryEngine symref) fun _ _ => Prog.Under.pure trivial
  · exact Prog.Under.bind (readCallsPage_relies ..) fun _ _ => Prog.Under.pure trivial
  · rename_i anchor client
    have h := hacquired client rfl
    -- The document of the anchor is opened before anything is asked about it.
    refine Prog.Under.bind (ensureOpen_relies h.client _) fun _ hanchor => ?_
    refine Prog.Under.bind (relies_of_reads (onlyKinds_db trivial)) fun warm _ => ?_
    split
    · -- A warm anchor is read and refreshed, a cold one is materialized and marked first.
      refine Prog.Under.bind (readCallsPage_relies ..) fun _ _ => ?_
      refine Prog.Under.bind (withSignatures_relies h ..) fun _ _ => ?_
      exact Prog.Under.bind (spawnRefresh_relies h hanchor) fun _ _ => Prog.Under.pure trivial
    · refine Prog.Under.bind (materializeCallEdges_relies h hanchor _ _ _) fun _ _ => ?_
      refine Prog.Under.bind (relies_of_graph h.server (onlyKinds_db trivial)) fun _ _ => ?_
      refine Prog.Under.bind (readCallsPage_relies ..) fun _ _ => ?_
      refine Prog.Under.bind (withSignatures_relies h ..) fun _ _ => ?_
      exact Prog.Under.bind (spawnRefresh_relies h hanchor) fun _ _ => Prog.Under.pure trivial

/-- The tool `find_callees` as a whole. -/
private theorem findCallees_relies (symref : SymbolRef) (filter : Filter) (page : Page)
    (withSignature : Bool) :
    Relies K (rt.findCallees symref filter page withSignature) fun _ => True := by
  refine Prog.Under.bind (clientFor_relies rt symref) fun acquired hacquired => ?_
  obtain ⟨client, degradation⟩ := acquired
  refine Prog.Under.bind (engine_findCallees_relies hacquired _ symref filter page)
    fun found _ => ?_
  obtain ⟨result, timedOut⟩ := found
  cases client with
  | none => exact Prog.Under.pure trivial
  | some client =>
    exact Prog.Under.bind (withSignatures_relies (hacquired client rfl) ..) fun _ _ =>
      Prog.Under.pure trivial

/-- The tool `find_call_path` as a whole. -/
private theorem findCallPath_relies (fuel : Nat) (from_ to_ : SymbolRef)
    (maxDepth maxLspCalls : Nat) :
    Relies K (rt.findCallPath fuel from_ to_ maxDepth maxLspCalls) fun _ => True := by
  refine Prog.Under.bind (clientFor_relies rt from_) fun acquired hacquired => ?_
  exact Prog.Under.bind (engine_findCallPath_relies hacquired ..) fun _ _ => Prog.Under.pure trivial

/-- The tool `find_symbol` as a whole. -/
private theorem findSymbol_relies (pattern : String) (mode : MatchMode) (ignoreCase : Bool)
    (options : FindSymbolOptions) (filter : Filter) (page : Page) :
    Relies K (rt.findSymbol pattern mode ignoreCase options filter page) fun _ => True := by
  refine Prog.Under.bind (Q := fun _ => True) (relies_of_reads ?_) fun result _ => ?_
  · refine (onlyKinds_db trivial).bind fun nodes => ?_
    dsimp only
    split
    · exact onlyKinds_pure _
    · exact onlyKinds_pure _
  · split
    · exact Prog.Under.bind (backfillLanguages_relies _ _) fun _ _ => Prog.Under.pure trivial
    · exact Prog.Under.pure trivial

/-- No query relies on anything that it has not been granted. -/
private theorem shown_relies (call : ToolCall) : Relies K (call.shown rt) fun _ => True := by
  -- What is shown is computed from the answer without another command.
  have hdone : ∀ fqns : List String, Relies K (pure fqns : QueryM (List String)) fun _ => True :=
    fun _ => Prog.Under.pure trivial
  cases call with
  | findSymbol pattern mode ignoreCase options filter page =>
    exact Prog.Under.bind (findSymbol_relies rt ..) fun _ _ => hdone _
  | findDefinition symref =>
    exact Prog.Under.bind (findDefinition_relies rt symref) fun _ _ => hdone _
  | findReferences symref filter page =>
    exact Prog.Under.bind (findReferences_relies rt symref filter page) fun _ _ => hdone _
  | findCallers symref filter page withSignature =>
    exact Prog.Under.bind (findCallers_relies rt symref filter page withSignature) fun _ _ =>
      hdone _
  | findCallees symref filter page withSignature =>
    exact Prog.Under.bind (findCallees_relies rt symref filter page withSignature) fun _ _ =>
      hdone _
  | findCallPath fuel from_ to_ maxDepth maxLspCalls =>
    refine Prog.Under.bind (findCallPath_relies rt fuel from_ to_ maxDepth maxLspCalls)
      fun found _ => ?_
    cases found with
    | none => exact hdone _
    | some found => exact hdone _

end Parts

/-! ## Runs -/

/-- What a task has from its start. -/
def GrantedAtStart (rt : QueryRuntime) (task : Task Cmd (List String)) (g : Grant) : Prop :=
  ∃ r : Refresh, task.start = (rt.runRefresh r >>= fun _ => pure []) ∧ g ∈ r.grants

/-- A command that does more than read relies on a server. -/
private theorem Cmd.relies_of_not_reads {β : Type} {c : Cmd β} (hc : ¬ c.kind.onlyReads) :
    .server ∈ c.relies ∨ ∃ client, .client client ∈ c.relies := by
  cases c with
  | db c => cases c <;> first | exact absurd trivial hc | exact .inl List.mem_cons_self
  | openDocument client uri text => exact .inr ⟨client, List.mem_cons_self⟩
  | request client r => exact .inr ⟨client, List.mem_cons_self⟩
  | spawnRefresh r => exact .inl List.mem_cons_self
  | readFileText uri => exact absurd trivial hc
  | acquire language => exact absurd trivial hc

/-- Who acquires a client has acquired a server. -/
private theorem Brings.server {client : Client} {e : Exchange Cmd} (h : Brings (.client client) e) :
    Brings .server e := by
  obtain ⟨c, reply⟩ := e
  cases c with
  -- Only an acquisition that succeeds grants a client, and it grants the server too.
  | acquire language =>
    cases reply with
    | ok u => exact .inl rfl
    | error err => exact absurd h id
  | openDocument client' uri text => cases h
  | readFileText uri =>
    cases reply with
    | none =>
      obtain ⟨_, h⟩ := h
      cases h
    | some text => exact absurd h id
  | request client' r =>
    cases r with
    | prepareCallHierarchy uri line character =>
      cases reply with
      | ok items =>
        obtain ⟨_, -, h⟩ := h
        cases h
      | error err => exact absurd h id
    | _ => exact absurd h id
  | _ => exact absurd h id

section Runs

variable (rt : QueryRuntime) {S : Servers} {env : World → World → Prop} {w : World}
  {sys : System Cmd World (List String)}

/-- What a task relies on, it was granted before. -/
theorem granted_before (hrun : System.Reaches (Cmd.handle S) env (MayRun rt) ⟨w, []⟩ sys)
    {task : Task Cmd (List String)} (htask : task ∈ sys.tasks) {pre post : List (Exchange Cmd)}
    {e : Exchange Cmd} (htrace : task.trace = pre ++ e :: post) {g : Grant}
    (hg : g ∈ e.cmd.relies) : (∃ e' ∈ pre, Brings g e') ∨ GrantedAtStart rt task g := by
  by_contra hnone
  obtain ⟨hpre, hstart⟩ := not_or.mp hnone
  obtain ⟨hmay, y, hpath, -⟩ := hrun.follows (fun t ht => absurd ht List.not_mem_nil) task htask
  rw [htrace] at hpath
  have hissue := Prog.MayIssue.of_path (ReliesOn g) (Brings g) hpath hg
    fun e' he' hbrings => hpre ⟨e', he', hbrings⟩
  unfold GrantedAtStart at hstart
  generalize task.start = x at hmay hissue hstart
  cases hmay with
  | call call => exact Prog.not_mayIssue_of_usesOnly (fun K => shown_relies rt call) g hissue
  | refresh r =>
    -- A refresh starts with what its spawner had.
    refine hstart ⟨r, rfl, Prog.mayIssue_of_usesOnly (Q := fun _ => True)
      (· ∈ r.grants) (fun K hK => ?_) hissue⟩
    have hserver : K .server := hK _ List.mem_cons_self
    have hclient : K (.client r.client) := hK _ (List.mem_cons_of_mem _ List.mem_cons_self)
    have hanchor : K (.document r.client r.anchor.uri) :=
      hK _ (List.mem_cons_of_mem _ (List.mem_cons_of_mem _ List.mem_cons_self))
    exact Prog.Under.bind (runRefresh_relies rt ⟨hserver, hclient⟩ hanchor) fun _ _ =>
      Prog.Under.pure trivial

/-- In every run of queries and refreshes, whatever the servers answer and whatever else happens
    to the graph and the files: what a task's command relies on (a server, a client, an open
    document, an item) the task was granted by an exchange of its own before, or, a refresh, at its
    start; and a query that has acquired no server only reads. -/
theorem granted_first (hrun : System.Reaches (Cmd.handle S) env (MayRun rt) ⟨w, []⟩ sys) :
    ∀ task ∈ sys.tasks,
      (∀ pre e post, task.trace = pre ++ e :: post → ∀ g ∈ e.cmd.relies,
        (∃ e' ∈ pre, Brings g e') ∨ GrantedAtStart rt task g) ∧
      ((∀ e ∈ task.trace, ¬ Brings .server e) →
        (∀ r, task.start ≠ (rt.runRefresh r >>= fun _ => pure [])) →
        ∀ e ∈ task.trace, e.cmd.kind.onlyReads) := by
  intro task htask
  have hgranted : ∀ pre e post, task.trace = pre ++ e :: post → ∀ g ∈ e.cmd.relies,
      (∃ e' ∈ pre, Brings g e') ∨ GrantedAtStart rt task g :=
    fun pre e post htrace g hg => granted_before rt hrun htask htrace hg
  -- A call whose server was never acquired sends read-only commands alone.
  refine ⟨hgranted, fun hunserved hcall e he => ?_⟩
  -- A call starts without grants; only a refresh is given some at its start.
  have hquery : ∀ g, ¬ GrantedAtStart rt task g := by
    rintro g ⟨r, hstart, -⟩
    exact hcall r hstart
  obtain ⟨pre, post, htrace⟩ := List.append_of_mem he
  by_contra hmore
  have hpre : ∀ e' ∈ pre, ¬ Brings .server e' := fun e' he' =>
    hunserved e' (htrace ▸ List.mem_append_left _ he')
  -- A command that does more relies on the server or on a client, which was never granted.
  cases Cmd.relies_of_not_reads hmore with
  | inl hserver =>
    cases hgranted pre e post htrace _ hserver with
    | inl h =>
      obtain ⟨e', he', hbrings⟩ := h
      exact hpre e' he' hbrings
    | inr h => exact hquery _ h
  | inr hclient =>
    obtain ⟨client, hclient⟩ := hclient
    cases hgranted pre e post htrace _ hclient with
    | inl h =>
      obtain ⟨e', he', hbrings⟩ := h
      exact hpre e' he' hbrings.server
    | inr h => exact hquery _ h

end Runs

/-- `find_references` for a class: the server is acquired, the class's file opened, its references
    asked for and stored. -/
theorem granted_first_cold : (coldSystem appServers).tasks.length = 1 ∧
    ∀ task ∈ (coldSystem appServers).tasks,
      (∀ pre e post, task.trace = pre ++ e :: post → ∀ g ∈ e.cmd.relies,
        (∃ e' ∈ pre, Brings g e') ∨ GrantedAtStart appRuntime task g) ∧
      ((∀ e ∈ task.trace, ¬ Brings .server e) →
        (∀ r, task.start ≠ (appRuntime.runRefresh r >>= fun _ => pure [])) →
        ∀ e ∈ task.trace, e.cmd.kind.onlyReads) := by
  obtain ⟨w, -, hrun⟩ := coldSystem_run (S := appServers) rfl
  exact ⟨rfl, granted_first appRuntime hrun⟩

end Semnav.Query
