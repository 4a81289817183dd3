import Semnav.Query.Pool

/-!
# Which commands a query issues

Commands fall into kinds, and every part of a query issues commands of a few kinds only.
From the kinds alone follows what a run leaves as it was: the files always, the tables
unless an edge or a cache row is written, the rows of `nodes` unless a hover is stored; and
which events a run adds to the log.

## Key results

- `OnlyKinds.run_db`, `run_text`: what a run does not touch
- `OnlyKinds.run_log`: the events of a run have the kinds of its commands
-/

namespace Semnav.Query

open Semnav.ForStd Semnav.Graph Semnav.Indexer

/-! ## Kinds -/

/-- What a command is about. -/
inductive CmdKind where
  | read
  | neighbors
  | upsertEdge (edgeType : EdgeType)
  | invalidate
  | setCache
  | mark
  | storeHover
  | file
  | openDocument
  | request (method : Method)
  | acquire
  | spawn
deriving DecidableEq

/-- The kind of a db command. -/
def DbCmd.kind {β : Type} : DbCmd β → CmdKind
  | .getNode .. | .getNodeByFqn .. | .findNodeByPosition .. | .listNodes ..
  | .getCalleesCacheHash .. | .isMaterialized .. => .read
  | .getNeighbors .. => .neighbors
  | .upsertEdge e => .upsertEdge e.edgeType
  | .invalidateOutgoingCalls .. => .invalidate
  | .setCalleesCacheHash .. => .setCache
  | .markMaterialized .. => .mark
  | .updateNodeConstruct .. | .updateNodeSignature .. | .updateNodeSignatureByFqn .. => .storeHover

/-- The kind of a command. -/
def Cmd.kind {β : Type} : Cmd β → CmdKind
  | .db c => c.kind
  | .readFileText .. => .file
  | .openDocument .. => .openDocument
  | .request _ r => .request r.method
  | .acquire .. => .acquire
  | .spawnRefresh .. => .spawn

/-- The kind of the command that an event comes from. -/
def Event.kind : Event → CmdKind
  | .trip method _ => .request method
  | .acquire .. => .acquire
  | .invalidated .. => .invalidate
  | .neighbors .. => .neighbors

/-- A query that issues commands of the given kinds only. -/
def OnlyKinds {α : Type} (K : CmdKind → Prop) (q : QueryM α) : Prop :=
  Prog.Issues (fun _ c => K (Cmd.kind c)) q

/-- Does a command of this kind leave the tables alone? -/
def CmdKind.keepsDb : CmdKind → Prop
  | .upsertEdge _ | .invalidate | .setCache | .mark | .storeHover => False
  | _ => True

/-! ## What a run leaves as it was -/

section Frame

variable {α β : Type} {S : Servers} {K : CmdKind → Prop}

/-- More kinds are allowed. -/
theorem OnlyKinds.mono {K' : CmdKind → Prop} {q : QueryM α} (hq : OnlyKinds K q)
    (h : ∀ k, K k → K' k) : OnlyKinds K' q :=
  Prog.Issues.mono hq fun _ _ hc => h _ hc

/-- One query after the other. -/
theorem OnlyKinds.bind {q : QueryM α} {f : α → QueryM β} (hq : OnlyKinds K q)
    (hf : ∀ a, OnlyKinds K (f a)) : OnlyKinds K (q >>= f) :=
  Prog.Issues.bind hq hf

/-- Every query keeps to the commands that there are. -/
theorem onlyKinds_true (q : QueryM α) : OnlyKinds (fun _ => True) q :=
  Prog.Issues.of_forall (fun _ _ => trivial) q

/-- A result needs no command. -/
theorem onlyKinds_pure (a : α) : OnlyKinds K (pure a : QueryM α) := trivial

/-- A command of the graph. -/
theorem onlyKinds_db {c : DbCmd β} (hc : K c.kind) : OnlyKinds K (db c) :=
  Prog.Issues.perform hc

/-- A round trip. -/
theorem onlyKinds_request (client : Client) {r : Request β} (hr : K (.request r.method)) :
    OnlyKinds K (client.request r) :=
  Prog.Issues.perform hr

/-- Opening a document. -/
private theorem onlyKinds_openDocument (client : Client) {uri text : String} (h : K .openDocument) :
    OnlyKinds K (client.openDocument uri text) :=
  Prog.Issues.perform h

/-- Reading a file. -/
theorem onlyKinds_readFileText {uri : String} (h : K .file) : OnlyKinds K (readFileText uri) :=
  Prog.Issues.perform h

/-- The command and the statement return the same id and graph. -/
theorem exec_upsertEdge_iff {e : Edge} {d d' : Db} {id : RowId} :
    (DbCmd.upsertEdge e).exec d = .ok (id, d') ↔ d.upsertEdge e = .ok (d', id) := by
  simp only [DbCmd.exec, bind, Except.bind]
  cases d.upsertEdge e with
  | error err => simp
  | ok r =>
    obtain ⟨d₁, id₁⟩ := r
    simp [and_comm]

/-- The cache row refers to the row of its anchor. -/
theorem exec_setCalleesCacheHash_iff {anchorId : RowId} {hash : String} {d d' : Db} {b : Unit} :
    (DbCmd.setCalleesCacheHash anchorId hash).exec d = .ok (b, d') ↔ d.hasNode anchorId = true ∧
      d' = { d with calleesCache := fun a => if a = anchorId then some hash else d.calleesCache a } := by
  simp only [DbCmd.exec, Db.setCalleesCacheHash, bind, Except.bind]
  cases d.hasNode anchorId with
  | false => simp
  | true => simp [eq_comm]

/-- Marking an anchor succeeds if its row is there. -/
theorem exec_markMaterialized_iff {anchorId : RowId} {t : EdgeType} {d d' : Db} {b : Unit} :
    (DbCmd.markMaterialized anchorId t).exec d = .ok (b, d') ↔ d.hasNode anchorId = true ∧
      d' = { d with materialized := fun a t' =>
        if a = anchorId ∧ t' = t then true else d.materialized a t' } := by
  simp only [DbCmd.exec, Db.markMaterialized, bind, Except.bind]
  cases d.hasNode anchorId with
  | false => simp
  | true => simp [eq_comm]

/-- A db command reads, or it writes one of the five things. -/
private theorem exec_keeps {c : DbCmd β} (hc : c.kind.keepsDb) {d : Db} {b : β} {d' : Db}
    (h : c.exec d = .ok (b, d')) : d' = d := by
  cases c <;> first | exact absurd hc id | (simp only [DbCmd.exec, Except.ok.injEq] at h; cases h; rfl)

/-- No command writes a file. -/
theorem handle_text (c : Cmd β) (w : World) : (c.handle S w).2.text = w.text := by
  cases c with
  | db c =>
    simp only [Cmd.handle]
    split <;> rfl
  | spawnRefresh r =>
    simp only [Cmd.handle]
    split <;> rfl
  | _ => rfl

/-- No query writes a file. -/
theorem run_text (q : QueryM α) (w : World) : (q.run S w).2.text = w.text :=
  Prog.Issues.run_rel (Cmd.handle S) (fun a b => b.text = a.text) (fun _ => rfl)
    (fun hab hbc => hbc.trans hab) (fun _ c s _ => handle_text c s) (onlyKinds_true q) w

/-- A command that only asks leaves the graph as it was. -/
private theorem handle_db {c : Cmd β} (hc : c.kind.keepsDb) (w : World) :
    (c.handle S w).2.db = w.db := by
  cases c with
  | db c =>
    simp only [Cmd.handle]
    split
    · rename_i b d hexec
      exact exec_keeps hc hexec
    · rfl
  | spawnRefresh r =>
    simp only [Cmd.handle]
    split <;> rfl
  | _ => rfl

/-- A query that writes nothing leaves the tables as they were. -/
theorem OnlyKinds.run_db {q : QueryM α} (hq : OnlyKinds CmdKind.keepsDb q) (w : World) :
    (q.run S w).2.db = w.db :=
  Prog.Issues.run_rel (Cmd.handle S) (fun a b => b.db = a.db) (fun _ => rfl)
    (fun hab hbc => hbc.trans hab) (fun _ _ s hc => handle_db hc s) hq w

/-- The rows of `nodes` change only where a hover is stored. -/
theorem exec_nodes {c : DbCmd β} (hc : c.kind ≠ .storeHover) {d : Db} {b : β} {d' : Db}
    (h : c.exec d = .ok (b, d')) : d'.nodes = d.nodes := by
  -- An upsert, a hash and a mark change other tables; the last case is the reads.
  cases c with
  | upsertEdge e =>
    replace h := exec_upsertEdge_iff.mp h
    rw [Db.upsertEdge] at h
    split at h
    · cases h
      rfl
    · split at h
      · cases h
        rfl
      · cases h
  | setCalleesCacheHash id hash =>
    obtain ⟨-, rfl⟩ := exec_setCalleesCacheHash_iff.mp h
    rfl
  | markMaterialized id t =>
    obtain ⟨-, rfl⟩ := exec_markMaterialized_iff.mp h
    rfl
  -- The three updates store a hover, which the hypothesis excludes.
  | updateNodeConstruct | updateNodeSignature | updateNodeSignatureByFqn => exact absurd rfl hc
  | _ =>
    simp only [DbCmd.exec, Except.ok.injEq] at h
    cases h
    rfl

/-- Only storing a hover writes to `nodes`. -/
theorem handle_nodes {c : Cmd β} (hc : c.kind ≠ .storeHover) (w : World) :
    (c.handle S w).2.db.nodes = w.db.nodes := by
  cases c with
  | db c =>
    simp only [Cmd.handle]
    split
    · rename_i b d hexec
      exact exec_nodes hc hexec
    · rfl
  | spawnRefresh r =>
    simp only [Cmd.handle]
    split <;> rfl
  | _ => rfl

/-- A command that fails leaves the world as it was. -/
theorem handle_error {c : Cmd β} {w w' : World} {e : DbError}
    (hc : c.handle S w = (.error e, w')) : w' = w := by
  cases c with
  | db c =>
    simp only [Cmd.handle] at hc
    split at hc
    · exact nomatch hc
    · cases hc
      rfl
  | _ => exact nomatch hc

/-! ## The log -/

/-- `w'` is `w` some events later, all of them of the given kinds. -/
def Logs (K : CmdKind → Prop) (w w' : World) : Prop :=
  ∃ new, w'.log = w.log ++ new ∧ ∀ e ∈ new, K e.kind

/-- No events at all. -/
theorem Logs.refl (w : World) : Logs K w w :=
  ⟨[], (List.append_nil _).symm, fun _ he => absurd he List.not_mem_nil⟩

/-- The events of one stretch and then those of the next. -/
theorem Logs.trans {a b c : World} (hab : Logs K a b) (hbc : Logs K b c) : Logs K a c := by
  obtain ⟨new, hnew, hk⟩ := hab
  obtain ⟨new', hnew', hk'⟩ := hbc
  refine ⟨new ++ new', by rw [hnew', hnew, List.append_assoc], fun e he => ?_⟩
  rcases List.mem_append.mp he with he | he
  · exact hk e he
  · exact hk' e he

/-- The events of two runs, kinds forgotten. -/
theorem Logs.append {K' : CmdKind → Prop} {a b c : World} (hab : Logs K a b)
    (hbc : Logs K' b c) : Logs (fun k => K k ∨ K' k) a c := by
  obtain ⟨new, hnew, hk⟩ := hab
  obtain ⟨new', hnew', hk'⟩ := hbc
  refine ⟨new ++ new', by rw [hnew', hnew, List.append_assoc], fun e he => ?_⟩
  rcases List.mem_append.mp he with he | he
  · exact .inl (hk e he)
  · exact .inr (hk' e he)

/-- More kinds are allowed. -/
theorem Logs.mono {K' : CmdKind → Prop} {w w' : World} (h : Logs K w w') (hK : ∀ k, K k → K' k) :
    Logs K' w w' :=
  h.imp fun _ hnew => ⟨hnew.1, fun e he => hK _ (hnew.2 e he)⟩

/-- The event of a command has its kind. -/
private theorem handle_logs {c : Cmd β} (hc : K c.kind) (w : World) :
    Logs K w (c.handle S w).2 := by
  cases c with
  | db c =>
    -- A database command logs its own event, or none; a request and an acquisition log one.
    simp only [Cmd.handle]
    split
    · refine ⟨(c.event? w.db).toList, rfl, fun e he => ?_⟩
      cases c <;> simp only [DbCmd.event?, Option.toList_none, Option.toList_some,
        List.not_mem_nil, List.mem_singleton] at he
      all_goals
        subst he
        exact hc
    · exact Logs.refl w
  | request client r =>
    refine ⟨[_], rfl, fun e he => ?_⟩
    rw [List.mem_singleton.mp he]
    exact hc
  | acquire language =>
    refine ⟨[_], rfl, fun e he => ?_⟩
    rw [List.mem_singleton.mp he]
    exact hc
  -- Taking a text, opening a document and asking for a refresh log nothing.
  | spawnRefresh r =>
    simp only [Cmd.handle]
    split <;> exact Logs.refl w
  | readFileText uri => exact Logs.refl w
  | openDocument client uri text =>
    exact ⟨[], (List.append_nil _).symm, fun _ he => absurd he List.not_mem_nil⟩

/-- A run adds to the log, and only events of its commands' kinds. -/
theorem OnlyKinds.run_log {q : QueryM α} (hq : OnlyKinds K q) (w : World) :
    Logs K w (q.run S w).2 :=
  Prog.Issues.run_rel (Cmd.handle S) (Logs K) Logs.refl Logs.trans
    (fun _ _ s hc => handle_logs hc s) hq w

/-- Every event of a run of such commands is of such a kind. -/
theorem OnlyKinds.logs_of_run {q : QueryM α} (hq : OnlyKinds K q) {w w' : World}
    {r : Except DbError α} (h : q.run S w = (r, w')) : Logs K w w' := by
  have hlog := hq.run_log (S := S) w
  rw [h] at hlog
  exact hlog

end Frame

/-! ## The kinds of each part of a query -/

section Parts

variable {K : CmdKind → Prop}

/-- Looking up a span reads the graph. -/
theorem nodeAt_onlyKinds (hread : K .read) (uri : String) (r : LspRange) :
    OnlyKinds K (nodeAt uri r) :=
  onlyKinds_db hread

/-- A document is read and opened. -/
theorem ensureOpen_onlyKinds (hfile : K .file) (hopen : K .openDocument) (uri : String)
    (client : Client) : OnlyKinds K (ensureOpen uri client) := by
  refine (onlyKinds_readFileText hfile).bind fun text => ?_
  cases text with
  | none => trivial
  | some text => exact (onlyKinds_openDocument client hopen).bind fun _ => trivial

/-- The first location that is indexed is looked up by reads. -/
theorem firstResolved_onlyKinds (hread : K .read) (locs : List Location) :
    OnlyKinds K (firstResolved locs) := by
  induction locs with
  | nil => trivial
  | cons loc rest ih =>
    refine (nodeAt_onlyKinds hread ..).bind fun node => ?_
    cases node with
    | some node => trivial
    | none => exact ih

/-- An anchor by position takes one `definition` round trip and reads. -/
private theorem definitionAnchor_onlyKinds (hread : K .read) (hdef : K (.request .definition))
    (uri : String) (line character : Nat) (client : Client) :
    OnlyKinds K (definitionAnchor uri line character client) := by
  refine (onlyKinds_request client hdef).bind fun reply => ?_
  refine (firstResolved_onlyKinds hread _).bind fun node => ?_
  cases node with
  | some node => trivial
  | none => exact (onlyKinds_db hread).bind fun _ => trivial

/-- Resolving any anchor reads and asks for definitions at most. -/
theorem resolveAnchor_onlyKinds (hread : K .read) (hdef : K (.request .definition))
    (symref : SymbolRef) (client : Option Client) :
    OnlyKinds K (QueryEngine.resolveAnchor symref client) := by
  cases symref with
  | fqn fqn => exact (onlyKinds_db hread).bind fun _ => trivial
  | «at» uri line character =>
    cases client with
    | some client => exact definitionAnchor_onlyKinds hread hdef ..
    | none => exact (onlyKinds_db hread).bind fun _ => trivial

/-- The hints are read. -/
theorem hintFqnsForSymref_onlyKinds (hread : K .read) (engine : QueryEngine)
    (symref : SymbolRef) : OnlyKinds K (engine.hintFqnsForSymref symref) := by
  cases symref with
  | fqn fqn => exact (onlyKinds_db hread).bind fun _ => trivial
  | «at» uri line character => trivial

/-- The references of a reply are looked up and upserted. -/
theorem addReferences_onlyKinds (hread : K .read) (hedge : K (.upsertEdge .references))
    (anchorId : RowId) (locs : List Location) : OnlyKinds K (addReferences anchorId locs) := by
  induction locs with
  | nil => trivial
  | cons loc rest ih =>
    refine (nodeAt_onlyKinds hread ..).bind fun node => ?_
    cases node with
    | some node => exact (onlyKinds_db hedge).bind fun _ => ih
    | none => exact ih

/-- The sites of a call are upserted. -/
private theorem addCallSites_onlyKinds (hedge : K (.upsertEdge .calls)) (src dst : RowId)
    (uri : String) (ranges : List LspRange) : OnlyKinds K (addCallSites src dst uri ranges) := by
  induction ranges with
  | nil => trivial
  | cons range rest ih => exact (onlyKinds_db hedge).bind fun _ => ih

/-- The callers of a reply are looked up and upserted. -/
theorem addIncoming_onlyKinds (hread : K .read) (hedge : K (.upsertEdge .calls))
    (rootUri : String) (anchorId : RowId) (calls : List IncomingCall) :
    OnlyKinds K (addIncoming rootUri anchorId calls) := by
  induction calls with
  | nil => trivial
  | cons call rest ih =>
    refine OnlyKinds.bind ?_ fun caller => ?_
    · unfold incomingCaller
      split
      · exact onlyKinds_db hread
      · exact nodeAt_onlyKinds hread ..
    · cases caller with
      | some caller => exact (addCallSites_onlyKinds hedge ..).bind fun _ => ih
      | none => exact ih

/-- The targets of a call are upserted. -/
theorem addTargets_onlyKinds (hedge : K (.upsertEdge .calls)) (anchorId : RowId) (uri : String)
    (ranges : List LspRange) (targets : List RowId) :
    OnlyKinds K (addTargets anchorId uri ranges targets) := by
  induction targets with
  | nil => trivial
  | cons target rest ih => exact (addCallSites_onlyKinds hedge ..).bind fun _ => ih

/-- The implementations are looked up and upserted. -/
theorem addImplementations_onlyKinds (hread : K .read) (hedge : K (.upsertEdge .implements))
    (calleeId : RowId) (locs : List Location) :
    OnlyKinds K (addImplementations calleeId locs) := by
  induction locs with
  | nil => trivial
  | cons loc rest ih =>
    refine (nodeAt_onlyKinds hread ..).bind fun node => ?_
    cases node with
    | some node => exact (onlyKinds_db hedge).bind fun _ => ih.bind fun _ => trivial
    | none => exact ih

/-- What the correction of an interface method may do. -/
structure Corrects (K : CmdKind → Prop) : Prop where
  read : K .read
  file : K .file
  openDocument : K .openDocument
  implementation : K (.request .implementation)
  implements : K (.upsertEdge .implements)

/-- The container of a callee is read. -/
theorem inInterface_onlyKinds (hread : K .read) (callee : Node) :
    OnlyKinds K (inInterface callee) := by
  unfold inInterface
  split
  · exact (onlyKinds_db hread).bind fun _ => trivial
  · trivial

/-- A callee is corrected by its implementations. -/
private theorem resolveOutgoingCallee_onlyKinds (h : Corrects K) (anchor callee : Node)
    (client : Client) : OnlyKinds K (resolveOutgoingCallee anchor callee client) := by
  unfold resolveOutgoingCallee
  split
  · trivial
  · refine (inInterface_onlyKinds h.read callee).bind fun interface => ?_
    split
    · trivial
    · refine (ensureOpen_onlyKinds h.file h.openDocument ..).bind fun _ => ?_
      refine (onlyKinds_request client h.implementation).bind fun reply => ?_
      refine (addImplementations_onlyKinds h.read h.implements ..).bind fun ids => ?_
      split <;> trivial

/-- The callees of a reply are corrected and upserted. -/
theorem addOutgoing_onlyKinds (h : Corrects K) (hedge : K (.upsertEdge .calls))
    (anchorId : RowId) (anchor : Node) (client : Client) (calls : List OutgoingCall) :
    OnlyKinds K (addOutgoing anchorId anchor client calls) := by
  induction calls with
  | nil => trivial
  | cons call rest ih =>
    refine (nodeAt_onlyKinds h.read ..).bind fun callee => ?_
    cases callee with
    | none => exact ih
    | some callee =>
      refine (resolveOutgoingCallee_onlyKinds h ..).bind fun resolved => ?_
      exact (addTargets_onlyKinds hedge ..).bind fun _ => ih.bind fun _ => trivial

/-- A text is sent with `didOpen` or not. -/
theorem openText_onlyKinds (hopen : K .openDocument) (client : Client) (uri : String)
    (text : Option String) : OnlyKinds K (QueryEngine.openText client uri text) := by
  cases text with
  | some text => exact (onlyKinds_openDocument client hopen).bind fun _ => trivial
  | none => trivial

/-- The cache row is read. -/
theorem isFresh_onlyKinds (hread : K .read) (anchorId : RowId) (hash : Option String) :
    OnlyKinds K (QueryEngine.isFresh anchorId hash) := by
  cases hash with
  | some hash => exact (onlyKinds_db hread).bind fun _ => trivial
  | none => trivial

/-- A page of calls is one read of neighbors. -/
theorem readCallsPage_onlyKinds (hneighbors : K .neighbors) (anchorId : RowId) (dir : Direction)
    (filter : Filter) (page : Page) :
    OnlyKinds K (QueryEngine.readCallsPage anchorId dir filter page) :=
  (onlyKinds_db hneighbors).bind fun _ => onlyKinds_pure _

/-- A page of references reads the neighbours only. -/
theorem referencesFromCache_onlyKinds (hneighbors : K .neighbors) (anchorId : RowId)
    (filter : Filter) (page : Page) :
    OnlyKinds K (QueryEngine.referencesFromCache anchorId filter page) :=
  (onlyKinds_db hneighbors).bind fun _ => onlyKinds_pure _

/-! ### Outgoing calls -/

/-- What an outgoing materialization may do, past the invalidation. -/
structure MaterializesOutgoing (K : CmdKind → Prop) : Prop extends Corrects K where
  prepareCallHierarchy : K (.request .prepareCallHierarchy)
  outgoingCalls : K (.request .outgoingCalls)
  calls : K (.upsertEdge .calls)

/-- What the tools over outgoing calls may do, before a hover is asked for. -/
structure ExpandsCalls (K : CmdKind → Prop) : Prop extends MaterializesOutgoing K where
  definition : K (.request .definition)
  neighbors : K .neighbors
  invalidate : K .invalidate
  setCache : K .setCache

/-- An outgoing materialization, its invalidation not among it. -/
theorem materializeOutgoing_onlyKinds (h : MaterializesOutgoing K) (rootUri : String)
    (anchorId : RowId) (anchor : Node) (client : Client) :
    OnlyKinds K (materializeCallEdges rootUri anchorId anchor .outgoing client) := by
  refine (onlyKinds_request client h.prepareCallHierarchy).bind fun reply => ?_
  dsimp only
  split
  · exact onlyKinds_pure _
  · refine OnlyKinds.bind (onlyKinds_request client h.outgoingCalls) fun reply => ?_
    exact (addOutgoing_onlyKinds h.toCorrects h.calls ..).bind fun _ => onlyKinds_pure _

/-- A rematerialization is the invalidation and the calls' materialization. -/
private theorem rematerialize_onlyKinds (h : ExpandsCalls K) (engine : QueryEngine)
    (anchorId : RowId)
    (anchor : Node) (client : Client) :
    OnlyKinds K (engine.rematerialize anchorId anchor client) :=
  (onlyKinds_db h.invalidate).bind fun _ =>
    materializeOutgoing_onlyKinds h.toMaterializesOutgoing ..

/-- The cache row is written. -/
theorem storeHash_onlyKinds (hcache : K .setCache) (anchorId : RowId) (hash : Option String) :
    OnlyKinds K (QueryEngine.storeHash anchorId hash) := by
  cases hash with
  | none => exact onlyKinds_pure _
  | some hash => exact onlyKinds_db hcache

/-- The check of `find_callees` may materialize. -/
private theorem refreshCallees_onlyKinds (h : ExpandsCalls K) (engine : QueryEngine)
    (anchorId : RowId)
    (anchor : Node) (client : Client) :
    OnlyKinds K (engine.refreshCallees anchorId anchor client) := by
  refine (onlyKinds_readFileText h.file).bind fun text => ?_
  refine (openText_onlyKinds h.openDocument ..).bind fun _ => ?_
  refine (isFresh_onlyKinds h.read ..).bind fun fresh => ?_
  split
  · exact onlyKinds_pure _
  · refine (rematerialize_onlyKinds h ..).bind fun timedOut => ?_
    exact (storeHash_onlyKinds h.setCache ..).bind fun _ => onlyKinds_pure _

/-- An expansion of the search rematerializes at most. -/
private theorem expandOutgoingCalls_onlyKinds (h : ExpandsCalls K) (engine : QueryEngine)
    (anchorId : RowId)
    (anchor : Node) (client : Option Client) (remaining : Nat) :
    OnlyKinds K (engine.expandOutgoingCalls anchorId anchor client remaining) := by
  cases client with
  | none => exact onlyKinds_pure _
  | some client =>
    refine (onlyKinds_readFileText h.file).bind fun text => ?_
    refine (openText_onlyKinds h.openDocument ..).bind fun _ => ?_
    refine (isFresh_onlyKinds h.read ..).bind fun fresh => ?_
    split
    · exact onlyKinds_pure _
    · split
      · exact onlyKinds_pure _
      · refine (rematerialize_onlyKinds h ..).bind fun timedOut => ?_
        exact (storeHash_onlyKinds h.setCache ..).bind fun _ => onlyKinds_pure _

/-- The search expands nodes and reads their neighbors, however long it runs. -/
private theorem searchLoop_onlyKinds (h : ExpandsCalls K) (engine : QueryEngine) (toId : RowId)
    (maxDepth : Nat) (client : Option Client) (fuel : Nat) (st : QueryEngine.SearchState) :
    OnlyKinds K (engine.searchLoop toId maxDepth client fuel st) := by
  induction fuel generalizing st with
  | zero => exact onlyKinds_pure _
  | succ fuel ih =>
    unfold QueryEngine.searchLoop
    split
    · exact onlyKinds_pure _
    · split
      · exact ih _
      · refine (expandOutgoingCalls_onlyKinds h ..).bind fun expansion => ?_
        refine OnlyKinds.bind (onlyKinds_db h.neighbors) fun neighbors => ?_
        split
        · exact onlyKinds_pure _
        · exact ih _

/-- The search with its anchors and hints. -/
theorem engine_findCallPath_onlyKinds (h : ExpandsCalls K) (engine : QueryEngine) (fuel : Nat)
    (from_ to_ : SymbolRef) (maxDepth maxLspCalls : Nat) (client : Option Client) :
    OnlyKinds K (engine.findCallPath fuel from_ to_ maxDepth maxLspCalls client) := by
  refine (resolveAnchor_onlyKinds h.read h.definition ..).bind fun r₁ => ?_
  obtain ⟨fromAnchor, fromTimedOut⟩ := r₁
  refine (resolveAnchor_onlyKinds h.read h.definition ..).bind fun r₂ => ?_
  obtain ⟨toAnchor, toTimedOut⟩ := r₂
  have hhints : ∀ symref, OnlyKinds K (engine.hintFqnsForSymref symref) := fun symref =>
    hintFqnsForSymref_onlyKinds h.read engine symref
  dsimp only
  split
  · -- Both ends are found: the search runs unless they are one node.
    split
    · exact onlyKinds_pure _
    · exact searchLoop_onlyKinds h ..
  · -- An end is missing: its hints are read, and nothing else.
    split
    · refine (hhints from_).bind fun fromHints => ?_
      split
      · exact (hhints to_).bind fun _ => onlyKinds_pure _
      · exact onlyKinds_pure _
    · split
      · exact (hhints to_).bind fun _ => onlyKinds_pure _
      · exact onlyKinds_pure _

/-- `find_callees` with its anchor and hints. -/
theorem engine_findCallees_onlyKinds (h : ExpandsCalls K) (engine : QueryEngine)
    (symref : SymbolRef) (filter : Filter) (page : Page) (client : Option Client) :
    OnlyKinds K (engine.findCallees symref filter page client) := by
  refine (resolveAnchor_onlyKinds h.read h.definition ..).bind fun r => ?_
  obtain ⟨anchor, timedOut⟩ := r
  cases anchor with
  | none => exact (hintFqnsForSymref_onlyKinds h.read ..).bind fun _ => onlyKinds_pure _
  | some anchor =>
    cases client with
    | none => exact (readCallsPage_onlyKinds h.neighbors ..).bind fun _ => onlyKinds_pure _
    | some client =>
      refine (refreshCallees_onlyKinds h ..).bind fun _ => ?_
      exact (readCallsPage_onlyKinds h.neighbors ..).bind fun _ => onlyKinds_pure _

/-! ### Hovers and signatures -/

/-- What asking for a hover and storing it may do. -/
structure Hovers (K : CmdKind → Prop) : Prop where
  read : K .read
  file : K .file
  openDocument : K .openDocument
  hover : K (.request .hover)
  storeHover : K .storeHover

/-- The targets of a definition are looked up, and hovers are stored. -/
theorem definitionNodes_onlyKinds (h : Hovers K) (client : Client) (locs : List Location) :
    OnlyKinds K (QueryEngine.definitionNodes client locs) := by
  -- Induction on the locations; each that is stored is refined by its hover.
  induction locs with
  | nil => exact onlyKinds_pure _
  | cons loc rest ih =>
    refine (nodeAt_onlyKinds h.read ..).bind fun node => ?_
    cases node with
    | none => exact ih
    | some node =>
      refine OnlyKinds.bind ?_ fun _ => ih.bind fun _ => onlyKinds_pure _
      unfold QueryEngine.refineByHover
      split
      · exact onlyKinds_pure _
      · refine (ensureOpen_onlyKinds h.file h.openDocument ..).bind fun _ => ?_
        refine (onlyKinds_request client h.hover).bind fun reply => ?_
        split
        · -- The signature is stored at most once, when the row has none.
          have hsignature : ∀ (node : Node) (signature : String), OnlyKinds K
              (if node.signature.isNone && !signature.isEmpty then do
                let _ ← db (.updateNodeSignature node.id signature)
                pure { node with signature := some signature }
              else pure node : QueryM Node) := by
            intro node signature
            split
            · exact (onlyKinds_db h.storeHover).bind fun _ => onlyKinds_pure _
            · exact onlyKinds_pure _
          dsimp only
          split
          · exact (onlyKinds_db h.storeHover).bind fun _ => hsignature ..
          · exact hsignature ..
        · exact onlyKinds_pure _

/-- The hovers of a page are asked for and stored. -/
private theorem backfillSignatures_onlyKinds (h : Hovers K) (client : Client) (opened : List String)
    (nodes : List NodeDto) : OnlyKinds K (QueryRuntime.backfillSignatures client opened nodes) := by
  induction nodes generalizing opened with
  | nil => exact onlyKinds_pure _
  | cons node rest ih =>
    unfold QueryRuntime.backfillSignatures
    split
    · exact (ih _).bind fun _ => onlyKinds_pure _
    · dsimp only
      split
      -- With or without a `didOpen` first, the hover comes next.
      case' cons.isFalse.isTrue =>
        refine (ensureOpen_onlyKinds h.file h.openDocument ..).bind fun _ => ?_
      all_goals
        refine (onlyKinds_request client h.hover).bind fun reply => ?_
        split
        · split
          · exact (ih _).bind fun _ => onlyKinds_pure _
          · exact (onlyKinds_db h.storeHover).bind fun _ => (ih _).bind fun _ => onlyKinds_pure _
        · exact (ih _).bind fun _ => onlyKinds_pure _

/-- Signatures of callers and callees are hovers, if they are asked for. -/
theorem withSignatures_onlyKinds (h : Hovers K) (withSignature : Bool) (client : Client)
    (result : CallGraphResult) :
    OnlyKinds K (QueryRuntime.withSignatures withSignature client result) := by
  unfold QueryRuntime.withSignatures
  split
  · exact (backfillSignatures_onlyKinds h ..).bind fun _ => onlyKinds_pure _
  · exact onlyKinds_pure _

/-! ### Whole tools -/

/-- One server is acquired at most. -/
theorem acquireOpt_onlyKinds (hacquire : K .acquire) (language : Option String) :
    OnlyKinds K (QueryRuntime.acquireOpt language) := by
  cases language with
  | none => exact onlyKinds_pure _
  | some language =>
    refine OnlyKinds.bind (Prog.Issues.perform (c := Cmd.acquire language) hacquire) fun reply => ?_
    cases reply with
    | ok => exact onlyKinds_pure _
    | error => exact onlyKinds_pure _

/-- A named anchor is read, and the server of its language acquired. -/
theorem clientFor_onlyKinds (hread : K .read) (hacquire : K .acquire) (rt : QueryRuntime)
    (symref : SymbolRef) : OnlyKinds K (rt.clientFor symref) := by
  cases symref with
  | fqn fqn => exact (onlyKinds_db hread).bind fun _ => acquireOpt_onlyKinds hacquire _
  | «at» uri line character => exact acquireOpt_onlyKinds hacquire _

/-- The server of each language is acquired, and its hovers stored. -/
private theorem backfillLanguages_onlyKinds (h : Hovers K) (hacquire : K .acquire)
    (languages : List String)
    (nodes : List NodeDto) : OnlyKinds K (QueryRuntime.backfillLanguages languages nodes) := by
  induction languages generalizing nodes with
  | nil => exact onlyKinds_pure _
  | cons language rest ih =>
    refine (acquireOpt_onlyKinds hacquire _).bind fun acquired => ?_
    obtain ⟨client, degradation⟩ := acquired
    cases client with
    | none => exact ih nodes
    | some client => exact (backfillSignatures_onlyKinds h ..).bind fun nodes => ih nodes

/-- The tool `find_symbol` reads, and with signatures acquires and stores hovers. -/
theorem findSymbol_onlyKinds (h : Hovers K) (hacquire : K .acquire) (rt : QueryRuntime)
    (pattern : String) (mode : MatchMode) (ignoreCase : Bool) (options : FindSymbolOptions)
    (filter : Filter) (page : Page) :
    OnlyKinds K (rt.findSymbol pattern mode ignoreCase options filter page) := by
  refine OnlyKinds.bind ?_ fun result => ?_
  · refine (onlyKinds_db h.read).bind fun nodes => ?_
    dsimp only
    split
    · exact onlyKinds_pure _
    · exact onlyKinds_pure _
  · split
    · exact (backfillLanguages_onlyKinds h hacquire ..).bind fun _ => onlyKinds_pure _
    · exact onlyKinds_pure _

/-- The tool `find_definition` asks for a definition and stores hovers. -/
theorem findDefinition_onlyKinds (h : Hovers K) (hacquire : K .acquire)
    (hdefinition : K (.request .definition)) (rt : QueryRuntime) (symref : SymbolRef) :
    OnlyKinds K (rt.findDefinition symref) := by
  refine (acquireOpt_onlyKinds hacquire _).bind fun acquired => ?_
  refine OnlyKinds.bind ?_ fun found => onlyKinds_pure _
  cases symref with
  | fqn fqn => exact (onlyKinds_db h.read).bind fun _ => onlyKinds_pure _
  | «at» uri line character =>
    obtain ⟨client, degradation⟩ := acquired
    cases client with
    | none => exact onlyKinds_pure _
    | some client =>
      refine (ensureOpen_onlyKinds h.file h.openDocument ..).bind fun _ => ?_
      refine (onlyKinds_request client hdefinition).bind fun reply => ?_
      exact (definitionNodes_onlyKinds h ..).bind fun _ => onlyKinds_pure _

end Parts

end Semnav.Query
