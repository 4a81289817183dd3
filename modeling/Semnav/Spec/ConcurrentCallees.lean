import Semnav.ForStd.Interleaving
import Semnav.Spec.CallPathCorrect
import Semnav.Spec.History

/-!
# Callee queries side by side

Any number of `find_callees` and `find_call_path` calls that interleave command by command,
over files that do not change and a server that always answers.  A miss is a sequence of
commands: invalidate, round trips, one upsert for each call site, and only then the read.  Since
another query may invalidate in between, what a read sees is told by the history: an edge is in
force when it was stored again after the last invalidation.

## Key results

- `calls_iff_inForce`: the valid calls at any point of a run
- `concurrent_callees_exact_iff`: a read sees the full set exactly when every callee is in force
- `overlapping_callees_empty`: two `find_callees` on one anchor, and one of them returns nothing
-/

namespace Semnav.Query

open Semnav.ForStd Semnav.Graph Semnav.Indexer

/-! ## Edges in force -/

/-- The command invalidates the outgoing calls of `a`. -/
def Cmd.Invalidates (a : RowId) {β : Type} : Cmd β → Prop
  | .db (.invalidateOutgoingCalls id) => id = a
  | _ => False

/-- The command stores a call from `a` to `b`. -/
def Cmd.StoresCall (a b : RowId) {β : Type} : Cmd β → Prop
  | .db (.upsertEdge e) => e.edgeType = .calls ∧ e.srcId = a ∧ e.dstId = b
  | _ => False

/-- Nothing has invalidated the outgoing calls of `a` so far. -/
def Untouched (history : List (Nat × Exchange Cmd)) (a : RowId) : Prop :=
  ∀ e ∈ history, ¬ e.2.cmd.Invalidates a

/-- A call from `a` to `b` was stored, and the calls of `a` were not invalidated since. -/
def StoredSince (history : List (Nat × Exchange Cmd)) (a b : RowId) : Prop :=
  ∃ before e after, history = before ++ e :: after ∧ e.2.cmd.StoresCall a b ∧ Untouched after a

/-- The call from `a` to `b` is in force: stored since the last invalidation, or there from the
    start and never invalidated. -/
def InForce (start : Db) (history : List (Nat × Exchange Cmd)) (a b : RowId) : Prop :=
  StoredSince history a b ∨ (Untouched history a ∧ start.Calls a b)

section InForce

variable {start : Db} {history : List (Nat × Exchange Cmd)} {e : Nat × Exchange Cmd} {a b : RowId}

/-- One more command leaves `a` untouched when it is not an invalidation of `a`. -/
private theorem untouched_snoc :
    Untouched (history ++ [e]) a ↔ Untouched history a ∧ ¬ e.2.cmd.Invalidates a := by
  simp [Untouched, or_imp, forall_and]

/-- The edge is stored since the last invalidation when the last command stores it, or it was and
    the last command does not invalidate `a`. -/
private theorem storedSince_snoc : StoredSince (history ++ [e]) a b ↔
    e.2.cmd.StoresCall a b ∨ (StoredSince history a b ∧ ¬ e.2.cmd.Invalidates a) := by
  constructor
  · -- The storing exchange is the last one, or comes before it.
    intro h
    obtain ⟨before, e', after, hsplit, hstores, hafter⟩ := h
    cases List.eq_nil_or_concat after with
    | inl hnil =>
      subst hnil
      obtain ⟨-, hlast⟩ := List.append_inj' hsplit rfl
      rw [List.singleton_inj.mp hlast]
      exact .inl hstores
    | inr hconcat =>
      obtain ⟨after', last, rfl⟩ := hconcat
      rw [List.concat_eq_append] at hsplit hafter
      rw [← List.cons_append, ← List.append_assoc] at hsplit
      obtain ⟨hpre, hlast⟩ := List.append_inj' hsplit rfl
      rw [List.singleton_inj.mp hlast]
      have hafter := untouched_snoc.mp hafter
      exact .inr ⟨⟨before, e', after', hpre, hstores, hafter.1⟩, hafter.2⟩
  · intro h
    cases h with
    | inl hstores => exact ⟨history, e, [], rfl, hstores, by simp [Untouched]⟩
    | inr h =>
      obtain ⟨⟨before, e', after, rfl, hstores, hafter⟩, hinv⟩ := h
      refine ⟨before, e', after ++ [e], by simp, hstores, ?_⟩
      exact untouched_snoc.mpr ⟨hafter, hinv⟩

/-- One more exchange: a stored call comes into force, and an invalidation ends those of its
    anchor. -/
private theorem inForce_snoc : InForce start (history ++ [e]) a b ↔
    e.2.cmd.StoresCall a b ∨ (InForce start history a b ∧ ¬ e.2.cmd.Invalidates a) := by
  rw [InForce, InForce, storedSince_snoc, untouched_snoc]
  tauto

end InForce

/-! ## One command -/

/-- The command stores no hover, and stores calls only from a row to its targets. -/
def Cmd.Sound (A : Answers) (d : Db) (client : Client) {β : Type} : Cmd β → Prop
  | .db (.upsertEdge e) => e.valid = true ∧ (e.edgeType = .calls →
      ∃ n ∈ d.nodes, n.id = e.srcId ∧ e.dstId ∈ outgoingTargets A d client n)
  | c => c.kind ≠ .storeHover

/-- The reply is that of the rows of `d` and of the answers. -/
def Cmd.Honest (A : Answers) (d : Db) {β : Type} : Cmd β → β → Prop
  | .db (.getNode id), node => node = d.getNode id
  | .db (.getNodeByFqn fqn), node => node = d.getNodeByFqn fqn
  | .db (.findNodeByPosition uri line col), node => node = d.findNodeByPosition uri line col
  | .db (.getNeighbors ..), rows => ∀ row ∈ rows, row.1 ∈ d.nodes
  | .request c r, reply => reply = .ok (A.answer c r)
  | _, _ => True

section Command

variable {S : Servers} {A : Answers} {d : Db} {client : Client} {β : Type} {c : Cmd β}
  {w w' : World} {reply : β}

/-- A sound command is not a hover's. -/
private theorem Cmd.Sound.kind (h : c.Sound A d client) : c.kind ≠ .storeHover := by
  cases c with
  | db c =>
    cases c with
    | upsertEdge e => exact fun hk => nomatch hk
    | _ => exact h
  | _ => exact h

/-- What a command does to the valid calls. -/
private theorem handle_calls (hwf : w.db.WF) (hsound : c.Sound A d client)
    (hc : c.handle S w = (.ok reply, w')) (a b : RowId) :
    w'.db.Calls a b ↔ c.StoresCall a b ∨ (w.db.Calls a b ∧ ¬ c.Invalidates a) := by
  -- A command that leaves the edges alone leaves the calls alone.
  have hsame : w'.db.edges = w.db.edges → (w'.db.Calls a b ↔ w.db.Calls a b) := by
    intro h
    rw [Db.Calls, Db.Calls, h]
  cases c with
  | db c =>
    simp only [Cmd.handle] at hc
    cases hexec : c.exec w.db with
    | error e =>
      rw [hexec] at hc
      cases hc
    | ok r =>
      rw [hexec] at hc
      obtain ⟨b', tables⟩ := r
      cases hc
      cases c with
      -- Two statements change calls: an upsert stores one, and an invalidation drops those of its
      -- row.
      | upsertEdge e =>
        show Db.Calls tables a b ↔ _
        rw [Db.upsertEdge_calls hwf hsound.1 (exec_upsertEdge_iff.mp hexec) a b]
        simp [Cmd.StoresCall, Cmd.Invalidates, or_comm]
      | invalidateOutgoingCalls id =>
        cases hexec
        show (w.db.invalidateOutgoingCalls id).Calls a b ↔ _
        rw [Db.invalidateOutgoingCalls_calls]
        simp [Cmd.StoresCall, Cmd.Invalidates, and_comm, eq_comm]
      | setCalleesCacheHash id hash =>
        obtain ⟨-, rfl⟩ := exec_setCalleesCacheHash_iff.mp hexec
        simpa [Cmd.StoresCall, Cmd.Invalidates] using hsame rfl
      | markMaterialized id t =>
        obtain ⟨-, rfl⟩ := exec_markMaterialized_iff.mp hexec
        simpa [Cmd.StoresCall, Cmd.Invalidates] using hsame rfl
      -- What a hover writes is not among the sound commands.
      | updateNodeConstruct | updateNodeSignature | updateNodeSignatureByFqn =>
        exact absurd rfl hsound
      | _ =>
        cases hexec
        simp [Cmd.StoresCall, Cmd.Invalidates]
  -- A refresh changes who is at work, not the graph.
  | spawnRefresh r =>
    cases hc
    have hdb : (Cmd.handle S (.spawnRefresh r) w).2.db = w.db := by
      simp only [Cmd.handle]
      split <;> rfl
    simpa [Cmd.StoresCall, Cmd.Invalidates] using hsame (congrArg Db.edges hdb)
  | _ =>
    cases hc
    simp [Cmd.StoresCall, Cmd.Invalidates]

/-- While the rows and the files are as in `d` and `text`, replies are honest. -/
private theorem handle_honest {text : String → Option String} (hA : S.Follows A text)
    (htext : w.text = text) (hnodes : w.db.nodes = d.nodes)
    (hc : c.handle S w = (.ok reply, w')) : c.Honest A d reply := by
  cases c with
  | db c =>
    -- The reads the program depends on are of the rows, which no command changes.
    cases c with
    | getNode id =>
      cases hc
      exact Db.getNode_congr hnodes id
    | getNodeByFqn fqn =>
      cases hc
      show w.db.getNodeByFqn fqn = d.getNodeByFqn fqn
      rw [Db.getNodeByFqn, Db.getNodeByFqn, hnodes]
    | findNodeByPosition uri line col =>
      cases hc
      exact Db.findNodeByPosition_congr hnodes ..
    | getNeighbors id t dir =>
      cases hc
      intro row hrow
      rw [← hnodes]
      exact (Db.getNeighbors_valid hrow).1
    | _ => trivial
  | request client r =>
    cases hc
    exact hA w htext client r
  | _ => trivial

end Command

/-! ## What the queries issue -/

/-- As long as the replies are honest, the commands are sound, and the result has `Q`. -/
abbrev Sees (A : Answers) (d : Db) (client : Client) {α : Type} (x : QueryM α) (Q : α → Prop) :
    Prop :=
  Prog.Under (fun e => e.cmd.Honest A d e.reply) (fun _ c => c.Sound A d client) Q x

/-- The first location that lies in an indexed node. -/
def firstIndexed (d : Db) (locs : List Location) : Option Node :=
  locs.findSome? fun loc =>
    d.findNodeByPosition loc.uri loc.range.start.line loc.range.start.character

/-- The row that a reference stands for. -/
def resolvedAnchor (A : Answers) (d : Db) (client : Client) : SymbolRef → Option Node
  | .fqn name => d.getNodeByFqn name
  | .at uri line character =>
    (firstIndexed d (A.answer client (.definition uri line character))).or
      (d.findNodeByPosition uri line character)

/-- The kinds of commands that are sound in any case. -/
def CmdKind.harmless : CmdKind → Prop
  | .storeHover | .upsertEdge _ => False
  | _ => True

section Sees

variable {A : Answers} {d : Db} {client : Client}

/-- A command that neither stores a call nor invalidates one is sound. -/
theorem Cmd.sound_of_harmless {β : Type} {c : Cmd β} (h : c.kind.harmless) :
    c.Sound A d client := by
  have hkind : c.kind ≠ .storeHover := fun hk => by rw [hk] at h; exact h
  cases c with
  | db c =>
    cases c with
    | upsertEdge e => exact absurd h id
    | _ => exact hkind
  | _ => exact hkind

/-- A program of such commands only reads. -/
theorem sees_of_onlyKinds {α : Type} {x : QueryM α} (h : OnlyKinds CmdKind.harmless x) :
    Sees A d client x fun _ => True :=
  (Prog.Issues.mono h fun _ _ hc => Cmd.sound_of_harmless hc).under

/-- The node at a position is the one the rows give. -/
private theorem nodeAt_sees (uri : String) (r : LspRange) :
    Sees A d client (nodeAt uri r) fun node =>
      node = d.findNodeByPosition uri r.start.line r.start.character :=
  .perform (Cmd.sound_of_harmless trivial) fun _ h => h

/-- A reply is the server's answer. -/
private theorem request_sees {β : Type} (r : Request β) :
    Sees A d client (client.request r) fun reply => reply = .ok (A.answer client r) :=
  .perform (Cmd.sound_of_harmless trivial) fun _ h => h

/-! ### Resolving an anchor -/

/-- The first location that resolves is the first indexed one. -/
private theorem firstResolved_sees (locs : List Location) :
    Sees A d client (firstResolved locs) fun node => node = firstIndexed d locs := by
  induction locs with
  | nil => exact .pure rfl
  | cons loc rest ih =>
    refine (nodeAt_sees loc.uri loc.range).bind fun found hfound => ?_
    rw [firstIndexed, List.findSome?_cons, ← hfound]
    cases found with
    | none => exact ih
    | some node => exact .pure rfl

/-- The anchor is the one that rows and answers resolve to. -/
private theorem resolveAnchor_sees (symref : SymbolRef) :
    Sees A d client (QueryEngine.resolveAnchor symref (some client))
      fun r => r.1 = resolvedAnchor A d client symref := by
  -- A name is looked up; a position is resolved by the server first, and by the rows if that fails.
  cases symref with
  | fqn name =>
    refine Prog.Under.bind (Q := fun node => node = d.getNodeByFqn name)
      (.perform (Cmd.sound_of_harmless trivial) fun _ h => h) fun node hnode => .pure ?_
    exact hnode
  | «at» uri line character =>
    refine (request_sees _).bind fun reply hreply => ?_
    rw [hreply]
    refine (firstResolved_sees _).bind fun found hfound => ?_
    simp only [resolvedAnchor]
    cases found with
    | some node =>
      refine .pure ?_
      rw [← show some node = firstIndexed d _ from hfound]
      rfl
    | none =>
      refine Prog.Under.bind (Q := fun node => node = d.findNodeByPosition uri line character)
        (.perform (Cmd.sound_of_harmless trivial) fun _ h => h) fun node hnode => .pure ?_
      rw [← show none = firstIndexed d _ from hfound]
      exact hnode

/-- A resolved anchor is a row. -/
private theorem resolvedAnchor_mem {symref : SymbolRef} {anchor : Node}
    (h : resolvedAnchor A d client symref = some anchor) : anchor ∈ d.nodes := by
  cases symref with
  | fqn name => exact getNodeByFqn_mem h
  | «at» uri line character =>
    simp only [resolvedAnchor] at h
    cases hfirst : firstIndexed d (A.answer client (.definition uri line character)) with
    | some node =>
      rw [hfirst] at h
      obtain ⟨loc, -, hloc⟩ := List.exists_of_findSome?_eq_some hfirst
      cases h
      exact (Db.findNodeByPosition_mem hloc).1
    | none =>
      rw [hfirst] at h
      exact (Db.findNodeByPosition_mem h).1

/-! ### Materializing -/

variable {anchor : Node}

/-- Storing the sites of one callee is sound when the callee is one of the anchor's targets. -/
private theorem addCallSites_sees (hanchor : anchor ∈ d.nodes) {target : RowId} (uri : String)
    (ranges : List LspRange)
    (htarget : ranges.isEmpty = false → target ∈ outgoingTargets A d client anchor) :
    Sees A d client (addCallSites anchor.id target uri ranges) fun _ => True := by
  induction ranges with
  | nil => exact .pure trivial
  | cons range rest ih =>
    refine Prog.Under.bind (Q := fun _ => True) (.perform ?_ fun _ _ => trivial) fun _ _ => ?_
    · exact ⟨rfl, fun _ => ⟨anchor, hanchor, rfl, htarget rfl⟩⟩
    · exact ih fun _ => htarget rfl

/-- Storing the sites of each target of one call is sound. -/
private theorem addTargets_sees (hanchor : anchor ∈ d.nodes) (uri : String) (ranges : List LspRange)
    (targets : List RowId) (htargets : ranges.isEmpty = false →
      ∀ b ∈ targets, b ∈ outgoingTargets A d client anchor) :
    Sees A d client (addTargets anchor.id uri ranges targets) fun _ => True := by
  induction targets with
  | nil => exact .pure trivial
  | cons target rest ih =>
    refine (addCallSites_sees hanchor uri ranges fun h =>
      htargets h target List.mem_cons_self).bind fun _ _ => ?_
    exact ih fun h b hb => htargets h b (List.mem_cons_of_mem _ hb)

/-- The implementations added are the indexed ones among the locations. -/
private theorem addImplementations_sees (calleeId : RowId) (locs : List Location) :
    Sees A d client (addImplementations calleeId locs) fun ids =>
      ids = locs.filterMap fun loc => idAt d loc.uri loc.range := by
  induction locs with
  | nil => exact .pure rfl
  | cons loc rest ih =>
    refine (nodeAt_sees loc.uri loc.range).bind fun found hfound => ?_
    cases found with
    | none =>
      refine ih.mono fun ids hids => ?_
      simp [hids, idAt, ← hfound]
    | some concrete =>
      refine Prog.Under.bind (Q := fun _ => True) (.perform ?_ fun _ _ => trivial) fun _ _ => ?_
      · refine ⟨rfl, fun h => ?_⟩
        cases h
      · refine ih.bind fun ids hids => .pure ?_
        simp [hids, idAt, ← hfound]

/-- Whether a callee is declared in an interface is read off the rows. -/
private theorem inInterface_sees (callee : Node) :
    Sees A d client (inInterface callee) fun b => b = declaredInInterface d callee := by
  unfold inInterface declaredInInterface
  cases callee.containerId with
  | none => exact .pure rfl
  | some id =>
    refine Prog.Under.bind (Q := fun node => node = d.getNode id)
      (.perform (Cmd.sound_of_harmless trivial) fun _ h => h) fun node hnode => .pure ?_
    rw [hnode]

/-- The corrected callees of a call are its `calleeTargets`. -/
private theorem resolveOutgoingCallee_sees (callee : Node) :
    Sees A d client (resolveOutgoingCallee anchor callee client) fun r =>
      r.1 = calleeTargets A d client anchor callee := by
  unfold resolveOutgoingCallee
  simp only [calleeTargets_eq]
  -- The correction applies to two languages, and there to callees declared in an interface.
  split
  · exact .pure rfl
  · refine (inInterface_sees callee).bind fun interface hinterface => ?_
    rw [hinterface]
    split
    · exact .pure rfl
    · refine (sees_of_onlyKinds (ensureOpen_onlyKinds trivial trivial callee.uri client)).bind
        fun _ _ => ?_
      refine (request_sees _).bind fun reply hreply => ?_
      refine (addImplementations_sees callee.id _).bind fun ids hids => ?_
      have hids : ids = implementationIds A d client callee := by
        rw [hids, hreply]
        rfl
      rw [hids]
      -- Without an indexed implementation the callee itself stays.
      split
      · exact .pure rfl
      · exact .pure rfl

/-- All the calls of the anchor are stored soundly. -/
private theorem addOutgoing_sees (hanchor : anchor ∈ d.nodes) (calls : List OutgoingCall)
    (hcalls : ∀ call ∈ calls, ∀ b ∈ callTargets A d client anchor call,
      b ∈ outgoingTargets A d client anchor) :
    Sees A d client (addOutgoing anchor.id anchor client calls) fun _ => True := by
  induction calls with
  | nil => exact .pure trivial
  | cons call rest ih =>
    have hrest := ih fun call hcall => hcalls call (List.mem_cons_of_mem _ hcall)
    refine (nodeAt_sees call.to.uri call.to.selectionRange).bind fun found hfound => ?_
    cases found with
    | none => exact hrest
    | some callee =>
      refine (resolveOutgoingCallee_sees callee).bind fun resolved hresolved => ?_
      refine (addTargets_sees hanchor anchor.uri call.fromRanges resolved.1 ?_).bind
        fun _ _ => hrest.bind fun _ _ => .pure trivial
      -- The targets of this call are among those of the anchor.
      intro hranges b hb
      refine hcalls call List.mem_cons_self b ?_
      rw [callTargets, hranges, ← hfound]
      show b ∈ calleeTargets A d client anchor callee
      exact hresolved ▸ hb

/-- The whole materialization is sound. -/
private theorem rematerialize_sees (hanchor : anchor ∈ d.nodes) (engine : QueryEngine) :
    Sees A d client (engine.rematerialize anchor.id anchor client) fun _ => True := by
  refine Prog.Under.bind (Q := fun _ => True)
    (.perform (Cmd.sound_of_harmless trivial) fun _ _ => trivial) fun _ _ => ?_
  unfold materializeCallEdges
  refine (request_sees _).bind fun prepared hprepared => ?_
  rw [hprepared]
  cases hitems : A.answer client (.prepareCallHierarchy anchor.uri (asU32 anchor.sel.startLine)
      (asU32 anchor.sel.startCol)) with
  | nil => exact .pure trivial
  | cons item items =>
    refine (request_sees _).bind fun reply hreply => ?_
    rw [hreply]
    refine (addOutgoing_sees hanchor _ ?_).bind fun _ _ => .pure trivial
    intro call hcall b hb
    rw [outgoingTargets, hitems]
    exact List.mem_flatMap.mpr ⟨call, hcall, hb⟩

/-- The callees hash touches no edge. -/
private theorem storeHash_sees (anchorId : RowId) (hash : Option String) :
    Sees A d client (QueryEngine.storeHash anchorId hash) fun _ => True := by
  cases hash with
  | none => exact .pure trivial
  | some hash => exact sees_of_onlyKinds (onlyKinds_db trivial)

/-- The freshness check and, on a miss, the materialization. -/
private theorem refreshCallees_sees (hanchor : anchor ∈ d.nodes) (engine : QueryEngine) :
    Sees A d client (engine.refreshCallees anchor.id anchor client) fun _ => True := by
  refine (sees_of_onlyKinds (onlyKinds_readFileText trivial)).bind fun text _ => ?_
  refine (sees_of_onlyKinds (openText_onlyKinds trivial client anchor.uri text)).bind fun _ _ => ?_
  refine (sees_of_onlyKinds (isFresh_onlyKinds trivial anchor.id _)).bind fun fresh _ => ?_
  cases fresh with
  | true => exact .pure trivial
  | false =>
    refine (rematerialize_sees hanchor engine).bind fun _ _ => ?_
    exact (storeHash_sees anchor.id _).bind fun _ _ => .pure trivial

/-! ### The two queries -/

/-- The neighbours read are rows of the graph. -/
private theorem getNeighbors_sees (id : RowId) :
    Sees A d client (db (.getNeighbors id .calls .outgoing)) fun rows => ∀ row ∈ rows, row.1 ∈ d.nodes :=
  .perform (Cmd.sound_of_harmless trivial) fun _ h => h

/-- Hints are only read. -/
private theorem hintFqns_sees (engine : QueryEngine) (symref : SymbolRef) :
    Sees A d client (engine.hintFqnsForSymref symref) fun _ => True :=
  sees_of_onlyKinds (hintFqnsForSymref_onlyKinds trivial engine symref)

/-- `find_callees` issues sound commands only. -/
private theorem findCallees_sees (engine : QueryEngine) (symref : SymbolRef) (filter : Filter)
    (page : Page) :
    Sees A d client (engine.findCallees symref filter page (some client)) fun _ => True := by
  refine (resolveAnchor_sees symref).bind fun r hr => ?_
  obtain ⟨found, timedOut⟩ := r
  cases found with
  | none => exact (hintFqns_sees engine symref).bind fun _ _ => .pure trivial
  | some anchor =>
    refine (refreshCallees_sees (resolvedAnchor_mem hr.symm) engine).bind fun _ _ => ?_
    refine Prog.Under.bind (Q := fun _ => True) ?_ fun _ _ => .pure trivial
    exact (getNeighbors_sees anchor.id).bind fun _ _ => .pure trivial

/-- One expansion of a call path search issues sound commands only. -/
private theorem expandOutgoingCalls_sees (hanchor : anchor ∈ d.nodes) (engine : QueryEngine)
    (remaining : Nat) :
    Sees A d client (engine.expandOutgoingCalls anchor.id anchor (some client) remaining)
      fun _ => True := by
  refine (sees_of_onlyKinds (onlyKinds_readFileText trivial)).bind fun text _ => ?_
  refine (sees_of_onlyKinds (openText_onlyKinds trivial client anchor.uri text)).bind fun _ _ => ?_
  refine (sees_of_onlyKinds (isFresh_onlyKinds trivial anchor.id _)).bind fun fresh _ => ?_
  cases fresh with
  | true => exact .pure trivial
  | false =>
    by_cases hremaining : remaining = 0
    · simp only [hremaining, Bool.false_eq_true, if_false, if_true]
      exact .pure trivial
    · simp only [hremaining, Bool.false_eq_true, if_false]
      refine (rematerialize_sees hanchor engine).bind fun _ _ => ?_
      exact (storeHash_sees anchor.id _).bind fun _ _ => .pure trivial

/-- The queue of the search loop holds rows only, and so does what the loop asks about. -/
private theorem searchLoop_sees (hwf : d.WF) (engine : QueryEngine) (toId : RowId)
    (maxDepth fuel : Nat)
    (st : QueryEngine.SearchState) (hqueue : ∀ item ∈ st.queue, item.Stands d.nodes) :
    Sees A d client (engine.searchLoop toId maxDepth (some client) fuel st) fun _ => True := by
  induction fuel generalizing st with
  | zero => exact .pure trivial
  | succ fuel ih =>
    unfold QueryEngine.searchLoop
    cases hq : st.queue with
    | nil => exact .pure trivial
    | cons item queue =>
      rw [hq] at hqueue
      have hrest : ∀ item ∈ queue, item.Stands d.nodes := fun item hitem =>
        hqueue item (List.mem_cons_of_mem _ hitem)
      obtain ⟨hnode, hid, hpath⟩ := hqueue item List.mem_cons_self
      dsimp only
      split
      · exact ih _ hrest
      · rw [hid]
        refine (expandOutgoingCalls_sees hnode engine st.remaining).bind fun expansion _ => ?_
        refine (getNeighbors_sees item.node.id).bind fun rows hrows => ?_
        -- A sort key determines its row, so that the groups are of the rows read.
        have hgroups : ∀ n ∈ (groupByNode rows).map (·.1), n ∈ d.nodes := by
          intro n hn
          rw [mem_groupByNode (oneNodePerKey hwf hrows)] at hn
          obtain ⟨row, hrow, rfl⟩ := hn
          exact hrows row hrow
        split
        · exact .pure trivial
        · rename_i visited queue' hscan
          refine ih _ fun item' hitem' => ?_
          have hmiss : toId ∉ ((groupByNode rows).map (·.1)).map (·.id) := by
            intro hmem
            obtain ⟨callee, -, -, hfound⟩ := scanCallees_found item.path st.visited queue hmem
            rw [hfound] at hscan
            exact nomatch hscan
          obtain ⟨visited', queue'', hscan', -, hitems⟩ :=
            scanCallees_not_found item.path st.visited queue hmiss
          rw [hscan'] at hscan
          cases hscan
          cases hitems item' hitem' with
          | inl hold => exact hrest item' hold
          | inr hnew =>
            obtain ⟨callee, hcallee, rfl⟩ := hnew
            have hmem := hgroups callee hcallee
            refine ⟨hmem, rfl, fun n hn => ?_⟩
            cases List.mem_append.mp hn with
            | inl hn => exact hpath n hn
            | inr hn => exact List.mem_singleton.mp hn ▸ hmem

/-- A call path search issues sound commands only. -/
private theorem findCallPath_sees (hwf : d.WF) (engine : QueryEngine) (fuel : Nat)
    (from_ to_ : SymbolRef) (maxDepth maxLspCalls : Nat) :
    Sees A d client (engine.findCallPath fuel from_ to_ maxDepth maxLspCalls (some client))
      fun _ => True := by
  refine (resolveAnchor_sees from_).bind fun r hfrom => ?_
  refine (resolveAnchor_sees to_).bind fun r' _ => ?_
  obtain ⟨found, fromTimedOut⟩ := r
  obtain ⟨found', toTimedOut⟩ := r'
  -- Only when both ends resolve is there a search.
  cases found with
  | none =>
    refine (hintFqns_sees engine from_).bind fun _ _ => ?_
    dsimp only
    split
    · exact (hintFqns_sees engine to_).bind fun _ _ => .pure trivial
    · exact .pure trivial
  | some fromNode =>
    cases found' with
    | none => exact (hintFqns_sees engine to_).bind fun _ _ => .pure trivial
    | some toNode =>
      dsimp only
      split
      · exact .pure trivial
      · -- The search starts from a row of the graph.
        refine searchLoop_sees hwf engine toNode.id maxDepth fuel _ fun item hitem => ?_
        have hnode := resolvedAnchor_mem hfrom.symm
        rw [List.mem_singleton.mp hitem]
        exact ⟨hnode, rfl, fun n hn => List.mem_singleton.mp hn ▸ hnode⟩

end Sees

/-! ## Runs -/

/-- The calls that run side by side. -/
inductive CalleeCall where
  | findCallees (symref : SymbolRef) (filter : Filter) (page : Page)
  | findCallPath (fuel : Nat) (from_ to_ : SymbolRef) (maxDepth maxLspCalls : Nat)

/-- What they return. -/
inductive CalleeReply where
  | callees (result : CallGraphResult) (timedOut : Bool)
  | path (result : Option (FindCallPathResult × Bool))

/-- The program of a call. -/
def CalleeCall.program (engine : QueryEngine) (client : Client) : CalleeCall → QueryM CalleeReply
  | .findCallees symref filter page => do
    let (result, timedOut) ← engine.findCallees symref filter page (some client)
    pure (.callees result timedOut)
  | .findCallPath fuel from_ to_ maxDepth maxLspCalls => do
    let result ← engine.findCallPath fuel from_ to_ maxDepth maxLspCalls (some client)
    pure (.path result)

/-- The read of the callees of a row, with the rows it returned. -/
def calleeRead (id : RowId) (rows : List Neighbor) : Exchange Cmd :=
  ⟨.db (.getNeighbors id .calls .outgoing), rows⟩

/-- The page that `find_callees` makes of the rows it read. -/
def calleesPage (filter : Filter) (page : Page) (rows : List Neighbor) : CallGraphResult :=
  let filtered := (groupByNode rows).filter fun g => filter.matches g.1
  let (items, next) := paginate filtered page fun g => .fromNode g.1
  ⟨items.map fun g => ⟨.fromNode g.1, g.2.map fun s => .ofRange s.range⟩, next, []⟩

section Runs

variable {S : Servers} {A : Answers} {d : Db} {client : Client} {engine : QueryEngine}

/-- Both calls that materialize callees issue sound commands only. -/
private theorem CalleeCall.program_sees (hwf : d.WF) (call : CalleeCall) :
    Sees A d client (call.program engine client) fun _ => True := by
  cases call with
  | findCallees symref filter page =>
    exact (findCallees_sees engine symref filter page).bind fun _ _ => .pure trivial
  | findCallPath fuel from_ to_ maxDepth maxLspCalls =>
    exact (findCallPath_sees hwf engine fuel from_ to_ maxDepth maxLspCalls).bind
      fun _ _ => .pure trivial

/-- A `find_callees` that ended has read the callees of its anchor, and returns a page of them. -/
private theorem findCallees_path {symref : SymbolRef} {filter : Filter} {page : Page}
    {anchor : Node}
    {trace : List (Exchange Cmd)} {result : CallGraphResult} {timedOut : Bool}
    (hanchor : resolvedAnchor A d client symref = some anchor)
    (hpath : Prog.Path ((CalleeCall.findCallees symref filter page).program engine client) trace
      (pure (.callees result timedOut)))
    (hhonest : ∀ e ∈ trace, e.cmd.Honest A d e.reply) :
    ∃ rows, calleeRead anchor.id rows ∈ trace ∧ result = calleesPage filter page rows := by
  -- The trace falls into its parts: resolving, the refresh, and the one read the page is made of.
  obtain ⟨query, none', r, rfl, hquery, hend⟩ := hpath.of_bind_pure
  obtain ⟨result', timedOut'⟩ := r
  obtain ⟨rfl, hend⟩ := hend.of_pure
  cases hend
  -- The anchor resolved is the given one, since every reply was honest.
  obtain ⟨resolve, rest, r, rfl, hresolve, hrest⟩ := hquery.of_bind_pure
  have hr := (resolveAnchor_sees symref).path hresolve fun e he =>
    hhonest e (List.mem_append_left _ (List.mem_append_left _ he))
  obtain ⟨found, resolveTimedOut⟩ := r
  obtain rfl : found = some anchor := (show found = _ from hr).trans hanchor
  obtain ⟨refresh, rest, refreshTimedOut, rfl, -, hrest⟩ := hrest.of_bind_pure
  obtain ⟨read, last, result', rfl, hread, hlast⟩ := hrest.of_bind_pure
  obtain ⟨rfl, hlast⟩ := hlast.of_pure
  cases hlast
  obtain ⟨one, last, rows, rfl, hone, hlast⟩ := hread.of_bind_pure
  obtain rfl := hone.of_perform
  obtain ⟨rfl, hlast⟩ := hlast.of_pure
  cases hlast
  exact ⟨rows, by simp [calleeRead], rfl⟩

/-- What holds at each point of a run that started from `start`. -/
structure RunInv (A : Answers) (client : Client) (start : World) (history : List (Nat × Exchange Cmd))
    (w : World) : Prop where
  stored : w.db.Stored
  nodes : w.db.nodes = start.db.nodes
  text : w.text = start.text
  calls : ∀ a b, w.db.Calls a b ↔ InForce start.db history a b
  targets : ∀ a b, StoredSince history a b →
    ∃ n ∈ start.db.nodes, n.id = a ∧ b ∈ outgoingTargets A start.db client n
  honest : ∀ e ∈ history, e.2.cmd.Honest A start.db e.2.reply

/-- The invariant of a run holds before any command. -/
theorem RunInv.init {start : World} (hstored : start.db.Stored) : RunInv A client start [] start where
  stored := hstored
  nodes := rfl
  text := rfl
  calls := fun a b => by simp [InForce, StoredSince, Untouched]
  targets := fun a b h => by simp [StoredSince] at h
  honest := fun e he => absurd he List.not_mem_nil

/-- One exchange of a sound command. -/
private theorem RunInv.step {start w w' : World} (hA : S.Follows A start.text) {β : Type}
    {history : List (Nat × Exchange Cmd)} {i : Nat} {c : Cmd β} {reply : β} (h : RunInv A client start history w)
    (hsound : c.Sound A start.db client) (hc : c.handle S w = (.ok reply, w')) :
    c.Honest A start.db reply ∧ RunInv A client start (history ++ [(i, ⟨c, reply⟩)]) w' := by
  have hw' : (c.handle S w).2 = w' := congrArg Prod.snd hc
  have hhonest := handle_honest hA h.text h.nodes hc
  refine ⟨hhonest, ?_, ?_, ?_, ?_, ?_, ?_⟩
  · exact hw' ▸ handle_stored c h.stored
  · exact hw' ▸ (handle_nodes hsound.kind w).trans h.nodes
  · exact hw' ▸ (handle_text c w).trans h.text
  · intro a b
    rw [handle_calls h.stored.toWF hsound hc a b, inForce_snoc, h.calls]
  · intro a b hstored
    cases storedSince_snoc.mp hstored with
    | inl hstores =>
      -- Only an upsert stores a call, and a sound one stores a target.
      cases c with
      | db c =>
        cases c with
        | upsertEdge e =>
          obtain ⟨ht, hsrc, hdst⟩ := hstores
          obtain ⟨n, hn, hid, htarget⟩ := hsound.2 ht
          exact ⟨n, hn, hid.trans hsrc, hdst ▸ htarget⟩
        | _ => exact absurd hstores id
      | _ => exact absurd hstores id
    | inr hold => exact h.targets a b hold.1
  · intro e he
    cases List.mem_append.mp he with
    | inl he => exact h.honest e he
    | inr he =>
      obtain rfl := List.mem_singleton.mp he
      exact hhonest

/-- The invariant holds throughout a run of callee queries. -/
private theorem runInv_of_ran {w : World} (hstored : w.db.Stored) (hA : S.Follows A w.text)
    {calls : List CalleeCall} {history : List (Nat × Exchange Cmd)} {sys : System Cmd World CalleeReply}
    (hrun : System.Ran (Cmd.handle S) System.noEnv (.launch w (calls.map (·.program engine client))) history sys) :
    RunInv A client w history sys.state := by
  -- One step of an interleaved run keeps the invariant, whichever task takes it.
  refine (hrun.invariant (I := RunInv A client w) (Q := fun _ => True)
    (R := fun e => e.cmd.Honest A w.db e.reply) (P := fun _ c => c.Sound A w.db client)
    ?_ ?_ ?_ (.init hstored) ?_).1
  · intro γ history i c s s' b hinv hsound hc
    exact hinv.step hA hsound hc
  · intro γ history c s s' e hinv _ hc
    exact handle_error hc ▸ hinv
  · intro history s s' hinv hs
    exact absurd hs id
  · -- Each task starts as a program that commands honestly.
    intro t ht x hx
    obtain ⟨program, hprogram, rfl⟩ := System.mem_launch ht
    obtain ⟨call, -, rfl⟩ := List.mem_map.mp hprogram
    cases hx
    exact call.program_sees hstored.toWF

/-- At this point of a run, every callee of the anchor is in force; and if nothing has invalidated
    its calls yet, those from the start lead nowhere else. -/
structure Complete (A : Answers) (client : Client) (start : Db) (history : List (Nat × Exchange Cmd))
    (anchor : Node) : Prop where
  inForce : ∀ b ∈ outgoingTargets A start client anchor, InForce start history anchor.id b
  noOther : Untouched history anchor.id → ∀ b, start.ValidId b → start.Calls anchor.id b →
    b ∈ outgoingTargets A start client anchor

/-- A read returns the full set exactly when the anchor was complete. -/
private theorem read_exact_iff {w : World} (hstored : w.db.Stored) (hA : S.Follows A w.text)
    {calls : List CalleeCall} {history : List (Nat × Exchange Cmd)} {sys : System Cmd World CalleeReply}
    (hrun : System.Ran (Cmd.handle S) System.noEnv (.launch w (calls.map (·.program engine client))) history sys)
    {anchor : Node} (hanchor : anchor ∈ w.db.nodes) {before after : List (Nat × Exchange Cmd)}
    {i : Nat} {rows : List Neighbor} (hread : history = before ++ (i, calleeRead anchor.id rows) :: after) :
    (∀ id, (∃ row ∈ rows, row.1.id = id) ↔ id ∈ outgoingTargets A w.db client anchor) ↔
      Complete A client w.db before anchor := by
  -- At the read, the neighbours are the live ends of the calls in force.
  obtain ⟨mid, w', hmid, hhandle⟩ := hrun.split hread
  have hinv := runInv_of_ran hstored hA hmid
  cases hhandle
  have hrows : ∀ id, (∃ row ∈ mid.state.db.getNeighbors anchor.id .calls .outgoing, row.1.id = id) ↔
      w.db.ValidId id ∧ InForce w.db before anchor.id id := by
    intro id
    rw [← mem_calleeIds_iff_row hinv.stored.toWF, mem_calleeIds hinv.stored.toWF, hinv.calls,
      Db.ValidId, hinv.nodes, Db.ValidId]
  -- The page is exact when the calls in force are those the server lists.
  refine (forall_congr' fun id => iff_congr (hrows id) Iff.rfl).trans ⟨fun h => ?_, fun h id => ?_⟩
  · refine ⟨fun b hb => ((h b).mpr hb).2, fun huntouched b hvalid hcalls => ?_⟩
    exact (h b).mp ⟨hvalid, .inr ⟨huntouched, hcalls⟩⟩
  · constructor
    · intro hid
      obtain ⟨hvalid, hforce⟩ := hid
      -- A call in force was stored in this run, by an honest answer, or stands from the start.
      cases hforce with
      | inl hsince =>
        obtain ⟨n, hn, hnid, htarget⟩ := hinv.targets _ _ hsince
        obtain rfl := hstored.node_ext hn hanchor hnid
        exact htarget
      | inr hstart => exact h.noOther hstart.1 id hvalid hstart.2
    · intro hid
      exact ⟨outgoingTargets_valid A w.db client hid, h.inForce id hid⟩

end Runs

/-- In every interleaving of `find_callees` and `find_call_path` calls: each read of the callees
    of a row, by whichever of them, returns exactly the full set if and only if the row was
    complete; and a `find_callees` that ended returns the page of the rows of such a read of its
    anchor. -/
theorem concurrent_callees_exact_iff (engine : QueryEngine) (S : Servers) (A : Answers)
    (client : Client) (w : World) (hstored : w.db.Stored) (hA : S.Follows A w.text)
    (calls : List CalleeCall) (history : List (Nat × Exchange Cmd))
    (sys : System Cmd World CalleeReply)
    (hrun : System.Ran (Cmd.handle S) System.noEnv
      (.launch w (calls.map (·.program engine client))) history sys) :
    (∀ anchor ∈ w.db.nodes, ∀ before i rows after,
      history = before ++ (i, calleeRead anchor.id rows) :: after →
      ((∀ id, (∃ row ∈ rows, row.1.id = id) ↔ id ∈ outgoingTargets A w.db client anchor) ↔
        Complete A client w.db before anchor)) ∧
    (∀ i t symref filter page anchor result timedOut, sys.tasks[i]? = some t →
      calls[i]? = some (.findCallees symref filter page) →
      resolvedAnchor A w.db client symref = some anchor →
      t.rest = some (pure (.callees result timedOut)) →
      anchor ∈ w.db.nodes ∧ ∃ before rows after,
        history = before ++ (i, calleeRead anchor.id rows) :: after ∧
        result = calleesPage filter page rows) := by
  refine ⟨fun anchor hanchor before i rows after hread =>
    read_exact_iff hstored hA hrun hanchor hread, ?_⟩
  -- A task that has ended has gone through its whole program; its trace holds the read.
  intro i t symref filter page anchor result timedOut ht hcall hanchor hrest
  have hinv := runInv_of_ran hstored hA hrun
  obtain ⟨hstart, htrace, y, hpath, hy⟩ := hrun.progress ht
  obtain rfl := hy _ hrest
  rw [List.getElem?_map, hcall] at hstart
  rw [← Option.some.inj hstart] at hpath
  have hmem : ∀ e ∈ t.trace, (i, e) ∈ history := by
    intro e he
    rw [htrace] at he
    exact System.mem_exchangesOf.mp he
  obtain ⟨rows, hread, hresult⟩ := findCallees_path hanchor hpath fun e he =>
    hinv.honest (i, e) (hmem e he)
  obtain ⟨before, after, hsplit⟩ := List.append_of_mem (hmem _ hread)
  exact ⟨resolvedAnchor_mem hanchor, before, rows, after, hsplit, hresult⟩

/-! ## Two calls that overlap -/

/-- `find_callees` of the function `a`. -/
def calleesOfA : CalleeCall := .findCallees (.fqn "app.a") anyFilter firstPage

/-- The function `a` itself. -/
def functionA : Node := appFunction 1 "a" 0

/-- Two calls side by side, none of which has begun. -/
def twoCalls : System Cmd World CalleeReply :=
  .launch twoFunctionsWorld (List.map (CalleeCall.program appEngine ⟨"python"⟩)
    [calleesOfA, calleesOfA])

/-- Two calls on one anchor, the second issued when the first has ended: the page of the second
    is the servers' answer. -/
theorem concurrent_callees_exact_in_turn : ∃ history sys result,
    System.Ran (Cmd.handle appServers) System.noEnv twoCalls history sys ∧
    (∃ t ∈ sys.tasks, t.rest = some (pure (.callees result false))) ∧
    ∃ before rows after, history = before ++ (0, calleeRead 1 rows) :: after ∧
      result = calleesPage anyFilter firstPage rows ∧
      ((∀ id, (∃ row ∈ rows, row.1.id = id) ↔
          id ∈ outgoingTargets appAnswers twoFunctions ⟨"python"⟩ functionA) ↔
        Complete appAnswers ⟨"python"⟩ twoFunctions before functionA) := by
  have hstart : System.Ran (Cmd.handle appServers) System.noEnv twoCalls [] twoCalls := .refl
  have hrun := System.Ran.advance [] [_] hstart 11
  obtain ⟨hread, hresult⟩ := concurrent_callees_exact_iff appEngine appServers appAnswers ⟨"python"⟩
    twoFunctionsWorld twoFunctions_stored (fun _ _ => fun _ _ => rfl) [calleesOfA, calleesOfA] _ _ hrun
  obtain ⟨hmem, before, rows, after, hsplit, hpage⟩ := hresult 0 _ (.fqn "app.a") anyFilter firstPage
    functionA _ false rfl rfl rfl rfl
  refine ⟨_, _, _, hrun, ⟨_, List.mem_cons_self, rfl⟩, before, rows, after, hsplit, hpage, ?_⟩
  exact hread functionA hmem before 0 rows after hsplit

/-- The first call has stored the callee when the second invalidates it again; it reads
    nothing, where the server knows a callee. -/
theorem overlapping_callees_empty : ∃ history sys,
    System.Ran (Cmd.handle appServers) System.noEnv twoCalls history sys ∧
    (∃ t ∈ sys.tasks, t.rest = some (pure (.callees ⟨[], none, []⟩ false))) ∧
    outgoingTargets appAnswers twoFunctions ⟨"python"⟩ functionA = [2] := by
  have hstart : System.Ran (Cmd.handle appServers) System.noEnv twoCalls [] twoCalls := .refl
  have hfirst := System.Ran.advance [] [_] hstart 9
  have hsecond := System.Ran.advance [_] [] hfirst 5
  have hthird := System.Ran.advance [] [_] hsecond 2
  exact ⟨_, _, hthird, ⟨_, List.mem_cons_self, rfl⟩, rfl⟩

end Semnav.Query
