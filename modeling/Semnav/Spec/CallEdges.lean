import Semnav.Spec.DbInvariant
import Semnav.Spec.FailedCalls

/-!
# What an outgoing materialization leaves

A materialization makes the anchor's valid `calls` edges those that the server's answers
resolve to, and touches nothing else but `implements` edges.  The targets are a function of
the rows of `nodes` and of the answers (`outgoingTargets`); with servers that may fail there
still are such targets, and the run always ends.

## Key results

- `Db.upsertEdge_calls`, `Db.mem_getNeighbors_outgoing`: the valid calls and who sees them
- `rematerialize_returns`: the effect of a materialization
-/

namespace Semnav.Graph.Db

/-- A valid `calls` edge leads from `src` to `dst`. -/
def Calls (db : Db) (src dst : RowId) : Prop :=
  ∃ e ∈ db.edges, e.srcId = src ∧ e.dstId = dst ∧ e.edgeType = .calls ∧ e.valid = true

/-- The tables agree outside of `edges`. -/
structure SameRows (db db' : Db) : Prop where
  nodes : db'.nodes = db.nodes
  nodesSeq : db'.nodesSeq = db.nodesSeq
  calleesCache : db'.calleesCache = db.calleesCache
  materialized : db'.materialized = db.materialized
  indexMeta : db'.indexMeta = db.indexMeta

/-- A graph has its own rows. -/
theorem SameRows.refl (db : Db) : SameRows db db := ⟨rfl, rfl, rfl, rfl, rfl⟩

/-- Having the same rows composes. -/
theorem SameRows.trans {a b c : Db} (hab : SameRows a b) (hbc : SameRows b c) : SameRows a c where
  nodes := hbc.nodes.trans hab.nodes
  nodesSeq := hbc.nodesSeq.trans hab.nodesSeq
  calleesCache := hbc.calleesCache.trans hab.calleesCache
  materialized := hbc.materialized.trans hab.materialized
  indexMeta := hbc.indexMeta.trans hab.indexMeta

/-- Which ids exist depends on the rows only. -/
theorem hasNode_congr {db db' : Db} (h : db'.nodes = db.nodes) (id : RowId) :
    db'.hasNode id = db.hasNode id := by
  rw [hasNode, hasNode, h]

/-- Which node an id has depends on the rows only. -/
theorem getNode_congr {db db' : Db} (h : db'.nodes = db.nodes) (id : RowId) :
    db'.getNode id = db.getNode id := by
  rw [getNode, getNode, h]

/-- Which node a position has depends on the rows only. -/
theorem findNodeByPosition_congr {db db' : Db} (h : db'.nodes = db.nodes) (uri : String)
    (line col : Int) : db'.findNodeByPosition uri line col = db.findNodeByPosition uri line col := by
  rw [findNodeByPosition, findNodeByPosition, h]

/-- A node found by position is a valid row. -/
theorem findNodeByPosition_mem {db : Db} {uri : String} {line col : Int} {n : Node}
    (h : db.findNodeByPosition uri line col = some n) :
    n ∈ db.nodes ∧ n.uri = uri ∧ n.valid = true ∧ n.coversPos line col = true := by
  have hmem := List.mem_of_mem_head? (Option.mem_def.mpr h)
  rw [List.mem_insertionSort, List.mem_insertionSort, List.mem_filter] at hmem
  simpa [and_assoc] using hmem

/-- A valid row has this id. -/
def ValidId (db : Db) (id : RowId) : Prop := ∃ n ∈ db.nodes, n.valid = true ∧ n.id = id

/-- Which ids are live depends on the rows only. -/
theorem ValidId.congr {d d' : Db} (h : d'.nodes = d.nodes) {id : RowId} (hid : d'.ValidId id) :
    d.ValidId id := by
  rw [ValidId, h] at hid
  exact hid

/-- A live id exists. -/
theorem ValidId.hasNode {d : Db} {id : RowId} (h : d.ValidId id) : d.hasNode id = true := by
  obtain ⟨n, hn, -, rfl⟩ := h
  exact hasNode_of_mem hn

/-! ## The valid calls -/

/-- An upsert of a valid edge adds its call, and takes none away. -/
theorem upsertEdge_calls {db db' : Db} (hwf : db.WF) {e : Edge} {id : RowId}
    (hv : e.valid = true) (h : db.upsertEdge e = .ok (db', id)) (a b : RowId) :
    db'.Calls a b ↔ db.Calls a b ∨ (e.edgeType = .calls ∧ e.srcId = a ∧ e.dstId = b) := by
  rcases upsertEdge_ok h with ⟨r, hr, -, hkey, -, rfl⟩ | ⟨-, -, -, -, rfl⟩
  · -- The row that is refreshed has the ends and the type of `e`.
    have hends : r.srcId = e.srcId ∧ r.dstId = e.dstId ∧ r.edgeType = e.edgeType := by
      simp only [Edge.key, Prod.mk.injEq] at hkey
      exact ⟨hkey.1, hkey.2.1, hkey.2.2.1⟩
    have hsame : ∀ r' ∈ db.edges, r'.id = r.id → r' = r := fun r' hr' hid =>
      List.inj_on_of_nodup_map hwf.edge_ids_nodup hr' hr hid
    constructor
    · rintro ⟨x, hx, hsrc, hdst, ht, hval⟩
      obtain ⟨r', hr', rfl⟩ := List.mem_map.mp hx
      split at hsrc
      · rename_i hid
        rw [if_pos hid] at hdst ht
        obtain rfl := hsame r' hr' hid
        exact .inr ⟨hends.2.2.symm.trans ht, hends.1.symm.trans hsrc, hends.2.1.symm.trans hdst⟩
      · rename_i hid
        rw [if_neg hid] at hdst ht hval
        exact .inl ⟨r', hr', hsrc, hdst, ht, hval⟩
    · rintro (⟨x, hx, hsrc, hdst, ht, hval⟩ | ⟨ht, hsrc, hdst⟩)
      · refine ⟨_, List.mem_map.mpr ⟨x, hx, rfl⟩, ?_⟩
        split
        · exact ⟨hsrc, hdst, ht, hv⟩
        · exact ⟨hsrc, hdst, ht, hval⟩
      · refine ⟨_, List.mem_map.mpr ⟨r, hr, rfl⟩, ?_⟩
        rw [if_pos rfl]
        exact ⟨hends.1.trans hsrc, hends.2.1.trans hdst, hends.2.2.trans ht, hv⟩
  · constructor
    · rintro ⟨x, hx, hsrc, hdst, ht, hval⟩
      rcases List.mem_append.mp hx with hx | hx
      · exact .inl ⟨x, hx, hsrc, hdst, ht, hval⟩
      · rw [List.mem_singleton.mp hx] at hsrc hdst ht
        exact .inr ⟨ht, hsrc, hdst⟩
    · rintro (⟨x, hx, hsrc, hdst, ht, hval⟩ | ⟨ht, hsrc, hdst⟩)
      · exact ⟨x, List.mem_append_left _ hx, hsrc, hdst, ht, hval⟩
      · exact ⟨_, List.mem_append_right _ (List.mem_singleton_self _), hsrc, hdst, ht, hv⟩

/-- Invalidating an anchor drops its calls and no other. -/
theorem invalidateOutgoingCalls_calls (db : Db) (id a b : RowId) :
    (db.invalidateOutgoingCalls id).Calls a b ↔ a ≠ id ∧ db.Calls a b := by
  constructor
  · rintro ⟨x, hx, hsrc, hdst, ht, hval⟩
    obtain ⟨e, he, rfl⟩ := List.mem_map.mp hx
    split at hval
    · exact nomatch hval
    · rename_i hcond
      rw [if_neg hcond] at hsrc hdst ht
      exact ⟨fun hid => hcond ⟨hsrc.trans hid, ht⟩, e, he, hsrc, hdst, ht, hval⟩
  · rintro ⟨hne, e, he, hsrc, hdst, ht, hval⟩
    refine ⟨_, List.mem_map.mpr ⟨e, he, rfl⟩, ?_⟩
    rw [if_neg fun hcond => hne (hsrc.symm.trans hcond.1)]
    exact ⟨hsrc, hdst, ht, hval⟩

/-- A neighbor is a valid row. -/
theorem getNeighbors_valid {d : Db} {id : RowId} {t : EdgeType} {dir : Direction} {r : Neighbor}
    (hr : r ∈ d.getNeighbors id t dir) : r.1 ∈ d.nodes ∧ r.1.valid = true := by
  obtain ⟨e, -, he⟩ := List.mem_filterMap.mp ((List.mem_insertionSort _).mp hr)
  split at he
  rename_i anchor other _
  split at he
  · obtain ⟨n, hn, rfl⟩ := Option.map_eq_some_iff.mp he
    obtain ⟨hfound, hvalid⟩ := Option.filter_eq_some_iff.mp hn
    exact ⟨List.mem_of_find?_eq_some hfound, hvalid⟩
  · exact nomatch he

/-- A reader of outgoing calls sees the valid targets of the valid edges. -/
theorem mem_getNeighbors_outgoing {db : Db} (hwf : db.WF) (id : RowId) (n : Node) :
    (∃ row ∈ db.getNeighbors id .calls .outgoing, row.1 = n) ↔
      n ∈ db.nodes ∧ n.valid = true ∧ db.Calls id n.id := by
  simp only [getNeighbors, List.mem_insertionSort, neighborRows, List.mem_filterMap]
  constructor
  · -- A row of the neighbours comes of a valid call edge, joined with a valid node.
    rintro ⟨row, ⟨e, he, hrow⟩, rfl⟩
    split at hrow
    · rename_i hcond
      simp only [Bool.and_eq_true, beq_iff_eq] at hcond
      obtain ⟨m, hm, rfl⟩ := Option.map_eq_some_iff.mp hrow
      obtain ⟨hget, hvalid⟩ := Option.filter_eq_some_iff.mp hm
      obtain ⟨hmem, hid⟩ := (hwf.getNode_eq_some_iff _ _).mp hget
      exact ⟨hmem, hvalid, e, he, hcond.1.1, hid.symm, hcond.1.2, hcond.2⟩
    · exact nomatch hrow
  · -- Conversely the edge itself joins with the node, found under its id.
    rintro ⟨hn, hvalid, e, he, hsrc, hdst, ht, hval⟩
    refine ⟨(n, e.site), ⟨e, he, ?_⟩, rfl⟩
    have hget : db.getNode e.dstId = some n := (hwf.getNode_eq_some_iff _ _).mpr ⟨hn, hdst.symm⟩
    simp [hsrc, ht, hval, hget, hvalid]

end Semnav.Graph.Db

namespace Semnav.Query

open Semnav.ForStd Semnav.Graph Semnav.Indexer

/-! ## Servers that answer -/

/-- A table of answers, one for each request. -/
structure Answers where
  answer : {β : Type} → Client → Request β → β

/-- While the files are as in `text`, every request gets its answer from the table. -/
def Servers.Follows (S : Servers) (A : Answers) (text : String → Option String) : Prop :=
  ∀ w : World, w.text = text → ∀ {β : Type} (c : Client) (r : Request β),
    S.reply w c r = .ok (A.answer c r)

/-- While the files are as in `text`, what is made of every reply with a list is the list of the
    table: a request may fail where the table has no items. -/
def Servers.Lists (S : Servers) (A : Answers) (text : String → Option String) : Prop :=
  ∀ w : World, w.text = text → ∀ {β : Type} (c : Client) (r : Request (List β)),
    (orTimedOut (S.reply w c r)).1 = A.answer c r

/-- Servers that follow an answer table list its calls. -/
theorem Servers.Follows.lists {S : Servers} {A : Answers} {text : String → Option String}
    (h : S.Follows A text) : S.Lists A text := by
  intro w hw β c r
  rw [h w hw c r]
  rfl

/-! ## The targets of a materialization -/

section Targets

variable (A : Answers) (d : Db) (client : Client)

/-- The indexed node at the start of a span, by id. -/
def idAt (uri : String) (r : LspRange) : Option RowId :=
  (d.findNodeByPosition uri r.start.line r.start.character).map (·.id)

/-- The implementations of an interface method that are indexed. -/
def implementationIds (callee : Node) : List RowId :=
  (A.answer client (.implementation callee.uri (asU32 callee.sel.startLine)
    (asU32 callee.sel.startCol))).filterMap fun loc => idAt d loc.uri loc.range

/-- Is the node declared inside an interface? -/
def declaredInInterface (callee : Node) : Bool :=
  match callee.containerId with
  | some containerId => (d.getNode containerId).any (·.nodeKind == "Interface")
  | none => false

/-- The callees that a resolved outgoing call stands for: in TypeScript and Go, of a method of an
    interface the implementations that are indexed, if there are any, and else the callee itself. -/
def calleeTargets (anchor callee : Node) : List RowId :=
  if ¬ (anchor.language = "typescript" ∨ anchor.language = "go") then [callee.id]
  else if !declaredInInterface d callee then [callee.id]
  else if (implementationIds A d client callee).isEmpty then [callee.id]
  else implementationIds A d client callee

/-- The languages are those that the code corrects. -/
theorem calleeTargets_eq (anchor callee : Node) : calleeTargets A d client anchor callee =
    if !correctsInterfaces anchor.language then [callee.id]
    else if !declaredInInterface d callee then [callee.id]
    else if (implementationIds A d client callee).isEmpty then [callee.id]
    else implementationIds A d client callee := by
  have hlanguages : (!correctsInterfaces anchor.language) = true ↔
      ¬ (anchor.language = "typescript" ∨ anchor.language = "go") := by
    simp [correctsInterfaces]
  rw [calleeTargets]
  simp only [hlanguages]

/-- The targets of one outgoing call: none without a call site or an indexed callee. -/
def callTargets (anchor : Node) (call : OutgoingCall) : List RowId :=
  if call.fromRanges.isEmpty then []
  else
    match d.findNodeByPosition call.to.uri call.to.selectionRange.start.line
        call.to.selectionRange.start.character with
    | some callee => calleeTargets A d client anchor callee
    | none => []

/-- The callees of an anchor, as the server answers and the graph resolves them. -/
def outgoingTargets (anchor : Node) : List RowId :=
  match A.answer client (.prepareCallHierarchy anchor.uri (asU32 anchor.sel.startLine)
      (asU32 anchor.sel.startCol)) with
  | [] => []
  | item :: _ => (A.answer client (.outgoingCalls item)).flatMap (callTargets A d client anchor)

variable {d} in
/-- The id found at a position is live. -/
theorem idAt_valid {uri : String} {r : LspRange} {id : RowId} (h : idAt d uri r = some id) :
    d.ValidId id := by
  obtain ⟨n, hn, rfl⟩ := Option.map_eq_some_iff.mp h
  obtain ⟨hmem, -, hvalid, -⟩ := Db.findNodeByPosition_mem hn
  exact ⟨n, hmem, hvalid, rfl⟩

/-- Targets are valid rows. -/
theorem outgoingTargets_valid {anchor : Node} {b : RowId}
    (hb : b ∈ outgoingTargets A d client anchor) : d.ValidId b := by
  -- A call targets its callee, or the implementations that are indexed.
  have hcall : ∀ call, b ∈ callTargets A d client anchor call → d.ValidId b := by
    intro call hb
    unfold callTargets at hb
    split at hb
    · exact absurd hb List.not_mem_nil
    · split at hb
      · rename_i callee hcallee
        have hself : d.ValidId callee.id :=
          idAt_valid (r := call.to.selectionRange) (Option.map_eq_some_iff.mpr ⟨callee, hcallee, rfl⟩)
        have himpl : b ∈ implementationIds A d client callee → d.ValidId b := by
          intro hb
          obtain ⟨loc, -, hloc⟩ := List.mem_filterMap.mp hb
          exact idAt_valid hloc
        -- Whichever branch the correction takes, the target is one of these.
        unfold calleeTargets at hb
        repeat' split at hb
        all_goals first | exact List.mem_singleton.mp hb ▸ hself | exact himpl hb
      · exact absurd hb List.not_mem_nil
  unfold outgoingTargets at hb
  split at hb
  · exact absurd hb List.not_mem_nil
  · obtain ⟨call, -, hb⟩ := List.mem_flatMap.mp hb
    exact hcall call hb

variable {d} {d' : Db} (h : d'.nodes = d.nodes)
include h

/-- The implementations of a callee depend on the rows only. -/
theorem implementationIds_congr (callee : Node) :
    implementationIds A d' client callee = implementationIds A d client callee := by
  simp only [implementationIds, idAt, Db.findNodeByPosition_congr h]

omit A client in
/-- Whether a callee is declared in an interface depends on the rows only. -/
theorem declaredInInterface_congr (callee : Node) :
    declaredInInterface d' callee = declaredInInterface d callee := by
  unfold declaredInInterface
  split
  · rw [Db.getNode_congr h]
  · rfl

/-- What a call is corrected to depends on the rows only. -/
theorem calleeTargets_congr (anchor callee : Node) :
    calleeTargets A d' client anchor callee = calleeTargets A d client anchor callee := by
  simp only [calleeTargets, declaredInInterface_congr h, implementationIds_congr A client h]

/-- What one reported call targets depends on the rows only. -/
theorem callTargets_congr (anchor : Node) (call : OutgoingCall) :
    callTargets A d' client anchor call = callTargets A d client anchor call := by
  simp only [callTargets, calleeTargets_congr A client h, Db.findNodeByPosition_congr h]

/-- The targets depend on the rows of `nodes` only. -/
theorem outgoingTargets_congr (anchor : Node) :
    outgoingTargets A d' client anchor = outgoingTargets A d client anchor := by
  rw [outgoingTargets, outgoingTargets, funext (callTargets_congr A client h anchor)]

end Targets

/-! ## The effect of each part -/

/-- `w'` is `w` with more valid calls out of the anchor, and otherwise the same rows. -/
structure Stores (anchorId : RowId) (targets : RowId → Prop) (w w' : World) : Prop where
  wf : w'.db.WF
  rows : w.db.SameRows w'.db
  calls : ∀ a b, w'.db.Calls a b ↔ w.db.Calls a b ∨ (a = anchorId ∧ targets b)

section Effects

variable {S : Servers} {w : World} {anchorId : RowId} {client : Client}

/-- Storing two sets of targets stores their union. -/
theorem Stores.trans {targets targets' : RowId → Prop} {a b c : World}
    (hab : Stores anchorId targets a b) (hbc : Stores anchorId targets' b c) :
    Stores anchorId (fun id => targets id ∨ targets' id) a c where
  wf := hbc.wf
  rows := hab.rows.trans hbc.rows
  calls := fun x y => by rw [hbc.calls, hab.calls, and_or_left, or_assoc]

/-- Only which targets are stored matters. -/
theorem Stores.congr {targets targets' : RowId → Prop} {w' : World}
    (h : Stores anchorId targets w w') (ht : ∀ id, targets id ↔ targets' id) :
    Stores anchorId targets' w w' where
  wf := h.wf
  rows := h.rows
  calls := fun x y => by rw [h.calls, ht]

/-- A run that leaves the tables alone stores nothing. -/
theorem Stores.of_db_eq {targets : RowId → Prop} (hwf : w.db.WF) {w' : World}
    (h : w'.db = w.db) (ht : ∀ id, ¬ targets id) : Stores anchorId targets w w' where
  wf := by rw [h]; exact hwf
  rows := by rw [h]; exact .refl _
  calls := fun x y => by simp [h, ht]

/-- No node appears or goes. -/
theorem Stores.hasNode {targets : RowId → Prop} {w' : World} (h : Stores anchorId targets w w')
    (id : RowId) : w'.db.hasNode id = w.db.hasNode id :=
  Db.hasNode_congr h.rows.nodes id

/-- A valid edge between two rows is stored. -/
private theorem upsertEdge_returns (hwf : w.db.WF) {e : Edge} (hv : e.valid = true)
    (hsrc : w.db.hasNode e.srcId = true) (hdst : w.db.hasNode e.dstId = true) :
    (db (.upsertEdge e)).Returns S w fun _ w' =>
      Stores e.srcId (fun b => e.edgeType = .calls ∧ e.dstId = b) w w' := by
  obtain ⟨d, id, hd⟩ := Db.upsertEdge_total w.db e hsrc hdst
  refine ⟨id, _, by simp only [run_db, DbCmd.exec, hd]; rfl, ?_⟩
  obtain ⟨hnodes, hseq, hcache, hmat, hmeta⟩ := Db.upsertEdge_frame hd
  exact {
    wf := Db.upsertEdge_wf hwf hd
    rows := ⟨hnodes, hseq, hcache, hmat, hmeta⟩
    calls := fun a b => (Db.upsertEdge_calls hwf hv hd a b).trans
      (or_congr_right ⟨fun h => ⟨h.2.1.symm, h.1, h.2.2⟩, fun h => ⟨h.2.1, h.1.symm, h.2.2⟩⟩) }

/-- The sites of one callee store it, if there is a site. -/
theorem addCallSites_returns (hwf : w.db.WF) {dst : RowId} (uri : String)
    (ranges : List LspRange) (hsrc : w.db.hasNode anchorId = true)
    (hdst : w.db.hasNode dst = true) :
    (addCallSites anchorId dst uri ranges).Returns S w fun _ w' =>
      Stores anchorId (fun b => b = dst ∧ ranges.isEmpty = false) w w' := by
  induction ranges generalizing w with
  | nil => exact Prog.Returns.pure (.of_db_eq hwf rfl (by simp))
  | cons range rest ih =>
    refine Prog.Returns.bind (upsertEdge_returns hwf rfl hsrc hdst) fun _ w' hw' => ?_
    refine (ih hw'.wf (by rw [hw'.hasNode]; exact hsrc) (by rw [hw'.hasNode]; exact hdst)).mono
      fun _ w'' hw'' => (hw'.trans hw'').congr fun id => ?_
    simp only [locatedEdge, true_and, List.isEmpty_cons, and_true]
    exact ⟨fun h => h.elim Eq.symm And.left, fun h => .inl h.symm⟩

/-- The sites of a call store every target. -/
private theorem addTargets_returns (hwf : w.db.WF) (uri : String) (ranges : List LspRange)
    (targets : List RowId) (hsrc : w.db.hasNode anchorId = true)
    (hdst : ∀ id ∈ targets, w.db.hasNode id = true) :
    (addTargets anchorId uri ranges targets).Returns S w fun _ w' =>
      Stores anchorId (fun b => b ∈ targets ∧ ranges.isEmpty = false) w w' := by
  induction targets generalizing w with
  | nil => exact Prog.Returns.pure (.of_db_eq hwf rfl (by simp))
  | cons target rest ih =>
    refine Prog.Returns.bind (addCallSites_returns hwf uri ranges hsrc
      (hdst target List.mem_cons_self)) fun _ w' hw' => ?_
    refine (ih hw'.wf (by rw [hw'.hasNode]; exact hsrc) fun id hid => by
      rw [hw'.hasNode]; exact hdst id (List.mem_cons_of_mem _ hid)).mono
      fun _ w'' hw'' => (hw'.trans hw'').congr fun id => ?_
    rw [List.mem_cons, or_and_right]

/-- `node_at` reads the row. -/
theorem run_nodeAt (uri : String) (r : LspRange) :
    (nodeAt uri r).run S w =
      (.ok (w.db.findNodeByPosition uri r.start.line r.start.character), w) :=
  run_findNodeByPosition S w ..

/-- The implementations are stored as `implements` edges, and none of them is a call. -/
private theorem addImplementations_returns (anchorId : RowId) (hwf : w.db.WF) {calleeId : RowId}
    (locs : List Location)
    (hcallee : w.db.hasNode calleeId = true) :
    (addImplementations calleeId locs).Returns S w fun ids w' =>
      Stores anchorId (fun _ => False) w w' ∧
        ids = locs.filterMap fun loc => idAt w.db loc.uri loc.range := by
  -- Induction on the locations; one that no indexed node contains adds nothing.
  induction locs generalizing w with
  | nil => exact Prog.Returns.pure ⟨.of_db_eq hwf rfl (by simp), rfl⟩
  | cons loc rest ih =>
    refine Prog.Returns.bind_run (run_nodeAt ..) ?_
    cases hfound : w.db.findNodeByPosition loc.uri loc.range.start.line loc.range.start.character with
    | none =>
      refine (ih hwf hcallee).mono fun ids w' hids => ⟨hids.1, ?_⟩
      rw [hids.2]
      exact (List.filterMap_cons_none (by rw [idAt, hfound]; rfl)).symm
    | some concrete =>
      have hmem := (Db.findNodeByPosition_mem hfound).1
      -- An implementation is stored as its own kind of edge, so no call of the anchor changes.
      refine Prog.Returns.bind (upsertEdge_returns hwf rfl hcallee (Db.hasNode_of_mem hmem))
        fun _ w' hw' => ?_
      refine Prog.Returns.bind (ih hw'.wf (by rw [hw'.hasNode]; exact hcallee))
        fun ids w'' hw'' => Prog.Returns.pure ⟨?_, ?_⟩
      · have hnone : Stores anchorId (fun _ => False) w w' :=
          ⟨hw'.wf, hw'.rows, fun a b => (hw'.calls a b).trans (by simp [locatedEdge])⟩
        exact (hnone.trans hw''.1).congr fun _ => or_self_iff
      · rw [hw''.2, List.filterMap_cons_some (by rw [idAt, hfound]; rfl)]
        simp only [idAt, Db.findNodeByPosition_congr hw'.rows.nodes]

/-- Opening a document leaves the graph alone. -/
theorem ensureOpen_returns (uri : String) :
    (ensureOpen uri client).Returns S w fun _ w' => w'.db = w.db := by
  refine Prog.Returns.bind_run (run_readFileText S w uri) ?_
  cases w.text uri with
  | none => exact Prog.Returns.pure rfl
  | some text =>
    dsimp only
    exact Prog.Returns.bind_run (run_openDocument S w client uri text) (Prog.Returns.pure rfl)

/-- The interface check reads the rows. -/
theorem run_inInterface (callee : Node) :
    (inInterface callee).run S w = (.ok (declaredInInterface w.db callee), w) := by
  unfold inInterface declaredInInterface
  cases callee.containerId with
  | some containerId =>
    dsimp only
    rw [run_bind, run_getNode]
    rfl
  | none => rfl

/-- No query changes the text of a file. -/
theorem returns_text {α : Type} {q : QueryM α} {Q : α → World → Prop} (h : q.Returns S w Q) :
    q.Returns S w fun a w' => Q a w' ∧ w'.text = w.text := by
  obtain ⟨a, w', hrun, ha⟩ := h
  have htext : (q.run S w).2.text = w.text := run_text q w
  have hsnd : (q.run S w).2 = w' := congrArg Prod.snd hrun
  exact ⟨a, w', hrun, ha, hsnd ▸ htext⟩

/-- A callee resolves to itself or to its implementations: valid rows in any case, and those
    that the server's answers say when it answers. -/
theorem resolveOutgoingCallee_returns (anchorId : RowId) (hwf : w.db.WF) (anchor : Node) {callee : Node}
    (hcallee : callee ∈ w.db.nodes) (hvalid : callee.valid = true) :
    (resolveOutgoingCallee anchor callee client).Returns S w fun r w' =>
      Stores anchorId (fun _ => False) w w' ∧ (∀ id ∈ r.1, w.db.ValidId id) ∧
        ∀ A, S.Lists A w.text → r.1 = calleeTargets A w.db client anchor callee := by
  have hself : ∀ id ∈ [callee.id], w.db.ValidId id := fun id hid => by
    rw [List.mem_singleton.mp hid]
    exact ⟨callee, hcallee, hvalid, rfl⟩
  -- The branches are those of `calleeTargets`: no correction, no interface, no implementation.
  simp only [calleeTargets_eq]
  unfold resolveOutgoingCallee
  split
  · exact Prog.Returns.pure ⟨.of_db_eq hwf rfl (by simp), hself, fun _ _ => rfl⟩
  · refine Prog.Returns.bind_run (run_inInterface callee) ?_
    split
    · exact Prog.Returns.pure ⟨.of_db_eq hwf rfl (by simp), hself, fun _ _ => rfl⟩
    · refine Prog.Returns.bind (returns_text (ensureOpen_returns callee.uri))
        fun _ w₁ ⟨hdb₁, htext₁⟩ => ?_
      refine Prog.Returns.bind_run (run_request S w₁ client _) ?_
      dsimp only
      generalize hreply : S.reply w₁ client _ = reply
      have hwf₁ : w₁.db.WF := by rw [hdb₁]; exact hwf
      -- Implementations are stored with the callee as their source.
      have hadd := addImplementations_returns (S := S)
        (w := w₁.note (.trip .implementation (.ofReply reply))) anchorId hwf₁
        (orTimedOut reply).1 (by rw [note_db, hdb₁]; exact Db.hasNode_of_mem hcallee)
      refine Prog.Returns.bind hadd fun ids w₂ ⟨hw₂, hids⟩ => ?_
      rw [note_db, hdb₁] at hids
      have hstores : Stores anchorId (fun _ => False) w w₂ :=
        (Stores.trans (.of_db_eq hwf ((note_db ..).trans hdb₁) fun _ => id) hw₂).congr
          fun _ => or_self_iff
      -- Servers that list what the table holds give the implementations of the table.
      have hfollows : ∀ A, S.Lists A w.text → ids = implementationIds A w.db client callee := by
        intro A hA
        rw [hids, ← hreply, hA w₁ htext₁]
        rfl
      split
      · rename_i hempty
        refine Prog.Returns.pure ⟨hstores, hself, fun A hA => ?_⟩
        rw [← hfollows A hA, if_pos hempty]
      · rename_i hempty
        refine Prog.Returns.pure ⟨hstores, fun id hid => ?_, fun A hA => ?_⟩
        · rw [hids] at hid
          obtain ⟨loc, -, hloc⟩ := List.mem_filterMap.mp hid
          exact idAt_valid hloc
        · rw [← hfollows A hA, if_neg hempty]

/-- The calls of a reply: their targets, all of them valid rows. -/
private theorem addOutgoing_returns (client : Client) (hwf : w.db.WF) (anchor : Node)
    (calls : List OutgoingCall)
    (hanchor : w.db.hasNode anchorId = true) :
    (addOutgoing anchorId anchor client calls).Returns S w fun _ w' =>
      ∃ targets : List RowId, Stores anchorId (· ∈ targets) w w' ∧
        (∀ id ∈ targets, w.db.ValidId id) ∧
        ∀ A, S.Lists A w.text → targets = calls.flatMap (callTargets A w.db client anchor) := by
  -- Induction on the calls; one whose callee is not indexed targets nothing.
  induction calls generalizing w with
  | nil => exact Prog.Returns.pure ⟨[], .of_db_eq hwf rfl (by simp), by simp, fun _ _ => rfl⟩
  | cons call rest ih =>
    refine Prog.Returns.bind_run (run_nodeAt ..) ?_
    cases hfound : w.db.findNodeByPosition call.to.uri call.to.selectionRange.start.line
        call.to.selectionRange.start.character with
    | none =>
      refine (ih hwf hanchor).mono fun _ w' ⟨targets, hw', hvalid, hA⟩ =>
        ⟨targets, hw', hvalid, fun A hfollows => ?_⟩
      simp [hA A hfollows, callTargets, hfound]
    | some callee =>
      obtain ⟨hcallee, -, hvalid, -⟩ := Db.findNodeByPosition_mem hfound
      refine Prog.Returns.bind (returns_text (resolveOutgoingCallee_returns anchorId hwf anchor
        hcallee hvalid)) fun resolved w₁ ⟨⟨hw₁, hvalid₁, hA₁⟩, htext₁⟩ => ?_
      -- What the call resolves to is stored once for each of its ranges.
      refine Prog.Returns.bind (returns_text (addTargets_returns hw₁.wf anchor.uri call.fromRanges
        resolved.1 (by rw [hw₁.hasNode]; exact hanchor)
        fun id hid => by rw [hw₁.hasNode]; exact (hvalid₁ id hid).hasNode))
        fun _ w₂ ⟨hw₂, htext₂⟩ => ?_
      have hw : Stores anchorId (fun b => b ∈ resolved.1 ∧ call.fromRanges.isEmpty = false) w w₂ :=
        (hw₁.trans hw₂).congr fun _ => or_iff_right id
      refine Prog.Returns.bind (ih hw₂.wf (by rw [hw.hasNode]; exact hanchor))
        fun _ w₃ ⟨targets, hw₃, hvalid₃, hA₃⟩ => Prog.Returns.pure ?_
      -- A call without ranges stores no edge, whatever it resolves to.
      refine ⟨(if call.fromRanges.isEmpty then [] else resolved.1) ++ targets,
        (hw.trans hw₃).congr fun id => ?_, fun id hid => ?_, fun A hfollows => ?_⟩
      · rw [List.mem_append]
        refine or_congr_left ?_
        cases call.fromRanges.isEmpty <;> simp
      · rcases List.mem_append.mp hid with hid | hid
        · split at hid
          · exact absurd hid List.not_mem_nil
          · exact hvalid₁ id hid
        · exact (hvalid₃ id hid).congr hw.rows.nodes
      · rw [hA₃ A (by rw [htext₂, htext₁]; exact hfollows), hA₁ A hfollows, List.flatMap_cons,
          funext (callTargets_congr A client hw.rows.nodes anchor)]
        refine congrArg (· ++ _) ?_
        rw [callTargets, hfound]

/-- `materialize_call_edges`, outgoing. -/
theorem materialize_returns (client : Client) (rootUri : String) (hwf : w.db.WF) (anchor : Node)
    (hanchor : w.db.hasNode anchorId = true) :
    (materializeCallEdges rootUri anchorId anchor .outgoing client).Returns S w fun _ w' =>
      ∃ targets : List RowId, Stores anchorId (· ∈ targets) w w' ∧
        (∀ id ∈ targets, w.db.ValidId id) ∧
        ∀ A, S.Lists A w.text → targets = outgoingTargets A w.db client anchor := by
  -- An error or a timeout counts as an empty answer in either request.
  unfold materializeCallEdges
  refine Prog.Returns.bind_run (run_request S w client _) ?_
  dsimp only
  generalize hprep : S.reply w client _ = prepared
  have hnothing : ∀ w', w'.db = w.db → Stores anchorId (· ∈ ([] : List RowId)) w w' :=
    fun w' h => .of_db_eq hwf h (by simp)
  have hitems : ∀ A, S.Lists A w.text → (orTimedOut prepared).1 =
      A.answer client (.prepareCallHierarchy anchor.uri (asU32 anchor.sel.startLine)
        (asU32 anchor.sel.startCol)) := by
    intro A hA
    rw [← hprep, hA w rfl]
  -- Without an item the outgoing calls are not asked for.
  rcases hfst : (orTimedOut prepared).1 with _ | ⟨item, items⟩
  · refine Prog.Returns.pure ⟨[], hnothing _ (note_db ..), by simp, fun A hA => ?_⟩
    rw [outgoingTargets, ← hitems A hA, hfst]
  · refine Prog.Returns.bind_run (run_request S _ client _) ?_
    generalize hout : S.reply _ client _ = reply
    refine Prog.Returns.bind (addOutgoing_returns (S := S) client (by rw [note_db, note_db]; exact hwf)
      anchor (orTimedOut reply).1 (by rw [note_db, note_db]; exact hanchor))
      fun _ w' ⟨targets, hw', hvalid, hA'⟩ => Prog.Returns.pure ⟨targets, ?_, hvalid, fun A hA => ?_⟩
    · refine Stores.congr (Stores.trans (hnothing _ ?_) hw') fun _ => by simp
      rfl
    · rw [hA' A hA, outgoingTargets, ← hitems A hA, hfst, ← hout, hA (w.note _) rfl]
      rfl

/-- A materialization replaces the anchor's valid calls by those to its targets. -/
structure Replaces (anchorId : RowId) (targets : List RowId) (w w' : World) : Prop where
  wf : w'.db.WF
  rows : w.db.SameRows w'.db
  valid : ∀ id ∈ targets, w.db.ValidId id
  calls : ∀ a b, w'.db.Calls a b ↔
    (a ≠ anchorId ∧ w.db.Calls a b) ∨ (a = anchorId ∧ b ∈ targets)

/-- Whatever the servers do, a materialization ends; with servers that answer, the targets
    are those of the answers. -/
theorem rematerialize_returns (engine : QueryEngine) (client : Client) (hwf : w.db.WF) (anchor : Node)
    (hanchor : w.db.hasNode anchorId = true) :
    (engine.rematerialize anchorId anchor client).Returns S w fun _ w' =>
      ∃ targets, Replaces anchorId targets w w' ∧
        ∀ A, S.Lists A w.text → targets = outgoingTargets A w.db client anchor := by
  refine Prog.Returns.bind_run (run_invalidateOutgoingCalls S w anchorId) ?_
  have hmat := materialize_returns (S := S)
    (w := (w.note (.invalidated anchorId)).setDb (w.db.invalidateOutgoingCalls anchorId)) client
    engine.rootUri (Db.invalidateOutgoingCalls_wf hwf anchorId) anchor hanchor
  -- After the invalidation the anchor has no edge, so all it calls is what is stored now.
  refine hmat.mono fun _ w' ⟨targets, hw', hvalid, hA⟩ => ⟨targets, ?_, ?_⟩
  · exact {
      wf := hw'.wf
      rows := Db.SameRows.trans (b := w.db.invalidateOutgoingCalls anchorId)
        ⟨rfl, rfl, rfl, rfl, rfl⟩ hw'.rows
      valid := hvalid
      calls := fun a b => by rw [hw'.calls, setDb_db, Db.invalidateOutgoingCalls_calls] }
  · intro A hfollows
    rw [hA A hfollows]
    exact outgoingTargets_congr A client rfl anchor

end Effects

end Semnav.Query
