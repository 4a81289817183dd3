import Semnav.Spec.CalleesCacheExact
import Semnav.Spec.CallersCallees
import Semnav.Spec.Marker

/-!
# What a warm answer stands for

An anchor that is marked is answered from the edges that are there, and its incoming edges are the
rows that reconciles and outgoing materializations clear as well.  A run carries along which sites
the last completed incoming materialization of each anchor recorded, and which of them were dropped
since: by a reconcile that renamed, updated or deleted one of the two rows, or because the caller
was asked for its calls again and the call was not among them.

## Key results

- `UpsertRun.hasValidKey`: the keys after a list of upserts
- `Reconciled.hasValidKey_iff`: the keys that a reconcile leaves
- `findReferences_effect`, `findCallers_effect`: a query records an answer and marks its anchor, or
  it leaves the edges alone
- `findCallees_effect`, `findCallPath_effect`: a query asks callers for their calls again
- `warm_misses_only_new_iff`: when the recorded edges are still there, in every state of a run
- `marked_callee_updated`: an anchor is updated in its own file, and its marker stays
-/

namespace Semnav.Graph

/-- A value of the `UNIQUE` constraint of `edges`. -/
abbrev EdgeKey := RowId × RowId × EdgeType × Option (String × Int × Int)

/-- The key of an edge into a row, from a source at a site. -/
def incomingKey (t : EdgeType) (id : RowId) (p : RowId × Site) : EdgeKey :=
  (p.1, id, t, some p.2.startKey)

namespace Db

/-- A valid edge has the key. -/
def HasValidKey (d : Db) (k : EdgeKey) : Prop := ∃ x ∈ d.edges, x.toEdge.key = k ∧ x.valid = true

/-- Only the edges matter. -/
theorem HasValidKey.congr {d d' : Db} (h : d'.edges = d.edges) (k : EdgeKey) :
    d'.HasValidKey k ↔ d.HasValidKey k := by
  unfold HasValidKey
  rw [h]

/-- The edges into a row, one for each site. -/
def edgesInto (t : EdgeType) (id : RowId) (sites : List (RowId × Site)) : List Edge :=
  sites.map fun p => ⟨p.1, id, t, some p.2, true⟩

/-- The keys of the edges into a node are those of its sites. -/
private theorem mem_edgesInto {t : EdgeType} {id : RowId} {sites : List (RowId × Site)}
    {k : EdgeKey} :
    (∃ e ∈ edgesInto t id sites, e.key = k) ↔ ∃ p ∈ sites, incomingKey t id p = k := by
  constructor
  · intro h
    obtain ⟨e, he, hkey⟩ := h
    obtain ⟨p, hp, rfl⟩ := List.mem_map.mp he
    exact ⟨p, hp, hkey⟩
  · intro h
    obtain ⟨p, hp, hkey⟩ := h
    exact ⟨_, List.mem_map.mpr ⟨p, hp, rfl⟩, hkey⟩

/-! ## The keys after upserts -/

section Upserts

variable {d d' : Db}

/-- An upsert leaves the other keys alone. -/
private theorem upsertEdge_hasValidKey_of_ne (hwf : d.WF) {e : Edge} {id : RowId}
    (h : d.upsertEdge e = .ok (d', id)) {k : EdgeKey} (hne : e.key ≠ k) :
    d'.HasValidKey k ↔ d.HasValidKey k := by
  rcases upsertEdge_ok h with ⟨r, hr, -, hkey, -, rfl⟩ | ⟨-, -, -, -, rfl⟩
  · -- The row that is refreshed is the only one with its id, and has the key of the edge.
    have hother : ∀ x ∈ d.edges, x.toEdge.key = k → x.id ≠ r.id := by
      intro x hx hxk hid
      obtain rfl := List.inj_on_of_nodup_map hwf.edge_ids_nodup hx hr hid
      exact hne (hkey.symm.trans hxk)
    constructor
    · intro hk
      obtain ⟨x, hx, hxk, hxv⟩ := hk
      obtain ⟨y, hy, rfl⟩ := List.mem_map.mp hx
      have hyk : y.toEdge.key = k := (refreshed_key hwf hr hkey hy).symm.trans hxk
      rw [if_neg (hother y hy hyk)] at hxv
      exact ⟨y, hy, hyk, hxv⟩
    · intro hk
      obtain ⟨x, hx, hxk, hxv⟩ := hk
      exact ⟨x, List.mem_map.mpr ⟨x, hx, if_neg (hother x hx hxk)⟩, hxk, hxv⟩
  · -- No row has the key: there is a new one.
    constructor
    · intro hk
      obtain ⟨x, hx, hxk, hxv⟩ := hk
      cases List.mem_append.mp hx with
      | inl hx => exact ⟨x, hx, hxk, hxv⟩
      | inr hx =>
        rw [List.mem_singleton.mp hx] at hxk
        exact absurd hxk hne
    · intro hk
      obtain ⟨x, hx, hxk, hxv⟩ := hk
      exact ⟨x, List.mem_append_left _ hx, hxk, hxv⟩

/-- An upsert adds the key of its edge. -/
private theorem upsertEdge_hasValidKey (hwf : d.WF) {e : Edge} {id : RowId}
    (hvalid : e.valid = true)
    (h : d.upsertEdge e = .ok (d', id)) (k : EdgeKey) :
    d'.HasValidKey k ↔ e.key = k ∨ d.HasValidKey k := by
  by_cases hk : e.key = k
  · obtain ⟨x, hx, rfl⟩ := upsertEdge_row h
    exact iff_of_true ⟨x, hx, hk, hvalid⟩ (.inl hk)
  · exact (upsertEdge_hasValidKey_of_ne hwf h hk).trans (or_iff_right hk).symm

variable {es : List Edge}

/-- Upserts make their own keys valid, and no other. -/
private theorem UpsertRun.hasValidKey (h : UpsertRun es d d') (hwf : d.WF) (k : EdgeKey) :
    d'.HasValidKey k ↔ (∃ e ∈ es, e.key = k) ∨ d.HasValidKey k := by
  induction h with
  | nil => simp
  | cons hvalid hfirst hrest ih =>
    rw [ih (upsertEdge_wf hwf hfirst), upsertEdge_hasValidKey hwf hvalid hfirst]
    simp only [List.mem_cons, exists_eq_or_imp]
    exact or_left_comm.trans or_assoc.symm

/-- Upserts of edges leave the rows of `nodes`. -/
private theorem UpsertRun.rows (h : UpsertRun es d d') : d.SameRows d' := by
  induction h with
  | nil => exact .refl _
  | cons _ hfirst _ ih =>
    obtain ⟨hnodes, hseq, hcache, hmat, hmeta⟩ := upsertEdge_frame hfirst
    exact SameRows.trans ⟨hnodes, hseq, hcache, hmat, hmeta⟩ ih

section Into

variable {t t' : EdgeType} {id id' : RowId} {sites : List (RowId × Site)}

/-- Every site that was reported has its valid edge. -/
private theorem UpsertRun.added (h : UpsertRun (edgesInto t id sites) d d') (hwf : d.WF)
    {p : RowId × Site}
    (hp : p ∈ sites) : d'.HasValidKey (incomingKey t id p) :=
  (h.hasValidKey hwf _).mpr (.inl (mem_edgesInto.mpr ⟨p, hp, rfl⟩))

/-- No edge of another type or into another row is new. -/
private theorem UpsertRun.other (h : UpsertRun (edgesInto t id sites) d d') (hwf : d.WF)
    (hne : ¬ (id' = id ∧ t' = t)) (p : RowId × Site) :
    d'.HasValidKey (incomingKey t' id' p) ↔ d.HasValidKey (incomingKey t' id' p) := by
  refine (h.hasValidKey hwf _).trans (or_iff_right fun hnew => hne ?_)
  obtain ⟨q, -, hkey⟩ := mem_edgesInto.mp hnew
  simp only [incomingKey, Prod.mk.injEq] at hkey
  exact ⟨hkey.2.1.symm, hkey.2.2.1.symm⟩

end Into

end Upserts

/-- The valid calls of a row, by their keys. -/
private theorem hasValidKey_iff_callOf {d : Db} {src dst : RowId}
    {start : Option (String × Int × Int)} :
    d.HasValidKey (src, dst, .calls, start) ↔
      ∃ e, d.CallOf src e ∧ e.key = (src, dst, .calls, start) := by
  constructor
  · intro h
    obtain ⟨x, hx, hkey, hvalid⟩ := h
    have hsrc : x.srcId = src := congrArg (fun k => k.1) hkey
    have htype : x.edgeType = .calls := congrArg (fun k => k.2.2.1) hkey
    exact ⟨x.toEdge, ⟨x, hx, rfl, hsrc, htype, hvalid⟩, hkey⟩
  · intro h
    obtain ⟨e, ⟨x, hx, rfl, -, -, hvalid⟩, hkey⟩ := h
    exact ⟨x, hx, hkey, hvalid⟩

end Db

/-! ## The keys after a reconcile -/

/-- A reconcile drops the edges between the two rows: one of them is renamed, updated or deleted. -/
def EndDropped (olds : List Node) (syms : List ReconcileSymbol) (a : Assignment)
    (src dst : RowId) : Prop :=
  Renewed olds syms a src ∨ Renewed olds syms a dst ∨ StruckTwice olds a src ∨
    StruckTwice olds a dst

/-- A reconcile keeps a valid key unless it drops or re-hashes one of its ends. -/
private theorem Reconciled.hasValidKey_iff {db db' : Db} {args : FileArgs} {olds : List Node}
    {syms : List ReconcileSymbol} {a : Assignment} {ids : Nat → Option RowId} {o : ReconcileOutcome}
    (hr : Reconciled db args olds syms a ids db' o) {src dst : RowId} {t : EdgeType}
    (ht : t ≠ .contains) (start : Option (String × Int × Int)) :
    db'.HasValidKey (src, dst, t, start) ↔
      db.HasValidKey (src, dst, t, start) ∧ ¬ EndDropped olds syms a src dst := by
  have hends : ∀ {e : EdgeRow}, e.toEdge.key = (src, dst, t, start) →
      e.srcId = src ∧ e.dstId = dst ∧ e.edgeType ≠ .contains := by
    intro e hkey
    simp only [Edge.key, Prod.mk.injEq] at hkey
    obtain ⟨hsrc, hdst, htype, -⟩ := hkey
    exact ⟨hsrc, hdst, htype ▸ ht⟩
  constructor
  · intro h
    obtain ⟨e, he, hkey, hvalid⟩ := h
    obtain ⟨rfl, rfl, hne⟩ := hends hkey
    obtain ⟨e₀, he₀, rfl, hdeleted⟩ := (hr.edges_other e hne).mp he
    -- A flag that is still set was set before, and no end of the edge was renewed.
    have hflag : (e₀.valid && !(staleIds olds syms a e₀.srcId || staleIds olds syms a e₀.dstId)) =
        true := hvalid
    simp only [Bool.and_eq_true, Bool.not_eq_true', Bool.or_eq_false_iff] at hflag
    exact ⟨⟨e₀, he₀, hkey, hflag.1⟩, not_dropped_iff.mpr ⟨hflag.2, hdeleted⟩⟩
  · intro h
    obtain ⟨⟨e₀, he₀, hkey, hvalid⟩, hkept⟩ := h
    obtain ⟨rfl, rfl, hne⟩ := hends hkey
    obtain ⟨hstale, hdeleted⟩ := not_dropped_iff.mp hkept
    refine ⟨e₀.staleIf (staleIds olds syms a), ?_, hkey, ?_⟩
    · exact (hr.edges_other (e₀.staleIf _) hne).mpr ⟨e₀, he₀, rfl, hdeleted⟩
    · simp [EdgeRow.staleIf, hvalid, hstale.1, hstale.2]

end Semnav.Graph

namespace Semnav.Query

open Semnav.ForStd Semnav.Graph Semnav.Indexer QueryEngine

/-! ## Parts that write no edge and no marker -/

/-- The command writes no edge and no marker. -/
def CmdKind.still : CmdKind → Prop
  | .upsertEdge _ | .invalidate | .mark => False
  | _ => True

/-- `w'` has the edges and the markers of `w`, and no calls were invalidated in between. -/
structure Still (w w' : World) : Prop where
  edges : w'.db.edges = w.db.edges
  materialized : w'.db.materialized = w.db.materialized
  log : ∃ events, w'.log = w.log ++ events ∧ ∀ id, .invalidated id ∉ events

section Still

variable {S : Servers} {α β : Type}

/-- Nothing has happened. -/
theorem Still.refl (w : World) : Still w w :=
  ⟨rfl, rfl, [], (List.append_nil _).symm, fun _ => List.not_mem_nil⟩

/-- One stretch after another. -/
theorem Still.trans {w w' w'' : World} (h : Still w w') (h' : Still w' w'') : Still w w'' where
  edges := h'.edges.trans h.edges
  materialized := h'.materialized.trans h.materialized
  log := by
    obtain ⟨events, hlog, hevents⟩ := h.log
    obtain ⟨events', hlog', hevents'⟩ := h'.log
    refine ⟨events ++ events', by rw [hlog', hlog, List.append_assoc], fun id hid => ?_⟩
    exact (List.mem_append.mp hid).elim (hevents id) (hevents' id)

/-- A command that adds no edge and sets no marker leaves both tables. -/
private theorem exec_still {c : DbCmd β} (hc : c.kind.still) {d d' : Db} {b : β}
    (h : c.exec d = .ok (b, d')) : d'.edges = d.edges ∧ d'.materialized = d.materialized := by
  cases c with
  | upsertEdge | invalidateOutgoingCalls | markMaterialized => exact absurd hc id
  | setCalleesCacheHash id hash =>
    obtain ⟨-, rfl⟩ := exec_setCalleesCacheHash_iff.mp h
    exact ⟨rfl, rfl⟩
  | _ =>
    cases h
    exact ⟨rfl, rfl⟩

/-- A still command leaves the edges and the markers. -/
private theorem handle_still {c : Cmd β} (hc : c.kind.still) (w : World) :
    (c.handle S w).2.db.edges = w.db.edges ∧
      (c.handle S w).2.db.materialized = w.db.materialized := by
  cases c with
  | db c =>
    simp only [Cmd.handle]
    split
    · rename_i b d hexec
      exact exec_still hc hexec
    · exact ⟨rfl, rfl⟩
  | spawnRefresh r =>
    simp only [Cmd.handle]
    split
    · exact ⟨rfl, rfl⟩
    · exact ⟨rfl, rfl⟩
  | _ => exact ⟨rfl, rfl⟩

/-- A query of still commands leaves the edges and the markers. -/
theorem OnlyKinds.still {q : QueryM α} (hq : OnlyKinds CmdKind.still q) (w : World) :
    Still w (q.run S w).2 := by
  obtain ⟨hedges, hmarks⟩ := Prog.Issues.run_rel (Cmd.handle S)
    (fun a b => b.db.edges = a.db.edges ∧ b.db.materialized = a.db.materialized)
    (fun _ => ⟨rfl, rfl⟩) (fun hab hbc => ⟨hbc.1.trans hab.1, hbc.2.trans hab.2⟩)
    (fun _ _ s hc => handle_still hc s) hq w
  obtain ⟨events, hlog, hkinds⟩ := hq.run_log (S := S) w
  exact ⟨hedges, hmarks, events, hlog, fun id hid => hkinds _ hid⟩

/-- A part that only reads. -/
private theorem OnlyKinds.still_of_keepsDb {q : QueryM α} (hq : OnlyKinds CmdKind.keepsDb q)
    {w w' : World}
    {r : Except DbError α} (hrun : q.run S w = (r, w')) : Still w w' := by
  have hkinds : OnlyKinds CmdKind.still q := hq.mono fun k hk => by
    cases k with
    | upsertEdge | invalidate | mark => exact hk
    | _ => trivial
  have hstill := hkinds.still (S := S) w
  rw [hrun] at hstill
  exact hstill

end Still

/-- Hovers are stored in `nodes` only. -/
private theorem still_hovers : Hovers CmdKind.still := ⟨trivial, trivial, trivial, trivial, trivial⟩

/-! ## Incoming materializations -/

/-- The types of the edges that are materialized at the row they lead to. -/
def IsIncoming (t : EdgeType) : Prop := t = .calls ∨ t = .references

/-- The sites that the server reports for the anchor, with the rows they lie in. -/
def reportedSites (A : Answers) (rootUri : String) (d : Db) (client : Client) (anchor : Node)
    (t : EdgeType) : List (RowId × Site) :=
  if t = .references then
    referenceSites d (A.answer client (.references anchor.uri (asU32 anchor.sel.startLine)
      (asU32 anchor.sel.startCol) true))
  else incomingSites d rootUri (incomingOf A client anchor)

section Materialization

variable {S : Servers} {w : World} {anchorId : RowId}

/-- An edge whose ends are there is upserted. -/
private theorem upsertEdge_done {e : Edge} (hsrc : w.db.hasNode e.srcId = true)
    (hdst : w.db.hasNode e.dstId = true) :
    (db (.upsertEdge e)).Returns S w fun id w' => w.db.upsertEdge e = .ok (w'.db, id) := by
  obtain ⟨d', id, hup⟩ := Db.upsertEdge_total w.db e hsrc hdst
  refine ⟨id, { w with db := d', log := w.log ++ [] }, ?_, hup⟩
  simp [run_db, exec_upsertEdge_iff.mpr hup, DbCmd.event?]

/-- The sites of one caller become edges into the anchor. -/
private theorem addCallSites_into {src : RowId} (uri : String) (ranges : List LspRange)
    (hsrc : w.db.hasNode src = true) (hanchor : w.db.hasNode anchorId = true) :
    (addCallSites src anchorId uri ranges).Returns S w fun _ w' =>
      Db.UpsertRun (Db.edgesInto .calls anchorId (callSites src uri ranges)) w.db w'.db := by
  induction ranges generalizing w with
  | nil => exact Prog.Returns.pure (.nil _)
  | cons range rest ih =>
    refine Prog.Returns.bind (upsertEdge_done (e := locatedEdge _ _ _ _) hsrc hanchor)
      fun id w₁ hone => ?_
    have hnodes := (Db.upsertEdge_frame hone).1
    refine (ih ?_ ?_).mono fun _ w' hrest => .cons rfl hone hrest
    · rw [Db.hasNode_congr hnodes, hsrc]
    · rw [Db.hasNode_congr hnodes, hanchor]

/-- The locations of a reply become edges into the anchor. -/
private theorem addReferences_into (locs : List Location) (hanchor : w.db.hasNode anchorId = true) :
    (addReferences anchorId locs).Returns S w fun _ w' =>
      Db.UpsertRun (Db.edgesInto .references anchorId (referenceSites w.db locs)) w.db w'.db := by
  -- Induction on the locations.  One that no indexed node contains adds no site.
  induction locs generalizing w with
  | nil => exact Prog.Returns.pure (.nil _)
  | cons loc rest ih =>
    refine Prog.Returns.bind_run (run_nodeAt loc.uri loc.range) ?_
    cases hfound : w.db.findNodeByPosition loc.uri loc.range.start.line
        loc.range.start.character with
    | none =>
      have hsites : referenceSites w.db (loc :: rest) = referenceSites w.db rest := by
        simp [referenceSites, idAt, hfound]
      rw [hsites]
      exact ih hanchor
    | some container =>
      have hsrc : w.db.hasNode container.id = true :=
        Db.hasNode_of_mem (Db.findNodeByPosition_mem hfound).1
      refine Prog.Returns.bind (upsertEdge_done (e := locatedEdge _ _ _ _) hsrc hanchor)
        fun id w₁ hone => ?_
      have hnodes := (Db.upsertEdge_frame hone).1
      -- The rows are those of before, so the later locations mean the same sites.
      have hsites : referenceSites w.db (loc :: rest) =
          (container.id, ⟨loc.uri, loc.range.toGraph⟩) :: referenceSites w₁.db rest := by
        rw [referenceSites_congr hnodes]
        simp [referenceSites, idAt, hfound]
      rw [hsites]
      refine (ih ?_).mono fun _ w' hrest => .cons rfl hone hrest
      rw [Db.hasNode_congr hnodes, hanchor]

/-- The calls of a reply become edges into the anchor. -/
private theorem addIncoming_into (rootUri : String) (calls : List IncomingCall)
    (hanchor : w.db.hasNode anchorId = true) :
    (addIncoming rootUri anchorId calls).Returns S w fun _ w' =>
      Db.UpsertRun (Db.edgesInto .calls anchorId (incomingSites w.db rootUri calls)) w.db
        w'.db := by
  -- Induction on the calls.  A call from outside the index adds no site.
  induction calls generalizing w with
  | nil => exact Prog.Returns.pure (.nil _)
  | cons call rest ih =>
    obtain ⟨caller, hcaller, hid⟩ := run_incomingCaller (S := S) (w := w) rootUri call.from
    refine Prog.Returns.bind_run hcaller ?_
    cases caller with
    | none =>
      have hsites : incomingSites w.db rootUri (call :: rest) =
          incomingSites w.db rootUri rest := by
        simp [incomingSites, ← hid]
      rw [hsites]
      exact ih hanchor
    | some caller =>
      refine Prog.Returns.bind (addCallSites_into call.from.uri call.fromRanges
        (callerId_hasNode hid.symm) hanchor) fun _ w₁ hfirst => ?_
      -- The rows are those of before, so the later calls mean the same sites.
      have hsites : incomingSites w.db rootUri (call :: rest) =
          callSites caller.id call.from.uri call.fromRanges ++
            incomingSites w₁.db rootUri rest := by
        rw [incomingSites_congr hfirst.nodes]
        simp [incomingSites, ← hid]
      rw [hsites]
      refine (ih ?_).mono fun _ w' hrest => ?_
      · rw [Db.hasNode_congr hfirst.nodes, hanchor]
      · unfold Db.edgesInto at hfirst hrest ⊢
        rw [List.map_append]
        exact hfirst.append hrest

/-- A materialization upserts the edges that the answer stands for. -/
private theorem materializeIncoming_into {A : Answers} (hA : S.Follows A w.text) (rootUri : String)
    {t : EdgeType} (ht : IsIncoming t) (hanchor : w.db.hasNode anchorId = true) (anchor : Node)
    (client : Client) :
    (materializeIncoming rootUri t anchorId anchor client).Returns S w fun _ w' =>
      Db.UpsertRun (Db.edgesInto t anchorId (reportedSites A rootUri w.db client anchor t)) w.db
        w'.db := by
  -- The two kinds of incoming edges have their own request each.
  cases ht with
  | inl ht =>
    subst ht
    show (materializeCallEdges rootUri anchorId anchor .incoming client).Returns S w _
    unfold materializeCallEdges
    refine Prog.Returns.bind_run (run_request S w client _) ?_
    rw [hA w rfl]
    -- Without an item for the anchor there is nothing to ask, and nothing is recorded.
    cases hitems : A.answer client (.prepareCallHierarchy anchor.uri (asU32 anchor.sel.startLine)
        (asU32 anchor.sel.startCol)) with
    | nil =>
      have hsites : reportedSites A rootUri w.db client anchor .calls = [] := by
        simp [reportedSites, incomingOf, hitems, incomingSites]
      rw [hsites]
      exact Prog.Returns.pure (.nil _)
    | cons item items =>
      have hsites : reportedSites A rootUri w.db client anchor .calls =
          incomingSites w.db rootUri (A.answer client (.incomingCalls item)) := by
        simp [reportedSites, incomingOf, hitems]
      rw [hsites]
      refine Prog.Returns.bind_run (run_request S _ client (.incomingCalls item)) ?_
      rw [hA (w.note _) rfl]
      refine Prog.Returns.bind (addIncoming_into (w := (w.note _).note _) rootUri _ hanchor)
        -- `incomingCalls` is asked for the first item only.
        fun _ w' hrun => ?_
      exact Prog.Returns.pure hrun
  | inr ht =>
    subst ht
    show (materializeReferences anchorId anchor client).Returns S w _
    unfold materializeReferences
    refine Prog.Returns.bind_run (run_request S w client _) ?_
    rw [hA w rfl]
    refine Prog.Returns.bind (addReferences_into (w := w.note _) _ hanchor) fun _ w' hrun => ?_
    exact Prog.Returns.pure hrun

/-! ### Of an anchor without a row -/

/-- Without its target an edge is refused. -/
private theorem run_upsertEdge_missing {e : Edge} (hwf : w.db.WF)
    (h : w.db.hasNode e.dstId = false) :
    ∃ err, (db (.upsertEdge e)).run S w = (.error err, w) := by
  cases hup : w.db.upsertEdge e with
  | ok r =>
    obtain ⟨d', id⟩ := r
    -- Both ends of an edge have rows.
    rcases Db.upsertEdge_ok hup with ⟨r, hr, -, hkey, -, -⟩ | ⟨-, -, hdst, -, -⟩
    · have hdst : r.dstId = e.dstId := congrArg (fun k => k.2.1) hkey
      have hrow := (hwf.edge_ok r hr).2
      rw [hdst, h] at hrow
      exact absurd hrow Bool.false_ne_true
    · rw [h] at hdst
      exact absurd hdst Bool.false_ne_true
  | error err => exact ⟨err, by simp [run_db, DbCmd.exec, hup, bind, Except.bind]⟩

/-- A reply for an anchor that is gone changes nothing. -/
private theorem addIncoming_missing {rootUri : String} {calls : List IncomingCall} (hwf : w.db.WF)
    (h : w.db.hasNode anchorId = false) :
    ((addIncoming rootUri anchorId calls).run S w).2.db = w.db := by
  induction calls with
  | nil => rfl
  | cons call rest ih =>
    obtain ⟨caller, hcaller, -⟩ := run_incomingCaller (S := S) (w := w) rootUri call.from
    unfold addIncoming
    rw [run_bind_of_ok S w _ hcaller]
    cases caller with
    | none => exact ih
    | some caller =>
      dsimp only
      -- Without ranges there is no site; with one the first upsert fails, as the anchor is no row.
      cases call.fromRanges with
      | nil => exact ih
      | cons range ranges =>
        obtain ⟨err, herr⟩ := run_upsertEdge_missing (S := S) hwf
          (e := locatedEdge caller.id anchorId .calls (some ⟨call.from.uri, range.toGraph⟩)) h
        unfold addCallSites
        rw [run_bind, run_bind, herr]

/-- A reply for references of an anchor that is gone changes nothing. -/
private theorem addReferences_missing {locs : List Location} (hwf : w.db.WF)
    (h : w.db.hasNode anchorId = false) :
    ((addReferences anchorId locs).run S w).2.db = w.db := by
  induction locs with
  | nil => rfl
  | cons loc rest ih =>
    unfold addReferences
    rw [run_bind_of_ok S w _ (run_nodeAt loc.uri loc.range)]
    cases w.db.findNodeByPosition loc.uri loc.range.start.line loc.range.start.character with
    | none => exact ih
    | some container =>
      obtain ⟨err, herr⟩ := run_upsertEdge_missing (S := S) hwf
        (e := locatedEdge container.id anchorId .references (some ⟨loc.uri, loc.range.toGraph⟩)) h
      dsimp only
      rw [run_bind, herr]

/-- Nothing can be recorded of an anchor that has been deleted. -/
private theorem materializeIncoming_missing (rootUri : String) (t : EdgeType) (hwf : w.db.WF)
    (h : w.db.hasNode anchorId = false) (anchor : Node) (client : Client) :
    ((materializeIncoming rootUri t anchorId anchor client).run S w).2.db = w.db := by
  have hlast : ∀ {β : Type} (q : QueryM Unit) (b : β) (w : World),
      ((q >>= fun _ => (pure b : QueryM β)).run S w).2.db = (q.run S w).2.db := by
    intro β q b w
    rw [run_bind]
    rcases q.run S w with ⟨err | u, w'⟩
    · rfl
    · rfl
  unfold materializeIncoming
  -- References and callers differ in the request only.
  split
  · unfold materializeReferences
    rw [run_bind_of_ok S w _ (run_request S w client _)]
    exact (hlast ..).trans (addReferences_missing (w := w.note _) hwf h)
  · unfold materializeCallEdges
    rw [run_bind_of_ok S w _ (run_request S w client _)]
    dsimp only
    split
    · rfl
    · rw [run_bind_of_ok S _ _ (run_request S _ client _)]
      exact (hlast ..).trans (addIncoming_missing (w := (w.note _).note _) hwf h)

end Materialization

/-! ## What a query does to the incoming edges -/

/-- The source of a site is among the rows, and of its calls one is into the row at the site. -/
def CalledBy (calls : Node → List Edge) (d : Db) (id : RowId) (p : RowId × Site) : Prop :=
  ∃ n ∈ d.nodes, n.id = p.1 ∧ ∃ e ∈ calls n, e.key = incomingKey .calls id p

/-- What becomes of the marker of a row, and of the edges into it while it is marked.  `sites` are
    the sites that the server reports for an anchor, and `calls` the calls. -/
inductive IncomingCase (sites : Node → EdgeType → List (RowId × Site)) (calls : Node → List Edge)
    (d d' : Db) (events : List Event) (id : RowId) (t : EdgeType) : Prop where
  | unmarked (hafter : d'.materialized id t = false)
  | completed {n : Node} (ht : IsIncoming t) (hn : n ∈ d.nodes) (hid : n.id = id)
      (hbefore : d.materialized id t = false) (hafter : d'.materialized id t = true)
      (hkeys : ∀ p ∈ sites n t, d'.HasValidKey (incomingKey t id p))
  | warm (hbefore : d.materialized id t = true) (hafter : d'.materialized id t = true)
      (hasked : t = .calls → ∀ p, .invalidated p.1 ∈ events →
        (d'.HasValidKey (incomingKey t id p) ↔ CalledBy calls d id p))
      (hkept : IsIncoming t → ∀ p, ¬ (t = .calls ∧ .invalidated p.1 ∈ events) →
        (d'.HasValidKey (incomingKey t id p) ↔ d.HasValidKey (incomingKey t id p)))

/-- `w'` is `w` after a query or a part of one. -/
def QueryEffect (sites : Node → EdgeType → List (RowId × Site)) (calls : Node → List Edge)
    (w w' : World) : Prop :=
  ∃ events, w'.log = w.log ++ events ∧ ∀ id t, IncomingCase sites calls w.db w'.db events id t

section Effect

variable {sites : Node → EdgeType → List (RowId × Site)} {calls : Node → List Edge}
  {w w' w'' : World}

/-- A query that keeps both tables has no more effect than it may. -/
private theorem QueryEffect.of_still (h : Still w w') : QueryEffect sites calls w w' := by
  obtain ⟨events, hlog, hevents⟩ := h.log
  refine ⟨events, hlog, fun id t => ?_⟩
  cases hmark : w.db.materialized id t with
  | false => exact .unmarked (by rw [h.materialized, hmark])
  | true =>
    refine .warm hmark (by rw [h.materialized, hmark]) ?_ ?_
    · exact fun _ p hp => absurd hp (hevents p.1)
    · exact fun _ p _ => Db.HasValidKey.congr h.edges _

/-- A part before it that only reads. -/
theorem QueryEffect.before (h : Still w w') (hdb : w'.db = w.db)
    (h' : QueryEffect sites calls w' w'') : QueryEffect sites calls w w'' := by
  obtain ⟨events, hlog, hevents⟩ := h.log
  obtain ⟨events', hlog', hcases⟩ := h'
  refine ⟨events ++ events', by rw [hlog', hlog, List.append_assoc], fun id t => ?_⟩
  have hmem : ∀ src, .invalidated src ∈ events ++ events' ↔ .invalidated src ∈ events' := by
    intro src
    rw [List.mem_append]
    exact or_iff_right (hevents src)
  have hcase := hcases id t
  rw [hdb] at hcase
  cases hcase with
  | unmarked hafter => exact .unmarked hafter
  | completed ht hn hid hbefore hafter hkeys => exact .completed ht hn hid hbefore hafter hkeys
  | warm hbefore hafter hasked hkept =>
    refine .warm hbefore hafter (fun ht p hp => hasked ht p ((hmem _).mp hp)) ?_
    exact fun ht p hp => hkept ht p fun h => hp ⟨h.1, (hmem _).mpr h.2⟩

/-- A part after it that writes no edge and no marker. -/
private theorem QueryEffect.after (h : QueryEffect sites calls w w') (h' : Still w' w'') :
    QueryEffect sites calls w w'' := by
  obtain ⟨events, hlog, hcases⟩ := h
  obtain ⟨events', hlog', hevents⟩ := h'.log
  refine ⟨events ++ events', by rw [hlog', hlog, List.append_assoc], fun id t => ?_⟩
  have hmem : ∀ src, .invalidated src ∈ events ++ events' ↔ .invalidated src ∈ events := by
    intro src
    rw [List.mem_append]
    exact or_iff_left (hevents src)
  have hmark : w''.db.materialized id t = w'.db.materialized id t := by rw [h'.materialized]
  have hkey := Db.HasValidKey.congr h'.edges
  -- A command that leaves edges and markers keeps each of the three cases.
  cases hcases id t with
  | unmarked hafter => exact .unmarked (hmark.trans hafter)
  | completed ht hn hid hbefore hafter hkeys =>
    exact .completed ht hn hid hbefore (hmark.trans hafter) fun p hp => (hkey _).mpr (hkeys p hp)
  | warm hbefore hafter hasked hkept =>
    refine .warm hbefore (hmark.trans hafter) (fun ht p hp => ?_) fun ht p hp => ?_
    · exact (hkey _).trans (hasked ht p ((hmem _).mp hp))
    · exact (hkey _).trans (hkept ht p fun h => hp ⟨h.1, (hmem _).mpr h.2⟩)

end Effect

/-- The server that a query asks, if it asks one. -/
def queryClient (rt : QueryRuntime) (d : Db) : SymbolRef → Client
  | .at uri _ _ => ⟨(rt.languageForUri uri).getD ""⟩
  | .fqn fqn => ⟨((d.getNodeByFqn fqn).map (·.language)).getD ""⟩

section Prefix

variable {S : Servers} {w : World} (rt : QueryRuntime)

/-- A client that is acquired speaks the language that was asked for. -/
private theorem acquireOpt_client (language : Option String) :
    (QueryRuntime.acquireOpt language).Returns S w fun r w' =>
      w'.db = w.db ∧ w'.text = w.text ∧ ∀ c, r.1 = some c → c = ⟨language.getD ""⟩ := by
  cases language with
  | none =>
    refine Prog.Returns.pure ⟨rfl, rfl, fun c hc => ?_⟩
    cases hc
  | some language =>
    refine Prog.Returns.bind_run (Prog.run_perform (Cmd.handle S) (.acquire language) w) ?_
    split
    · refine Prog.Returns.pure ⟨rfl, rfl, fun c hc => ?_⟩
      cases hc
      rfl
    · refine Prog.Returns.pure ⟨rfl, rfl, fun c hc => ?_⟩
      cases hc

/-- The client of a query speaks the language of its anchor. -/
private theorem clientFor_client (symref : SymbolRef) :
    (rt.clientFor symref).Returns S w fun r w' =>
    w'.db = w.db ∧ w'.text = w.text ∧ ∀ c, r.1 = some c → c = queryClient rt w.db symref := by
  cases symref with
  | fqn fqn => exact Prog.Returns.bind_run (run_getNodeByFqn S w fqn) (acquireOpt_client _)
  | «at» uri line character => exact acquireOpt_client _

end Prefix

/-! ### The tools over incoming edges -/

section Incoming

variable {S : Servers} {A : Answers} {w : World} {calls : Node → List Edge}

/-- The marker of a row is set. -/
private theorem run_markMaterialized {id : RowId} (h : w.db.hasNode id = true) (t : EdgeType) :
    (db (.markMaterialized id t)).run S w = (.ok (), w.setDb { w.db with
      materialized := fun a t' => if a = id ∧ t' = t then true else w.db.materialized a t' }) := by
  simp [run_db, DbCmd.exec, DbCmd.event?, Db.markMaterialized, h, bind, Except.bind, World.setDb]

/-- A cold anchor: what the server reports is recorded, and the anchor is marked. -/
private theorem cold_effect (hA : S.Follows A w.text) (hwf : w.db.WF) (rootUri : String)
    {t : EdgeType}
    (ht : IsIncoming t) {anchor : Node} (hanchor : anchor ∈ w.db.nodes)
    (hcold : w.db.materialized anchor.id t = false) (client : Client) {α : Type}
    {g : Bool → QueryM α} (hg : ∀ timedOut, OnlyKinds CmdKind.still (g timedOut)) :
    QueryEffect (reportedSites A rootUri w.db client) calls w
      ((materializeIncoming rootUri t anchor.id anchor client >>= fun timedOut =>
        db (.markMaterialized anchor.id t) >>= fun _ => g timedOut).run S w).2 := by
  -- First the materialization, which stores exactly the sites reported and invalidates nothing;
  have hrow := Db.hasNode_of_mem hanchor
  obtain ⟨timedOut, w₁, hrun, hups⟩ := materializeIncoming_into hA rootUri ht hrow anchor client
  have hkinds : OnlyKinds (· ≠ .invalidate)
      (materializeIncoming rootUri t anchor.id anchor client) :=
    materializeIncoming_onlyKinds ⟨nofun, nofun, nofun, nofun, nofun, nofun⟩ ..
  obtain ⟨events, hlog, hevents⟩ := hkinds.logs_of_run hrun
  have hnone : ∀ src, .invalidated src ∉ events := fun src hsrc => hevents _ hsrc rfl
  -- then the mark, which succeeds as the row is still there; the rest of the query is still.
  have hrow₁ : w₁.db.hasNode anchor.id = true := by rw [Db.hasNode_congr hups.nodes, hrow]
  have hmarks := hups.rows.materialized
  rw [run_bind_of_ok S w _ hrun, run_bind_of_ok S w₁ _ (run_markMaterialized hrow₁ t)]
  refine QueryEffect.after ?_ ((hg timedOut).still _)
  refine ⟨events, hlog, fun id t' => ?_⟩
  -- The pair marked is completed by this call; for every other pair the edges stay as they were.
  by_cases hsame : id = anchor.id ∧ t' = t
  · obtain ⟨rfl, rfl⟩ := hsame
    exact .completed ht hanchor rfl hcold (if_pos ⟨rfl, rfl⟩) fun p hp => hups.added hwf hp
  · have hmark : (if id = anchor.id ∧ t' = t then true else w₁.db.materialized id t') =
        w.db.materialized id t' := by
      rw [if_neg hsame, hmarks]
    cases hbefore : w.db.materialized id t' with
    | false => exact .unmarked (hmark.trans hbefore)
    | true =>
      refine .warm hbefore (hmark.trans hbefore) (fun _ p hp => absurd hp (hnone p.1)) ?_
      exact fun _ p _ => hups.other hwf hsame p

/-- The client of a query and its anchor: finding them only reads. -/
private theorem anchor_found (rt : QueryRuntime) (symref : SymbolRef) :
    ∃ client degradation w₁ anchor timedOut w₂,
      (rt.clientFor symref).run S w = (.ok (client, degradation), w₁) ∧
      (resolveAnchor symref client).run S w₁ = (.ok (anchor, timedOut), w₂) ∧
      (∀ c, client = some c → c = queryClient rt w.db symref) ∧
      (∀ n, anchor = some n → n ∈ w.db.nodes) ∧ w₂.db = w.db ∧ w₂.text = w.text ∧ Still w w₂ := by
  obtain ⟨⟨client, degradation⟩, w₁, hfirst, hdb₁, htext₁, hclient⟩ :=
    clientFor_client (S := S) (w := w) rt symref
  obtain ⟨⟨anchor, timedOut⟩, w₂, hsecond, hdb₂, htext₂, hmem, -⟩ :=
    resolveAnchor_returns (S := S) (w := w₁) symref client
  -- Finding the anchor leaves the tables, so the anchor found is a row of before.
  have hkinds₁ : OnlyKinds CmdKind.keepsDb (rt.clientFor symref) :=
    clientFor_onlyKinds trivial trivial rt symref
  have hkinds₂ : OnlyKinds CmdKind.keepsDb (resolveAnchor symref client) :=
    resolveAnchor_onlyKinds trivial trivial symref client
  rw [hdb₁] at hmem
  exact ⟨client, degradation, w₁, anchor, timedOut, w₂, hfirst, hsecond, hclient, hmem,
    hdb₂.trans hdb₁, htext₂.trans htext₁,
    (hkinds₁.still_of_keepsDb hfirst).trans (hkinds₂.still_of_keepsDb hsecond)⟩

/-- Opening a document keeps the graph. -/
private theorem ensureOpen_still (uri : String) (client : Client) :
    ∃ w', (ensureOpen uri client).run S w = (.ok (), w') ∧ w'.db = w.db ∧ w'.text = w.text ∧
      Still w w' := by
  have hreturns : (ensureOpen uri client).Returns S w fun _ w' => w'.db = w.db :=
    ensureOpen_returns uri
  obtain ⟨u, w', hrun, hdb⟩ := hreturns
  have htext := run_text (S := S) (ensureOpen uri client) w
  rw [show (ensureOpen uri client).run S w = (.ok u, w') from hrun] at htext
  have hkinds : OnlyKinds CmdKind.keepsDb (ensureOpen uri client) :=
    ensureOpen_onlyKinds trivial trivial uri client
  exact ⟨w', hrun, hdb, htext, hkinds.still_of_keepsDb hrun⟩

/-- What both tools do with an anchor and a client: a marked anchor is answered as it is. -/
private theorem anchored_effect (hA : S.Follows A w.text) (hwf : w.db.WF) (rootUri : String)
    {t : EdgeType}
    (ht : IsIncoming t) {anchor : Node} (hanchor : anchor ∈ w.db.nodes) (client : Client) {α : Type}
    {warm : QueryM α} {g : Bool → QueryM α} (hwarm : OnlyKinds CmdKind.still warm)
    (hg : ∀ timedOut, OnlyKinds CmdKind.still (g timedOut)) :
    QueryEffect (reportedSites A rootUri w.db client) calls w
      ((ensureOpen anchor.uri client >>= fun _ => db (.isMaterialized anchor.id t) >>= fun marked =>
        if marked then warm
        else materializeIncoming rootUri t anchor.id anchor client >>= fun timedOut =>
          db (.markMaterialized anchor.id t) >>= fun _ => g timedOut).run S w).2 := by
  obtain ⟨w₁, hopen, hdb, htext, hstill⟩ := ensureOpen_still (S := S) (w := w) anchor.uri client
  rw [run_bind_of_ok S w _ hopen, run_bind_of_ok S w₁ _ (run_isMaterialized S w₁ anchor.id t)]
  refine QueryEffect.before hstill hdb ?_
  -- The anchor is warm and its rows are read, or it is cold and asked for.
  split
  · exact .of_still (hwarm.still _)
  · rename_i hcold
    rw [Bool.not_eq_true] at hcold
    rw [← htext] at hA
    rw [← hdb] at hwf hanchor ⊢
    exact cold_effect hA hwf rootUri ht hanchor hcold client hg

variable (rt : QueryRuntime)

/-- What a `find_references` may add and mark. -/
private theorem findReferences_effect (hA : S.Follows A w.text) (hwf : w.db.WF) (symref : SymbolRef)
    (filter : Filter) (page : Page) :
    QueryEffect (reportedSites A rt.rootUri w.db (queryClient rt w.db symref)) calls w
      ((rt.findReferences symref filter page).run S w).2 := by
  -- The client and the anchor are found first, without a change of the graph.
  obtain ⟨client, degradation, w₁, anchor, timedOut, w₂, hclient, hanchor, hc, hmem, hdb, htext,
    hstill⟩ := anchor_found (S := S) (w := w) rt symref
  have hcache : ∀ id, OnlyKinds CmdKind.still (referencesFromCache id filter page) := fun id =>
    referencesFromCache_onlyKinds trivial id filter page
  unfold QueryRuntime.findReferences
  rw [run_bind_of_ok S w _ hclient]
  dsimp only
  rw [run_bind_of_ok S w₁ _ hanchor]
  refine QueryEffect.before hstill hdb ?_
  dsimp only
  -- Only an anchor with a client is materialized; the other two ends of the query only read.
  split
  · have hhints := hintFqnsForSymref_onlyKinds (K := CmdKind.still) trivial rt.toQueryEngine symref
    exact .of_still ((hhints.bind fun _ => onlyKinds_pure _).still _)
  · exact .of_still (((hcache _).bind fun _ => onlyKinds_pure _).still _)
  · rename_i n c
    have hrest : ∀ (refresh : Refresh) (timedOut : Bool), OnlyKinds CmdKind.still
        (referencesFromCache n.id filter page >>= fun result =>
          Prog.perform (.spawnRefresh refresh) >>= fun _ =>
          pure (result, degradation.or (timeoutDegradation timedOut), true)) := fun _ _ =>
      (hcache _).bind fun _ => (Prog.Issues.perform trivial).bind fun _ => onlyKinds_pure _
    have hmem := hmem n rfl
    rw [← htext] at hA
    rw [← hc c rfl]
    rw [← hdb] at hwf hmem ⊢
    exact anchored_effect hA hwf rt.rootUri (t := .references) (.inr rfl) hmem c (hrest _ _)
      fun _ => hrest _ _

/-- What a `find_callers` may add and mark. -/
private theorem findCallers_effect (hA : S.Follows A w.text) (hwf : w.db.WF) (symref : SymbolRef)
    (filter : Filter) (page : Page) (withSignature : Bool) :
    QueryEffect (reportedSites A rt.rootUri w.db (queryClient rt w.db symref)) calls w
      ((rt.findCallers symref filter page withSignature).run S w).2 := by
  -- The client and the anchor are found first, without a change of the graph.
  obtain ⟨client, degradation, w₁, anchor, timedOut, w₂, hclient, hanchor, hc, hmem, hdb, htext,
    hstill⟩ := anchor_found (S := S) (w := w) rt symref
  have hpage : ∀ id, OnlyKinds CmdKind.still (readCallsPage id .incoming filter page) := fun id =>
    readCallsPage_onlyKinds trivial id .incoming filter page
  unfold QueryRuntime.findCallers
  rw [run_bind_of_ok S w _ hclient]
  dsimp only
  rw [run_bind_of_ok S w₁ _ hanchor]
  refine QueryEffect.before hstill hdb ?_
  dsimp only
  -- Only an anchor with a client is materialized; the other two ends of the query only read.
  split
  · have hhints := hintFqnsForSymref_onlyKinds (K := CmdKind.still) trivial rt.toQueryEngine symref
    exact .of_still ((hhints.bind fun _ => onlyKinds_pure _).still _)
  · exact .of_still (((hpage _).bind fun _ => onlyKinds_pure _).still _)
  · rename_i n c
    have hrest : ∀ (refresh : Refresh) (timedOut : Bool), OnlyKinds CmdKind.still
        (readCallsPage n.id .incoming filter page >>= fun result =>
          QueryRuntime.withSignatures withSignature c result >>= fun result =>
          Prog.perform (.spawnRefresh refresh) >>= fun _ =>
          pure (result, degradation.or (timeoutDegradation timedOut), true)) := fun _ _ =>
      (hpage _).bind fun _ => (withSignatures_onlyKinds still_hovers ..).bind fun _ =>
        (Prog.Issues.perform trivial).bind fun _ => onlyKinds_pure _
    have hmem := hmem n rfl
    rw [← htext] at hA
    rw [← hc c rfl]
    rw [← hdb] at hwf hmem ⊢
    exact anchored_effect hA hwf rt.rootUri (t := .calls) (.inl rfl) hmem c (hrest _ _)
      fun _ => hrest _ _

end Incoming

/-! ### The tools over outgoing calls -/

/-- The command writes no marker and no edge of a reference. -/
def CmdKind.outgoing (k : CmdKind) : Prop := k ≠ .mark ∧ k ≠ .upsertEdge .references

/-- The commands of an outgoing materialization are among these. -/
private theorem outgoing_expands : ExpandsCalls CmdKind.outgoing where
  read := ⟨nofun, nofun⟩
  file := ⟨nofun, nofun⟩
  openDocument := ⟨nofun, nofun⟩
  implementation := ⟨nofun, nofun⟩
  implements := ⟨nofun, nofun⟩
  prepareCallHierarchy := ⟨nofun, nofun⟩
  outgoingCalls := ⟨nofun, nofun⟩
  calls := ⟨nofun, nofun⟩
  definition := ⟨nofun, nofun⟩
  neighbors := ⟨nofun, nofun⟩
  invalidate := ⟨nofun, nofun⟩
  setCache := ⟨nofun, nofun⟩

/-- The tables agree in the markers, and in the valid references. -/
def SameReferences (d d' : Db) : Prop :=
  d'.materialized = d.materialized ∧
    ∀ k : EdgeKey, k.2.2.1 = .references → (d'.HasValidKey k ↔ d.HasValidKey k)

section Outgoing

variable {S : Servers} {A : Answers} {w w' : World} {α β : Type}

/-- Equal tables have the same references. -/
private theorem SameReferences.of_eq {d d' : Db} (hmarks : d'.materialized = d.materialized)
    (hedges : d'.edges = d.edges) : SameReferences d d' :=
  ⟨hmarks, fun k _ => Db.HasValidKey.congr hedges k⟩

/-- Calls and implementations are not references. -/
private theorem exec_sameReferences {c : DbCmd β} (hc : c.kind.outgoing) {d d' : Db} {b : β}
    (hwf : d.WF)
    (h : c.exec d = .ok (b, d')) : SameReferences d d' := by
  cases c with
  | markMaterialized => exact absurd rfl hc.1
  | upsertEdge e =>
    have hup := exec_upsertEdge_iff.mp h
    refine ⟨(Db.upsertEdge_frame hup).2.2.2.1, fun k hk => ?_⟩
    refine Db.upsertEdge_hasValidKey_of_ne hwf hup fun hkey => hc.2 ?_
    have htype : e.edgeType = .references := by
      rw [← hk, ← hkey]
      rfl
    exact congrArg CmdKind.upsertEdge htype
  | invalidateOutgoingCalls id =>
    cases h
    refine ⟨rfl, fun k hk => ?_⟩
    -- A row with such a key is no call.
    have hother : ∀ x ∈ d.edges, x.toEdge.key = k → ¬ (x.srcId = id ∧ x.edgeType = .calls) := by
      intro x _ hkey hcall
      have htype : x.edgeType = k.2.2.1 := congrArg (fun k => k.2.2.1) hkey
      rw [hk, hcall.2] at htype
      cases htype
    constructor
    · intro h
      obtain ⟨x, hx, hkey, hvalid⟩ := h
      obtain ⟨y, hy, rfl⟩ := mem_invalidateOutgoingCalls.mp hx
      split at hvalid
      · cases hvalid
      · rename_i hcall
        rw [if_neg hcall] at hkey
        exact ⟨y, hy, hkey, hvalid⟩
    · intro h
      obtain ⟨x, hx, hkey, hvalid⟩ := h
      exact ⟨x, mem_invalidateOutgoingCalls.mpr ⟨x, hx, if_neg (hother x hx hkey)⟩, hkey, hvalid⟩
  | setCalleesCacheHash id hash =>
    obtain ⟨-, rfl⟩ := exec_setCalleesCacheHash_iff.mp h
    exact .of_eq rfl rfl
  | _ =>
    cases h
    exact .of_eq rfl rfl

/-- An outgoing command keeps the references in the world. -/
private theorem handle_sameReferences {c : Cmd β} (hc : c.kind.outgoing) (hwf : w.db.WF) :
    SameReferences w.db (c.handle S w).2.db := by
  cases c with
  | db c =>
    simp only [Cmd.handle]
    split
    · rename_i b d hexec
      exact exec_sameReferences hc hwf hexec
    · exact .of_eq rfl rfl
  | spawnRefresh r =>
    simp only [Cmd.handle]
    split
    · exact .of_eq rfl rfl
    · exact .of_eq rfl rfl
  | _ => exact .of_eq rfl rfl

/-- A query of outgoing commands keeps the references in the world. -/
private theorem OnlyKinds.sameReferences {q : QueryM α} (hq : OnlyKinds CmdKind.outgoing q)
    (hstored : w.db.Stored) : SameReferences w.db (q.run S w).2.db := by
  refine (Prog.Issues.run_rel (Cmd.handle S)
    (fun a b => a.db.Stored → b.db.Stored ∧ SameReferences a.db b.db)
    (fun _ h => ⟨h, .of_eq rfl rfl⟩) (fun hab hbc ha => ?_) (fun _ c s hc hs => ?_) hq w hstored).2
  · obtain ⟨hb, hmarks, hkeys⟩ := hab ha
    obtain ⟨hc, hmarks', hkeys'⟩ := hbc hb
    exact ⟨hc, hmarks'.trans hmarks, fun k hk => (hkeys' k hk).trans (hkeys k hk)⟩
  · exact ⟨handle_stored c hs, handle_sameReferences hc hs.toWF⟩

variable {sites : Node → EdgeType → List (RowId × Site)} {client : Client}

/-- A row that was asked for its calls has those of the answer, and the others have theirs. -/
private theorem QueryEffect.of_refreshed (h : Refreshed A client w w') (hwf : w.db.WF)
    (hsame : SameReferences w.db w'.db) :
    QueryEffect sites (freshCalls A w.db client) w w' := by
  obtain ⟨hmarks, hreferences⟩ := hsame
  obtain ⟨events, hlog, hcases⟩ := h.log
  refine ⟨events, hlog, fun id t => ?_⟩
  cases hmark : w.db.materialized id t with
  | false => exact .unmarked (by rw [hmarks, hmark])
  | true =>
    refine .warm hmark (by rw [hmarks, hmark]) (fun ht p hp => ?_) fun ht p hp => ?_
    · subst ht
      cases hcases p.1 with
      | made hevent hn hid hcalls =>
        refine Db.hasValidKey_iff_callOf.trans ⟨fun hcall => ?_, fun hcalled => ?_⟩
        · obtain ⟨e, he, hkey⟩ := hcall
          exact ⟨_, hn, hid, e, ((hcalls e).mp he).mem, hkey⟩
        · obtain ⟨n, hn', hid', e, he, hkey⟩ := hcalled
          obtain rfl := hwf.node_ext hn' hn (hid'.trans hid.symm)
          -- The last call with the key is in the row.
          obtain ⟨e', hlast, hkey'⟩ := Db.exists_lastOfKey he
          exact ⟨e', (hcalls e').mpr hlast, hkey'.trans hkey⟩
      | kept hevent hcalls hcache => exact absurd hp hevent
    · cases ht with
      | inl ht =>
        subst ht
        cases hcases p.1 with
        | made hevent hn hid hcalls => exact absurd ⟨rfl, hevent⟩ hp
        | kept hevent hcalls hcache =>
          refine Db.hasValidKey_iff_callOf.trans (Iff.trans ?_ Db.hasValidKey_iff_callOf.symm)
          exact exists_congr fun e => and_congr_left fun _ => hcalls e
      | inr ht =>
        subst ht
        exact hreferences _ rfl

/-- The rest of a tool, where it writes no edge and no marker. -/
private theorem run_bind_still {q : QueryM α} {f : α → QueryM β}
    (hf : ∀ a, OnlyKinds CmdKind.still (f a)) :
    Still (q.run S w).2 ((q >>= f).run S w).2 := by
  rw [run_bind]
  rcases q.run S w with ⟨err | a, w'⟩
  · exact .refl w'
  · exact (hf a).still w'

variable (rt : QueryRuntime)

/-- A tool that asks rows for their calls, between the client and the signatures. -/
private theorem expanding_effect (hA : S.Follows A w.text) (hstored : w.db.Stored)
    (huniq : w.db.SitesUnique .calls) (symref : SymbolRef)
    {q : Option Client → QueryM α} {f : Option Client × Option Degradation → α → QueryM β}
    (hrefreshes : ∀ c, (∀ c', c = some c' → c' = queryClient rt w.db symref) →
      Refreshes S A (queryClient rt w.db symref) w.db.nodes (q c) fun _ => True)
    (hkinds : ∀ c, OnlyKinds CmdKind.outgoing (q c))
    (hf : ∀ acquired a, OnlyKinds CmdKind.still (f acquired a)) :
    QueryEffect sites (freshCalls A w.db (queryClient rt w.db symref)) w
      ((rt.clientFor symref >>= fun acquired => q acquired.1 >>= f acquired).run S w).2 := by
  obtain ⟨acquired, w₁, hclient, hdb, htext, hc⟩ := clientFor_client (S := S) (w := w) rt symref
  have hreads : OnlyKinds CmdKind.keepsDb (rt.clientFor symref) :=
    clientFor_onlyKinds trivial trivial rt symref
  have hrefreshed := hrefreshes acquired.1 hc
  rw [run_bind_of_ok S w _ hclient]
  refine QueryEffect.before (hreads.still_of_keepsDb hclient) hdb ?_
  rw [← htext] at hA
  rw [← hdb] at hstored huniq hrefreshed ⊢
  -- What follows the query is done with the tables.
  refine QueryEffect.after ?_ (run_bind_still (hf acquired))
  exact .of_refreshed (hrefreshed w₁ hA hstored huniq rfl).1 hstored.toWF
    ((hkinds acquired.1).sameReferences hstored)

/-- What a `find_callees` may add; it marks nothing. -/
private theorem findCallees_effect (hA : S.Follows A w.text) (hstored : w.db.Stored)
    (huniq : w.db.SitesUnique .calls) (symref : SymbolRef) (filter : Filter) (page : Page)
    (withSignature : Bool) :
    QueryEffect sites (freshCalls A w.db (queryClient rt w.db symref)) w
      ((rt.findCallees symref filter page withSignature).run S w).2 := by
  refine expanding_effect rt hA hstored huniq symref
    (fun c hc => findCallees_refreshes rt.toQueryEngine symref filter page hc)
    (fun c => engine_findCallees_onlyKinds outgoing_expands ..) fun acquired found => ?_
  obtain ⟨client, degradation⟩ := acquired
  cases client with
  | none => exact onlyKinds_pure _
  | some client =>
    exact (withSignatures_onlyKinds still_hovers ..).bind fun _ => onlyKinds_pure _

/-- A path search has the effect on the nodes that it expands. -/
private theorem findCallPath_effect (hA : S.Follows A w.text) (hstored : w.db.Stored)
    (huniq : w.db.SitesUnique .calls) (fuel : Nat) (from_ to_ : SymbolRef)
    (maxDepth maxLspCalls : Nat) :
    QueryEffect sites (freshCalls A w.db (queryClient rt w.db from_)) w
      ((rt.findCallPath fuel from_ to_ maxDepth maxLspCalls).run S w).2 :=
  expanding_effect rt hA hstored huniq from_
    (fun _ hc => findCallPath_refreshes rt.toQueryEngine fuel from_ to_ maxDepth maxLspCalls hc)
    (fun _ => engine_findCallPath_onlyKinds outgoing_expands ..) fun _ _ => onlyKinds_pure _

end Outgoing

/-! ## Runs -/

/-- What may happen to the graph and the files. -/
inductive WarmOp where
  | edit (text : String → Option String)
  | reconcile (args : FileArgs) (syms : List ReconcileSymbol)
  | findCallees (symref : SymbolRef) (filter : Filter) (page : Page) (withSignature : Bool)
  | findCallPath (fuel : Nat) (from_ to_ : SymbolRef) (maxDepth maxLspCalls : Nat)
  | findCallers (symref : SymbolRef) (filter : Filter) (page : Page) (withSignature : Bool)
  | findReferences (symref : SymbolRef) (filter : Filter) (page : Page)
  /-- The body of a background refresh. -/
  | refresh (r : Refresh)

/-- The refreshes that the tools spawn. -/
def Refresh.IsIncoming (r : Refresh) : Prop :=
  (r.edgeType = .calls ∧ r.kind = .calls .incoming) ∨
    (r.edgeType = .references ∧ r.kind = .references)

/-- The symbols of a reconcile stand on real lines, and a refresh is one that is spawned. -/
def WarmOp.Allowed : WarmOp → Prop
  | .reconcile _ syms => ∀ s ∈ syms, 0 ≤ s.range.startLine
  | .refresh r => r.IsIncoming
  | _ => True

/-- The state of a run.  For each anchor and edge type `recorded` are the sites that the last
    completed incoming materialization recorded, with their sources, and `dropped` are those of them
    whose edge was dropped since. -/
structure WarmState where
  world : World
  recorded : RowId → EdgeType → RowId × Site → Prop
  dropped : RowId → EdgeType → RowId × Site → Prop

/-- The query in between has completed the materialization of the anchor. -/
abbrev Completed (d d' : Db) (id : RowId) (t : EdgeType) : Prop :=
  d.materialized id t = false ∧ d'.materialized id t = true

section Runs

variable (A : (String → Option String) → Answers) (rt : QueryRuntime) (S : Servers)

/-- The state after a query: a materialization that it completed has recorded what the server
    reported, and a row that it asked for its calls has none but those of the answer. -/
def WarmState.afterQuery (s : WarmState) (symref : SymbolRef) {α : Type} (q : QueryM α) :
    WarmState :=
  let answers := A s.world.text
  let d := s.world.db
  let client := queryClient rt d symref
  let after := (q.run S s.world).2
  { world := after
    recorded := fun id t p =>
      if Completed d after.db id t then
        ∃ n ∈ d.nodes, n.id = id ∧ p ∈ reportedSites answers rt.rootUri d client n t
      else s.recorded id t p
    dropped := fun id t p =>
      if Completed d after.db id t then False
      else if t = .calls ∧ .invalidated p.1 ∈ s.world.since after then
        ¬ CalledBy (freshCalls answers d client) d id p
      else s.dropped id t p }

/-- The state after an operation. -/
def WarmState.after (s : WarmState) : WarmOp → WarmState
  | .edit text => { s with world := { s.world with text := text } }
  | .reconcile args syms =>
    match reconcileFileSymbols rt.hasher s.world.db args syms with
    | .ok (tables, _) =>
      let olds := s.world.db.nodesByUri args.uri
      let a := matchSymbols rt.hasher olds syms
      { s with
        world := s.world.setDb tables
        dropped := fun id t p => s.dropped id t p ∨ EndDropped olds syms a p.1 id }
    | .error _ => s
  | .findCallees symref filter page withSignature =>
    s.afterQuery A rt S symref (rt.findCallees symref filter page withSignature)
  | .findCallPath fuel from_ to_ maxDepth maxLspCalls =>
    s.afterQuery A rt S from_ (rt.findCallPath fuel from_ to_ maxDepth maxLspCalls)
  | .findCallers symref filter page withSignature =>
    s.afterQuery A rt S symref (rt.findCallers symref filter page withSignature)
  | .findReferences symref filter page =>
    s.afterQuery A rt S symref (rt.findReferences symref filter page)
  | .refresh r =>
    let result := (rt.runRefresh r).run S s.world
    let completed := fun id t => id = r.anchorId ∧ t = r.edgeType ∧ result.1.isOk = true
    { world := { result.2 with refreshes := result.2.refreshes.erase r }
      recorded := fun id t p =>
        if completed id t then
          p ∈ reportedSites (A s.world.text) rt.rootUri s.world.db r.client r.anchor t
        else s.recorded id t p
      dropped := fun id t p => if completed id t then False else s.dropped id t p }

/-- The states of the runs from an empty graph. -/
inductive WarmRun : WarmState → Prop where
  | start {w : World} (hdb : w.db = .empty) : WarmRun ⟨w, fun _ _ _ => False, fun _ _ _ => False⟩
  | step {s : WarmState} (op : WarmOp) (hrun : WarmRun s) (hop : op.Allowed) :
      WarmRun (s.after A rt S op)

/-- A recorded site of a marked anchor, whose source is valid and which a server still reports. -/
structure WarmState.Expects (s : WarmState) (id : RowId) (t : EdgeType) (p : RowId × Site) :
    Prop where
  marked : s.world.db.materialized id t = true
  recorded : s.recorded id t p
  source : s.world.db.ValidId p.1
  reported : ∃ client, ∃ n ∈ s.world.db.nodes, n.id = id ∧
    p ∈ reportedSites (A s.world.text) rt.rootUri s.world.db client n t

/-- A warm answer can only miss callers that are new: the edges of such sites are valid. -/
def WarmState.MissesOnlyNew (s : WarmState) : Prop :=
  ∀ id t p, s.Expects A rt id t p → s.world.db.HasValidKey (incomingKey t id p)

/-- No such site has had its edge dropped. -/
def WarmState.NoneDropped (s : WarmState) : Prop :=
  ∀ id t p, s.Expects A rt id t p → ¬ s.dropped id t p

end Runs

/-- What holds in every run: the edges into a marked anchor are those recorded and not dropped. -/
structure WarmInv (s : WarmState) : Prop where
  stored : s.world.db.Stored
  unique : s.world.db.SitesUnique .calls
  incoming : ∀ id t p, s.recorded id t p → IsIncoming t
  kept : ∀ id t, s.world.db.materialized id t = true → ∀ p, s.recorded id t p →
    (s.world.db.HasValidKey (incomingKey t id p) ↔ ¬ s.dropped id t p)

section Runs

variable {A : (String → Option String) → Answers} {rt : QueryRuntime} {S : Servers} {s : WarmState}

/-- An incoming relation is not containment. -/
private theorem IsIncoming.ne_contains {t : EdgeType} (ht : IsIncoming t) : t ≠ .contains := by
  cases ht with
  | inl ht => simp [ht]
  | inr ht => simp [ht]

/-- A query keeps the invariant, by its effect. -/
private theorem WarmInv.query (h : WarmInv s) (symref : SymbolRef) {α : Type} {q : QueryM α}
    (hq : QueryEffect
      (reportedSites (A s.world.text) rt.rootUri s.world.db (queryClient rt s.world.db symref))
      (freshCalls (A s.world.text) s.world.db (queryClient rt s.world.db symref)) s.world
      (q.run S s.world).2) :
    WarmInv (s.afterQuery A rt S symref q) := by
  -- What the query did to each pair of an anchor and a kind of edge is one of three cases.
  obtain ⟨events, hlog, hcases⟩ := hq
  have hsince : s.world.since (q.run S s.world).2 = events := since_of_append hlog
  unfold WarmState.afterQuery
  dsimp only
  rw [hsince]
  constructor
  case stored => exact run_stored q h.stored
  case unique => exact run_sitesUnique q h.stored h.unique
  case incoming =>
    intro id t p hp
    dsimp only at hp
    -- A pair that has just been completed was not marked before, and is now.
    split at hp
    · rename_i hcompleted
      cases hcases id t with
      | unmarked hafter => exact absurd (hafter.symm.trans hcompleted.2) Bool.false_ne_true
      | completed ht hn hid hbefore hafter hkeys => exact ht
      | warm hbefore hafter hasked hkept =>
        exact absurd (hcompleted.1.symm.trans hbefore) Bool.false_ne_true
    · exact h.incoming id t p hp
  case kept =>
    intro id t hmarked p hp
    dsimp only at hmarked hp ⊢
    cases hcases id t with
    | unmarked hafter => exact absurd (hafter.symm.trans hmarked) Bool.false_ne_true
    | completed ht hn hid hbefore hafter hkeys =>
      have hcompleted : Completed s.world.db (q.run S s.world).2.db id t := ⟨hbefore, hafter⟩
      -- Completed in this query: the record is of this answer, whose keys are all stored.
      rw [if_pos hcompleted] at hp ⊢
      obtain ⟨n, hn', hid', hp⟩ := hp
      obtain rfl := h.stored.node_ext hn' hn (hid'.trans hid.symm)
      exact iff_of_true (hkeys p hp) not_false
    | warm hbefore hafter hasked hkept =>
      have hcompleted : ¬ Completed s.world.db (q.run S s.world).2.db id t := fun hc =>
        Bool.false_ne_true (hc.1.symm.trans hbefore)
      rw [if_neg hcompleted] at hp ⊢
      -- Warm before: a caller that was asked again in this query has what it was told then; of the
      -- others neither edges nor record changed.
      by_cases hagain : t = .calls ∧ .invalidated p.1 ∈ events
      · rw [if_pos hagain, not_not]
        exact hasked hagain.1 p hagain.2
      · rw [if_neg hagain]
        exact (hkept (h.incoming id t p hp) p hagain).trans (h.kept id t hbefore p hp)

/-- A reconcile keeps it: what it drops is recorded as dropped. -/
private theorem WarmInv.reconcile (h : WarmInv s) {args : FileArgs} {syms : List ReconcileSymbol}
    (hline : ∀ sym ∈ syms, 0 ≤ sym.range.startLine) :
    WarmInv (s.after A rt S (.reconcile args syms)) := by
  unfold WarmState.after
  dsimp only
  split
  · -- The reconcile committed: markers and keys are those it carries over.
    rename_i tables o hok
    obtain ⟨ids, hr⟩ := reconcile_reconciled rt.hasher h.stored hline hok
    constructor
    case stored => exact hr.stored
    case unique => exact reconcile_sitesUnique nofun h.stored h.unique hline hok
    case incoming => exact h.incoming
    -- A marker survives only with its row, and a key only when no edge of it is dropped.
    case kept =>
      intro id t hmarked p hp
      dsimp only [setDb_db] at hmarked ⊢
      rw [hr.materialized, Bool.and_eq_true] at hmarked
      have hkeys : tables.HasValidKey (p.1, id, t, some p.2.startKey) ↔ _ :=
        hr.hasValidKey_iff (h.incoming id t p hp).ne_contains _
      refine hkeys.trans ?_
      rw [not_or]
      exact and_congr_left fun _ => h.kept id t hmarked.2 p hp
  · exact h

variable (rt) in
/-- A refresh that is spawned is an incoming materialization. -/
private theorem runRefresh_eq {r : Refresh} (hr : r.IsIncoming) :
    IsIncoming r.edgeType ∧ rt.runRefresh r =
      materializeIncoming rt.rootUri r.edgeType r.anchorId r.anchor r.client := by
  obtain ⟨anchorId, edgeType, kind, anchor, client⟩ := r
  cases hr with
  | inl hr =>
    obtain ⟨rfl, rfl⟩ := hr
    exact ⟨.inl rfl, rfl⟩
  | inr hr =>
    obtain ⟨rfl, rfl⟩ := hr
    exact ⟨.inr rfl, rfl⟩

/-- A background refresh adds what the server reports. -/
private theorem WarmInv.refresh (h : WarmInv s) (hA : S.Follows (A s.world.text) s.world.text)
    {r : Refresh}
    (hr : r.IsIncoming) : WarmInv (s.after A rt S (.refresh r)) := by
  obtain ⟨ht, hrun⟩ := runRefresh_eq rt hr
  unfold WarmState.after
  dsimp only
  rw [hrun]
  constructor
  case stored => exact run_stored (S := S) _ h.stored
  case unique => exact run_sitesUnique (S := S) _ h.stored h.unique
  case incoming =>
    intro id t p hp
    dsimp only at hp
    split at hp
    · rename_i hcompleted
      rw [hcompleted.2.1]
      exact ht
    · exact h.incoming id t p hp
  case kept =>
    intro id t hmarked p hp
    dsimp only at hmarked hp ⊢
    cases hrow : s.world.db.hasNode r.anchorId with
    | true =>
      obtain ⟨timedOut, w', hreturn, hups⟩ :=
        materializeIncoming_into hA rt.rootUri ht hrow r.anchor r.client
      rw [show (materializeIncoming rt.rootUri r.edgeType r.anchorId r.anchor r.client).run S
        s.world = (.ok timedOut, w') from hreturn] at hmarked hp ⊢
      by_cases hsame : id = r.anchorId ∧ t = r.edgeType
      · obtain ⟨rfl, rfl⟩ := hsame
        rw [if_pos ⟨rfl, rfl, rfl⟩] at hp ⊢
        exact iff_of_true (hups.added h.stored.toWF hp) not_false
      · have hother : ∀ P : Prop, ¬ (id = r.anchorId ∧ t = r.edgeType ∧ P) := fun _ hc =>
          hsame ⟨hc.1, hc.2.1⟩
        rw [if_neg (hother _)] at hp ⊢
        have hbefore : s.world.db.materialized id t = true := by
          rw [← hups.rows.materialized]
          exact hmarked
        exact (hups.other h.stored.toWF hsame p).trans (h.kept id t hbefore p hp)
    | false =>
      rw [materializeIncoming_missing rt.rootUri _ h.stored.toWF hrow] at hmarked ⊢
      -- A marked anchor has a row, so that it is another one.
      have hother : ∀ P : Prop, ¬ (id = r.anchorId ∧ t = r.edgeType ∧ P) := by
        rintro P ⟨rfl, -, -⟩
        exact Bool.false_ne_true (hrow.symm.trans (h.stored.materialized_ok _ t hmarked))
      rw [if_neg (hother _)] at hp ⊢
      exact h.kept id t hmarked p hp

/-- Every run keeps the invariant. -/
theorem WarmRun.inv (hA : ∀ text, S.Follows (A text) text) (hrun : WarmRun A rt S s) :
    WarmInv s := by
  -- Induction on the run: before the first operation nothing is marked, stored or recorded.
  induction hrun with
  | start hdb =>
    constructor
    case stored => exact hdb ▸ Db.empty_stored
    case unique => exact hdb ▸ fun e he => absurd he List.not_mem_nil
    case incoming => exact fun _ _ _ hp => absurd hp id
    case kept => exact fun _ _ _ _ hp => absurd hp id
  | @step s op hrun hop ih =>
    have hwf := ih.stored.toWF
    -- A reconcile, the queries and a refresh each have their lemma.
    cases op with
    | edit text => exact ⟨ih.stored, ih.unique, ih.incoming, ih.kept⟩
    | reconcile args syms => exact ih.reconcile hop
    | findCallees symref filter page withSignature =>
      exact ih.query symref
        (findCallees_effect rt (hA _) ih.stored ih.unique symref filter page withSignature)
    | findCallPath fuel from_ to_ maxDepth maxLspCalls =>
      exact ih.query from_
        (findCallPath_effect rt (hA _) ih.stored ih.unique fuel from_ to_ maxDepth maxLspCalls)
    | findCallers symref filter page withSignature =>
      exact ih.query symref (findCallers_effect rt (hA _) hwf symref filter page withSignature)
    | findReferences symref filter page =>
      exact ih.query symref (findReferences_effect rt (hA _) hwf symref filter page)
    | refresh r => exact ih.refresh (hA _) hop

end Runs

/-- In every state of a run a warm answer misses none but new callers if and only if none of the
    edges that it should have has been dropped. -/
theorem warm_misses_only_new_iff (A : (String → Option String) → Answers) (rt : QueryRuntime)
    (S : Servers) (hA : ∀ text, S.Follows (A text) text) {s : WarmState} (hrun : WarmRun A rt S s) :
    s.MissesOnlyNew A rt ↔ s.NoneDropped A rt := by
  have hinv := hrun.inv hA
  constructor
  · intro honly id t p hp
    exact (hinv.kept id t hp.marked p hp.recorded).mp (honly id t p hp)
  · intro hnone id t p hp
    exact (hinv.kept id t hp.marked p hp.recorded).mpr (hnone id t p hp)

/-! ## A callee that is updated -/

/-- `b` of `lib.py` is called by `a` of `app.py`, and that is all. -/
def calledAnswers : Answers where
  answer := fun _ r =>
    match r with
    | .prepareCallHierarchy uri _ _ =>
      if uri = "file:///lib.py" then [functionItem "b" "file:///lib.py"] else []
    | .incomingCalls _ => [⟨functionItem "a" "file:///app.py", [⟨⟨1, 4⟩, ⟨1, 7⟩⟩]⟩]
    | .outgoingCalls _ => []
    | .definition .. => []
    | .references .. => []
    | .implementation .. => []
    | .hover .. => none
    | .documentSymbol .. => []

/-- The server that answers so. -/
def calledServers : Servers where
  reply := fun _ c r => .ok (calledAnswers.answer c r)
  openReply := fun _ _ _ _ => .ok ()
  acquireReply := fun _ _ => .ok ()

/-- Both files are written and reconciled. -/
def indexingOps : List WarmOp :=
  [.edit (libText "def b():\n    pass"),
    .reconcile ⟨"file:///app.py", "python", false⟩ [functionSymbol "app.a" "a" 2],
    .reconcile ⟨"file:///lib.py", "python", false⟩ [functionSymbol "lib.b" "b" 2]]

/-- The state this leads to. -/
def indexedState : WarmState :=
  indexingOps.foldl (WarmState.after (fun _ => calledAnswers) appRuntime calledServers)
    ⟨twoFunctionsWorld.setDb .empty, fun _ _ _ => False, fun _ _ _ => False⟩

/-- The state of the run after `b` was asked for its callers. -/
def askedState : WarmState :=
  indexedState.after (fun _ => calledAnswers) appRuntime calledServers
    (.findCallers (.fqn "lib.b") anyFilter firstPage false)

/-- The state of the run after `b` got a longer body. -/
def editedState : WarmState :=
  askedState.after (fun _ => calledAnswers) appRuntime calledServers
    (.edit (libText "def b():\n    pass\n    pass"))

/-- The state of the run after `b`'s file was reconciled. -/
def updatedState : WarmState :=
  editedState.after (fun _ => calledAnswers) appRuntime calledServers
    (.reconcile ⟨"file:///lib.py", "python", false⟩ [functionSymbol "lib.b" "b" 3])

section

variable {A : (String → Option String) → Answers} {rt : QueryRuntime} {S : Servers} {s : WarmState}

/-- The operations of a list are a run. -/
private theorem WarmRun.foldl (ops : List WarmOp) (hrun : WarmRun A rt S s)
    (hops : ∀ op ∈ ops, op.Allowed) : WarmRun A rt S (ops.foldl (WarmState.after A rt S) s) := by
  induction ops generalizing s with
  | nil => exact hrun
  | cons op ops ih =>
    have hfirst := hrun.step op (hops op List.mem_cons_self)
    exact ih hfirst fun op hop => hops op (List.mem_cons_of_mem _ hop)

/-- A reconcile records nothing. -/
private theorem WarmState.after_reconcile_recorded (s : WarmState) (args : FileArgs)
    (syms : List ReconcileSymbol) :
    (s.after A rt S (.reconcile args syms)).recorded = s.recorded := by
  unfold WarmState.after
  dsimp only
  split
  · rfl
  · rfl

variable (A rt S s) in
/-- A query that completes a materialization records what the server reports. -/
private theorem WarmState.afterQuery_recorded (symref : SymbolRef) {α : Type} (q : QueryM α)
    {id : RowId}
    {t : EdgeType} {p : RowId × Site} {n : Node}
    (hcompleted : Completed s.world.db (q.run S s.world).2.db id t) (hn : n ∈ s.world.db.nodes)
    (hid : n.id = id) (hp : p ∈ reportedSites (A s.world.text) rt.rootUri s.world.db
      (queryClient rt s.world.db symref) n t) :
    (s.afterQuery A rt S symref q).recorded id t p := by
  unfold WarmState.afterQuery
  dsimp only
  rw [if_pos hcompleted]
  exact ⟨n, hn, hid, hp⟩

end

/-- The state after the warm call and the update is reached. -/
private theorem updatedState_run :
    WarmRun (fun _ => calledAnswers) appRuntime calledServers updatedState := by
  have hindexed : WarmRun (fun _ => calledAnswers) appRuntime calledServers indexedState := by
    apply WarmRun.foldl indexingOps (.start rfl)
    simp [indexingOps, WarmOp.Allowed, functionSymbol]
  have hasked := hindexed.step (.findCallers (.fqn "lib.b") anyFilter firstPage false) trivial
  have hedited := hasked.step (.edit (libText "def b():\n    pass\n    pass")) trivial
  refine hedited.step (.reconcile _ _) ?_
  simp [WarmOp.Allowed, functionSymbol]

/-- A state where `b` was called before it changed. -/
theorem warm_misses_only_new_iff_called :
    updatedState.MissesOnlyNew (fun _ => calledAnswers) appRuntime ↔
      updatedState.NoneDropped (fun _ => calledAnswers) appRuntime :=
  warm_misses_only_new_iff (fun _ => calledAnswers) appRuntime calledServers
    (fun _ _ _ _ _ _ => rfl) updatedState_run

/-- The row of `b`, over these lines. -/
def calledRow (lines : Int) : Node :=
  ⟨(functionSymbol "lib.b" "b" lines).toNode "file:///lib.py" "python" false none, 2⟩

/-- The call in `a`. -/
def callerSite : RowId × Site := (1, ⟨"file:///app.py", ⟨1, 4, 1, 7⟩⟩)

/-- The call of `b` is still reported. -/
private theorem callerSite_expected :
    updatedState.Expects (fun _ => calledAnswers) appRuntime 2 .calls callerSite := by
  constructor
  case marked => decide
  case recorded =>
    unfold updatedState
    rw [WarmState.after_reconcile_recorded]
    have hcompleted : Completed indexedState.world.db askedState.world.db 2 .calls := by decide
    have hreported : callerSite ∈ reportedSites calledAnswers appRuntime.rootUri
        indexedState.world.db ⟨"python"⟩ (calledRow 2) .calls := by decide
    have hrow : calledRow 2 ∈ indexedState.world.db.nodes := by decide
    exact WarmState.afterQuery_recorded (fun _ => calledAnswers) appRuntime calledServers
      indexedState (.fqn "lib.b") (appRuntime.findCallers _ anyFilter firstPage false) hcompleted
      hrow rfl hreported
  case source =>
    unfold Db.ValidId
    decide
  case reported => exact ⟨⟨"python"⟩, calledRow 3, by decide, rfl, by decide⟩

/-- `b` is updated, with it the call in `a` is dropped, and `b` still counts as materialized. -/
theorem marked_callee_updated : (∀ text, calledServers.Follows calledAnswers text) ∧
    WarmRun (fun _ => calledAnswers) appRuntime calledServers updatedState ∧
    ¬ updatedState.MissesOnlyNew (fun _ => calledAnswers) appRuntime := by
  refine ⟨fun text _ _ _ _ _ => rfl, updatedState_run, fun honly => ?_⟩
  have hnone : ∀ x ∈ updatedState.world.db.edges, x.valid = false := by decide
  obtain ⟨x, hx, -, hvalid⟩ := honly 2 .calls callerSite callerSite_expected
  exact Bool.false_ne_true ((hnone x hx).symm.trans hvalid)

end Semnav.Query
