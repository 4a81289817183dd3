import Semnav.Spec.CallersCallees

/-!
# What an outgoing materialization leaves

Between the invalidation of the anchor's calls and the end of the materialization the graph sees
nothing but edge upserts, one after the other (`Db.UpsertRun`).  `Db.Upserts` says what a list of
them does to the rows of `edges`, whatever their order; the rest is which edges are upserted for an
answer.

## Key results

- `Db.Upserts.single`, `Db.Upserts.append`: one upsert, and two lists of them
- `Db.UpsertRun.settled`: of the upserts with one key the last stays
- `addOutgoing_upserts`: the calls upserted for an answer are its `callEdges`
- `rematerialize_upserts`: so are those of a materialization, its invalidation done
- `outgoingExact_of_run`: the valid calls of the anchor afterwards are those of the answer
- `Reachable.outgoingExact`: so they are in every graph that is reached
- `outgoing_exact`: and a materialization always ends
-/

namespace Semnav.Graph.Db

/-- `d'` is `d` once the edges were upserted, each of them valid. -/
structure Upserts (es : List Edge) (d d' : Db) : Prop where
  wf : d'.WF
  rows : d.SameRows d'
  unique : d'.SitesUnique .calls
  /-- Every edge has a row that is valid. -/
  added : ∀ e ∈ es, ∃ x ∈ d'.edges, x.toEdge.key = e.key ∧ x.valid = true
  /-- A row is one from before, or holds one of the edges. -/
  source : ∀ x ∈ d'.edges, x ∈ d.edges ∨ x.toEdge ∈ es
  /-- A row keeps its id and its key; its flag is not cleared; and only the edges with its key
      change it. -/
  kept : ∀ x ∈ d.edges, ∃ x' ∈ d'.edges, x'.id = x.id ∧ x'.toEdge.key = x.toEdge.key ∧
    (x.valid = true → x'.valid = true) ∧ ((∀ e ∈ es, e.key ≠ x.toEdge.key) → x' = x)
  /-- A row with a new id has a new key. -/
  fresh : ∀ x' ∈ d'.edges, (∃ x ∈ d.edges, x.id = x'.id ∧ x.toEdge.key = x'.toEdge.key) ∨
    ∀ x ∈ d.edges, x.toEdge.key ≠ x'.toEdge.key

section Upserts

variable {d d' d'' : Db}

/-- Without an edge nothing is stored. -/
theorem Upserts.nil (hwf : d.WF) (huniq : d.SitesUnique .calls) : Upserts [] d d where
  wf := hwf
  rows := .refl d
  unique := huniq
  added := fun _ he => absurd he List.not_mem_nil
  source := fun _ hx => .inl hx
  kept := fun x hx => ⟨x, hx, rfl, rfl, id, fun _ => rfl⟩
  fresh := fun x hx => .inl ⟨x, hx, rfl, rfl⟩

/-- A refreshed row holds the edge. -/
private theorem refreshed_toEdge {r : EdgeRow} {e : Edge} (hkey : r.toEdge.key = e.key) :
    ({ r with valid := e.valid, site := e.site } : EdgeRow).toEdge = e := by
  simp only [Edge.key, Prod.mk.injEq] at hkey
  obtain ⟨hsrc, hdst, htype, -⟩ := hkey
  show (⟨r.srcId, r.dstId, r.edgeType, e.site, e.valid⟩ : Edge) = e
  rw [hsrc, hdst, htype]

/-- One valid edge is stored under its key. -/
private theorem Upserts.single (hwf : d.WF) (huniq : d.SitesUnique .calls) {e : Edge} {id : RowId}
    (hvalid : e.valid = true) (h : d.upsertEdge e = .ok (d', id)) : Upserts [e] d d' := by
  obtain ⟨hnodes, hseq, hcache, hmat, hmeta⟩ := upsertEdge_frame h
  have hwf' := upsertEdge_wf hwf h
  have huniq' := upsertEdge_sitesUnique hwf huniq h
  have hrows : d.SameRows d' := ⟨hnodes, hseq, hcache, hmat, hmeta⟩
  rcases upsertEdge_ok h with ⟨r, hr, -, hkey, -, rfl⟩ | ⟨hnew, -, -, -, rfl⟩
  · -- The row with the key is refreshed; it is the only one with its id.
    have hsame : ∀ x ∈ d.edges, x.id = r.id → x = r := fun x hx hid =>
      List.inj_on_of_nodup_map hwf.edge_ids_nodup hx hr hid
    have hrefreshed : ({ r with valid := e.valid, site := e.site } : EdgeRow) ∈
        d.edges.map fun x =>
          if x.id = r.id then ({ x with valid := e.valid, site := e.site } : EdgeRow) else x :=
      List.mem_map.mpr ⟨r, hr, if_pos rfl⟩
    constructor
    case wf => exact hwf'
    case rows => exact hrows
    case unique => exact huniq'
    case added =>
      intro e' he'
      rw [List.mem_singleton.mp he']
      exact ⟨_, hrefreshed, by rw [refreshed_toEdge hkey], hvalid⟩
    case source =>
      intro x hx
      obtain ⟨y, hy, rfl⟩ := List.mem_map.mp hx
      by_cases hid : y.id = r.id
      · obtain rfl := hsame y hy hid
        rw [if_pos rfl, refreshed_toEdge hkey]
        exact .inr List.mem_cons_self
      · rw [if_neg hid]
        exact .inl hy
    case kept =>
      intro x hx
      by_cases hid : x.id = r.id
      · obtain rfl := hsame x hx hid
        refine ⟨_, hrefreshed, rfl, by rw [refreshed_toEdge hkey, hkey], fun _ => hvalid, ?_⟩
        exact fun hnone => absurd hkey.symm (hnone e List.mem_cons_self)
      · exact ⟨x, List.mem_map.mpr ⟨x, hx, if_neg hid⟩, rfl, rfl, fun h => h, fun _ => rfl⟩
    case fresh =>
      intro x' hx'
      obtain ⟨x, hx, rfl⟩ := List.mem_map.mp hx'
      refine .inl ⟨x, hx, ?_, (refreshed_key hwf hr hkey hx).symm⟩
      split
      · rfl
      · rfl
  · -- No row has the key: there is a new one.
    constructor
    case wf => exact hwf'
    case rows => exact hrows
    case unique => exact huniq'
    case added =>
      intro e' he'
      rw [List.mem_singleton.mp he']
      exact ⟨_, List.mem_append_right _ List.mem_cons_self, rfl, hvalid⟩
    case source =>
      intro x hx
      cases List.mem_append.mp hx with
      | inl hx => exact .inl hx
      | inr hx =>
        rw [List.mem_singleton.mp hx]
        exact .inr List.mem_cons_self
    case kept =>
      intro x hx
      exact ⟨x, List.mem_append_left _ hx, rfl, rfl, fun h => h, fun _ => rfl⟩
    case fresh =>
      intro x hx
      cases List.mem_append.mp hx with
      | inl hx => exact .inl ⟨x, hx, rfl, rfl⟩
      | inr hx =>
        rw [List.mem_singleton.mp hx]
        exact .inr hnew

/-- Two lists of upserts, one after the other. -/
theorem Upserts.append {es es' : List Edge} (h : Upserts es d d') (h' : Upserts es' d' d'') :
    Upserts (es ++ es') d d'' where
  wf := h'.wf
  rows := h.rows.trans h'.rows
  unique := h'.unique
  added := by
    intro e he
    cases List.mem_append.mp he with
    | inl he =>
      obtain ⟨x, hx, hkey, hvalid⟩ := h.added e he
      obtain ⟨x', hx', -, hkey', hstays, -⟩ := h'.kept x hx
      exact ⟨x', hx', hkey'.trans hkey, hstays hvalid⟩
    | inr he => exact h'.added e he
  source := by
    intro x hx
    cases h'.source x hx with
    | inl hx' =>
      cases h.source x hx' with
      | inl hold => exact .inl hold
      | inr hnew => exact .inr (List.mem_append_left _ hnew)
    | inr hnew => exact .inr (List.mem_append_right _ hnew)
  kept := by
    intro x hx
    obtain ⟨x', hx', hid, hkey, hstays, hsame⟩ := h.kept x hx
    obtain ⟨x'', hx'', hid', hkey', hstays', hsame'⟩ := h'.kept x' hx'
    refine ⟨x'', hx'', hid'.trans hid, hkey'.trans hkey, fun hv => hstays' (hstays hv), ?_⟩
    intro hnone
    have hfirst := hsame fun e he => hnone e (List.mem_append_left _ he)
    rw [← hfirst]
    apply hsame'
    rw [hfirst]
    exact fun e he => hnone e (List.mem_append_right _ he)
  fresh := by
    intro x'' hx''
    cases h'.fresh x'' hx'' with
    | inl hold =>
      obtain ⟨x', hx', hid', hkey'⟩ := hold
      cases h.fresh x' hx' with
      | inl hold =>
        obtain ⟨x, hx, hid, hkey⟩ := hold
        exact .inl ⟨x, hx, hid.trans hid', hkey.trans hkey'⟩
      | inr hnew => exact .inr fun x hx heq => hnew x hx (heq.trans hkey'.symm)
    | inr hnew =>
      refine .inr fun x hx heq => ?_
      -- A row that had the key has kept it.
      obtain ⟨x', hx', -, hkey, -, -⟩ := h.kept x hx
      exact hnew x' hx' (hkey.trans heq)

end Upserts

/-! ## Upserts in their order -/

/-- `d'` is `d` after the upserts of the edges, one after the other, each of them valid. -/
inductive UpsertRun : List Edge → Db → Db → Prop where
  | nil (d : Db) : UpsertRun [] d d
  | cons {e : Edge} {es : List Edge} {d d' d'' : Db} {id : RowId} (hvalid : e.valid = true)
      (h : d.upsertEdge e = .ok (d', id)) (hrest : UpsertRun es d' d'') : UpsertRun (e :: es) d d''

/-- The edge is in the list, and none with its key comes later. -/
def LastOfKey (es : List Edge) (e : Edge) : Prop :=
  ∃ before after, es = before ++ e :: after ∧ ∀ e' ∈ after, e'.key ≠ e.key

section UpsertRun

variable {d d' d'' : Db} {es es' : List Edge} {e : Edge}

/-- Two runs in a row are a run. -/
theorem UpsertRun.append (h : UpsertRun es d d') (h' : UpsertRun es' d' d'') :
    UpsertRun (es ++ es') d d'' := by
  induction h with
  | nil => exact h'
  | cons hvalid hfirst _ ih => exact .cons hvalid hfirst (ih h')

/-- A run splits where its list does. -/
private theorem UpsertRun.split (h : UpsertRun (es ++ es') d d'') :
    ∃ d', UpsertRun es d d' ∧ UpsertRun es' d' d'' := by
  induction es generalizing d with
  | nil => exact ⟨d, .nil d, h⟩
  | cons e es ih =>
    cases h with
    | cons hvalid hfirst hrest =>
      obtain ⟨d', hes, hes'⟩ := ih hrest
      exact ⟨d', .cons hvalid hfirst hes, hes'⟩

/-- A run keeps the graph well formed. -/
private theorem UpsertRun.wf (h : UpsertRun es d d') (hwf : d.WF) : d'.WF := by
  induction h with
  | nil => exact hwf
  | cons _ hfirst _ ih => exact ih (upsertEdge_wf hwf hfirst)

/-- A run leaves the rows as they are. -/
theorem UpsertRun.nodes (h : UpsertRun es d d') : d'.nodes = d.nodes := by
  induction h with
  | nil => rfl
  | cons _ hfirst _ ih => exact ih.trans (upsertEdge_frame hfirst).1

/-- A run stores the last edge of each key. -/
theorem UpsertRun.upserts (h : UpsertRun es d d') (hwf : d.WF) (huniq : d.SitesUnique .calls) :
    Upserts es d d' := by
  induction h with
  | nil => exact .nil hwf huniq
  | cons hvalid hfirst _ ih =>
    have hone := Upserts.single hwf huniq hvalid hfirst
    exact hone.append (ih hone.wf hone.unique)

/-- Every key has a last edge. -/
theorem exists_lastOfKey (he : e ∈ es) : ∃ e', LastOfKey es e' ∧ e'.key = e.key := by
  induction es generalizing e with
  | nil => exact absurd he List.not_mem_nil
  | cons first rest ih =>
    by_cases hlater : ∃ e₁ ∈ rest, e₁.key = e.key
    · obtain ⟨e₁, he₁, hkey⟩ := hlater
      obtain ⟨e', ⟨before, after, rfl, hnone⟩, hkey'⟩ := ih he₁
      exact ⟨e', ⟨first :: before, after, rfl, hnone⟩, hkey'.trans hkey⟩
    · obtain rfl : e = first := (List.mem_cons.mp he).resolve_right fun h => hlater ⟨e, h, rfl⟩
      exact ⟨e, ⟨[], rest, rfl, fun e' he' hkey => hlater ⟨e', he', hkey⟩⟩, rfl⟩

/-- The last edge of a key is one of the list. -/
theorem LastOfKey.mem (h : LastOfKey es e) : e ∈ es := by
  obtain ⟨before, after, rfl, -⟩ := h
  exact List.mem_append_right _ List.mem_cons_self

/-- An upsert leaves a row with the edge. -/
theorem upsertEdge_row {id : RowId} (h : d.upsertEdge e = .ok (d', id)) :
    ∃ x ∈ d'.edges, x.toEdge = e := by
  rcases upsertEdge_ok h with ⟨r, hr, -, hkey, -, rfl⟩ | ⟨-, -, -, -, rfl⟩
  · exact ⟨_, List.mem_map.mpr ⟨r, hr, if_pos rfl⟩, refreshed_toEdge hkey⟩
  · exact ⟨_, List.mem_append_right _ List.mem_cons_self, rfl⟩

/-- The row of a key holds the last edge with it. -/
theorem UpsertRun.settled (h : UpsertRun es d d') (hwf : d.WF) (huniq : d.SitesUnique .calls)
    (he : LastOfKey es e) : ∃ x ∈ d'.edges, x.toEdge = e := by
  obtain ⟨before, after, rfl, hnone⟩ := he
  obtain ⟨d₁, hbefore, hrest⟩ := h.split
  have hfirst := hbefore.upserts hwf huniq
  cases hrest with
  | cons hvalid hone hafter =>
    obtain ⟨x, hx, rfl⟩ := upsertEdge_row hone
    have hsecond := Upserts.single hfirst.wf hfirst.unique hvalid hone
    -- No later edge has the key, so that the row stays as it is.
    obtain ⟨x', hx', -, -, -, hsame⟩ :=
      (hafter.upserts hsecond.wf hsecond.unique).kept x hx
    exact ⟨x, hsame hnone ▸ hx', rfl⟩

end UpsertRun

end Semnav.Graph.Db

namespace Semnav.Query

open Semnav.ForStd Semnav.Graph Semnav.Indexer

/-! ## The edges of an answer -/

section Targets

variable (A : Answers) (d : Db) (client : Client) (anchor : Node)

/-- The calls that one outgoing call stands for: one for each target and call site. -/
def edgesOfCall (call : OutgoingCall) : List Edge :=
  match d.findNodeByPosition call.to.uri call.to.selectionRange.start.line
      call.to.selectionRange.start.character with
  | some callee => (calleeTargets A d client anchor callee).flatMap fun dst =>
      call.fromRanges.map fun range =>
        locatedEdge anchor.id dst .calls (some ⟨anchor.uri, range.toGraph⟩)
  | none => []

/-- The calls of an `outgoingCalls` reply. -/
def callEdges (calls : List OutgoingCall) : List Edge :=
  calls.flatMap (edgesOfCall A d client anchor)

/-- The edges of the calls, spelled out. -/
theorem mem_callEdges {calls : List OutgoingCall} {e : Edge} :
    e ∈ callEdges A d client anchor calls ↔ ∃ call ∈ calls, ∃ callee,
      d.findNodeByPosition call.to.uri call.to.selectionRange.start.line
        call.to.selectionRange.start.character = some callee ∧
      ∃ dst ∈ calleeTargets A d client anchor callee, ∃ range ∈ call.fromRanges,
        e = locatedEdge anchor.id dst .calls (some ⟨anchor.uri, range.toGraph⟩) := by
  have hone : ∀ call : OutgoingCall, e ∈ edgesOfCall A d client anchor call ↔ ∃ callee,
      d.findNodeByPosition call.to.uri call.to.selectionRange.start.line
        call.to.selectionRange.start.character = some callee ∧
      ∃ dst ∈ calleeTargets A d client anchor callee, ∃ range ∈ call.fromRanges,
        e = locatedEdge anchor.id dst .calls (some ⟨anchor.uri, range.toGraph⟩) := by
    intro call
    unfold edgesOfCall
    -- The callee's position is looked up once; a call to no known row gives no edge.
    cases d.findNodeByPosition call.to.uri call.to.selectionRange.start.line
        call.to.selectionRange.start.character with
    | none => simp
    | some callee => simp [eq_comm]
  simp only [callEdges, List.mem_flatMap, hone]

variable {d} in
/-- The edges of the calls depend on the rows only. -/
theorem callEdges_congr {d' : Db} (h : d'.nodes = d.nodes) (calls : List OutgoingCall) :
    callEdges A d' client anchor calls = callEdges A d client anchor calls := by
  refine congrArg (calls.flatMap ·) (funext fun call => ?_)
  simp only [edgesOfCall, Db.findNodeByPosition_congr h, calleeTargets_congr A client h]

/-- The outgoing calls that the server reports for the anchor. -/
def outgoingReply : List OutgoingCall :=
  match A.answer client (.prepareCallHierarchy anchor.uri (asU32 anchor.sel.startLine)
      (asU32 anchor.sel.startCol)) with
  | [] => []
  | item :: _ => A.answer client (.outgoingCalls item)

/-- The calls that a materialization of the anchor upserts. -/
def freshCalls : List Edge := callEdges A d client anchor (outgoingReply A client anchor)

end Targets

/-- Is the edge a call? -/
def isCall (e : Edge) : Bool := e.edgeType == .calls

section Runs

variable {S : Servers} {w w' : World} {client : Client}

/-- The sites of one callee are upserted in turn. -/
private theorem addCallSites_upserts {src dst : RowId} {uri : String} {ranges : List LspRange}
    (h : (addCallSites src dst uri ranges).run S w = (.ok (), w')) :
    Db.UpsertRun
      (ranges.map fun range => locatedEdge src dst .calls (some ⟨uri, range.toGraph⟩)) w.db w'.db := by
  induction ranges generalizing w with
  | nil =>
    cases h
    exact .nil _
  | cons range rest ih =>
    obtain ⟨id, w₁, hone, hrest⟩ := run_bind_eq_ok.mp h
    exact .cons rfl (run_upsertEdge_ok hone) (ih hrest)

/-- The sites of a call are upserted in turn. -/
private theorem addTargets_upserts {src : RowId} {uri : String} {ranges : List LspRange}
    {targets : List RowId} (h : (addTargets src uri ranges targets).run S w = (.ok (), w')) :
    Db.UpsertRun (targets.flatMap fun dst => ranges.map fun range =>
      locatedEdge src dst .calls (some ⟨uri, range.toGraph⟩)) w.db w'.db := by
  induction targets generalizing w with
  | nil =>
    cases h
    exact .nil _
  | cons target rest ih =>
    obtain ⟨_, w₁, hone, hrest⟩ := run_bind_eq_ok.mp h
    exact (addCallSites_upserts hone).append (ih hrest)

/-- The edges to implementations are no calls. -/
private theorem addImplementations_upserts {calleeId : RowId} {locs : List Location}
    {ids : List RowId}
    (h : (addImplementations calleeId locs).run S w = (.ok ids, w')) :
    ∃ es, Db.UpsertRun es w.db w'.db ∧ es.filter isCall = [] := by
  -- Induction on the locations: what is stored is of another kind than calls.
  induction locs generalizing w ids with
  | nil =>
    cases h
    exact ⟨[], .nil _, rfl⟩
  | cons loc rest ih =>
    obtain ⟨found, w₁, hat, hrest⟩ := run_bind_eq_ok.mp h
    rw [run_nodeAt] at hat
    cases hat
    cases hfound : w.db.findNodeByPosition loc.uri loc.range.start.line
        loc.range.start.character with
    | none =>
      rw [hfound] at hrest
      exact ih hrest
    | some concrete =>
      rw [hfound] at hrest
      obtain ⟨_, w₂, hone, hrest⟩ := run_bind_eq_ok.mp hrest
      obtain ⟨ids', w₃, hrest, hpure⟩ := run_bind_eq_ok.mp hrest
      cases hpure
      obtain ⟨es, hes, hnone⟩ := ih hrest
      exact ⟨_ :: es, .cons rfl (run_upsertEdge_ok hone) hes, hnone⟩

/-- Resolving a callee upserts no call, and finds the targets that the answers say. -/
private theorem resolveOutgoingCallee_upserts {A : Answers} (hA : S.Follows A w.text)
    {anchor callee : Node}
    (hwf : w.db.WF) (hcallee : callee ∈ w.db.nodes) (hvalid : callee.valid = true)
    {r : List RowId × Bool}
    (h : (resolveOutgoingCallee anchor callee client).run S w = (.ok r, w')) :
    r.1 = calleeTargets A w.db client anchor callee ∧
      ∃ es, Db.UpsertRun es w.db w'.db ∧ es.filter isCall = [] := by
  -- The targets are known; what is left are the edges.
  have hreturns : (resolveOutgoingCallee anchor callee client).Returns S w _ :=
    resolveOutgoingCallee_returns 0 hwf anchor hcallee hvalid
  obtain ⟨r', w'', hrun, -, -, htargets⟩ := hreturns
  have hsame := Prod.mk.inj (h.symm.trans hrun)
  obtain rfl : r = r' := Except.ok.inj hsame.1
  refine ⟨htargets A hA.lists, ?_⟩
  clear htargets hrun hsame
  unfold resolveOutgoingCallee at h
  split at h
  · cases h
    exact ⟨[], .nil _, rfl⟩
  · obtain ⟨b, w₁, hin, hrest⟩ := run_bind_eq_ok.mp h
    rw [run_inInterface] at hin
    cases hin
    split at hrest
    · cases hrest
      exact ⟨[], .nil _, rfl⟩
    · obtain ⟨_, w₁, hopen, hrest⟩ := run_bind_eq_ok.mp hrest
      obtain ⟨reply, w₂, hreply, hrest⟩ := run_bind_eq_ok.mp hrest
      obtain ⟨ids, w₃, hadd, hrest⟩ := run_bind_eq_ok.mp hrest
      have hdb₁ : w₁.db = w.db := by
        have hreturns : (ensureOpen callee.uri client).Returns S w fun _ w' => w'.db = w.db :=
          ensureOpen_returns callee.uri
        obtain ⟨_, v, hv, hdb⟩ := hreturns
        rw [(Prod.mk.inj (hopen.symm.trans hv)).2]
        exact hdb
      have hdb₂ : w₂.db = w₁.db := by
        rw [run_request] at hreply
        cases hreply
        exact note_db ..
      have hdb : w₂.db = w.db := hdb₂.trans hdb₁
      obtain ⟨es, hes, hnone⟩ := addImplementations_upserts hadd
      rw [hdb] at hes
      refine ⟨es, ?_, hnone⟩
      split at hrest
      · cases hrest
        exact hes
      · cases hrest
        exact hes

/-- The calls upserted for a reply. -/
private theorem addOutgoing_upserts {A : Answers} (hA : S.Follows A w.text) {anchor : Node}
    {calls : List OutgoingCall} {timedOut : Bool} (hwf : w.db.WF)
    (h : (addOutgoing anchor.id anchor client calls).run S w = (.ok timedOut, w')) :
    ∃ es, Db.UpsertRun es w.db w'.db ∧ es.filter isCall = callEdges A w.db client anchor calls := by
  induction calls generalizing w timedOut with
  | nil =>
    cases h
    exact ⟨[], .nil _, rfl⟩
  | cons call rest ih =>
    obtain ⟨found, w₁, hat, hrest⟩ := run_bind_eq_ok.mp h
    rw [run_nodeAt] at hat
    cases hat
    cases hfound : w.db.findNodeByPosition call.to.uri call.to.selectionRange.start.line
        call.to.selectionRange.start.character with
    | none =>
      rw [hfound] at hrest
      obtain ⟨es, hes, hcalls⟩ := ih hA hwf hrest
      refine ⟨es, hes, ?_⟩
      rw [hcalls]
      simp [callEdges, edgesOfCall, hfound]
    | some callee =>
      rw [hfound] at hrest
      obtain ⟨hcallee, -, hvalid, -⟩ := Db.findNodeByPosition_mem hfound
      obtain ⟨resolved, w₁, hresolve, hrest⟩ := run_bind_eq_ok.mp hrest
      obtain ⟨htargets, es₁, hes₁, hnone⟩ :=
        resolveOutgoingCallee_upserts hA hwf hcallee hvalid hresolve
      obtain ⟨_, w₂, hadd, hrest⟩ := run_bind_eq_ok.mp hrest
      have hes₂ := addTargets_upserts hadd
      obtain ⟨restTimedOut, w₃, hrest, hpure⟩ := run_bind_eq_ok.mp hrest
      cases hpure
      have htext : w₂.text = w.text := by
        have h₁ := run_text (S := S) (resolveOutgoingCallee anchor callee client) w
        have h₂ := run_text (S := S) (addTargets anchor.id anchor.uri call.fromRanges resolved.1) w₁
        rw [hresolve] at h₁
        rw [hadd] at h₂
        exact h₂.trans h₁
      have hfirst := hes₁.append hes₂
      obtain ⟨es₃, hes₃, hcalls⟩ := ih (htext.symm ▸ hA) (hfirst.wf hwf) hrest
      refine ⟨_, hfirst.append hes₃, ?_⟩
      -- What the call stands for, then the rest of the reply.
      have hthese : ((resolved.1.flatMap fun dst => call.fromRanges.map fun range =>
          locatedEdge anchor.id dst .calls (some ⟨anchor.uri, range.toGraph⟩)).filter isCall) =
          edgesOfCall A w.db client anchor call := by
        unfold edgesOfCall
        rw [hfound, htargets]
        refine List.filter_eq_self.mpr fun e he => ?_
        obtain ⟨dst, -, he⟩ := List.mem_flatMap.mp he
        obtain ⟨range, -, rfl⟩ := List.mem_map.mp he
        rfl
      rw [List.filter_append, List.filter_append, hnone, hthese, hcalls,
        callEdges_congr A client anchor hfirst.nodes]
      simp [callEdges]

end Runs

/-! ## The whole materialization -/

/-- `d'` is what a successful outgoing materialization should make of `d`, for a reply. -/
structure OutgoingExact (A : Answers) (client : Client) (anchor : Node) (calls : List OutgoingCall)
    (d d' : Db) : Prop where
  /-- A valid call of the anchor is one of the reply. -/
  reported : ∀ x ∈ d'.edges, x.srcId = anchor.id → x.edgeType = .calls → x.valid = true →
    x.toEdge ∈ callEdges A d client anchor calls
  /-- A call of the reply has one row, and the row is valid. -/
  one_row : ∀ e ∈ callEdges A d client anchor calls, ∃ x ∈ d'.edges, x.toEdge.key = e.key ∧
    x.valid = true ∧ ∀ y ∈ d'.edges, y.toEdge.key = e.key → y = x
  /-- Every row is there under its id and key. -/
  reused : ∀ x ∈ d.edges, ∃ x' ∈ d'.edges, x'.id = x.id ∧ x'.toEdge.key = x.toEdge.key
  /-- And a row with a new id has a key that no row had. -/
  fresh : ∀ x' ∈ d'.edges, (∃ x ∈ d.edges, x.id = x'.id ∧ x.toEdge.key = x'.toEdge.key) ∨
    ∀ x ∈ d.edges, x.toEdge.key ≠ x'.toEdge.key
  /-- The calls of other sources are as they were. -/
  others : ∀ x : EdgeRow, x.edgeType = .calls → x.srcId ≠ anchor.id →
    (x ∈ d'.edges ↔ x ∈ d.edges)

section Exact

variable {A : Answers} {client : Client} {anchor : Node} {calls : List OutgoingCall} {d d' : Db}

/-- A row of the graph after the invalidation is one from before, perhaps without its flag. -/
theorem mem_invalidateOutgoingCalls {id : RowId} {x : EdgeRow} :
    x ∈ (d.invalidateOutgoingCalls id).edges ↔ ∃ y ∈ d.edges,
      (if y.srcId = id ∧ y.edgeType = .calls then ({ y with valid := false } : EdgeRow) else y) = x :=
  List.mem_map

/-- Upserts after the invalidation leave what they should. -/
theorem OutgoingExact.of_upserts {es : List Edge}
    (hes : (d.invalidateOutgoingCalls anchor.id).Upserts es d')
    (hcalls : es.filter isCall = callEdges A d client anchor calls) :
    OutgoingExact A client anchor calls d d' := by
  have hmem : ∀ e, e ∈ callEdges A d client anchor calls ↔ e ∈ es ∧ e.edgeType = .calls := by
    intro e
    rw [← hcalls, List.mem_filter]
    simp [isCall]
  have hsrc : ∀ e ∈ callEdges A d client anchor calls, e.srcId = anchor.id ∧ e.site.isSome = true := by
    intro e he
    obtain ⟨call, -, callee, -, dst, -, range, -, rfl⟩ := (mem_callEdges A d client anchor).mp he
    exact ⟨rfl, rfl⟩
  -- The invalidation keeps ids and keys, and the calls of other sources.
  have hbefore : ∀ x ∈ d.edges, ∃ y ∈ (d.invalidateOutgoingCalls anchor.id).edges,
      y.id = x.id ∧ y.toEdge.key = x.toEdge.key := by
    intro x hx
    refine ⟨_, mem_invalidateOutgoingCalls.mpr ⟨x, hx, rfl⟩, ?_⟩
    split
    · exact ⟨rfl, rfl⟩
    · exact ⟨rfl, rfl⟩
  have hafter : ∀ y ∈ (d.invalidateOutgoingCalls anchor.id).edges, ∃ x ∈ d.edges,
      x.id = y.id ∧ x.toEdge.key = y.toEdge.key := by
    intro y hy
    obtain ⟨x, hx, rfl⟩ := mem_invalidateOutgoingCalls.mp hy
    refine ⟨x, hx, ?_⟩
    split
    · exact ⟨rfl, rfl⟩
    · exact ⟨rfl, rfl⟩
  have hother : ∀ x : EdgeRow, x.srcId ≠ anchor.id →
      (x ∈ (d.invalidateOutgoingCalls anchor.id).edges ↔ x ∈ d.edges) := by
    intro x hne
    rw [mem_invalidateOutgoingCalls]
    constructor
    · intro hx
      obtain ⟨y, hy, rfl⟩ := hx
      split
      · rename_i hcall
        exact absurd (by rw [if_pos hcall]; exact hcall.1) hne
      · exact hy
    · intro hx
      exact ⟨x, hx, if_neg fun hcall => hne hcall.1⟩
  constructor
  case reported =>
    intro x hx hxsrc htype hvalid
    cases hes.source x hx with
    | inl hold =>
      -- A call of the anchor from before has lost its flag.
      obtain ⟨y, -, rfl⟩ := mem_invalidateOutgoingCalls.mp hold
      split at hvalid
      · exact nomatch hvalid
      · rename_i hcall
        rw [if_neg hcall] at hxsrc htype
        exact absurd ⟨hxsrc, htype⟩ hcall
    | inr hnew => exact (hmem _).mpr ⟨hnew, htype⟩
  case one_row =>
    intro e he
    obtain ⟨x, hx, hkey, hvalid⟩ := hes.added e ((hmem e).mp he).1
    refine ⟨x, hx, hkey, hvalid, fun y hy hkey' => (hes.unique x hx y hy ?_ ?_ ?_).symm⟩
    · have htype : x.edgeType = e.edgeType := congrArg (fun k => k.2.2.1) hkey
      exact htype.trans ((hmem e).mp he).2
    · have hsite : x.site.map Site.startKey = e.site.map Site.startKey :=
        congrArg (fun k => k.2.2.2) hkey
      have hsome := congrArg Option.isSome hsite
      rw [Option.isSome_map, Option.isSome_map, (hsrc e he).2] at hsome
      exact hsome
    · exact hkey.trans hkey'.symm
  case reused =>
    intro x hx
    obtain ⟨y, hy, hid, hkey⟩ := hbefore x hx
    obtain ⟨x', hx', hid', hkey', -, -⟩ := hes.kept y hy
    exact ⟨x', hx', hid'.trans hid, hkey'.trans hkey⟩
  case fresh =>
    intro x' hx'
    cases hes.fresh x' hx' with
    | inl hold =>
      obtain ⟨y, hy, hid, hkey⟩ := hold
      obtain ⟨x, hx, hid', hkey'⟩ := hafter y hy
      exact .inl ⟨x, hx, hid'.trans hid, hkey'.trans hkey⟩
    | inr hnew =>
      refine .inr fun x hx heq => ?_
      obtain ⟨y, hy, -, hkey⟩ := hbefore x hx
      exact hnew y hy (hkey.trans heq)
  case others =>
    intro x htype hne
    rw [← hother x hne]
    constructor
    · intro hx
      cases hes.source x hx with
      | inl hold => exact hold
      | inr hnew => exact absurd (hsrc _ ((hmem _).mpr ⟨hnew, htype⟩)).1 hne
    · intro hx
      obtain ⟨x', hx', -, -, -, hsame⟩ := hes.kept x hx
      have hnone : ∀ e ∈ es, e.key ≠ x.toEdge.key := by
        intro e he hkey
        have htype' : e.edgeType = x.edgeType := congrArg (fun k => k.2.2.1) hkey
        have hsrc' : e.srcId = x.srcId := congrArg (fun k => k.1) hkey
        have hanchor := (hsrc e ((hmem e).mpr ⟨he, htype'.trans htype⟩)).1
        exact hne (hsrc'.symm.trans hanchor)
      rw [← hsame hnone]
      exact hx'

end Exact

section

variable {S : Servers} {A : Answers} {client : Client} {w w' : World} {engine : QueryEngine}

/-- The upserts of a materialization: its calls are those of the answer. -/
theorem rematerialize_upserts (hA : S.Follows A w.text) (hwf : w.db.WF) {anchor : Node} {t : Bool}
    (h : (engine.rematerialize anchor.id anchor client).run S w = (.ok t, w')) :
    ∃ es, Db.UpsertRun es (w.db.invalidateOutgoingCalls anchor.id) w'.db ∧
      es.filter isCall = freshCalls A w.db client anchor := by
  -- First the invalidation, which keeps the rows,
  obtain ⟨_, w₁, hinvalidated, hrest⟩ := run_bind_eq_ok.mp h
  rw [run_invalidateOutgoingCalls] at hinvalidated
  cases hinvalidated
  have hcongr : ∀ calls, callEdges A (w.db.invalidateOutgoingCalls anchor.id) client anchor calls =
      callEdges A w.db client anchor calls := callEdges_congr A client anchor rfl
  -- then the two requests, both answered by the table,
  unfold materializeCallEdges at hrest
  obtain ⟨reply, w₂, hreply, hrest⟩ := run_bind_eq_ok.mp hrest
  rw [run_request, hA ((w.note _).setDb _) rfl] at hreply
  cases hreply
  unfold freshCalls outgoingReply
  cases hprepare : A.answer client (.prepareCallHierarchy anchor.uri (asU32 anchor.sel.startLine)
      (asU32 anchor.sel.startCol)) with
  | nil =>
    rw [hprepare] at hrest
    cases hrest
    exact ⟨[], .nil _, rfl⟩
  | cons item items =>
    rw [hprepare] at hrest
    obtain ⟨reply, w₃, hreply, hrest⟩ := run_bind_eq_ok.mp hrest
    rw [run_request, hA (((w.note _).setDb _).note _) rfl] at hreply
    cases hreply
    obtain ⟨correction, w₄, hadd, hpure⟩ := run_bind_eq_ok.mp hrest
    cases hpure
    -- and the calls reported are upserted one after the other.
    obtain ⟨es, hes, hcalls⟩ := addOutgoing_upserts (A := A)
      (w := (((w.note _).setDb (w.db.invalidateOutgoingCalls anchor.id)).note _).note _) hA
      (Db.invalidateOutgoingCalls_wf hwf anchor.id) hadd
    exact ⟨es, hes, hcalls.trans (hcongr _)⟩

/-- A materialization that ends leaves the anchor with the calls of the answer. -/
private theorem outgoingExact_of_run (hA : S.Follows A w.text) (hwf : w.db.WF)
    (huniq : w.db.SitesUnique .calls) {anchor : Node} {item : CallHierarchyItem}
    {items : List CallHierarchyItem} (hprepare : A.answer client (.prepareCallHierarchy anchor.uri
      (asU32 anchor.sel.startLine) (asU32 anchor.sel.startCol)) = item :: items) {t : Bool}
    (hrun : (engine.rematerialize anchor.id anchor client).run S w = (.ok t, w')) :
    OutgoingExact A client anchor (A.answer client (.outgoingCalls item)) w.db w'.db := by
  obtain ⟨es, hes, hcalls⟩ := rematerialize_upserts hA hwf hrun
  unfold freshCalls outgoingReply at hcalls
  rw [hprepare] at hcalls
  have huniq' : (w.db.invalidateOutgoingCalls anchor.id).SitesUnique .calls :=
    handle_sitesUnique (S := S) (.db (.invalidateOutgoingCalls anchor.id)) hwf huniq
  exact .of_upserts (hes.upserts (Db.invalidateOutgoingCalls_wf hwf anchor.id) huniq') hcalls

/-- In a reachable graph nothing is assumed of the rows that are stored. -/
theorem Reachable.outgoingExact {H : Hasher} (h : Reachable H w) (hA : S.Follows A w.text)
    {anchor : Node} {item : CallHierarchyItem} {items : List CallHierarchyItem}
    (hprepare : A.answer client (.prepareCallHierarchy anchor.uri
      (asU32 anchor.sel.startLine) (asU32 anchor.sel.startCol)) = item :: items) {t : Bool}
    (hrun : (engine.rematerialize anchor.id anchor client).run S w = (.ok t, w')) :
    OutgoingExact A client anchor (A.answer client (.outgoingCalls item)) w.db w'.db :=
  outgoingExact_of_run hA h.stored.toWF (h.sitesUnique (by decide)) hprepare hrun

end

/-- Whenever the server answers, the invalidation and the materialization leave the anchor with
    exactly the calls of the answer. -/
theorem outgoing_exact (engine : QueryEngine) (S : Servers) (A : Answers) (client : Client)
    {w : World} (hA : S.Follows A w.text) (hwf : w.db.WF) (huniq : w.db.SitesUnique .calls)
    {anchor : Node} (hanchor : anchor ∈ w.db.nodes) {item : CallHierarchyItem}
    {items : List CallHierarchyItem} (hprepare : A.answer client (.prepareCallHierarchy anchor.uri
      (asU32 anchor.sel.startLine) (asU32 anchor.sel.startCol)) = item :: items) :
    ∃ timedOut w', (engine.rematerialize anchor.id anchor client).run S w = (.ok timedOut, w') ∧
      OutgoingExact A client anchor (A.answer client (.outgoingCalls item)) w.db w'.db := by
  obtain ⟨timedOut, w', hrun, -⟩ := rematerialize_returns (S := S) engine client hwf anchor
    (Db.hasNode_of_mem hanchor)
  exact ⟨timedOut, w', hrun, outgoingExact_of_run hA hwf huniq hprepare hrun⟩

/-- A symbol of `app.ts` between two lines. -/
def tsSymbol (id : RowId) (fqn name nodeKind : String) (container : Option RowId)
    (first last : Int) : Node :=
  { appFunction id name first with
    fqn := fqn
    uri := "file:///app.ts"
    language := "typescript"
    nodeKind := nodeKind
    containerId := container
    range := ⟨first, 0, last, 0⟩ }

/-- `main` calls `run` of the interface `Job`, which the class `Task` implements. -/
def jobGraph : Db where
  nodes := [tsSymbol 1 "app.main" "main" "Function" none 0 2,
    tsSymbol 2 "app.Job" "Job" "Interface" none 10 14,
    tsSymbol 3 "app.Job.run" "run" "Method" (some 2) 11 12,
    tsSymbol 4 "app.Task" "Task" "Class" none 20 24,
    tsSymbol 5 "app.Task.run" "run" "Method" (some 4) 21 23]
  nodesSeq := 5
  edges := []
  edgesSeq := 0
  calleesCache := fun _ => none
  materialized := fun _ _ => false
  indexMeta := fun _ => none

/-- The item of the interface's method. -/
def jobItem : CallHierarchyItem where
  name := "run"
  kind := 6
  uri := "file:///app.ts"
  range := ⟨⟨11, 0⟩, ⟨12, 0⟩⟩
  selectionRange := ⟨⟨11, 4⟩, ⟨11, 5⟩⟩
  raw := "run"

/-- The call of `main`, as the server reports it. -/
def jobCall : OutgoingCall := ⟨jobItem, [⟨⟨1, 4⟩, ⟨1, 7⟩⟩]⟩

/-- The server reports the method of the interface, and the one of the class as what implements
    it. -/
def jobAnswers : Answers where
  answer := fun _ r =>
    match r with
    | .prepareCallHierarchy .. => [jobItem]
    | .outgoingCalls _ => [jobCall]
    | .implementation .. => [⟨"file:///app.ts", ⟨⟨21, 4⟩, ⟨21, 5⟩⟩⟩]
    | .incomingCalls _ => []
    | .definition .. => []
    | .references .. => []
    | .hover .. => none
    | .documentSymbol .. => []

/-- A server whose answer for an interface method lists its implementation. -/
def jobServers : Servers where
  reply := fun _ c r => .ok (jobAnswers.answer c r)
  openReply := fun _ _ _ _ => .ok ()
  acquireReply := fun _ _ => .ok ()

/-- The graph of that example is well formed. -/
private theorem jobGraph_wf : jobGraph.WF where
  ids_nodup := by decide
  id_pos := by decide
  id_le := by decide
  fqn_unique := by decide
  phys_unique := by decide
  container_ok := by decide
  edge_ids_nodup := by decide
  edge_id_le := by decide
  edge_ok := by decide
  cache_ok := fun _ h => absurd rfl h
  materialized_ok := fun _ _ h => absurd h Bool.false_ne_true

/-- The call of the interface's method has its one row, and it leads to the class's method. -/
theorem outgoing_exact_interface : ∃ timedOut w',
    (appEngine.rematerialize 1 (tsSymbol 1 "app.main" "main" "Function" none 0 2) ⟨"typescript"⟩).run
      jobServers (twoFunctionsWorld.setDb jobGraph) = (.ok timedOut, w') ∧
    OutgoingExact jobAnswers ⟨"typescript"⟩ (tsSymbol 1 "app.main" "main" "Function" none 0 2)
      [jobCall] jobGraph w'.db ∧
    callEdges jobAnswers jobGraph ⟨"typescript"⟩ (tsSymbol 1 "app.main" "main" "Function" none 0 2)
      [jobCall] = [⟨1, 5, .calls, some ⟨"file:///app.ts", ⟨1, 4, 1, 7⟩⟩, true⟩] := by
  obtain ⟨timedOut, w', hrun, hexact⟩ := outgoing_exact appEngine jobServers jobAnswers
    ⟨"typescript"⟩ (w := twoFunctionsWorld.setDb jobGraph) (fun _ _ _ _ _ => rfl) jobGraph_wf
    (fun _ he => absurd he List.not_mem_nil)
    (show tsSymbol 1 "app.main" "main" "Function" none 0 2 ∈ jobGraph.nodes from List.mem_cons_self)
    rfl
  exact ⟨timedOut, w', hrun, hexact, by decide⟩

end Semnav.Query
