import Semnav.Spec.IncomingEdges

/-!
# Edges are unique up to their key

SQLite takes two NULLs in a `UNIQUE` constraint for different, so that the constraint on `edges`
says nothing of edges without a site.  That no two edges have one key is the work of `upsert_edge`,
which looks before it inserts; every writer of edges goes through it.

## Key results

- `EdgesUnique.upsertEdge`, `EdgesUnique.reconcile`: what writes edges keeps their keys apart
- `edge_keys_unique`: the keys after any run, and what an upsert of an edge that is there does
-/

namespace Semnav.Graph

open Semnav.ForStd

/-- No two rows of `edges` have the same id or the same key. -/
structure EdgesUnique (db : Db) : Prop where
  ids_nodup : (db.edges.map (·.id)).Nodup
  id_le : ∀ e ∈ db.edges, e.id ≤ db.edgesSeq
  keys_nodup : (db.edges.map fun e => e.toEdge.key).Nodup

/-- The empty graph has no edges. -/
theorem EdgesUnique.empty : EdgesUnique .empty where
  ids_nodup := List.nodup_nil
  id_le := by simp [Db.empty]
  keys_nodup := List.nodup_nil

section Statements

variable {db db' : Db}

/-- A statement on other tables. -/
theorem EdgesUnique.congr (h : EdgesUnique db) (hedges : db'.edges = db.edges)
    (hseq : db'.edgesSeq = db.edgesSeq) : EdgesUnique db' where
  ids_nodup := by rw [hedges]; exact h.ids_nodup
  id_le := by rw [hedges, hseq]; exact h.id_le
  keys_nodup := by rw [hedges]; exact h.keys_nodup

/-- A statement that sets flags and ends. -/
theorem EdgesUnique.map (h : EdgesUnique db) (f : EdgeRow → EdgeRow)
    (hid : ∀ e ∈ db.edges, (f e).id = e.id)
    (hkey : ∀ e ∈ db.edges, (f e).toEdge.key = e.toEdge.key) :
    EdgesUnique { db with edges := db.edges.map f } where
  ids_nodup := by
    show ((db.edges.map f).map (·.id)).Nodup
    -- Ids and keys are those of the old rows, one by one.
    rw [List.map_map, List.map_congr_left (f := (·.id) ∘ f) (g := (·.id)) hid]
    exact h.ids_nodup
  id_le := by
    intro x hx
    obtain ⟨e, he, rfl⟩ := List.mem_map.mp hx
    rw [hid e he]
    exact h.id_le e he
  keys_nodup := by
    show ((db.edges.map f).map fun e => e.toEdge.key).Nodup
    rw [List.map_map, List.map_congr_left (f := (fun e => e.toEdge.key) ∘ f)
      (g := fun e => e.toEdge.key) hkey]
    exact h.keys_nodup

/-- Invalidation changes no key. -/
private theorem EdgesUnique.invalidateEdges (h : EdgesUnique db) (id : RowId) :
    EdgesUnique (db.invalidateEdges id) := by
  apply h.map
  · intro e _
    split <;> rfl
  · intro e _
    split <;> rfl

/-- Invalidating the outgoing calls changes no key. -/
private theorem EdgesUnique.invalidateOutgoingCalls (h : EdgesUnique db) (id : RowId) :
    EdgesUnique (db.invalidateOutgoingCalls id) := by
  apply h.map
  · intro e _
    split <;> rfl
  · intro e _
    split <;> rfl

/-- A deletion takes edges away. -/
private theorem EdgesUnique.deleteNode (h : EdgesUnique db) (id : RowId) :
    EdgesUnique (db.deleteNode id) := by
  have hsub : (db.deleteNode id).edges.Sublist db.edges := List.filter_sublist
  exact {
    ids_nodup := h.ids_nodup.sublist (hsub.map _)
    id_le := fun e he => h.id_le e (hsub.subset he)
    keys_nodup := h.keys_nodup.sublist (hsub.map _) }

/-! ## `upsert_edge` -/

/-- `REACTIVATE_EDGE_SQL`: the flag and the end of the site. -/
def EdgeRow.reactivate (r : EdgeRow) (e : Edge) : EdgeRow :=
  { r with
    valid := e.valid
    site := r.site.map fun s =>
      match e.site with
      | some s' =>
        { s with range := { s.range with endLine := s'.range.endLine, endCol := s'.range.endCol } }
      | none => s }

/-- Reactivation changes no key. -/
private theorem EdgeRow.reactivate_key (r : EdgeRow) (e : Edge) :
    (r.reactivate e).toEdge.key = r.toEdge.key := by
  unfold EdgeRow.reactivate Edge.key
  cases r.site with
  | none => rfl
  | some s => cases e.site <;> rfl

/-- Where the keys agree the sites have the same start, so that only the end is new. -/
private theorem EdgeRow.reactivate_eq {r : EdgeRow} {e : Edge} (hkey : r.toEdge.key = e.key) :
    { r with valid := e.valid, site := e.site } = r.reactivate e := by
  obtain ⟨⟨src, dst, type, site, valid⟩, id⟩ := r
  obtain ⟨src', dst', type', site', valid'⟩ := e
  simp only [Edge.key, Prod.mk.injEq] at hkey
  -- The key has the site's uri and start, so only the site's end can be new.
  cases site with
  | none =>
    cases site' with
    | none => rfl
    | some s' => simp at hkey
  | some s =>
    cases site' with
    | none => simp at hkey
    | some s' =>
      obtain ⟨uri, range⟩ := s
      obtain ⟨uri', range'⟩ := s'
      obtain ⟨startLine, startCol, endLine, endCol⟩ := range
      obtain ⟨startLine', startCol', endLine', endCol'⟩ := range'
      simp only [Option.map_some, Site.startKey, Option.some.injEq, Prod.mk.injEq] at hkey
      obtain ⟨-, -, -, rfl, rfl, rfl⟩ := hkey
      rfl

/-- A row is found by its key. -/
private theorem EdgesUnique.find?_key (h : EdgesUnique db) {r : EdgeRow} (hr : r ∈ db.edges) :
    db.edges.find? (·.toEdge.key == r.toEdge.key) = some r := by
  cases hfind : db.edges.find? (·.toEdge.key == r.toEdge.key) with
  | none =>
    have hnone := List.find?_eq_none.mp hfind r hr
    exact absurd BEq.rfl hnone
  | some r' =>
    have hkey : r'.toEdge.key = r.toEdge.key := by simpa using List.find?_some hfind
    have hmem := List.mem_of_find?_eq_some hfind
    rw [List.inj_on_of_nodup_map h.keys_nodup hmem hr hkey]

/-- The table with one row reactivated. -/
def Db.reactivateEdge (db : Db) (r : EdgeRow) (e : Edge) : Db :=
  { db with edges := db.edges.map fun x => if x = r then r.reactivate e else x }

/-- An upsert of an edge that is there returns the row's id, and sets the flag and the end of that
    row only. -/
private theorem EdgesUnique.upsertEdge_eq (h : EdgesUnique db) {r : EdgeRow} (hr : r ∈ db.edges)
    {e : Edge}
    (hkey : r.toEdge.key = e.key) :
    db.upsertEdge e = .ok (db.reactivateEdge r e, r.id) := by
  have hfind : db.edges.find? (·.toEdge.key == e.key) = some r := hkey ▸ h.find?_key hr
  have hrows : (db.edges.map fun x =>
      if x.id = r.id then ({ x with valid := e.valid, site := e.site } : EdgeRow) else x) =
      db.edges.map fun x => if x = r then r.reactivate e else x := by
    apply List.map_congr_left
    intro x hx
    by_cases hid : x.id = r.id
    · obtain rfl := List.inj_on_of_nodup_map h.ids_nodup hx hr hid
      rw [if_pos rfl, if_pos rfl]
      exact EdgeRow.reactivate_eq hkey
    · have hne : x ≠ r := fun heq => hid (heq ▸ rfl)
      rw [if_neg hid, if_neg hne]
  simp only [Db.upsertEdge, hfind, hrows, Db.reactivateEdge]

/-- An upsert adds a key or reuses its row. -/
private theorem EdgesUnique.upsertEdge (h : EdgesUnique db) {e : Edge} {id : RowId}
    (hok : db.upsertEdge e = .ok (db', id)) : EdgesUnique db' := by
  cases Db.upsertEdge_ok hok with
  | inl hfound =>
    -- The key is stored: its row is activated again, and no key changes.
    obtain ⟨r, hr, -, hkey, -, -⟩ := hfound
    rw [h.upsertEdge_eq hr hkey] at hok
    cases hok
    apply h.map
    · intro x _
      split
      · rename_i heq
        rw [heq]
        rfl
      · rfl
    · intro x _
      split
      · rename_i heq
        rw [heq, EdgeRow.reactivate_key]
      · rfl
  | inr hnew =>
    obtain ⟨hnone, -, -, -, rfl⟩ := hnew
    -- The key is new, and so is its id, above all that were given out.
    exact {
      ids_nodup := by
        show ((db.edges ++ [(⟨e, db.edgesSeq + 1⟩ : EdgeRow)]).map (·.id)).Nodup
        rw [List.map_append, List.nodup_append]
        refine ⟨h.ids_nodup, List.nodup_singleton _, ?_⟩
        intro a ha b hb heq
        obtain ⟨r, hr, rfl⟩ := List.mem_map.mp ha
        have hlt : r.id < db.edgesSeq + 1 := Nat.lt_succ_of_le (h.id_le r hr)
        exact Nat.ne_of_lt hlt (heq.trans (List.mem_singleton.mp hb))
      id_le := by
        intro x hx
        show x.id ≤ db.edgesSeq + 1
        cases List.mem_append.mp hx with
        | inl hx => exact Nat.le_succ_of_le (h.id_le x hx)
        | inr hx => rw [List.mem_singleton.mp hx]
      keys_nodup := by
        show ((db.edges ++ [(⟨e, db.edgesSeq + 1⟩ : EdgeRow)]).map fun e => e.toEdge.key).Nodup
        rw [List.map_append, List.nodup_append]
        refine ⟨h.keys_nodup, List.nodup_singleton _, ?_⟩
        intro a ha b hb heq
        obtain ⟨r, hr, rfl⟩ := List.mem_map.mp ha
        exact hnone r hr (heq.trans (List.mem_singleton.mp hb)) }

/-! ## `reconcile_file_symbols` -/

/-- Statements on `nodes` leave the edges. -/
theorem updateNode_edges {id : RowId} {set : NodeCols → NodeCols}
    (hok : db.updateNode id set = .ok db') :
    db'.edges = db.edges ∧ db'.edgesSeq = db.edgesSeq := by
  unfold Db.updateNode at hok
  split at hok
  · cases hok
    exact ⟨rfl, rfl⟩
  · obtain ⟨-, -, hok⟩ := Except.bind_eq_ok.mp hok
    cases hok
    exact ⟨rfl, rfl⟩

/-- An upserted row touches no edge. -/
private theorem upsertNode_edges {n : NodeCols} {id : RowId}
    (hok : db.upsertNode n = .ok (db', id)) :
    db'.edges = db.edges ∧ db'.edgesSeq = db.edgesSeq := by
  unfold Db.upsertNode at hok
  split at hok
  · obtain ⟨d, hd, hok⟩ := Except.bind_eq_ok.mp hok
    cases hok
    exact updateNode_edges hd
  · split at hok
    · obtain ⟨d, hd, hok⟩ := Except.bind_eq_ok.mp hok
      cases hok
      exact updateNode_edges hd
    · obtain ⟨-, -, hok⟩ := Except.bind_eq_ok.mp hok
      cases hok
      exact ⟨rfl, rfl⟩

variable {args : FileArgs} {olds : List Node} {syms : List ReconcileSymbol} {a : Assignment}

/-- Parking keeps edges unique. -/
private theorem EdgesUnique.park (h : EdgesUnique db) (hok : park olds db = .ok db') :
    EdgesUnique db' := by
  unfold Graph.park at hok
  induction olds generalizing db with
  | nil =>
    cases hok
    exact h
  | cons old olds ih =>
    rw [List.foldlM_cons] at hok
    obtain ⟨mid, hmid, hok⟩ := Except.bind_eq_ok.mp hok
    have hedges := updateNode_edges hmid
    exact ih (h.congr hedges.1 hedges.2) hok

/-- Writing a symbol keeps edges unique. -/
private theorem EdgesUnique.applySymbol {st st' : ApplyState} {sym : ReconcileSymbol} {i : Nat}
    (h : EdgesUnique st.db) (hok : applySymbol args olds a st sym i = .ok st') :
    EdgesUnique st'.db := by
  obtain ⟨containerId, -, hok⟩ := Except.bind_eq_ok.mp hok
  split at hok
  · -- A matched row: its edges lose their validity at most.
    obtain ⟨mid, hmid, hok⟩ := Except.bind_eq_ok.mp hok
    have hedges := updateNode_edges hmid
    have hstep := h.congr hedges.1 hedges.2
    dsimp only at hok
    split at hok
    · cases hok
      exact hstep.invalidateEdges _
    · split at hok
      · cases hok
        exact hstep.invalidateEdges _
      · cases hok
        exact hstep
  · obtain ⟨⟨mid, id⟩, hmid, hok⟩ := Except.bind_eq_ok.mp hok
    cases hok
    have hedges := upsertNode_edges hmid
    exact h.congr hedges.1 hedges.2

/-- Reclaiming a row keeps edges unique. -/
private theorem EdgesUnique.reclaim {st st' : Db × ReconcileOutcome} {old : Node} {j : Nat}
    (h : EdgesUnique st.1) (hok : reclaim a st old j = .ok st') : EdgesUnique st'.1 := by
  unfold Graph.reclaim at hok
  split at hok
  · cases hok
    exact h
  · split at hok
    · cases hok
      exact h.deleteNode _
    · obtain ⟨mid, hmid, hok⟩ := Except.bind_eq_ok.mp hok
      cases hok
      have hedges := updateNode_edges hmid
      exact h.congr hedges.1 hedges.2

/-- Linking a parent keeps edges unique. -/
private theorem EdgesUnique.linkParent {ids : Nat → Option RowId} {sym : ReconcileSymbol} {i : Nat}
    (h : EdgesUnique db) (hok : linkParent ids db sym i = .ok db') : EdgesUnique db' := by
  unfold Graph.linkParent at hok
  split at hok
  · cases hok
    exact h
  · split at hok
    · obtain ⟨⟨mid, id⟩, hmid, hok⟩ := Except.bind_eq_ok.mp hok
      cases hok
      exact h.upsertEdge hmid
    · exact nomatch hok

/-- A reconcile keeps edges unique. -/
private theorem EdgesUnique.reconcile {H : Hasher} {o : ReconcileOutcome} (h : EdgesUnique db)
    (hok : reconcileFileSymbols H db args syms = .ok (db', o)) : EdgesUnique db' := by
  obtain ⟨parked, hpark, hok⟩ := Except.bind_eq_ok.mp hok
  obtain ⟨st, hst, hok⟩ := Except.bind_eq_ok.mp hok
  obtain ⟨⟨left, outcome⟩, hleft, hok⟩ := Except.bind_eq_ok.mp hok
  obtain ⟨linked, hlinked, hok⟩ := Except.bind_eq_ok.mp hok
  cases hok
  have hcleared : EdgesUnique (db.clearCalleesCache args.uri) := h.congr rfl rfl
  have hparked : EdgesUnique parked := hcleared.park hpark
  have hwritten : EdgesUnique st.db :=
    List.foldlM_zipIdx_induction (fun _ st => EdgesUnique st.db) hparked
      (fun _ _ _ _ _ hP hstep => hP.applySymbol hstep) hst
  have hreclaimed : EdgesUnique left :=
    List.foldlM_zipIdx_induction (fun _ st => EdgesUnique st.1) hwritten
      (fun _ _ _ _ _ hP hstep => hP.reclaim hstep) hleft
  exact List.foldlM_zipIdx_induction (fun _ db => EdgesUnique db) hreclaimed
    (fun _ _ _ _ _ hP hstep => hP.linkParent hstep) hlinked

end Statements

/-! ## Runs -/

/-- The graphs that statements lead to from an empty one, one after the other. -/
inductive StatementRun (H : Hasher) : Db → Prop where
  | empty : StatementRun H .empty
  | upsertEdge {db db' : Db} {e : Edge} {id : RowId} (hrun : StatementRun H db)
      (hok : db.upsertEdge e = .ok (db', id)) : StatementRun H db'
  | reconcile {db db' : Db} {args : FileArgs} {syms : List ReconcileSymbol}
      {o : ReconcileOutcome} (hrun : StatementRun H db)
      (hok : reconcileFileSymbols H db args syms = .ok (db', o)) : StatementRun H db'
  | invalidateEdges {db : Db} (hrun : StatementRun H db) (id : RowId) :
      StatementRun H (db.invalidateEdges id)
  | invalidateOutgoingCalls {db : Db} (hrun : StatementRun H db) (anchorId : RowId) :
      StatementRun H (db.invalidateOutgoingCalls anchorId)
  | deleteNode {db : Db} (hrun : StatementRun H db) (id : RowId) :
      StatementRun H (db.deleteNode id)
  /-- A statement on other tables. -/
  | other {db db' : Db} (hrun : StatementRun H db) (hedges : db'.edges = db.edges)
      (hseq : db'.edgesSeq = db.edgesSeq) : StatementRun H db'

/-- Every run of statements keeps edges unique. -/
private theorem StatementRun.edgesUnique {H : Hasher} {db : Db} (hrun : StatementRun H db) :
    EdgesUnique db := by
  induction hrun with
  | empty => exact .empty
  | upsertEdge _ hok ih => exact ih.upsertEdge hok
  | reconcile _ hok ih => exact ih.reconcile hok
  | invalidateEdges _ id ih => exact ih.invalidateEdges id
  | invalidateOutgoingCalls _ anchorId ih => exact ih.invalidateOutgoingCalls anchorId
  | deleteNode _ id ih => exact ih.deleteNode id
  | other _ hedges hseq ih => exact ih.congr hedges hseq

/-- After any run no two edges have one key, and the upsert of an edge whose key is there returns
    that row's id, reactivates the row and changes nothing else. -/
theorem edge_keys_unique (H : Hasher) {db : Db} (hrun : StatementRun H db) :
    (db.edges.map fun e => e.toEdge.key).Nodup ∧
      ∀ r ∈ db.edges, ∀ e : Edge, r.toEdge.key = e.key →
        db.upsertEdge e = .ok (db.reactivateEdge r e, r.id) := by
  have hunique := hrun.edgesUnique
  exact ⟨hunique.keys_nodup, fun r hr e hkey => hunique.upsertEdge_eq hr hkey⟩

/-- Once a class with a method is reconciled: its `contains` edge has no site. -/
theorem edge_keys_unique_contains :
    (fooDb.edges.map fun e => e.toEdge.key).Nodup ∧
      ∀ r ∈ fooDb.edges, ∀ e : Edge, r.toEdge.key = e.key →
        fooDb.upsertEdge e = .ok (fooDb.reactivateEdge r e, r.id) :=
  edge_keys_unique lengthHasher (.reconcile .empty fooDb_eq)

end Semnav.Graph
