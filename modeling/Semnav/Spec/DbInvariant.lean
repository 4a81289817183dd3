import Semnav.ForStd.List
import Semnav.Graph.Db

/-!
# The schema's invariants and what each statement does to them

`Db.WF` collects what the schema enforces between statements: primary keys, both unique
indexes of `nodes`, and the foreign keys.  Each write gets one inversion lemma (what a
successful run has done) and one preservation lemma.

## Key results

- `Db.checkRow_eq_ok_iff`: when a row may be stored
- `Db.updateNode_ok`, `Db.upsertNode_ok`: what a successful statement did
- `Db.replaceNode_wf`, `Db.upsertNode_wf`, `Db.deleteNode_wf`, `Db.upsertEdge_wf`: the
  invariant is kept
-/

namespace Semnav.Graph

/-- What the schema guarantees of the tables between two statements. -/
structure Db.WF (db : Db) : Prop where
  ids_nodup : (db.nodes.map (·.id)).Nodup
  id_pos : ∀ n ∈ db.nodes, 0 < n.id
  id_le : ∀ n ∈ db.nodes, n.id ≤ db.nodesSeq
  fqn_unique : ∀ m ∈ db.nodes, ∀ n ∈ db.nodes, m.fqn = n.fqn → m.id = n.id
  phys_unique : ∀ m ∈ db.nodes, ∀ n ∈ db.nodes, m.phys = n.phys → m.id = n.id
  container_ok : ∀ n ∈ db.nodes, ∀ c, n.containerId = some c → db.hasNode c
  edge_ids_nodup : (db.edges.map (·.id)).Nodup
  edge_id_le : ∀ e ∈ db.edges, e.id ≤ db.edgesSeq
  edge_ok : ∀ e ∈ db.edges, db.hasNode e.srcId ∧ db.hasNode e.dstId
  cache_ok : ∀ a, db.calleesCache a ≠ none → db.hasNode a
  materialized_ok : ∀ a t, db.materialized a t = true → db.hasNode a

/-- A graph as commands find it and leave it: no row stands on a sentinel line. -/
structure Db.Stored (db : Db) : Prop extends db.WF where
  line_nonneg : ∀ n ∈ db.nodes, 0 ≤ n.range.startLine

namespace Db

/-- Without rows there is nothing to check. -/
theorem empty_wf : empty.WF where
  ids_nodup := by simp [empty]
  id_pos := by simp [empty]
  id_le := by simp [empty]
  fqn_unique := by simp [empty]
  phys_unique := by simp [empty]
  container_ok := by simp [empty]
  edge_ids_nodup := by simp [empty]
  edge_id_le := by simp [empty]
  edge_ok := by simp [empty]
  cache_ok := by simp [empty]
  materialized_ok := by simp [empty]

/-- The empty graph has no column that a reconcile would not have written. -/
theorem empty_stored : empty.Stored where
  toWF := empty_wf
  line_nonneg := by simp [empty]

/-! ## Lookups -/

/-- The decision is whether a row has the id. -/
theorem hasNode_iff (db : Db) (id : RowId) :
    db.hasNode id = true ↔ ∃ n ∈ db.nodes, n.id = id := by
  simp [hasNode]

/-- A row has its own id. -/
theorem hasNode_of_mem {db : Db} {n : Node} (hn : n ∈ db.nodes) : db.hasNode n.id = true :=
  (db.hasNode_iff n.id).mpr ⟨n, hn, rfl⟩

/-- A row is determined by its id. -/
theorem WF.node_ext {db : Db} (hwf : db.WF) {m n : Node} (hm : m ∈ db.nodes) (hn : n ∈ db.nodes)
    (h : m.id = n.id) : m = n :=
  List.inj_on_of_nodup_map hwf.ids_nodup hm hn h

/-- The row of an id is the one with that id, for no other has it. -/
theorem WF.getNode_eq_some_iff {db : Db} (hwf : db.WF) (id : RowId) (n : Node) :
    db.getNode id = some n ↔ n ∈ db.nodes ∧ n.id = id :=
  List.find?_key_eq_some_iff (fun n : Node => n.id) hwf.ids_nodup id n

/-- The rows of a file. -/
theorem mem_nodesByUri {db : Db} {uri : String} {n : Node} :
    n ∈ db.nodesByUri uri ↔ n ∈ db.nodes ∧ n.uri = uri := by
  simp [nodesByUri]

/-! ## The row constraints -/

/-- A row passes the constraints if no other row has its fqn or its place, and its container is
    there. -/
theorem checkRow_eq_ok_iff (db : Db) (n : Node) :
    db.checkRow n = .ok () ↔
      (∀ m ∈ db.nodes, m.fqn = n.fqn → m.id = n.id) ∧
      (∀ m ∈ db.nodes, m.phys = n.phys → m.id = n.id) ∧
      (∀ c, n.containerId = some c → c = n.id ∨ db.hasNode c) := by
  -- The three constraints are checked one after the other; an earlier violation hides a later one.
  simp only [checkRow]
  split
  · rename_i h
    simp only [List.any_eq_true, Bool.and_eq_true, bne_iff_ne, beq_iff_eq] at h
    obtain ⟨m, hm, hid, hfqn⟩ := h
    constructor
    · exact fun h => nomatch h
    · rintro ⟨h, -, -⟩
      exact absurd (h m hm hfqn) hid
  · -- No other row has the name,
    rename_i hf
    simp only [List.any_eq_true, Bool.and_eq_true, bne_iff_ne, beq_iff_eq, not_exists,
      not_and] at hf
    have hfqn : ∀ m ∈ db.nodes, m.fqn = n.fqn → m.id = n.id := fun m hm h => by
      by_contra hid
      exact hf m hm hid h
    split
    · rename_i h
      simp only [List.any_eq_true, Bool.and_eq_true, bne_iff_ne, beq_iff_eq] at h
      obtain ⟨m, hm, hid, hphys⟩ := h
      constructor
      · exact fun h => nomatch h
      · rintro ⟨-, h, -⟩
        exact absurd (h m hm hphys) hid
    · -- none has the key,
      rename_i hp
      simp only [List.any_eq_true, Bool.and_eq_true, bne_iff_ne, beq_iff_eq, not_exists,
        not_and] at hp
      have hphys : ∀ m ∈ db.nodes, m.phys = n.phys → m.id = n.id := fun m hm h => by
        by_contra hid
        exact hp m hm hid h
      -- and the container exists, or is the row itself.
      split
      · rename_i hc
        refine ⟨fun _ => ⟨hfqn, hphys, fun c h => ?_⟩, fun _ => rfl⟩
        rw [h] at hc
        simpa using hc
      · rename_i hc
        constructor
        · exact fun h => nomatch h
        · rintro ⟨-, -, h⟩
          refine absurd ?_ hc
          cases hcid : n.containerId with
          | none => rfl
          | some c => simpa using h c hcid

/-! ## Storing a row -/

/-- The rows afterwards: the new one, if there was one with its id, and all others. -/
theorem mem_replaceNode {db : Db} {n x : Node} :
    x ∈ (db.replaceNode n).nodes ↔
      (x = n ∧ ∃ m ∈ db.nodes, m.id = n.id) ∨ (x ∈ db.nodes ∧ x.id ≠ n.id) :=
  List.mem_map_replace (fun m : Node => m.id)

/-- The ids stay the same. -/
@[simp] theorem hasNode_replaceNode (db : Db) (n : Node) (id : RowId) :
    (db.replaceNode n).hasNode id = db.hasNode id := by
  have hids : (db.replaceNode n).nodes.map (·.id) = db.nodes.map (·.id) :=
    List.map_key_map_replace (fun m : Node => m.id) db.nodes n
  have hany : ∀ l : List Node, l.any (·.id == id) = (l.map (·.id)).any (· == id) := fun l => by
    rw [List.any_map]; rfl
  rw [hasNode, hany, hids, ← hany, ← hasNode]

/-- The edges stay. -/
@[simp] theorem replaceNode_edges (db : Db) (n : Node) : (db.replaceNode n).edges = db.edges :=
  rfl

/-- The cache rows stay. -/
@[simp] theorem replaceNode_calleesCache (db : Db) (n : Node) :
    (db.replaceNode n).calleesCache = db.calleesCache := rfl

/-- The markers stay. -/
@[simp] theorem replaceNode_materialized (db : Db) (n : Node) :
    (db.replaceNode n).materialized = db.materialized := rfl

/-- Storing an admissible row over an existing one keeps the invariant. -/
private theorem replaceNode_wf {db : Db} (hwf : db.WF) {old n : Node} (hold : old ∈ db.nodes)
    (hid : old.id = n.id) (hcheck : db.checkRow n = .ok ()) : (db.replaceNode n).WF where
  ids_nodup := by
    -- The ids are those of before, one row having been replaced under its own.
    have hids : (db.replaceNode n).nodes.map (·.id) = db.nodes.map (·.id) :=
      List.map_key_map_replace (fun m : Node => m.id) db.nodes n
    rw [hids]
    exact hwf.ids_nodup
  id_pos := by
    intro x hx
    rcases mem_replaceNode.mp hx with ⟨rfl, -⟩ | ⟨hx, -⟩
    · exact hid ▸ hwf.id_pos old hold
    · exact hwf.id_pos x hx
  id_le := by
    intro x hx
    rcases mem_replaceNode.mp hx with ⟨rfl, -⟩ | ⟨hx, -⟩
    · exact hid ▸ hwf.id_le old hold
    · exact hwf.id_le x hx
  fqn_unique := by
    have hfqn := ((db.checkRow_eq_ok_iff n).mp hcheck).1
    intro x hx y hy h
    -- A clash can only be with the new row, and the check has excluded that.
    rcases mem_replaceNode.mp hx with ⟨hxn, -⟩ | ⟨hx, -⟩ <;>
      rcases mem_replaceNode.mp hy with ⟨hyn, -⟩ | ⟨hy, -⟩
    · rw [hxn, hyn]
    · rw [hxn] at h ⊢
      exact (hfqn y hy h.symm).symm
    · rw [hyn] at h ⊢
      exact hfqn x hx h
    · exact hwf.fqn_unique x hx y hy h
  phys_unique := by
    have hphys := ((db.checkRow_eq_ok_iff n).mp hcheck).2.1
    intro x hx y hy h
    rcases mem_replaceNode.mp hx with ⟨hxn, -⟩ | ⟨hx, -⟩ <;>
      rcases mem_replaceNode.mp hy with ⟨hyn, -⟩ | ⟨hy, -⟩
    · rw [hxn, hyn]
    · rw [hxn] at h ⊢
      exact (hphys y hy h.symm).symm
    · rw [hyn] at h ⊢
      exact hphys x hx h
    · exact hwf.phys_unique x hx y hy h
  container_ok := by
    have hfk := ((db.checkRow_eq_ok_iff n).mp hcheck).2.2
    intro x hx c hc
    rw [hasNode_replaceNode]
    rcases mem_replaceNode.mp hx with ⟨rfl, -⟩ | ⟨hx, -⟩
    · rcases hfk c hc with rfl | h
      · exact hid ▸ hasNode_of_mem hold
      · exact h
    · exact hwf.container_ok x hx c hc
  edge_ids_nodup := hwf.edge_ids_nodup
  edge_id_le := hwf.edge_id_le
  edge_ok := by simpa using hwf.edge_ok
  cache_ok := by simpa using hwf.cache_ok
  materialized_ok := by simpa using hwf.materialized_ok

/-- What a successful single-row `UPDATE` of an existing row did. -/
theorem updateNode_ok {db db' : Db} (hwf : db.WF) {old : Node} (hold : old ∈ db.nodes)
    {set : NodeCols → NodeCols} :
    db.updateNode old.id set = .ok db' ↔
      db.checkRow ⟨set old.toNodeCols, old.id⟩ = .ok () ∧
        db' = db.replaceNode ⟨set old.toNodeCols, old.id⟩ := by
  have hget : db.getNode old.id = some old := (hwf.getNode_eq_some_iff _ _).mpr ⟨hold, rfl⟩
  simp only [updateNode, hget, bind, Except.bind]
  cases hc : db.checkRow ⟨set old.toNodeCols, old.id⟩ with
  | error e => simp
  | ok u => simp [eq_comm]

/-- An update that passes the constraints keeps the invariant. -/
theorem updateNode_wf {db db' : Db} (hwf : db.WF) {old : Node} (hold : old ∈ db.nodes)
    {set : NodeCols → NodeCols} (h : db.updateNode old.id set = .ok db') : db'.WF := by
  obtain ⟨hcheck, rfl⟩ := (updateNode_ok hwf hold).mp h
  exact replaceNode_wf hwf hold rfl hcheck

/-! ## Inserting a row -/

/-- The table after a plain `INSERT` of `n`. -/
def appendNode (db : Db) (n : NodeCols) : Db :=
  { db with nodes := db.nodes ++ [⟨n, db.nodesSeq + 1⟩], nodesSeq := db.nodesSeq + 1 }

/-- The rows afterwards: those from before, and the new one with the next id. -/
theorem mem_appendNode {db : Db} {n : NodeCols} {x : Node} :
    x ∈ (db.appendNode n).nodes ↔ x ∈ db.nodes ∨ x = ⟨n, db.nodesSeq + 1⟩ := by
  simp [appendNode]

/-- An insert succeeds if its row passes the constraints, and appends it. -/
theorem insertNode_ok {db db' : Db} {n : NodeCols} {id : RowId} :
    db.insertNode n = .ok (db', id) ↔
      db.checkRow ⟨n, db.nodesSeq + 1⟩ = .ok () ∧ db' = db.appendNode n ∧
        id = db.nodesSeq + 1 := by
  simp only [insertNode, appendNode, bind, Except.bind]
  cases hc : db.checkRow ⟨n, db.nodesSeq + 1⟩ with
  | error e => simp
  | ok u => simp [eq_comm]

/-- A fresh id belongs to no row. -/
theorem WF.fresh_id {db : Db} (hwf : db.WF) {n : Node} (hn : n ∈ db.nodes) :
    n.id ≠ db.nodesSeq + 1 :=
  Nat.ne_of_lt (Nat.lt_succ_of_le (hwf.id_le n hn))

/-- The ids afterwards: one more. -/
private theorem hasNode_appendNode (db : Db) (n : NodeCols) (id : RowId) :
    (db.appendNode n).hasNode id = true ↔ db.hasNode id = true ∨ id = db.nodesSeq + 1 := by
  simp only [hasNode_iff, mem_appendNode]
  constructor
  · rintro ⟨x, hx | rfl, rfl⟩
    · exact .inl ⟨x, hx, rfl⟩
    · exact .inr rfl
  · rintro (⟨x, hx, rfl⟩ | rfl)
    · exact ⟨x, .inl hx, rfl⟩
    · exact ⟨_, .inr rfl, rfl⟩

/-- A row that passes the constraints keeps the invariant. -/
private theorem appendNode_wf {db : Db} (hwf : db.WF) {n : NodeCols}
    (hcheck : db.checkRow ⟨n, db.nodesSeq + 1⟩ = .ok ()) : (db.appendNode n).WF where
  ids_nodup := by
    have : (db.appendNode n).nodes.map (·.id) = db.nodes.map (·.id) ++ [db.nodesSeq + 1] := by
      simp [appendNode]
    rw [this, List.nodup_append]
    refine ⟨hwf.ids_nodup, by simp, ?_⟩
    -- The new id is beyond all that were given out.
    rintro a ha b hb rfl
    obtain ⟨m, hm, rfl⟩ := List.mem_map.mp ha
    exact hwf.fresh_id hm (by simpa using hb)
  id_pos := by
    intro x hx
    rcases mem_appendNode.mp hx with hx | rfl
    · exact hwf.id_pos x hx
    · exact Nat.succ_pos _
  id_le := by
    intro x hx
    rcases mem_appendNode.mp hx with hx | rfl
    · exact Nat.le_succ_of_le (hwf.id_le x hx)
    · exact Nat.le_refl _
  fqn_unique := by
    have hfqn := ((db.checkRow_eq_ok_iff _).mp hcheck).1
    intro x hx y hy h
    -- A clash can only be with the new row, and the check has excluded that.
    rcases mem_appendNode.mp hx with hx | rfl <;> rcases mem_appendNode.mp hy with hy | rfl
    · exact hwf.fqn_unique x hx y hy h
    · exact hfqn x hx h
    · exact (hfqn y hy h.symm).symm
    · rfl
  phys_unique := by
    have hphys := ((db.checkRow_eq_ok_iff _).mp hcheck).2.1
    intro x hx y hy h
    rcases mem_appendNode.mp hx with hx | rfl <;> rcases mem_appendNode.mp hy with hy | rfl
    · exact hwf.phys_unique x hx y hy h
    · exact hphys x hx h
    · exact (hphys y hy h.symm).symm
    · rfl
  container_ok := by
    have hfk := ((db.checkRow_eq_ok_iff _).mp hcheck).2.2
    intro x hx c hc
    rw [hasNode_appendNode]
    rcases mem_appendNode.mp hx with hx | rfl
    · exact .inl (hwf.container_ok x hx c hc)
    · exact (hfk c hc).symm
  edge_ids_nodup := hwf.edge_ids_nodup
  edge_id_le := hwf.edge_id_le
  edge_ok := fun e he =>
    ⟨(hasNode_appendNode _ _ _).mpr (.inl (hwf.edge_ok e he).1),
      (hasNode_appendNode _ _ _).mpr (.inl (hwf.edge_ok e he).2)⟩
  cache_ok := fun a h => (hasNode_appendNode _ _ _).mpr (.inl (hwf.cache_ok a h))
  materialized_ok := fun a t h => (hasNode_appendNode _ _ _).mpr (.inl (hwf.materialized_ok a t h))

/-! ## `upsert_node` -/

/-- The three ways an upsert can go through: onto the row with the fqn, else onto the row
    with the physical key, else as a new row. -/
theorem upsertNode_ok {db db' : Db} (hwf : db.WF) {n : NodeCols} {id : RowId}
    (h : db.upsertNode n = .ok (db', id)) :
    (∃ m ∈ db.nodes, m.fqn = n.fqn ∧ id = m.id ∧ db.checkRow ⟨n, m.id⟩ = .ok () ∧
      db' = db.replaceNode ⟨n, m.id⟩) ∨
    ((∀ m ∈ db.nodes, m.fqn ≠ n.fqn) ∧ ∃ m ∈ db.nodes, m.phys = n.phys ∧ id = m.id ∧
      db.checkRow ⟨n, m.id⟩ = .ok () ∧ db' = db.replaceNode ⟨n, m.id⟩) ∨
    ((∀ m ∈ db.nodes, m.fqn ≠ n.fqn) ∧ (∀ m ∈ db.nodes, m.phys ≠ n.phys) ∧
      id = db.nodesSeq + 1 ∧ db.checkRow ⟨n, db.nodesSeq + 1⟩ = .ok () ∧
      db' = db.appendNode n) := by
  -- `ON CONFLICT DO UPDATE` keeps the id of the row it hits.
  have hupdate : ∀ m ∈ db.nodes,
      (do let d ← db.updateNode m.id fun _ => n; Except.ok (d, m.id)) = .ok (db', id) →
      id = m.id ∧ db.checkRow ⟨n, m.id⟩ = .ok () ∧ db' = db.replaceNode ⟨n, m.id⟩ := by
    intro m hm hdo
    cases hu : db.updateNode m.id fun _ => n with
    | error e => rw [hu] at hdo; exact nomatch hdo
    | ok d =>
      rw [hu] at hdo
      obtain ⟨rfl, rfl⟩ : d = db' ∧ m.id = id := by simpa [bind, Except.bind] using hdo
      obtain ⟨hc, hd⟩ := (updateNode_ok hwf hm).mp hu
      exact ⟨rfl, hc, hd⟩
  unfold upsertNode at h
  -- The name is asked first, the key second; without a conflict the row is new.
  split at h
  · rename_i m hfind
    have hm := List.mem_of_find?_eq_some hfind
    have hfqn : m.fqn = n.fqn := by simpa using List.find?_some hfind
    obtain ⟨hid, hc, hd⟩ := hupdate m hm h
    exact .inl ⟨m, hm, hfqn, hid, hc, hd⟩
  · rename_i hnone
    have hnofqn : ∀ m ∈ db.nodes, m.fqn ≠ n.fqn := by simpa using hnone
    split at h
    · rename_i m hfind
      have hm := List.mem_of_find?_eq_some hfind
      have hphys : m.phys = n.phys := by simpa using List.find?_some hfind
      obtain ⟨hid, hc, hd⟩ := hupdate m hm h
      exact .inr (.inl ⟨hnofqn, m, hm, hphys, hid, hc, hd⟩)
    · rename_i hnone'
      have hnophys : ∀ m ∈ db.nodes, m.phys ≠ n.phys := by simpa using hnone'
      obtain ⟨hc, hd, hid⟩ := insertNode_ok.mp h
      exact .inr (.inr ⟨hnofqn, hnophys, hid, hc, hd⟩)

/-- An upsert that conflicts with no row inserts. -/
theorem upsertNode_insert {db : Db} {n : NodeCols} (hfqn : ∀ m ∈ db.nodes, m.fqn ≠ n.fqn)
    (hphys : ∀ m ∈ db.nodes, m.phys ≠ n.phys)
    (hcontainer : ∀ c, n.containerId = some c → db.hasNode c = true) :
    db.upsertNode n = .ok (db.appendNode n, db.nodesSeq + 1) := by
  have hf : db.nodes.find? (·.fqn == n.fqn) = none := by simpa using hfqn
  have hp : db.nodes.find? (·.phys == n.phys) = none := by simpa using hphys
  simp only [upsertNode, hf, hp]
  exact insertNode_ok.mpr ⟨(checkRow_eq_ok_iff _ _).mpr
    ⟨fun m hm h => absurd h (hfqn m hm), fun m hm h => absurd h (hphys m hm),
      fun c hc => .inr (hcontainer c hc)⟩, rfl, rfl⟩

/-- An upsert keeps the constraints, whether it inserts or updates. -/
theorem upsertNode_wf {db db' : Db} (hwf : db.WF) {n : NodeCols} {id : RowId}
    (h : db.upsertNode n = .ok (db', id)) : db'.WF := by
  rcases upsertNode_ok hwf h with ⟨m, hm, -, -, hc, rfl⟩ | ⟨-, m, hm, -, -, hc, rfl⟩ |
    ⟨-, -, -, hc, rfl⟩
  · exact replaceNode_wf hwf hm rfl hc
  · exact replaceNode_wf hwf hm rfl hc
  · exact appendNode_wf hwf hc

/-! ## `DELETE` -/

/-- `ON DELETE SET NULL` as seen by one row. -/
def dropContainer (id : RowId) (n : Node) : Node :=
  if n.containerId = some id then { n with containerId := none } else n

/-- The rows that stay lose the deleted one as their container. -/
private theorem deleteNode_nodes (db : Db) (id : RowId) :
    (db.deleteNode id).nodes = (db.nodes.filter (·.id != id)).map (dropContainer id) := rfl

/-- Dropping a container keeps the ids. -/
@[simp] theorem dropContainer_id (id : RowId) (n : Node) : (dropContainer id n).id = n.id := by
  unfold dropContainer; split <;> rfl

/-- Dropping a container keeps the fqns. -/
@[simp] theorem dropContainer_fqn (id : RowId) (n : Node) : (dropContainer id n).fqn = n.fqn := by
  unfold dropContainer; split <;> rfl

/-- Dropping a container keeps the places. -/
@[simp] theorem dropContainer_phys (id : RowId) (n : Node) :
    (dropContainer id n).phys = n.phys := by
  unfold dropContainer; split <;> rfl

/-- Dropping a container keeps the containers but for the deleted one. -/
private theorem dropContainer_containerId (id : RowId) (n : Node) :
    (dropContainer id n).containerId = n.containerId.filter (· != id) := by
  unfold dropContainer
  cases hc : n.containerId with
  | none => simp [hc]
  | some c =>
    by_cases h : c = id
    · simp [h, Option.filter]
    · simp [h, hc, Option.filter]

/-- The rows afterwards, each from one before. -/
theorem mem_deleteNode {db : Db} {id : RowId} {x : Node} :
    x ∈ (db.deleteNode id).nodes ↔ ∃ n ∈ db.nodes, n.id ≠ id ∧ x = dropContainer id n := by
  simp only [deleteNode_nodes, List.mem_map, List.mem_filter, bne_iff_ne]
  constructor
  · rintro ⟨n, ⟨hn, hne⟩, rfl⟩
    exact ⟨n, hn, hne, rfl⟩
  · rintro ⟨n, hn, hne, rfl⟩
    exact ⟨n, ⟨hn, hne⟩, rfl⟩

/-- The ids afterwards: one less. -/
private theorem hasNode_deleteNode (db : Db) (id x : RowId) :
    (db.deleteNode id).hasNode x = true ↔ db.hasNode x = true ∧ x ≠ id := by
  simp only [hasNode_iff, mem_deleteNode]
  constructor
  · rintro ⟨-, ⟨n, hn, hne, rfl⟩, rfl⟩
    exact ⟨⟨n, hn, by simp⟩, by simpa using hne⟩
  · rintro ⟨⟨n, hn, rfl⟩, hne⟩
    exact ⟨dropContainer id n, ⟨n, hn, hne, rfl⟩, by simp⟩

/-- The cascades and `SET NULL` keep the invariant. -/
theorem deleteNode_wf {db : Db} (hwf : db.WF) (id : RowId) : (db.deleteNode id).WF where
  ids_nodup := by
    rw [deleteNode_nodes, List.map_map]
    -- The rows that stay keep their ids, only some forget their container.
    have : (fun n : Node => n.id) ∘ dropContainer id = fun n => n.id := by
      funext n; simp
    rw [this]
    exact hwf.ids_nodup.sublist ((List.filter_sublist).map _)
  id_pos := by
    intro x hx
    obtain ⟨n, hn, -, rfl⟩ := mem_deleteNode.mp hx
    simpa using hwf.id_pos n hn
  id_le := by
    intro x hx
    obtain ⟨n, hn, -, rfl⟩ := mem_deleteNode.mp hx
    rw [dropContainer_id]
    exact hwf.id_le n hn
  fqn_unique := by
    intro x hx y hy h
    obtain ⟨m, hm, -, rfl⟩ := mem_deleteNode.mp hx
    obtain ⟨n, hn, -, rfl⟩ := mem_deleteNode.mp hy
    simpa using hwf.fqn_unique m hm n hn (by simpa using h)
  phys_unique := by
    intro x hx y hy h
    obtain ⟨m, hm, -, rfl⟩ := mem_deleteNode.mp hx
    obtain ⟨n, hn, -, rfl⟩ := mem_deleteNode.mp hy
    simpa using hwf.phys_unique m hm n hn (by simpa using h)
  container_ok := by
    intro x hx c hc
    obtain ⟨n, hn, -, rfl⟩ := mem_deleteNode.mp hx
    rw [dropContainer_containerId, Option.filter_eq_some_iff] at hc
    exact (hasNode_deleteNode _ _ _).mpr ⟨hwf.container_ok n hn c hc.1, by simpa using hc.2⟩
  edge_ids_nodup := hwf.edge_ids_nodup.sublist ((List.filter_sublist).map _)
  edge_id_le := fun e he => hwf.edge_id_le e (List.mem_of_mem_filter he)
  edge_ok := by
    intro e he
    -- The edges of the deleted row went with it, as the foreign keys cascade.
    obtain ⟨he, hne⟩ := List.mem_filter.mp he
    simp only [Bool.and_eq_true, bne_iff_ne] at hne
    exact ⟨(hasNode_deleteNode _ _ _).mpr ⟨(hwf.edge_ok e he).1, hne.1⟩,
      (hasNode_deleteNode _ _ _).mpr ⟨(hwf.edge_ok e he).2, hne.2⟩⟩
  cache_ok := by
    intro a h
    by_cases ha : a = id
    · simp [deleteNode, ha] at h
    · exact (hasNode_deleteNode _ _ _).mpr ⟨hwf.cache_ok a (by simpa [deleteNode, ha] using h), ha⟩
  materialized_ok := by
    intro a t h
    by_cases ha : a = id
    · simp [deleteNode, ha] at h
    · exact (hasNode_deleteNode _ _ _).mpr
        ⟨hwf.materialized_ok a t (by simpa [deleteNode, ha] using h), ha⟩

/-! ## Edges -/

/-- A statement that only rewrites flags and sites of `edges` rows keeps the invariant. -/
theorem mapEdges_wf {db : Db} (hwf : db.WF) (f : EdgeRow → EdgeRow)
    (hid : ∀ e, (f e).id = e.id) (hsrc : ∀ e, (f e).srcId = e.srcId)
    (hdst : ∀ e, (f e).dstId = e.dstId) : ({ db with edges := db.edges.map f } : Db).WF where
  ids_nodup := hwf.ids_nodup
  id_pos := hwf.id_pos
  id_le := hwf.id_le
  fqn_unique := hwf.fqn_unique
  phys_unique := hwf.phys_unique
  container_ok := hwf.container_ok
  -- Ids and ends of the edges are those of before.
  edge_ids_nodup := by
    have : ((db.edges.map f).map fun e => e.id) = db.edges.map fun e => e.id := by
      rw [List.map_map]
      exact List.map_congr_left fun e _ => hid e
    rw [this]
    exact hwf.edge_ids_nodup
  edge_id_le := by
    intro x hx
    obtain ⟨e, he, rfl⟩ := List.mem_map.mp hx
    exact hid e ▸ hwf.edge_id_le e he
  edge_ok := by
    intro x hx
    obtain ⟨e, he, rfl⟩ := List.mem_map.mp hx
    rw [hsrc, hdst]
    exact hwf.edge_ok e he
  cache_ok := hwf.cache_ok
  materialized_ok := hwf.materialized_ok

/-- Clearing flags keeps it. -/
theorem invalidateOutgoingCalls_wf {db : Db} (hwf : db.WF) (id : RowId) :
    (db.invalidateOutgoingCalls id).WF :=
  mapEdges_wf hwf _ (fun e => by split <;> rfl) (fun e => by split <;> rfl)
    (fun e => by split <;> rfl)

/-- What a successful edge upsert did: refresh the first row with the key, or append. -/
theorem upsertEdge_ok {db db' : Db} {e : Edge} {id : RowId}
    (h : db.upsertEdge e = .ok (db', id)) :
    (∃ r ∈ db.edges, db.edges.find? (·.key == e.key) = some r ∧ r.key = e.key ∧ id = r.id ∧
      db' = { db with edges := db.edges.map fun r' =>
        if r'.id = r.id then { r' with valid := e.valid, site := e.site } else r' }) ∨
    ((∀ r ∈ db.edges, r.key ≠ e.key) ∧ db.hasNode e.srcId ∧ db.hasNode e.dstId ∧
      id = db.edgesSeq + 1 ∧
      db' = { db with edges := db.edges ++ [⟨e, db.edgesSeq + 1⟩]
                      edgesSeq := db.edgesSeq + 1 }) := by
  unfold upsertEdge at h
  split at h
  · -- An edge with the key is updated in place;
    rename_i r hfind
    simp only [Except.ok.injEq, Prod.mk.injEq] at h
    obtain ⟨rfl, rfl⟩ := h
    exact .inl ⟨r, List.mem_of_find?_eq_some hfind, hfind, by simpa using List.find?_some hfind,
      rfl, rfl⟩
  · -- otherwise both ends must exist, and the edge is new.
    rename_i hnone
    split at h
    · rename_i hfk
      simp only [Except.ok.injEq, Prod.mk.injEq] at h
      obtain ⟨rfl, rfl⟩ := h
      simp only [Bool.and_eq_true] at hfk
      exact .inr ⟨by simpa using hnone, hfk.1, hfk.2, rfl, rfl⟩
    · exact nomatch h

/-- An edge upsert fails only on a missing endpoint. -/
theorem upsertEdge_total (db : Db) (e : Edge) (hsrc : db.hasNode e.srcId)
    (hdst : db.hasNode e.dstId) : ∃ db' id, db.upsertEdge e = .ok (db', id) := by
  unfold upsertEdge
  split
  · exact ⟨_, _, rfl⟩
  · rw [hsrc, hdst]
    exact ⟨_, _, rfl⟩

/-- Edge upserts touch no table but `edges`. -/
theorem upsertEdge_frame {db db' : Db} {e : Edge} {id : RowId}
    (h : db.upsertEdge e = .ok (db', id)) :
    db'.nodes = db.nodes ∧ db'.nodesSeq = db.nodesSeq ∧ db'.calleesCache = db.calleesCache ∧
      db'.materialized = db.materialized ∧ db'.indexMeta = db.indexMeta := by
  rcases upsertEdge_ok h with ⟨r, -, -, -, -, rfl⟩ | ⟨-, -, -, -, rfl⟩ <;>
    exact ⟨rfl, rfl, rfl, rfl, rfl⟩

/-- The upsert of an edge whose ends are there keeps the constraints. -/
theorem upsertEdge_wf {db db' : Db} (hwf : db.WF) {e : Edge} {id : RowId}
    (h : db.upsertEdge e = .ok (db', id)) : db'.WF := by
  -- An updated edge keeps its ends; a new one has them checked, and a new id.
  rcases upsertEdge_ok h with ⟨r, -, -, -, -, rfl⟩ | ⟨-, hsrc, hdst, -, rfl⟩
  · exact mapEdges_wf hwf _ (fun e => by split <;> rfl) (fun e => by split <;> rfl)
      (fun e => by split <;> rfl)
  · exact {
      ids_nodup := hwf.ids_nodup
      id_pos := hwf.id_pos
      id_le := hwf.id_le
      fqn_unique := hwf.fqn_unique
      phys_unique := hwf.phys_unique
      container_ok := hwf.container_ok
      edge_ids_nodup := by
        rw [List.map_append, List.nodup_append]
        refine ⟨hwf.edge_ids_nodup, by simp, ?_⟩
        rintro a ha b hb rfl
        obtain ⟨r, hr, rfl⟩ := List.mem_map.mp ha
        simp only [List.map_cons, List.map_nil, List.mem_singleton] at hb
        exact Nat.ne_of_lt (Nat.lt_succ_of_le (hwf.edge_id_le r hr)) hb
      edge_id_le := by
        intro x hx
        rcases List.mem_append.mp hx with hx | hx
        · exact Nat.le_succ_of_le (hwf.edge_id_le x hx)
        · rw [List.mem_singleton.mp hx]
      edge_ok := by
        intro x hx
        rcases List.mem_append.mp hx with hx | hx
        · exact hwf.edge_ok x hx
        · rw [List.mem_singleton.mp hx]
          exact ⟨hsrc, hdst⟩
      cache_ok := hwf.cache_ok
      materialized_ok := hwf.materialized_ok }

end Db

end Semnav.Graph
