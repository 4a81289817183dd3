import Mathlib.Data.List.Sort
import Semnav.Graph.Model

/-!
# The db actor's statements

Each definition is one statement of `src/graph/db.rs` over the tables of
`migrations/`.  A statement that SQLite rejects returns an error and leaves the
tables as they were; `Except` carries exactly that, since a caller that sees the
error still holds the tables from before.

Foreign keys are enforced (`PRAGMA foreign_keys = ON`), both unique indexes are
checked row by row, and `DELETE` on `nodes` runs the schema's referential actions
(`SET NULL` on `container_id`, `CASCADE` on edges and on both cache tables).
-/

namespace Semnav.Graph

/-- Why a statement (or the reconcile around it) failed. -/
inductive DbError where
  /-- `UNIQUE constraint failed: nodes.fqn`. -/
  | uniqueFqn
  /-- `UNIQUE constraint failed` on `idx_nodes_phys`. -/
  | uniquePhys
  /-- `FOREIGN KEY constraint failed`. -/
  | foreignKey
  /-- `anyhow!("parent processed before child")`. -/
  | parentProcessedBeforeChild
deriving DecidableEq

/-- The database: the tables that the modelled commands read and write.
    `nodesSeq`/`edgesSeq` are bounds of the ids given out so far (`AUTOINCREMENT`): a new
    row gets an id above them.  Which one is abstract, for SQLite also uses up an id
    where an upsert finds a row to update. -/
structure Db where
  nodes : List Node
  nodesSeq : RowId
  edges : List EdgeRow
  edgesSeq : RowId
  /-- `callees_cache(anchor_id, content_hash)`. -/
  calleesCache : RowId → Option String
  /-- `materialized(anchor_id, edge_type)`: is the row present? -/
  materialized : RowId → EdgeType → Bool
  /-- `index_meta(key, value)`. -/
  indexMeta : String → Option String

/-- Edge traversal direction for neighbor lookups. -/
inductive Direction where
  | incoming
  | outgoing
deriving DecidableEq

/-- A neighbor: the node on the other end of an edge, plus the located occurrence. -/
abbrev Neighbor := Node × Option Site

/-- The two-sided containment test of `FIND_BY_POSITION_SQL`. -/
def Node.coversPos (n : Node) (line col : Int) : Bool :=
  (n.range.startLine < line || (n.range.startLine == line && n.range.startCol ≤ col)) &&
  (n.range.endLine > line || (n.range.endLine == line && n.range.endCol ≥ col))

/-- `ORDER BY (range_end_line - range_start_line), (range_end_col - range_start_col)`:
    may `a` stand before `b`? -/
def Node.spanLe (a b : Node) : Prop :=
  a.range.endLine - a.range.startLine < b.range.endLine - b.range.startLine ∨
  (a.range.endLine - a.range.startLine = b.range.endLine - b.range.startLine ∧
    a.range.endCol - a.range.startCol ≤ b.range.endCol - b.range.startCol)

instance (a b : Node) : Decidable (Node.spanLe a b) :=
  inferInstanceAs (Decidable (_ ∨ (_ ∧ _)))

/-- The order of `idx_nodes_phys` among the rows of one uri: by start, then by name. -/
def Node.physLe (a b : Node) : Prop :=
  a.range.startLine < b.range.startLine ∨
  (a.range.startLine = b.range.startLine ∧
    (a.range.startCol < b.range.startCol ∨
      (a.range.startCol = b.range.startCol ∧ a.name ≤ b.name)))

instance (a b : Node) : Decidable (Node.physLe a b) :=
  inferInstanceAs (Decidable (_ ∨ (_ ∧ (_ ∨ (_ ∧ _)))))

/-- The sort key `(fqn, uri, range_start_line, range_start_col)` that every listing
    is ordered by (`node_cmp`). -/
def nodeCmp (a b : Node) : Ordering :=
  (compare a.fqn b.fqn).then ((compare a.uri b.uri).then
    ((compare a.range.startLine b.range.startLine).then
      (compare a.range.startCol b.range.startCol)))

namespace Db

/-- The tables right after the migrations ran. -/
def empty : Db where
  nodes := []
  nodesSeq := 0
  edges := []
  edgesSeq := 0
  calleesCache := fun _ => none
  materialized := fun _ _ => false
  indexMeta := fun _ => none

/-! ## Reads -/

/-- `SELECT_BY_ID_SQL`. -/
def getNode (db : Db) (id : RowId) : Option Node :=
  db.nodes.find? (·.id == id)

/-- `SELECT_SQL`: by fqn, whatever `valid`/`orphan` say. -/
def getNodeByFqn (db : Db) (fqn : String) : Option Node :=
  db.nodes.find? (·.fqn == fqn)

/-- `SELECT_BY_URI_SQL`: all rows of `uri`, valid or not. -/
def nodesByUri (db : Db) (uri : String) : List Node :=
  db.nodes.filter (·.uri == uri)

/-- Is there a row with this id (the target of a foreign key)? -/
def hasNode (db : Db) (id : RowId) : Bool :=
  db.nodes.any (·.id == id)

/-- `FIND_BY_POSITION_SQL`: the valid row of `uri` that covers the position and has
    the smallest extent.  The rows are read by way of `idx_nodes_phys`, so of equal
    extents the one that starts first comes first. -/
def findNodeByPosition (db : Db) (uri : String) (line col : Int) : Option Node :=
  (((db.nodes.filter fun n => n.uri == uri && n.valid && n.coversPos line col).insertionSort
    Node.physLe).insertionSort Node.spanLe).head?

/-- The join of `get_neighbors`, before its `ORDER BY`. -/
def neighborRows (db : Db) (nodeId : RowId) (edgeType : EdgeType) (dir : Direction) :
    List Neighbor :=
  db.edges.filterMap fun e =>
    let (anchor, other) := match dir with
      | .incoming => (e.dstId, e.srcId)
      | .outgoing => (e.srcId, e.dstId)
    if anchor == nodeId && e.edgeType == edgeType && e.valid then
      ((db.getNode other).filter (·.valid)).map fun n => (n, e.site)
    else none

/-- `get_neighbors`: ordered by the stable sort key of the neighbor. -/
def getNeighbors (db : Db) (nodeId : RowId) (edgeType : EdgeType) (dir : Direction) :
    List Neighbor :=
  (db.neighborRows nodeId edgeType dir).insertionSort fun a b => nodeCmp a.1 b.1 ≠ .gt

/-- `LIST_NODES_SQL` / `LIST_NODES_BY_LANG_SQL`. -/
def listNodes (db : Db) (language : Option String) : List Node :=
  (db.nodes.filter fun n => n.valid && language.all (n.language == ·)).insertionSort
    fun a b => nodeCmp a b ≠ .gt

/-- `KNOWN_URIS_SQL`: the distinct uris of every non-orphan row. -/
def knownUris (db : Db) : List String :=
  ((db.nodes.filter (!·.orphan)).map (·.uri)).dedup

/-- `COUNT_REAL_NODES_SQL`: rows of `uri`, orphaned or not, except the module root. -/
def countRealNodes (db : Db) (uri moduleFqn : String) : Nat :=
  (db.nodes.filter fun n => n.uri == uri && n.fqn != moduleFqn).length

/-! ## Writes to `nodes` -/

/-- The constraints a row about to be stored must meet against every other row:
    both unique indexes, then the self-reference of `container_id`. -/
def checkRow (db : Db) (n : Node) : Except DbError Unit :=
  if db.nodes.any fun m => m.id != n.id && m.fqn == n.fqn then .error .uniqueFqn
  else if db.nodes.any fun m => m.id != n.id && m.phys == n.phys then .error .uniquePhys
  else if n.containerId.all fun c => c == n.id || db.hasNode c then .ok ()
  else .error .foreignKey

/-- Store `n` over the row with its id. -/
def replaceNode (db : Db) (n : Node) : Db :=
  { db with nodes := db.nodes.map fun m => if m.id = n.id then n else m }

/-- `UPDATE nodes SET .. WHERE id = ?`: no row with that id is no error. -/
def updateNode (db : Db) (id : RowId) (set : NodeCols → NodeCols) : Except DbError Db :=
  match db.getNode id with
  | none => .ok db
  | some old => do
    let n : Node := ⟨set old.toNodeCols, id⟩
    db.checkRow n
    .ok (db.replaceNode n)

/-- A plain `INSERT INTO nodes`: the id comes from `AUTOINCREMENT`. -/
def insertNode (db : Db) (n : NodeCols) : Except DbError (Db × RowId) := do
  let row : Node := ⟨n, db.nodesSeq + 1⟩
  db.checkRow row
  .ok ({ db with nodes := db.nodes ++ [row], nodesSeq := db.nodesSeq + 1 }, row.id)

/-- `upsert_node` (`UPSERT_SQL`).  `ON CONFLICT(fqn)` is tried first and rewrites every
    column; `ON CONFLICT(uri, range_start_line, range_start_col, name)` rewrites every
    column outside its own key, on which old and new row agree.  Either `DO UPDATE`
    is itself subject to the constraints.  The row keeps its id; the id that SQLite
    uses up in vain is not counted, as ids are abstract. -/
def upsertNode (db : Db) (n : NodeCols) : Except DbError (Db × RowId) :=
  match db.nodes.find? (·.fqn == n.fqn) with
  | some m => do
    let db' ← db.updateNode m.id fun _ => n
    .ok (db', m.id)
  | none =>
    match db.nodes.find? (·.phys == n.phys) with
    | some m => do
      let db' ← db.updateNode m.id fun _ => n
      .ok (db', m.id)
    | none => db.insertNode n

/-- `DELETE_NODE_SQL` with the schema's referential actions. -/
def deleteNode (db : Db) (id : RowId) : Db :=
  { db with
    nodes := (db.nodes.filter (·.id != id)).map fun n =>
      if n.containerId = some id then { n with containerId := none } else n
    edges := db.edges.filter fun e => e.srcId != id && e.dstId != id
    calleesCache := fun a => if a = id then none else db.calleesCache a
    materialized := fun a t => if a = id then false else db.materialized a t }

/-- `UPDATE nodes SET construct = ?1 WHERE id = ?2`. -/
def updateNodeConstruct (db : Db) (id : RowId) (construct : String) : Db :=
  { db with nodes := db.nodes.map fun n =>
      if n.id = id then { n with construct := some construct } else n }

/-- `UPDATE nodes SET signature = ?1 WHERE id = ?2`. -/
def updateNodeSignature (db : Db) (id : RowId) (signature : String) : Db :=
  { db with nodes := db.nodes.map fun n =>
      if n.id = id then { n with signature := some signature } else n }

/-- `UPDATE nodes SET signature = ?1 WHERE fqn = ?2`. -/
def updateNodeSignatureByFqn (db : Db) (fqn signature : String) : Db :=
  { db with nodes := db.nodes.map fun n =>
      if n.fqn = fqn then { n with signature := some signature } else n }

/-! ## Writes to `edges` -/

/-- `upsert_edge`: look up by logical key; refresh `valid` and the site end of the row
    found, or insert. -/
def upsertEdge (db : Db) (e : Edge) : Except DbError (Db × RowId) :=
  match db.edges.find? (·.key == e.key) with
  | some r =>
    .ok ({ db with edges := db.edges.map fun r' =>
            if r'.id = r.id then { r' with valid := e.valid, site := e.site } else r' }, r.id)
  | none =>
    if db.hasNode e.srcId && db.hasNode e.dstId then
      .ok ({ db with edges := db.edges ++ [⟨e, db.edgesSeq + 1⟩]
                     edgesSeq := db.edgesSeq + 1 }, db.edgesSeq + 1)
    else .error .foreignKey

/-- `INVALIDATE_EDGES_SQL`: every edge into or out of `id`. -/
def invalidateEdges (db : Db) (id : RowId) : Db :=
  { db with edges := db.edges.map fun e =>
      if e.srcId = id ∨ e.dstId = id then { e with valid := false } else e }

/-- `INVALIDATE_OUTGOING_CALLS_SQL`. -/
def invalidateOutgoingCalls (db : Db) (anchorId : RowId) : Db :=
  { db with edges := db.edges.map fun e =>
      if e.srcId = anchorId ∧ e.edgeType = .calls then { e with valid := false } else e }

/-! ## The cache tables and `index_meta` -/

/-- `SET_CALLEES_CACHE_SQL`. -/
def setCalleesCacheHash (db : Db) (anchorId : RowId) (hash : String) : Except DbError Db :=
  if db.hasNode anchorId then
    .ok { db with calleesCache := fun a => if a = anchorId then some hash else db.calleesCache a }
  else .error .foreignKey

/-- `MARK_MATERIALIZED_SQL` (`INSERT OR IGNORE`, which does not cover foreign keys). -/
def markMaterialized (db : Db) (anchorId : RowId) (t : EdgeType) : Except DbError Db :=
  if db.hasNode anchorId then
    .ok { db with materialized := fun a t' =>
            if a = anchorId ∧ t' = t then true else db.materialized a t' }
  else .error .foreignKey

/-- `UPSERT_META_SQL`. -/
def setMeta (db : Db) (key value : String) : Db :=
  { db with indexMeta := fun k => if k = key then some value else db.indexMeta k }

end Db

end Semnav.Graph
