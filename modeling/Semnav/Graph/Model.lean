/-!
# Domain types for the graph store

The rows of the `nodes` and `edges` tables and the values the reconciler
exchanges with its callers (`src/graph/model.rs`, `migrations/V0001__init.sql`).

The source's `Node.id : Option<i64>` is `None` exactly for a node that is not yet
persisted.  Here the two uses have two types: `NodeCols` holds every column but
the row id (the argument of an upsert), and `Node` is a stored row, which always
has one.
-/

namespace Semnav.Graph

/-- `nodes.id` / `edges.id` (`INTEGER PRIMARY KEY AUTOINCREMENT`: from 1 upwards). -/
abbrev RowId := Nat

/-- An LSP line/character span (0-based, UTF-16 character units). -/
structure Range where
  startLine : Int
  startCol : Int
  endLine : Int
  endCol : Int
deriving DecidableEq

/-- Every column of a `nodes` row except its id. -/
structure NodeCols where
  fqn : String
  uri : String
  name : String
  language : String
  /-- LSP SymbolKind numeric value (pass-through). -/
  kind : Int
  /-- Adapter-classified NodeKind, serialized to a string. -/
  nodeKind : String
  construct : Option String
  containerId : Option RowId
  range : Range
  sel : Range
  signature : Option String
  documentation : Option String
  detail : Option String
  signatureHash : Option String
  valid : Bool
  orphan : Bool
  generation : Int
  isExternal : Bool
deriving DecidableEq

/-- A declared symbol as stored: its columns and its row id. -/
structure Node extends NodeCols where
  id : RowId
deriving DecidableEq

/-- The `edge_type` values the schema's `CHECK` admits. -/
inductive EdgeType where
  | contains
  | calls
  | references
  | typeOf
  | implements
  | defines
  | inherits
  | imports
deriving DecidableEq

/-- A located occurrence (`fromRanges` / `Location.range`). -/
structure Site where
  uri : String
  range : Range
deriving DecidableEq

/-- A relation between two nodes; `site` is `none` for site-less edges such as
    `contains` (all five `site_*` columns NULL). -/
structure Edge where
  srcId : RowId
  dstId : RowId
  edgeType : EdgeType
  site : Option Site
  valid : Bool
deriving DecidableEq

/-- A stored `edges` row. -/
structure EdgeRow extends Edge where
  id : RowId
deriving DecidableEq

/-- A freshly-fetched symbol awaiting reconciliation against a uri's existing
    `nodes` rows. -/
structure ReconcileSymbol where
  fqn : String
  name : String
  kind : Int
  nodeKind : String
  range : Range
  sel : Range
  detail : Option String
  signatureHash : String
  /-- Index of the containing symbol within the same batch (`none` = top-level). -/
  parent : Option Nat
deriving DecidableEq

/-- Per-uri reconciliation result: counts only. -/
structure ReconcileOutcome where
  /-- Exact fqn match, identical `signatureHash`. -/
  unchanged : Nat := 0
  /-- Exact fqn match, `signatureHash` differs (edges invalidated). -/
  updated : Nat := 0
  /-- Matched as a rename candidate (same row id, new fqn/name). -/
  renamed : Nat := 0
  /-- No match in the old set: a fresh node. -/
  inserted : Nat := 0
  /-- No match in the new set, first miss: grace period. -/
  orphaned : Nat := 0
  /-- No match in the new set, second consecutive miss: physically deleted. -/
  deleted : Nat := 0
deriving DecidableEq

/-- The physical key `(uri, range_start_line, range_start_col, name)` of
    `idx_nodes_phys`. -/
abbrev PhysKey := String × Int × Int × String

/-- A node's physical key. -/
def NodeCols.phys (n : NodeCols) : PhysKey :=
  (n.uri, n.range.startLine, n.range.startCol, n.name)

/-- A symbol's physical key inside its own file: `(start_line, start_col, name)`. -/
def ReconcileSymbol.key (s : ReconcileSymbol) : Int × Int × String :=
  (s.range.startLine, s.range.startCol, s.name)

/-- What identifies an occurrence in the `edges` UNIQUE constraint: the site's
    document and start, `none` for a site-less edge. -/
def Site.startKey (s : Site) : String × Int × Int :=
  (s.uri, s.range.startLine, s.range.startCol)

/-- The logical key of an edge, NULL site columns compared as equal
    (`SELECT_EDGE_SQL` uses `IS`). -/
def Edge.key (e : Edge) : RowId × RowId × EdgeType × Option (String × Int × Int) :=
  (e.srcId, e.dstId, e.edgeType, e.site.map Site.startKey)

end Semnav.Graph
