import Mathlib.Algebra.Group.Int.Defs
import Semnav.Graph.Db

/-!
# Query results

The metadata-only nodes and the result shapes the `find_*` tools return
(`src/query/dto.rs`).
-/

namespace Semnav.Query

open Semnav.Graph

/-- LSP `Position`. -/
structure Position where
  line : UInt32
  character : UInt32
deriving DecidableEq

/-- LSP `Range`. -/
structure RangeDto where
  start : Position
  «end» : Position
deriving DecidableEq

/-- `to_u32`: a graph column as an LSP field, saturating. -/
def toU32 (v : Int) : UInt32 := .ofNat (max 0 (min v (2 ^ 32 - 1))).toNat

/-- `RangeDto::from`. -/
def RangeDto.ofRange (r : Range) : RangeDto :=
  ⟨⟨toU32 r.startLine, toU32 r.startCol⟩, ⟨toU32 r.endLine, toU32 r.endCol⟩⟩

/-- `kind_label`: the stored label, with the TypeScript `type` alias promoted. -/
def kindLabel (nodeKind : String) (construct : Option String) : String :=
  if nodeKind = "Variable" ∧ construct = some "type" then "TypeAlias" else nodeKind

/-- A metadata-only symbol node. -/
structure NodeDto where
  fqn : String
  uri : String
  name : String
  language : String
  kindLabel : String
  kindNum : UInt32
  construct : Option String
  range : RangeDto
  selectionRange : RangeDto
  signature : Option String
  documentation : Option String
  isExternal : Bool
deriving DecidableEq

/-- Build the DTO from a stored row. -/
def NodeDto.fromNode (n : Node) : NodeDto where
  fqn := n.fqn
  uri := n.uri
  name := n.name
  language := n.language
  kindLabel := Query.kindLabel n.nodeKind n.construct
  kindNum := toU32 n.kind
  construct := n.construct
  range := .ofRange n.range
  selectionRange := .ofRange n.sel
  signature := n.signature
  documentation := n.documentation
  isExternal := n.isExternal

/-- Stable, total ordering used for pagination. -/
structure SortKey where
  fqn : String
  uri : String
  startLine : Int
  startCol : Int
deriving DecidableEq

/-- The derived order on sort keys. -/
def SortKey.cmp (a b : SortKey) : Ordering :=
  (compare a.fqn b.fqn).then ((compare a.uri b.uri).then
    ((compare a.startLine b.startLine).then (compare a.startCol b.startCol)))

/-- `SortKey::from_node`. -/
def SortKey.fromNode (n : Node) : SortKey :=
  ⟨n.fqn, n.uri, n.range.startLine, n.range.startCol⟩

/-- A resumption token, before its opaque encoding. -/
structure Cursor where
  key : SortKey
deriving DecidableEq

/-- `find_symbol`: the matching nodes, or in brief only their fqns. -/
structure FindSymbolResult where
  nodes : List NodeDto
  fqns : List String
  nextCursor : Option Cursor
deriving DecidableEq

/-- `read_range`: a slice of the source, and the span that it covers. -/
structure ReadRangeResult where
  uri : String
  content : String
  range : RangeDto
  totalLines : UInt32
deriving DecidableEq

/-- `find_definition`: the declaration node(s) for an occurrence. -/
structure FindDefinitionResult where
  nodes : List NodeDto
deriving DecidableEq

/-- The referencing node and every range inside it where the target is mentioned. -/
structure ReferenceGroup where
  node : NodeDto
  sites : List RangeDto
deriving DecidableEq

/-- `find_references`: referencing nodes grouped by their declaration. -/
structure FindReferencesResult where
  references : List ReferenceGroup
  nextCursor : Option Cursor
  hintFqns : List String
deriving DecidableEq

/-- The adjacent callable and the call sites tying it to the anchor. -/
structure CallGraphNode where
  node : NodeDto
  callSites : List RangeDto
deriving DecidableEq

/-- `find_callers` / `find_callees`: adjacent callables grouped by their declaration. -/
structure CallGraphResult where
  items : List CallGraphNode
  nextCursor : Option Cursor
  hintFqns : List String
deriving DecidableEq

/-- `find_call_path`: reachability over outgoing `calls` edges.  `limitReached` says that the
    search stopped before it could prove the target unreachable. -/
structure FindCallPathResult where
  reachable : Bool
  path : List NodeDto
  limitReached : Bool
  fromHintFqns : List String
  toHintFqns : List String
deriving DecidableEq

end Semnav.Query
