import Semnav.ForStd.Serde
import Semnav.Query.Filter

/-!
# Tool inputs and outputs

The requests and the responses of the tools as they are serialized (`src/mcp/dto.rs`), with codecs
for them and for the results of `src/query/dto.rs`, each after the attributes of its fields.  A
result that is paged has the token of its cursor here.  A structure is read from an object; that
it may also be read from an array of its fields is left out.
-/

namespace Semnav.Mcp

open Semnav.ForStd Semnav.ForStd.Fields
open Semnav.Query (MatchMode Position RangeDto NodeDto ReadRangeResult FindDefinitionResult
  ReferenceGroup CallGraphNode FindCallPathResult CursorCodec)

/-- A string is not read as a missing field. -/
private theorem string_ne_null (s : String) : Codec.string.encode s ≠ .null := nofun

/-- A number is not `null`. -/
private theorem u32_ne_null (n : UInt32) : Codec.u32.encode n ≠ .null := nofun

/-- A list is not `null`. -/
private theorem list_ne_null {α : Type} (c : Codec α) (as : List α) : c.list.encode as ≠ .null :=
  nofun

/-- `Option<String>` -/
def optionString (key : String) : Fields (Option String) := optionField key .string string_ne_null

/-- `Option<u32>` -/
def optionU32 (key : String) : Fields (Option UInt32) := optionField key .u32 u32_ne_null

/-- `#[serde(default)] bool` -/
def flag (key : String) : Fields Bool := defaultField key .bool false

/-- `#[serde(default)] Vec<String>` -/
def defaultStrings (key : String) : Fields (List String) := defaultField key Codec.string.list []

/-! ## Query results -/

/-- The codec of `Position`, over its object. -/
def Position.fields : Fields Position :=
  ((field "line" .u32).and (field "character" .u32) (by decide)).map
    (fun (line, character) => ⟨line, character⟩) (fun p => (p.line, p.character)) fun _ => rfl

/-- Of `RangeDto`. -/
def RangeDto.fields : Fields RangeDto :=
  ((field "start" Position.fields.codec).and (field "end" Position.fields.codec) (by decide)).map
    (fun (start, stop) => ⟨start, stop⟩) (fun r => (r.start, r.end)) fun _ => rfl

/-- Of `NodeDto`. -/
def NodeDto.fields : Fields NodeDto :=
  ((field "fqn" .string).and ((field "uri" .string).and ((field "name" .string).and
    ((field "language" .string).and ((field "kind_label" .string).and ((field "kind_num" .u32).and
    ((optionString "construct").and ((field "range" RangeDto.fields.codec).and
    ((field "selection_range" RangeDto.fields.codec).and ((optionString "signature").and
    ((optionString "documentation").and (field "is_external" .bool)
    (by decide)) (by decide)) (by decide)) (by decide)) (by decide)) (by decide)) (by decide))
    (by decide)) (by decide)) (by decide)) (by decide)).map
    (fun (fqn, uri, name, language, kindLabel, kindNum, construct, range, selectionRange, signature,
        documentation, isExternal) =>
      ⟨fqn, uri, name, language, kindLabel, kindNum, construct, range, selectionRange, signature,
        documentation, isExternal⟩)
    (fun n => (n.fqn, n.uri, n.name, n.language, n.kindLabel, n.kindNum, n.construct, n.range,
      n.selectionRange, n.signature, n.documentation, n.isExternal))
    fun _ => rfl

/-- `find_symbol`: the nodes, or in brief only their fqns. -/
structure FindSymbolResult where
  nodes : List NodeDto
  fqns : List String
  nextCursor : Option String

/-- A page of the query layer, its cursor encoded: `next.map(|c| c.encode())`. -/
def FindSymbolResult.ofPage (E : CursorCodec) (r : Query.FindSymbolResult) : FindSymbolResult :=
  ⟨r.nodes, r.fqns, r.nextCursor.map (·.encode E)⟩

/-- Of `FindSymbolResult`. -/
def FindSymbolResult.fields : Fields FindSymbolResult :=
  ((defaultField "nodes" NodeDto.fields.codec.list []).and ((defaultStrings "fqns").and
    (optionString "next_cursor") (by decide)) (by decide)).map
    (fun (nodes, fqns, nextCursor) => ⟨nodes, fqns, nextCursor⟩)
    (fun r => (r.nodes, r.fqns, r.nextCursor)) fun _ => rfl

/-- Of `ReadRangeResult`. -/
def ReadRangeResult.fields : Fields ReadRangeResult :=
  ((field "uri" .string).and ((field "content" .string).and
    ((field "range" RangeDto.fields.codec).and (field "total_lines" .u32)
    (by decide)) (by decide)) (by decide)).map
    (fun (uri, content, range, totalLines) => ⟨uri, content, range, totalLines⟩)
    (fun r => (r.uri, r.content, r.range, r.totalLines)) fun _ => rfl

/-- Of `FindDefinitionResult`. -/
def FindDefinitionResult.fields : Fields FindDefinitionResult :=
  (field "nodes" NodeDto.fields.codec.list).map (fun nodes => ⟨nodes⟩) (fun r => r.nodes)
    fun _ => rfl

/-- Of `ReferenceGroup`. -/
def ReferenceGroup.fields : Fields ReferenceGroup :=
  ((field "node" NodeDto.fields.codec).and (field "sites" RangeDto.fields.codec.list)
    (by decide)).map
    (fun (node, sites) => ⟨node, sites⟩) (fun g => (g.node, g.sites)) fun _ => rfl

/-- `find_references`: referencing nodes grouped by their declaration. -/
structure FindReferencesResult where
  references : List ReferenceGroup
  nextCursor : Option String
  hintFqns : List String

/-- A page of the query layer, its cursor encoded. -/
def FindReferencesResult.ofPage (E : CursorCodec) (r : Query.FindReferencesResult) :
    FindReferencesResult :=
  ⟨r.references, r.nextCursor.map (·.encode E), r.hintFqns⟩

/-- Of `FindReferencesResult`. -/
def FindReferencesResult.fields : Fields FindReferencesResult :=
  ((field "references" ReferenceGroup.fields.codec.list).and ((optionString "next_cursor").and
    (defaultStrings "hint_fqns") (by decide)) (by decide)).map
    (fun (references, nextCursor, hintFqns) => ⟨references, nextCursor, hintFqns⟩)
    (fun r => (r.references, r.nextCursor, r.hintFqns)) fun _ => rfl

/-- Of `CallGraphNode`. -/
def CallGraphNode.fields : Fields CallGraphNode :=
  ((field "node" NodeDto.fields.codec).and (field "call_sites" RangeDto.fields.codec.list)
    (by decide)).map
    (fun (node, callSites) => ⟨node, callSites⟩) (fun g => (g.node, g.callSites)) fun _ => rfl

/-- The callers or the callees; on the wire these are the fields of the tool's own output. -/
structure CallGraphResult where
  items : List CallGraphNode
  nextCursor : Option String
  hintFqns : List String

/-- A page of the query layer, its cursor encoded. -/
def CallGraphResult.ofPage (E : CursorCodec) (r : Query.CallGraphResult) : CallGraphResult :=
  ⟨r.items, r.nextCursor.map (·.encode E), r.hintFqns⟩

/-- Of `FindCallPathResult`. -/
def FindCallPathResult.fields : Fields FindCallPathResult :=
  ((field "reachable" .bool).and ((field "path" NodeDto.fields.codec.list).and
    ((field "limit_reached" .bool).and ((defaultStrings "from_hint_fqns").and
    (defaultStrings "to_hint_fqns") (by decide)) (by decide)) (by decide)) (by decide)).map
    (fun (reachable, path, limitReached, fromHintFqns, toHintFqns) =>
      ⟨reachable, path, limitReached, fromHintFqns, toHintFqns⟩)
    (fun r => (r.reachable, r.path, r.limitReached, r.fromHintFqns, r.toHintFqns)) fun _ => rfl

/-! ## Tool inputs -/

/-- An occurrence position. -/
structure AtRef where
  uri : String
  line : UInt32
  character : UInt32

/-- Of `AtRef`. -/
def AtRef.fields : Fields AtRef :=
  ((field "uri" .string).and ((field "line" .u32).and (field "character" .u32) (by decide))
    (by decide)).map
    (fun (uri, line, character) => ⟨uri, line, character⟩)
    (fun a => (a.uri, a.line, a.character)) fun _ => rfl

/-- A symbol reference: an fqn or a position. -/
structure SymbolRefInput where
  fqn : Option String
  «at» : Option AtRef

/-- Of `SymbolRefInput`. -/
def SymbolRefInput.fields : Fields SymbolRefInput :=
  ((optionString "fqn").and (optionField "at" AtRef.fields.codec AtRef.fields.codec_ne_null)
    (by decide)).map
    (fun (fqn, pos) => ⟨fqn, pos⟩) (fun r => (r.fqn, r.at)) fun _ => rfl

/-- `find_definition` takes a position only. -/
structure FindDefinitionInput where
  «at» : AtRef

/-- Of `FindDefinitionInput`. -/
def FindDefinitionInput.fields : Fields FindDefinitionInput :=
  (field "at" AtRef.fields.codec).map (fun pos => ⟨pos⟩) (fun i => i.at) fun _ => rfl

/-- Cross-tool narrowing. -/
structure FilterInput where
  language : Option String
  kind : Option (List String)
  includeExternal : Bool

/-- Of `FilterInput`. -/
def FilterInput.fields : Fields FilterInput :=
  ((optionString "language").and ((optionField "kind" Codec.string.list (list_ne_null _)).and
    (flag "include_external") (by decide)) (by decide)).map
    (fun (language, kind, includeExternal) => ⟨language, kind, includeExternal⟩)
    (fun f => (f.language, f.kind, f.includeExternal)) fun _ => rfl

/-- Cursor pagination. -/
structure PageInput where
  limit : Option UInt32
  cursor : Option String

/-- Of `PageInput`. -/
def PageInput.fields : Fields PageInput :=
  ((optionU32 "limit").and (optionString "cursor") (by decide)).map
    (fun (limit, cursor) => ⟨limit, cursor⟩) (fun p => (p.limit, p.cursor)) fun _ => rfl

/-- `#[serde(rename_all = "lowercase")]` -/
def matchModeName : MatchMode → String
  | .segment => "segment"
  | .contains => "contains"
  | .exact => "exact"
  | .fuzzy => "fuzzy"

/-- The mode of a name. -/
def matchModeOfName : String → Option MatchMode
  | "segment" => some .segment
  | "contains" => some .contains
  | "exact" => some .exact
  | "fuzzy" => some .fuzzy
  | _ => none

/-- Of `MatchMode`, a string. -/
def matchMode : Codec MatchMode :=
  .names matchModeName matchModeOfName fun mode => by cases mode <;> rfl

/-- `find_symbol`; the filter and the page are flattened into the object. -/
structure FindSymbolInput where
  pattern : String
  matchMode : MatchMode
  ignoreCase : Bool
  brief : Bool
  withSignature : Bool
  filter : FilterInput
  page : PageInput

/-- Of `FindSymbolInput`. -/
def FindSymbolInput.fields : Fields FindSymbolInput :=
  ((field "pattern" .string).and ((defaultField "match" Mcp.matchMode .segment).and
    ((flag "ignore_case").and ((flag "brief").and ((flag "with_signature").and
    (FilterInput.fields.and PageInput.fields
    (by decide)) (by decide)) (by decide)) (by decide)) (by decide)) (by decide)).map
    (fun (pattern, matchMode, ignoreCase, brief, withSignature, filter, page) =>
      ⟨pattern, matchMode, ignoreCase, brief, withSignature, filter, page⟩)
    (fun i => (i.pattern, i.matchMode, i.ignoreCase, i.brief, i.withSignature, i.filter, i.page))
    fun _ => rfl

/-- A symbol, a filter and a page, in one object. -/
structure SymbolQueryInput where
  symbol : SymbolRefInput
  filter : FilterInput
  page : PageInput

/-- Of `SymbolQueryInput`. -/
def SymbolQueryInput.fields : Fields SymbolQueryInput :=
  (SymbolRefInput.fields.and (FilterInput.fields.and PageInput.fields (by decide))
    (by decide)).map
    (fun (symbol, filter, page) => ⟨symbol, filter, page⟩)
    (fun i => (i.symbol, i.filter, i.page)) fun _ => rfl

/-- `find_callers` and `find_callees`; the query is flattened. -/
structure CallGraphQueryInput where
  query : SymbolQueryInput
  withSignature : Bool

/-- Of `CallGraphQueryInput`. -/
def CallGraphQueryInput.fields : Fields CallGraphQueryInput :=
  (SymbolQueryInput.fields.and (flag "with_signature") (by decide)).map
    (fun (query, withSignature) => ⟨query, withSignature⟩)
    (fun i => (i.query, i.withSignature)) fun _ => rfl

/-- `find_call_path` -/
structure FindCallPathInput where
  «from» : SymbolRefInput
  «to» : SymbolRefInput
  maxDepth : Option UInt32
  maxLspCalls : Option UInt32

/-- Of `FindCallPathInput`. -/
def FindCallPathInput.fields : Fields FindCallPathInput :=
  ((field "from" SymbolRefInput.fields.codec).and ((field "to" SymbolRefInput.fields.codec).and
    ((optionU32 "max_depth").and (optionU32 "max_lsp_calls") (by decide)) (by decide))
    (by decide)).map
    (fun (source, target, maxDepth, maxLspCalls) => ⟨source, target, maxDepth, maxLspCalls⟩)
    (fun i => (i.from, i.«to», i.maxDepth, i.maxLspCalls)) fun _ => rfl

/-- A position of `read_range`. -/
structure PositionInput where
  line : UInt32
  character : UInt32

/-- Of `PositionInput`. -/
def PositionInput.fields : Fields PositionInput :=
  ((field "line" .u32).and (field "character" .u32) (by decide)).map
    (fun (line, character) => ⟨line, character⟩) (fun p => (p.line, p.character)) fun _ => rfl

/-- A range of `read_range`. -/
structure RangeInput where
  start : PositionInput
  «end» : PositionInput

/-- Of `RangeInput`. -/
def RangeInput.fields : Fields RangeInput :=
  ((field "start" PositionInput.fields.codec).and (field "end" PositionInput.fields.codec)
    (by decide)).map
    (fun (start, stop) => ⟨start, stop⟩) (fun r => (r.start, r.end)) fun _ => rfl

/-- `read_range`; without a range, the whole file. -/
structure ReadRangeInput where
  uri : String
  range : Option RangeInput

/-- Of `ReadRangeInput`. -/
def ReadRangeInput.fields : Fields ReadRangeInput :=
  ((field "uri" .string).and
    (optionField "range" RangeInput.fields.codec RangeInput.fields.codec_ne_null)
    (by decide)).map
    (fun (uri, range) => ⟨uri, range⟩) (fun i => (i.uri, i.range)) fun _ => rfl

/-- `restart_lsp`; without a language, every server. -/
structure RestartLspInput where
  language : Option String

/-- Of `RestartLspInput`. -/
def RestartLspInput.fields : Fields RestartLspInput :=
  (optionString "language").map (fun language => ⟨language⟩) (fun i => i.language) fun _ => rfl

/-! ## Tool outputs -/

/-- The languages whose server was reset. -/
structure RestartLspResult where
  restarted : List String

/-- Of `RestartLspResult`. -/
def RestartLspResult.fields : Fields RestartLspResult :=
  (field "restarted" Codec.string.list).map (fun restarted => ⟨restarted⟩)
    (fun r => r.restarted) fun _ => rfl

/-- The degraded-response annotation. -/
structure DegradeInfo where
  degraded : Bool
  degradeReason : String
  lspStatus : String

/-- Of `DegradeInfo`. -/
def DegradeInfo.fields : Fields DegradeInfo :=
  ((field "degraded" .bool).and ((field "degrade_reason" .string).and (field "lsp_status" .string)
    (by decide)) (by decide)).map
    (fun (degraded, degradeReason, lspStatus) => ⟨degraded, degradeReason, lspStatus⟩)
    (fun d => (d.degraded, d.degradeReason, d.lspStatus)) fun _ => rfl

/-- A stale cached result was served while a fresh one is on its way. -/
structure FreshnessInfo where
  refreshing : Bool

/-- Of `FreshnessInfo`. -/
def FreshnessInfo.fields : Fields FreshnessInfo :=
  (field "refreshing" .bool).map (fun refreshing => ⟨refreshing⟩) (fun f => f.refreshing)
    fun _ => rfl

/-- `#[serde(flatten)] degrade: Option<DegradeInfo>` -/
def degrade : Fields (Option DegradeInfo) :=
  DegradeInfo.fields.optional (((needed_field "degraded" .bool).and _ _).map _ _ _)

/-- `#[serde(flatten)] freshness: Option<FreshnessInfo>` -/
def freshness : Fields (Option FreshnessInfo) :=
  FreshnessInfo.fields.optional ((needed_field "refreshing" .bool).map _ _ _)

/-- The result of `find_definition`, flattened, with its annotation. -/
structure FindDefinitionOutput where
  result : FindDefinitionResult
  degrade : Option DegradeInfo

/-- Of `FindDefinitionOutput`. -/
def FindDefinitionOutput.fields : Fields FindDefinitionOutput :=
  (FindDefinitionResult.fields.and Mcp.degrade (by decide)).map
    (fun (result, degrade) => ⟨result, degrade⟩) (fun o => (o.result, o.degrade)) fun _ => rfl

/-- The result of `find_references`, flattened, with its annotations. -/
structure FindReferencesOutput where
  result : FindReferencesResult
  degrade : Option DegradeInfo
  freshness : Option FreshnessInfo

/-- Of `FindReferencesOutput`. -/
def FindReferencesOutput.fields : Fields FindReferencesOutput :=
  (FindReferencesResult.fields.and (Mcp.degrade.and Mcp.freshness (by decide)) (by decide)).map
    (fun (result, degrade, freshness) => ⟨result, degrade, freshness⟩)
    (fun o => (o.result, o.degrade, o.freshness)) fun _ => rfl

/-- The result of `find_callers`, its items named for the tool. -/
structure FindCallersOutput where
  callers : List CallGraphNode
  nextCursor : Option String
  hintFqns : List String
  degrade : Option DegradeInfo
  freshness : Option FreshnessInfo

/-- Of `FindCallersOutput`. -/
def FindCallersOutput.fields : Fields FindCallersOutput :=
  ((field "callers" CallGraphNode.fields.codec.list).and ((optionString "next_cursor").and
    ((defaultStrings "hint_fqns").and (Mcp.degrade.and Mcp.freshness (by decide))
    (by decide)) (by decide)) (by decide)).map
    (fun (callers, nextCursor, hintFqns, degrade, freshness) =>
      ⟨callers, nextCursor, hintFqns, degrade, freshness⟩)
    (fun o => (o.callers, o.nextCursor, o.hintFqns, o.degrade, o.freshness)) fun _ => rfl

/-- The result of `find_callees`, its items named for the tool. -/
structure FindCalleesOutput where
  callees : List CallGraphNode
  nextCursor : Option String
  hintFqns : List String
  degrade : Option DegradeInfo

/-- Of `FindCalleesOutput`. -/
def FindCalleesOutput.fields : Fields FindCalleesOutput :=
  ((field "callees" CallGraphNode.fields.codec.list).and ((optionString "next_cursor").and
    ((defaultStrings "hint_fqns").and Mcp.degrade (by decide)) (by decide)) (by decide)).map
    (fun (callees, nextCursor, hintFqns, degrade) => ⟨callees, nextCursor, hintFqns, degrade⟩)
    (fun o => (o.callees, o.nextCursor, o.hintFqns, o.degrade)) fun _ => rfl

/-- The result of `find_call_path`, flattened, with its annotation. -/
structure FindCallPathOutput where
  result : FindCallPathResult
  degrade : Option DegradeInfo

/-- Of `FindCallPathOutput`. -/
def FindCallPathOutput.fields : Fields FindCallPathOutput :=
  (FindCallPathResult.fields.and Mcp.degrade (by decide)).map
    (fun (result, degrade) => ⟨result, degrade⟩) (fun o => (o.result, o.degrade)) fun _ => rfl

end Semnav.Mcp

