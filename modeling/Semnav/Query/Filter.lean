import Semnav.ForStd.Str
import Semnav.Query.Dto

/-!
# Query requests

How a request names its target, narrows its results and pages through them
(`src/query/filter.rs`, `paginate` of `src/query/mod.rs`).
-/

namespace Semnav.Query

open Semnav.ForStd Semnav.Graph

/-- A symbol reference: by fqn, or by an occurrence position. -/
inductive SymbolRef where
  | fqn (fqn : String)
  | at (uri : String) (line character : Nat)
deriving DecidableEq

/-- `s.split('.')`. -/
def dotSegments (s : String) : List String :=
  (s.toList.splitOn '.').map String.ofList

/-- The last dot-segment of a name. -/
def leafSegment (s : String) : String := (dotSegments s).getLastD s

/-- How a `find_symbol` pattern is matched against a symbol's fqn. -/
inductive MatchMode where
  /-- Whole dot-delimited segments. -/
  | segment
  /-- Substring anywhere in the fqn. -/
  | contains
  | exact
  /-- Typo-tolerant match of a segment. -/
  | fuzzy
deriving DecidableEq

/-- Both sides as they are, or folded. -/
def foldCase (ignoreCase : Bool) (s : String) : String :=
  if ignoreCase then toAsciiLowercase s else s

/-- `MatchMode::matches`, over the similarity test of `strsim`. -/
def MatchMode.matches (fuzzyEq : String → String → Bool) (mode : MatchMode) (pattern : String)
    (ignoreCase : Bool) (fqn : String) : Bool :=
  let fold := foldCase ignoreCase
  match mode with
  | .segment => (dotSegments fqn).any fun seg => fold pattern == fold seg
  | .exact => fold pattern == fold fqn
  | .contains => containsStr (fold fqn) (fold pattern)
  | .fuzzy => (dotSegments fqn).any fun seg => fuzzyEq (fold pattern) (fold seg)

/-- The response-shaping toggles of `find_symbol`. -/
structure FindSymbolOptions where
  brief : Bool
  withSignature : Bool
deriving DecidableEq

/-- Cross-tool narrowing: language, kind labels, external inclusion. -/
structure Filter where
  language : Option String
  kind : Option (List String)
  includeExternal : Bool
deriving DecidableEq

/-- Whether a node survives the filter. -/
def Filter.matches (f : Filter) (n : Node) : Bool :=
  (f.includeExternal || !n.isExternal) &&
  f.language.all (n.language == ·) &&
  f.kind.all fun kinds => kinds.any (· == kindLabel n.nodeKind n.construct)

/-- `MAX_PAGE_LIMIT`. -/
def maxPageLimit : Nat := 500

/-- A page size and a resumption token. -/
structure Page where
  limit : Nat
  cursor : Option Cursor
deriving DecidableEq

/-- The small JSON payload of a cursor's token. -/
structure CursorPayload where
  f : String
  u : String
  l : Int
  c : Int
deriving DecidableEq

/-- `serde_json` on payloads and the URL-safe base64 without padding; an error is its message. -/
structure CursorCodec where
  toVec : CursorPayload → Except String (List UInt8)
  fromSlice : List UInt8 → Except String CursorPayload
  encode : List UInt8 → String
  decode : String → Except String (List UInt8)

/-- `Cursor::encode`. -/
def Cursor.encode (E : CursorCodec) (cur : Cursor) : String :=
  let payload : CursorPayload := ⟨cur.key.fqn, cur.key.uri, cur.key.startLine, cur.key.startCol⟩
  E.encode ((E.toVec payload).toOption.getD [])

/-- `Cursor::decode`. -/
def Cursor.decode (E : CursorCodec) (token : String) : Except String Cursor :=
  match E.decode token with
  | .error e => .error ("invalid cursor (base64): " ++ e)
  | .ok bytes =>
    match E.fromSlice bytes with
    | .error e => .error ("invalid cursor (json): " ++ e)
    | .ok payload => .ok ⟨⟨payload.f, payload.u, payload.l, payload.c⟩⟩

/-- A cursor pagination request. -/
structure PageInput where
  limit : Option Nat
  cursor : Option String
deriving DecidableEq

/-- `PageInput::into_page`; the error is an `invalid_params` with this message. -/
def PageInput.intoPage (E : CursorCodec) (input : PageInput) : Except String Page :=
  let limit := max 1 (min (input.limit.getD 100) maxPageLimit)
  match input.cursor with
  | none => .ok ⟨limit, none⟩
  | some token =>
    match Cursor.decode E token with
    | .error e => .error ("invalid cursor: " ++ e)
    | .ok cursor => .ok ⟨limit, some cursor⟩

/-- Drop every item at or before the cursor, keep `limit`, and pin the next cursor to the
    last kept item when more remain. -/
def paginate {α : Type} (items : List α) (page : Page) (keyOf : α → SortKey) :
    List α × Option Cursor :=
  let items := match page.cursor with
    | some cur => items.filter fun t => decide ((keyOf t).cmp cur.key = Ordering.gt)
    | none => items
  let limit := max 1 (min page.limit maxPageLimit)
  let next := if items.length > limit then items[limit - 1]?.map fun t => ⟨keyOf t⟩ else none
  (items.take limit, next)

end Semnav.Query
