import Semnav.Adapters.Kind
import Semnav.Graph.Reconcile

/-!
# Document symbols

The LSP's `DocumentSymbol` tree, its flattening into a parent-before-child list, and the
content fingerprint stored as `nodes.signature_hash` (`src/indexer/symbol.rs`).
-/

namespace Semnav.Indexer

open Semnav.ForStd Semnav.Graph Semnav.Adapters

/-- LSP `Position`: a `u32` line and UTF-16 character. -/
structure LspPosition where
  line : Nat
  character : Nat
deriving DecidableEq

/-- LSP `Range`. -/
structure LspRange where
  start : LspPosition
  «end» : LspPosition
deriving DecidableEq

/-- LSP hierarchical `DocumentSymbol`; absent `children` are no children. -/
inductive DocumentSymbol where
  | mk (name : String) (detail : Option String) (kind : Nat) (range selectionRange : LspRange)
      (children : List DocumentSymbol)

/-- A flattened symbol awaiting persistence; `parent` is an index into the same list. -/
structure FlatSymbol where
  fqn : String
  name : String
  /-- Raw LSP `SymbolKind`. -/
  kind : Nat
  range : Range
  sel : Range
  detail : Option String
  parent : Option Nat
deriving DecidableEq

/-- Convert to the graph's `Range` (widening `u32` to `i64`). -/
def LspRange.toGraph (r : LspRange) : Range :=
  ⟨r.start.line, r.start.character, r.end.line, r.end.character⟩

/-- `i64::MAX`. -/
def i64Max : Int := 2 ^ 63 - 1

/-- What follows the last dot of a module path: `module_path.rsplit('.').next()`. -/
def lastSegment (path : String) : String :=
  String.ofList (path.toList.reverse.takeWhile (· ≠ '.')).reverse

/-- Synthetic root symbol for `modulePath`, spanning the whole file. -/
def FlatSymbol.moduleRoot (modulePath : String) : FlatSymbol where
  fqn := modulePath
  name := lastSegment modulePath
  kind := SymbolKind.module.toU32
  range := ⟨0, 0, i64Max, i64Max⟩
  sel := ⟨0, 0, 0, 0⟩
  detail := none
  parent := none

mutual

/-- `flatten_one`: the symbol, then its children under its fqn and its index. -/
def flattenOne (symbol : DocumentSymbol) (pre : String) (parent : Option Nat)
    (out : List FlatSymbol) : List FlatSymbol :=
  match symbol with
  | .mk name detail kind range selectionRange children =>
    let fqn := pre ++ "." ++ name
    let idx := out.length
    flattenAll children fqn (some idx)
      (out ++ [⟨fqn, name, kind, range.toGraph, selectionRange.toGraph, detail, parent⟩])

/-- The loop over siblings. -/
def flattenAll (symbols : List DocumentSymbol) (pre : String) (parent : Option Nat)
    (out : List FlatSymbol) : List FlatSymbol :=
  match symbols with
  | [] => out
  | symbol :: rest => flattenAll rest pre parent (flattenOne symbol pre parent out)

end

/-- Flatten a `DocumentSymbol[]`, building each fqn as
    `<module path>.<container chain>.<name>`. -/
def flattenDocumentSymbols (symbols : List DocumentSymbol) (modulePath : String) :
    List FlatSymbol :=
  flattenAll symbols modulePath none []

/-- What `signature_fingerprint` writes to its hasher. -/
def fingerprintWrites (sym : FlatSymbol) : List HashWrite :=
  [.str sym.name, .u32 sym.kind] ++ hashOptionStr sym.detail ++ span sym.range ++ span sym.sel

/-- Content fingerprint for cache invalidation. -/
def signatureFingerprint (H : Hasher) (sym : FlatSymbol) : String :=
  hex016 (H (fingerprintWrites sym))

/-- `s.strip_prefix(p).unwrap_or(s)`, on characters. -/
def stripPrefixOrSelf (s p : List Char) : List Char :=
  if p.isPrefixOf s then s.drop p.length else s

/-- `s.rsplit_once('.').map(|(base, _)| base).unwrap_or(s)`, on characters. -/
def dropExtension (s : List Char) : List Char :=
  match s.reverse.dropWhile (· ≠ '.') with
  | [] => s
  | _ :: before => before.reverse

/-- Derive a module path from a file uri: root-relative path, extension stripped,
    separators to dots. -/
def modulePathFromUri (uri rootUri : String) : String :=
  let rel := stripPrefixOrSelf uri.toList rootUri.toList
  let stem := stripPrefixOrSelf (dropExtension rel) ['/']
  String.ofList (stem.map fun c => if c = '/' ∨ c = '\\' then '.' else c)

/-- The `ReconcileSymbol` a fetched symbol becomes (`fetch_uri_symbols`). -/
def FlatSymbol.toReconcile (H : Hasher) (sym : FlatSymbol) : ReconcileSymbol where
  fqn := sym.fqn
  name := sym.name
  kind := sym.kind
  nodeKind := (mapSymbolKind sym.kind).toLabel
  range := sym.range
  sel := sym.sel
  detail := sym.detail
  signatureHash := signatureFingerprint H sym
  parent := sym.parent

end Semnav.Indexer
