import Semnav.Adapters.Language
import Semnav.ForStd.Prog
import Semnav.Indexer.Symbol

/-!
# The index pipeline

From the discovered files to rows: fetch each file's document symbols, upsert a node for each
symbol and then the `contains` edges (`src/indexer/pipeline.rs`).  The pass is no transaction:
every statement is a command of its own, and an error leaves what the earlier ones wrote.

Which files the walk discovers is a parameter.
-/

namespace Semnav.Indexer

open Semnav.ForStd Semnav.Graph Semnav.Adapters

/-- The commands of an index pass. -/
inductive IndexCmd : Type → Type where
  /-- `SymbolFetcher::document_symbols`; `none` is a failed fetch. -/
  | documentSymbols (uri : String) : IndexCmd (Option (List DocumentSymbol))
  | upsertNode (n : NodeCols) : IndexCmd RowId
  | upsertEdge (e : Edge) : IndexCmd RowId

/-- What a statement leaves: the new tables, or the old ones and its error. -/
def runStatement {β : Type} (db : Db) : Except DbError (Db × β) → Except DbError β × Db
  | .ok (db', b) => (.ok b, db')
  | .error e => (.error e, db)

/-- What a command does, for an assignment of symbol trees to the files. -/
def IndexCmd.handle (fetch : String → Option (List DocumentSymbol)) {β : Type} :
    IndexCmd β → Db → Except DbError β × Db
  | .documentSymbols uri, db => (.ok (fetch uri), db)
  | .upsertNode n, db => runStatement db (db.upsertNode n)
  | .upsertEdge e, db => runStatement db (db.upsertEdge e)

/-- An index pass (or a part of one) with result `α`. -/
abbrev IndexM (α : Type) := Prog IndexCmd α

/-- Run a pass with nothing else going on. -/
abbrev IndexM.run {α : Type} (fetch : String → Option (List DocumentSymbol)) (q : IndexM α)
    (db : Db) : Except DbError α × Db := Prog.run (IndexCmd.handle fetch) q db

/-- `upsert_node`. -/
def upsertNode (n : NodeCols) : IndexM RowId := .perform (.upsertNode n)

/-- `upsert_edge`. -/
def upsertEdge (e : Edge) : IndexM RowId := .perform (.upsertEdge e)

/-- The node a symbol is indexed as. -/
def FlatSymbol.toNode (H : Hasher) (args : FileArgs) (containerId : Option RowId)
    (sym : FlatSymbol) : NodeCols where
  fqn := sym.fqn
  uri := args.uri
  name := sym.name
  language := args.language
  kind := sym.kind
  nodeKind := (mapSymbolKind sym.kind).toLabel
  construct := none
  containerId := containerId
  range := sym.range
  sel := sym.sel
  signature := none
  documentation := none
  detail := sym.detail
  signatureHash := some (signatureFingerprint H sym)
  valid := true
  orphan := false
  generation := 0
  isExternal := args.isExternal

/-- The first loop: a node for each symbol, under the row of its parent. -/
def upsertNodes (H : Hasher) (args : FileArgs) : List FlatSymbol → List RowId →
    IndexM (List RowId)
  | [], ids => pure ids
  | sym :: rest, ids => do
    let id ← upsertNode (sym.toNode H args (sym.parent.bind (ids[·]?)))
    upsertNodes H args rest (ids ++ [id])

/-- The second loop: a `contains` edge for each symbol with a parent.  `ids[parent]` is in
    range, since parents precede their children; no row has the default `0`. -/
def addContains (ids : List RowId) : List (FlatSymbol × Nat) → IndexM Unit
  | [] => pure ()
  | (sym, i) :: rest => do
    match sym.parent with
    | some parent =>
      let _ ← upsertEdge (containsEdge (ids.getD parent 0) (ids.getD i 0))
      addContains ids rest
    | none => addContains ids rest

/-- Persist a flattened symbol tree: nodes first, then the `contains` edges. -/
def upsertSymbolTree (H : Hasher) (args : FileArgs) (flat : List FlatSymbol) : IndexM Unit := do
  let ids ← upsertNodes H args flat []
  addContains ids flat.zipIdx

/-- Aggregate counts from a single indexing pass. -/
structure IndexStats where
  filesSeen : Nat := 0
  filesIndexed : Nat := 0
  symbolsUpserted : Nat := 0
  fetchErrors : Nat := 0
deriving DecidableEq

/-- The rows' common columns: what the adapter says about the file. -/
def fileArgs (adapter : LanguageAdapter) (uri rootUri : String) : FileArgs :=
  ⟨uri, adapter.languageName, adapter.isExternal uri rootUri⟩

/-- What is indexed of a file: its symbols, flattened, then the module root. -/
def indexedSymbols (symbols : List DocumentSymbol) (modulePath : String) : List FlatSymbol :=
  flattenDocumentSymbols symbols modulePath ++ [.moduleRoot modulePath]

/-- The loop over the discovered files. -/
def indexFiles (H : Hasher) (adapters : List LanguageAdapter) (rootUri language : String) :
    List String → IndexStats → IndexM IndexStats
  | [], stats => pure stats
  | uri :: files, stats =>
    match selectForUri adapters uri with
    | none => indexFiles H adapters rootUri language files stats
    | some adapter =>
      if adapter.languageName ≠ language then
        indexFiles H adapters rootUri language files stats
      else do
        let stats := { stats with filesSeen := stats.filesSeen + 1 }
        match ← Prog.perform (.documentSymbols uri) with
        | none =>
          indexFiles H adapters rootUri language files
            { stats with fetchErrors := stats.fetchErrors + 1 }
        | some symbols =>
          let flat := indexedSymbols symbols (modulePathFromUri uri rootUri)
          upsertSymbolTree H (fileArgs adapter uri rootUri) flat
          indexFiles H adapters rootUri language files
            { stats with filesIndexed := stats.filesIndexed + 1
                         symbolsUpserted := stats.symbolsUpserted + flat.length }

/-- Index the `language` files under the root.  A file whose fetch fails is counted and
    skipped. -/
def indexRepository (H : Hasher) (adapters : List LanguageAdapter) (rootUri language : String)
    (files : List String) : IndexM IndexStats :=
  indexFiles H adapters rootUri language files {}

end Semnav.Indexer
