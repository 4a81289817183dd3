import Semnav.Indexer.Pipeline

/-!
# Reconciling one file

The two tasks that bring a file's rows up to date while a daemon runs: the watcher's
`reconcile_uri`, and the startup-drift pass with its content-hash skip and its guard against
suspiciously empty replies (`src/indexer/reconcile.rs`).  Both are programs over the commands
below; between two commands of one, the other and any edit may happen.

The walk over all uris and the bounded retries around a drift attempt are left out: a retry is
another attempt.
-/

namespace Semnav.Indexer

open Semnav.ForStd Semnav.Graph Semnav.Adapters

/-- The bytes of a file. -/
abbrev FileBytes := List UInt8

/-- The commands of the two tasks. -/
inductive TaskCmd : Type → Type where
  /-- `acquire_for_watcher`: is the language's server there? -/
  | acquire (language : String) : TaskCmd Bool
  /-- `fs::read_to_string`; `none` for a missing file, and for bytes that are no UTF-8. -/
  | readToString (uri : String) : TaskCmd (Option String)
  /-- `fs::read`. -/
  | readBytes (uri : String) : TaskCmd (Option FileBytes)
  /-- `LspClient::ensure_document`. -/
  | ensureDocument (uri language text : String) : TaskCmd Unit
  /-- `request_document_symbols`. -/
  | documentSymbols (uri : String) : TaskCmd (List DocumentSymbol)
  | getMeta (key : String) : TaskCmd (Option String)
  | setMeta (key value : String) : TaskCmd Unit
  | countRealNodes (uri moduleFqn : String) : TaskCmd Nat
  | reconcileFileSymbols (args : FileArgs) (syms : List ReconcileSymbol) :
      TaskCmd ReconcileOutcome

/-- A task (or a part of one) with result `α`. -/
abbrev TaskM (α : Type) := Prog TaskCmd α

/-- A file's symbols freshly fetched from the server, not yet committed. -/
structure FetchedSymbols where
  args : FileArgs
  moduleFqn : String
  /-- `false` once a missing file is read as empty text. -/
  fileExists : Bool
  /-- Count of symbols the server returned. -/
  realSymbolCount : Nat
  reconcileSymbols : List ReconcileSymbol

/-- Outcome of trying to fetch a file's current symbols. -/
inductive FetchOutcome where
  /-- No adapter recognizes the uri. -/
  | unsupported
  /-- The language's server is currently unavailable. -/
  | lspUnavailable
  | fetched (f : FetchedSymbols)

/-- Result of one startup-drift attempt for a file. -/
inductive DriftAttempt where
  | committed
  | suspiciousEmpty
  | lspUnavailable
deriving DecidableEq

/-- The flattened symbols of a reply, with the module root if the file exists. -/
def fetchedSymbols (symbols : List DocumentSymbol) (modulePath : String) (fileExists : Bool) :
    List FlatSymbol :=
  let flat := flattenDocumentSymbols symbols modulePath
  if fileExists then flat ++ [.moduleRoot modulePath] else flat

/-- What the two tasks are set up with. -/
structure TaskEnv where
  hasher : Hasher
  adapters : List LanguageAdapter
  rootUri : String

namespace TaskEnv

variable (env : TaskEnv)

/-- A reply as `FetchedSymbols`. -/
def fetchedOf (adapter : LanguageAdapter) (uri : String) (fileExists : Bool)
    (symbols : List DocumentSymbol) : FetchedSymbols :=
  let modulePath := modulePathFromUri uri env.rootUri
  { args := fileArgs adapter uri env.rootUri
    moduleFqn := modulePath
    fileExists := fileExists
    realSymbolCount := (flattenDocumentSymbols symbols modulePath).length
    reconcileSymbols :=
      (fetchedSymbols symbols modulePath fileExists).map (FlatSymbol.toReconcile env.hasher) }

/-- `fetch_uri_symbols`: read the file, open its text on the server, ask for its symbols. -/
def fetchUriSymbols (uri : String) : TaskM FetchOutcome :=
  match selectForUri env.adapters uri with
  | none => pure .unsupported
  | some adapter => do
    if ← Prog.perform (.acquire adapter.languageName) then
      let read ← Prog.perform (.readToString uri)
      Prog.perform (.ensureDocument uri adapter.languageName (read.getD ""))
      let symbols ← Prog.perform (.documentSymbols uri)
      pure (.fetched (env.fetchedOf adapter uri read.isSome symbols))
    else pure .lspUnavailable

/-- `reconcile_uri`, the watcher's task: what was fetched is trusted and committed. -/
def reconcileUri (uri : String) : TaskM Unit := do
  match ← env.fetchUriSymbols uri with
  | .fetched f =>
    let _ ← Prog.perform (.reconcileFileSymbols f.args f.reconcileSymbols)
    pure ()
  | _ => pure ()

/-- `content_hash_meta_key`. -/
def contentHashMetaKey (uri : String) : String := "startup_drift_content_hash::" ++ uri

/-- `current_content_hash` of the bytes read: `<Vec<u8> as Hash>::hash`, then `{:016x}`. -/
def currentContentHash (bytes : FileBytes) : String :=
  hex016 (env.hasher [.lengthPrefix bytes.length, .bytes bytes])

/-- Fetch and commit, unless the reply is suspiciously empty; then note the hash that was
    computed before, or `""` for a missing file. -/
def fetchAndCommit (uri : String) (currentHash : Option String) : TaskM DriftAttempt := do
  match ← env.fetchUriSymbols uri with
  | .unsupported => pure .committed
  | .lspUnavailable => pure .lspUnavailable
  | .fetched f =>
    let suspicious ←
      if f.fileExists && f.realSymbolCount == 0 then do
        let count ← Prog.perform (.countRealNodes uri f.moduleFqn)
        pure (decide (count > 0))
      else pure false
    if suspicious then pure .suspiciousEmpty
    else
      let _ ← Prog.perform (.reconcileFileSymbols f.args f.reconcileSymbols)
      Prog.perform (.setMeta (contentHashMetaKey uri) (currentHash.getD ""))
      pure .committed

/-- `reconcile_uri_for_startup_drift`: skip the file if its bytes hash to what was noted. -/
def reconcileUriForStartupDrift (uri : String) : TaskM DriftAttempt :=
  match selectForUri env.adapters uri with
  | none => pure .committed
  | some _ => do
    let bytes ← Prog.perform (.readBytes uri)
    match bytes.map env.currentContentHash with
    | none => env.fetchAndCommit uri none
    | some hash =>
      let noted ← Prog.perform (.getMeta (contentHashMetaKey uri))
      if noted = some hash then pure .committed
      else env.fetchAndCommit uri (some hash)

end TaskEnv

/-! ## What the tasks share -/

/-- What the tasks share, with each other and with whoever edits the files. -/
structure TaskWorld where
  db : Db
  /-- The bytes of each file; `none` for a missing one. -/
  files : String → Option FileBytes
  /-- `LspClient::open_docs`: the text each document was last sent with.  The uri determines its
      language, and so the client. -/
  openDocs : String → Option String

/-- Why a command failed. -/
inductive TaskError where
  | db (e : DbError)
  | lsp
deriving DecidableEq

/-- The language servers of the tasks. -/
structure TaskServer where
  acquires : TaskWorld → String → Bool
  documentSymbols : TaskWorld → String → Except TaskError (List DocumentSymbol)

/-- The text of bytes that are UTF-8. -/
def decodeUtf8 (bytes : FileBytes) : Option String := String.fromUTF8? ⟨bytes.toArray⟩

/-- The world with other tables. -/
def TaskWorld.setDb (w : TaskWorld) (tables : Db) : TaskWorld := { w with db := tables }

/-- `ensure_document`: send the text, unless it is what the document was last sent with.  A closed
    connection shows in the request that follows. -/
def TaskWorld.openDoc (w : TaskWorld) (uri text : String) : TaskWorld :=
  if w.openDocs uri = some text then w
  else { w with openDocs := fun u => if u = uri then some text else w.openDocs u }

/-- What a command does. -/
def TaskCmd.handle (H : Hasher) (S : TaskServer) {β : Type} :
    TaskCmd β → TaskWorld → Except TaskError β × TaskWorld
  | .acquire language, w => (.ok (S.acquires w language), w)
  | .readToString uri, w => (.ok ((w.files uri).bind decodeUtf8), w)
  | .readBytes uri, w => (.ok (w.files uri), w)
  | .ensureDocument uri _ text, w => (.ok (), w.openDoc uri text)
  | .documentSymbols uri, w => (S.documentSymbols w uri, w)
  | .getMeta key, w => (.ok (w.db.indexMeta key), w)
  | .setMeta key value, w => (.ok (), w.setDb (w.db.setMeta key value))
  | .countRealNodes uri moduleFqn, w => (.ok (w.db.countRealNodes uri moduleFqn), w)
  | .reconcileFileSymbols args syms, w =>
    match Graph.reconcileFileSymbols H w.db args syms with
    | .ok (tables, o) => (.ok o, w.setDb tables)
    | .error e => (.error (.db e), w)

end Semnav.Indexer
