import Semnav.ForStd.Prog
import Semnav.Query.Filter
import Semnav.Query.LspQuery

/-!
# What a query runs against

A query is a program over the commands below: one statement of the db actor, one read of a
file, one notification or round trip of a language server.  Between two commands of a query
other tasks may run; `World` is what they share.

The language servers are a parameter (`Servers`): their replies may depend on everything,
the log of earlier commands included, so any pattern of successes, timeouts and errors is
some `Servers`.
-/

namespace Semnav.Query

open Semnav.ForStd Semnav.Graph Semnav.Indexer

/-! ## Commands -/

/-- The `DbCommand`s that queries send to the db actor. -/
inductive DbCmd : Type → Type where
  | getNode (id : RowId) : DbCmd (Option Node)
  | getNodeByFqn (fqn : String) : DbCmd (Option Node)
  | findNodeByPosition (uri : String) (line col : Int) : DbCmd (Option Node)
  | getNeighbors (id : RowId) (edgeType : EdgeType) (dir : Direction) : DbCmd (List Neighbor)
  | listNodes (language : Option String) : DbCmd (List Node)
  | upsertEdge (e : Edge) : DbCmd RowId
  | invalidateOutgoingCalls (anchorId : RowId) : DbCmd Unit
  | getCalleesCacheHash (anchorId : RowId) : DbCmd (Option String)
  | setCalleesCacheHash (anchorId : RowId) (hash : String) : DbCmd Unit
  | isMaterialized (anchorId : RowId) (edgeType : EdgeType) : DbCmd Bool
  | markMaterialized (anchorId : RowId) (edgeType : EdgeType) : DbCmd Unit
  | updateNodeConstruct (id : RowId) (construct : String) : DbCmd Unit
  | updateNodeSignature (id : RowId) (signature : String) : DbCmd Unit
  | updateNodeSignatureByFqn (fqn signature : String) : DbCmd Unit

/-- What the db actor does on a command. -/
def DbCmd.exec {β : Type} : DbCmd β → Db → Except DbError (β × Db)
  | .getNode id, db => .ok (db.getNode id, db)
  | .getNodeByFqn fqn, db => .ok (db.getNodeByFqn fqn, db)
  | .findNodeByPosition uri line col, db => .ok (db.findNodeByPosition uri line col, db)
  | .getNeighbors id t dir, db => .ok (db.getNeighbors id t dir, db)
  | .listNodes language, db => .ok (db.listNodes language, db)
  | .upsertEdge e, db => do
    let (db, id) ← db.upsertEdge e
    .ok (id, db)
  | .invalidateOutgoingCalls id, db => .ok ((), db.invalidateOutgoingCalls id)
  | .getCalleesCacheHash id, db => .ok (db.calleesCache id, db)
  | .setCalleesCacheHash id hash, db => do
    let db ← db.setCalleesCacheHash id hash
    .ok ((), db)
  | .isMaterialized id t, db => .ok (db.materialized id t, db)
  | .markMaterialized id t, db => do
    let db ← db.markMaterialized id t
    .ok ((), db)
  | .updateNodeConstruct id construct, db => .ok ((), db.updateNodeConstruct id construct)
  | .updateNodeSignature id signature, db => .ok ((), db.updateNodeSignature id signature)
  | .updateNodeSignatureByFqn fqn signature, db =>
    .ok ((), db.updateNodeSignatureByFqn fqn signature)

/-- A live client of one language's server. -/
structure Client where
  languageId : String
deriving DecidableEq

/-- The server's observed health at the moment of a degraded query. -/
inductive LspStatus where
  | down
  | degraded
deriving DecidableEq

/-- `AcquireError`, without its texts. -/
inductive AcquireError where
  | down
  | restarting
  | startFailed
deriving DecidableEq

/-- Which relation a background refresh re-materializes. -/
inductive RefreshKind where
  | calls (dir : Direction)
  | references
deriving DecidableEq

/-- A background refresh kicked off by a query. -/
structure Refresh where
  anchorId : RowId
  edgeType : EdgeType
  kind : RefreshKind
  anchor : Node
  client : Client
deriving DecidableEq

/-- The commands of a query. -/
inductive Cmd : Type → Type 1 where
  | db {β : Type} (c : DbCmd β) : Cmd β
  /-- `confine`, then `fs::read_to_string`. -/
  | readFileText (uri : String) : Cmd (Option String)
  /-- `didOpen` / `didChange`. -/
  | openDocument (client : Client) (uri text : String) : Cmd (Except LspError Unit)
  /-- One timed round trip. -/
  | request {β : Type} (client : Client) (r : Request β) : Cmd (Except LspError β)
  /-- `SupervisorHandle::acquire`. -/
  | acquire (language : String) : Cmd (Except AcquireError Unit)
  /-- `tokio::spawn` of a refresh, unless one is in flight for its anchor. -/
  | spawnRefresh (r : Refresh) : Cmd Unit

/-- A query (or a part of one) with result `α`. -/
abbrev QueryM (α : Type) := Prog Cmd α

/-! ## The world -/

/-- What the log keeps of a command. -/
inductive Event where
  | trip (method : Method) (outcome : Outcome)
  | acquire (language : String) (ok : Bool)
  | invalidated (anchorId : RowId)
  | neighbors (id : RowId) (edgeType : EdgeType) (dir : Direction) (rows : List Neighbor)
deriving DecidableEq

/-- What all tasks share. -/
structure World where
  db : Db
  /-- The text a query reads for a uri: confined to the root, and valid UTF-8. -/
  text : String → Option String
  /-- The text each document was last opened with, by server. -/
  opened : Client → String → Option String
  /-- The refreshes spawned and not yet finished. -/
  refreshes : List Refresh
  /-- The events so far, oldest first. -/
  log : List Event

/-- The language servers and their supervisors. -/
structure Servers where
  reply : {β : Type} → World → Client → Request β → Except LspError β
  openReply : World → Client → String → String → Except LspError Unit
  acquireReply : World → String → Except AcquireError Unit

/-- The event a db command leaves in the log. -/
def DbCmd.event? {β : Type} : DbCmd β → Db → Option Event
  | .invalidateOutgoingCalls id, _ => some (.invalidated id)
  | .getNeighbors id t dir, db => some (.neighbors id t dir (db.getNeighbors id t dir))
  | _, _ => none

/-- Note an event. -/
def World.note (w : World) (e : Event) : World := { w with log := w.log ++ [e] }

/-- The world with other tables. -/
def World.setDb (w : World) (tables : Db) : World := { w with db := tables }

/-- What a command does. -/
def Cmd.handle (S : Servers) {β : Type} : Cmd β → World → Except DbError β × World
  | .db c, w =>
    match c.exec w.db with
    | .ok (b, tables) =>
      (.ok b, { w with db := tables, log := w.log ++ (c.event? w.db).toList })
    | .error e => (.error e, w)
  | .readFileText uri, w => (.ok (w.text uri), w)
  | .openDocument client uri text, w =>
    (.ok (S.openReply w client uri text),
      { w with opened := fun c u => if c = client ∧ u = uri then some text else w.opened c u })
  | .request client r, w =>
    let reply := S.reply w client r
    (.ok reply, w.note (.trip r.method (.ofReply reply)))
  | .acquire language, w =>
    let reply := S.acquireReply w language
    (.ok reply, w.note (.acquire language reply.isOk))
  | .spawnRefresh r, w =>
    (.ok (), if w.refreshes.any fun r' => r'.anchorId = r.anchorId ∧ r'.edgeType = r.edgeType
      then w else { w with refreshes := w.refreshes ++ [r] })

/-- Run a query with nothing else going on. -/
abbrev QueryM.run {α : Type} (S : Servers) (q : QueryM α) (w : World) :
    Except DbError α × World := Prog.run (Cmd.handle S) q w

/-- The query, run alone, ends without an error, and in a result and a world with `Q`. -/
abbrev QueryM.Returns {α : Type} (S : Servers) (q : QueryM α) (w : World)
    (Q : α → World → Prop) : Prop := Prog.Returns (Cmd.handle S) q w Q

section World

variable (w : World)

/-- An event is no change of the graph. -/
@[simp] theorem note_db (e : Event) : (w.note e).db = w.db := rfl

/-- An event is no change of a file. -/
@[simp] theorem note_text (e : Event) : (w.note e).text = w.text := rfl

/-- An event comes last in the log. -/
@[simp] theorem note_log (e : Event) : (w.note e).log = w.log ++ [e] := rfl

/-- The tables are replaced. -/
@[simp] theorem setDb_db (tables : Db) : (w.setDb tables).db = tables := rfl

/-- Replacing the tables leaves the files. -/
@[simp] theorem setDb_text (tables : Db) : (w.setDb tables).text = w.text := rfl

/-- Replacing the tables leaves the log. -/
@[simp] theorem setDb_log (tables : Db) : (w.setDb tables).log = w.log := rfl

end World

section Run

variable {α β : Type} (S : Servers) (w : World)

/-- A result is returned at once. -/
@[simp] theorem run_pure (a : α) : (pure a : QueryM α).run S w = (.ok a, w) := rfl

/-- The rest of a query runs where its first part ended. -/
theorem run_bind (q : QueryM α) (f : α → QueryM β) :
    (q >>= f).run S w =
      match q.run S w with
      | (.ok a, w') => (f a).run S w'
      | (.error e, w') => (.error e, w') := by
  unfold QueryM.run
  rw [Prog.run_bind]
  rcases Prog.run (Cmd.handle S) q w with ⟨e | a, w'⟩ <;> rfl

/-- After a first part that succeeds, a run is the run of the rest. -/
theorem run_bind_of_ok {q : QueryM α} {a : α} {w' : World} (f : α → QueryM β)
    (hq : q.run S w = (.ok a, w')) : (q >>= f).run S w = (f a).run S w' :=
  Prog.run_bind_of_ok (Cmd.handle S) hq

end Run

/-- A query succeeds if its first part does and then the rest. -/
theorem run_bind_eq_ok {α β : Type} {S : Servers} {w w'' : World} {q : QueryM α}
    {f : α → QueryM β} {b : β} :
    (q >>= f).run S w = (.ok b, w'') ↔
      ∃ a w', q.run S w = (.ok a, w') ∧ (f a).run S w' = (.ok b, w'') :=
  Prog.run_bind_eq_ok (Cmd.handle S)

/-! ## The commands as queries -/

/-- A statement of the db actor. -/
def db {β : Type} (c : DbCmd β) : QueryM β := .perform (.db c)

/-- `read_file_text`. -/
def readFileText (uri : String) : QueryM (Option String) := .perform (.readFileText uri)

namespace Client

variable (client : Client)

/-- `open_document`. -/
def openDocument (uri text : String) : QueryM (Except LspError Unit) :=
  .perform (.openDocument client uri text)

/-- One round trip. -/
def request {β : Type} (r : Request β) : QueryM (Except LspError β) :=
  .perform (.request client r)

end Client

section Run

variable {β : Type} (S : Servers) (w : World)

/-- A command of the graph, with its event. -/
theorem run_db (c : DbCmd β) :
    (db c).run S w =
      match c.exec w.db with
      | .ok (b, tables) =>
        (.ok b, { w with db := tables, log := w.log ++ (c.event? w.db).toList })
      | .error e => (.error e, w) :=
  Prog.run_perform (Cmd.handle S) _ w

/-- A command that only reads, and that is not logged, leaves the world as it is. -/
theorem run_db_read {c : DbCmd β} {b : β} (hexec : c.exec w.db = .ok (b, w.db))
    (hevent : c.event? w.db = none) : (db c).run S w = (.ok b, w) := by
  simp [run_db, hexec, hevent]

/-- A read by id. -/
@[simp] theorem run_getNode (id : RowId) :
    (db (.getNode id)).run S w = (.ok (w.db.getNode id), w) :=
  run_db_read S w rfl rfl

/-- A read by fqn. -/
@[simp] theorem run_getNodeByFqn (fqn : String) :
    (db (.getNodeByFqn fqn)).run S w = (.ok (w.db.getNodeByFqn fqn), w) :=
  run_db_read S w rfl rfl

/-- A read by position. -/
@[simp] theorem run_findNodeByPosition (uri : String) (line col : Int) :
    (db (.findNodeByPosition uri line col)).run S w =
      (.ok (w.db.findNodeByPosition uri line col), w) :=
  run_db_read S w rfl rfl

/-- A read of the nodes. -/
@[simp] theorem run_listNodes (language : Option String) :
    (db (.listNodes language)).run S w = (.ok (w.db.listNodes language), w) :=
  run_db_read S w rfl rfl

/-- A read of the cache row. -/
@[simp] theorem run_getCalleesCacheHash (id : RowId) :
    (db (.getCalleesCacheHash id)).run S w = (.ok (w.db.calleesCache id), w) :=
  run_db_read S w rfl rfl

/-- A read of the marker. -/
@[simp] theorem run_isMaterialized (id : RowId) (t : EdgeType) :
    (db (.isMaterialized id t)).run S w = (.ok (w.db.materialized id t), w) :=
  run_db_read S w rfl rfl

/-- A read of the neighbors is noted. -/
@[simp] theorem run_getNeighbors (id : RowId) (t : EdgeType) (dir : Direction) :
    (db (.getNeighbors id t dir)).run S w =
      (.ok (w.db.getNeighbors id t dir), w.note (.neighbors id t dir (w.db.getNeighbors id t dir))) :=
  Prog.run_perform (Cmd.handle S) _ w

/-- An invalidation is one command, and it succeeds. -/
@[simp] theorem run_invalidateOutgoingCalls (id : RowId) :
    (db (.invalidateOutgoingCalls id)).run S w =
      (.ok (), (w.note (.invalidated id)).setDb (w.db.invalidateOutgoingCalls id)) :=
  Prog.run_perform (Cmd.handle S) _ w

/-- A cache row is written if its node is there. -/
theorem run_setCalleesCacheHash {id : RowId} (h : w.db.hasNode id = true) (hash : String) :
    (db (.setCalleesCacheHash id hash)).run S w = (.ok (), w.setDb { w.db with
      calleesCache := fun a => if a = id then some hash else w.db.calleesCache a }) := by
  simp [run_db, DbCmd.exec, DbCmd.event?, Db.setCalleesCacheHash, h, bind, Except.bind,
    World.setDb]

/-- The server is told the text, whatever it replies. -/
@[simp] theorem run_openDocument (client : Client) (uri text : String) :
    (client.openDocument uri text).run S w = (.ok (S.openReply w client uri text),
      { w with opened := fun c u => if c = client ∧ u = uri then some text else w.opened c u }) :=
  Prog.run_perform (Cmd.handle S) _ w

/-- The text of a file is read. -/
@[simp] theorem run_readFileText (uri : String) :
    (readFileText uri).run S w = (.ok (w.text uri), w) :=
  Prog.run_perform (Cmd.handle S) _ w

/-- A round trip is noted with its outcome. -/
@[simp] theorem run_request (client : Client) (r : Request β) :
    (client.request r).run S w = (.ok (S.reply w client r),
      w.note (.trip r.method (.ofReply (S.reply w client r)))) :=
  Prog.run_perform (Cmd.handle S) _ w

end Run

end Semnav.Query
