import Semnav.Indexer.Pipeline
import Semnav.Lsp.Server

/-!
# The `index` command

`semnav index` (`run_index` of `src/main.rs`, `src/indexer/runner.rs`): for one language after the
other the server is acquired, the language's files are indexed, and the server is shut down.  A
language that fails leaves the others to be indexed.

What the supervisor hands out, what the walk of a pass discovers and what the servers answer are
parameters.
-/

namespace Semnav.Indexer

open Semnav.ForStd Semnav.Graph Semnav.Adapters

/-- What the command runs against. -/
structure IndexHost where
  /-- `create_dir_all` of the directory of the servers. -/
  createsServersDir : Bool
  /-- `DbActor::spawn`. -/
  opensDb : Bool
  /-- Does the supervisor of a language hand out a client? -/
  acquires : String → Bool
  /-- The files that the walk discovers in the pass of a language; `none` if the walk fails. -/
  discovers : String → Option (List String)
  /-- The symbols that the server of a language answers for a file. -/
  fetch : String → String → Option (List DocumentSymbol)

/-- What is done to the supervisor of a language, and what is printed of its pass. -/
inductive RunnerEvent where
  | acquire (language : String)
  | reportFailure (language : String)
  | shutdown (language : String)
  | indexed (language : String) (stats : IndexStats)
  | failed (language : String)
deriving DecidableEq

structure RunnerWorld where
  db : Db
  events : List RunnerEvent

namespace RunnerWorld

def log (w : RunnerWorld) (events : List RunnerEvent) : RunnerWorld :=
  { w with events := w.events ++ events }

end RunnerWorld

/-- Why a pass has failed. -/
inductive IndexError where
  | noAdapter
  | acquire
  | walk
  | db (e : DbError)

/-- `index_repository` with the walk that it starts with. -/
def indexWalked (H : Hasher) (adapters : List LanguageAdapter) (rootUri : String) (host : IndexHost)
    (language : String) (db : Db) : Except IndexError IndexStats × Db :=
  match host.discovers language with
  | none => (.error .walk, db)
  | some files =>
    match (indexRepository H adapters rootUri language files).run (host.fetch language) db with
    | (.ok stats, db) => (.ok stats, db)
    | (.error e, db) => (.error (.db e), db)

/-- One language's pass end to end. -/
def indexLanguage (H : Hasher) (adapters : List LanguageAdapter) (rootUri : String)
    (host : IndexHost) (language : String) (w : RunnerWorld) :
    Except IndexError IndexStats × RunnerWorld :=
  if (Lsp.adapterForLanguage adapters language).isNone then (.error .noAdapter, w)
  else
    let w := w.log [.acquire language]
    if host.acquires language then
      match indexWalked H adapters rootUri host language w.db with
      | (.ok stats, db) => (.ok stats, { w with db := db }.log [.shutdown language])
      | (.error e, db) =>
        (.error e, { w with db := db }.log [.reportFailure language, .shutdown language])
    else (.error .acquire, w)

/-- The loop over the languages, with the number of those that have failed. -/
def indexLanguages (H : Hasher) (adapters : List LanguageAdapter) (rootUri : String)
    (host : IndexHost) : List String → Nat → RunnerWorld → Nat × RunnerWorld
  | [], failures, w => (failures, w)
  | language :: rest, failures, w =>
    match indexLanguage H adapters rootUri host language w with
    | (.ok stats, w) =>
      indexLanguages H adapters rootUri host rest failures (w.log [.indexed language stats])
    | (.error _, w) =>
      indexLanguages H adapters rootUri host rest (failures + 1) (w.log [.failed language])

/-- The exit code of the process. -/
inductive ExitCode where
  | success
  | failure
deriving DecidableEq

/-- `run_index`: it fails only if every language has failed. -/
def runIndex (H : Hasher) (adapters : List LanguageAdapter) (rootUri : String) (host : IndexHost)
    (w : RunnerWorld) : ExitCode × RunnerWorld :=
  if !host.createsServersDir then (.failure, w)
  else if !host.opensDb then (.failure, w)
  else
    let languages := adapters.map (·.languageName)
    let (failures, w) := indexLanguages H adapters rootUri host languages 0 w
    (if failures = languages.length then .failure else .success, w)

end Semnav.Indexer
