import Semnav.Indexer.Discovery

/-!
# The file watcher

What the watcher makes of the paths it is told of (`src/indexer/watcher.rs`): a path is put back
onto the literal root, filtered by the root's `.gitignore` and the adapters, and its uri is held
until the events pause; then each uri held is reconciled.

The actor's loop is a step relation: between two of its steps the files change, other tasks
write to the graph, and further paths queue up.  A timer may elapse, and the wait for queries may
end, at any time.
-/

namespace Semnav.Indexer

open Semnav.ForStd Semnav.Adapters

namespace Workspace

variable (ws : Workspace)

/-- What is at an absolute path, links followed.  Nothing is said of paths that are below neither
    form of the root: the watch reports none. -/
def nodeAt (path : Path) : Option SourceTree :=
  match path.dropPrefix? ws.root with
  | some rel => ws.tree.find rel
  | none => (path.dropPrefix? ws.canonicalRoot).bind ws.tree.find

/-- `Path::is_dir`. -/
def isDirAt (path : Path) : Bool := (ws.nodeAt path).any (·.isDir)

/-- The bytes of the file at a path. -/
def bytesAt (path : Path) : Option FileBytes :=
  match ws.nodeAt path with
  | some (.file content) => content
  | _ => none

end Workspace

/-- What the watcher's actor is set up with. -/
structure WatcherActor where
  root : Path
  canonicalRoot : Path
  gitignore : Gitignore

/-- `FsWatcher::spawn`, with `load_gitignore` of the root. -/
def FsWatcher.spawn (ws : Workspace) : WatcherActor where
  root := ws.root
  canonicalRoot := ws.canonicalRoot
  gitignore := ws.rules.gitignore

namespace WatcherActor

variable (actor : WatcherActor)

/-- `rebase_onto_literal_root`. -/
def rebaseOntoLiteralRoot (path : Path) : Path :=
  match path.dropPrefix? actor.canonicalRoot with
  | some rel => actor.root ++ rel
  | none => path

/-- `Actor::filter`. -/
def filter (adapters : List LanguageAdapter) (isDir : Path → Bool) (path : Path) :
    Option String :=
  let path := actor.rebaseOntoLiteralRoot path
  if actor.gitignore path (isDir path) = .ignore then none
  else
    let uri := pathToUri path
    (selectForUri adapters uri).map fun _ => uri

/-- `pending.insert(uri)`, for a path that passes the filter. -/
def receive (adapters : List LanguageAdapter) (isDir : Path → Bool) (pending : List String)
    (path : Path) : List String :=
  match actor.filter adapters isDir path with
  | some uri => pending.insert uri
  | none => pending

/-- What is pending after the paths of a burst of events. -/
def pendingAfter (adapters : List LanguageAdapter) (isDir : Path → Bool) (paths : List Path) :
    List String :=
  paths.foldl (actor.receive adapters isDir) []

end WatcherActor

/-- Reconcile the uris drained, one after the other; the failure of one is logged. -/
def reconcileAll (env : TaskEnv) (S : TaskServer) (uris : List String) (w : TaskWorld) :
    TaskWorld :=
  uris.foldl (fun w uri => ((env.reconcileUri uri).run (TaskCmd.handle env.hasher S) w).2) w

/-! ## The actor's loop -/

/-- `mpsc::channel::<PathBuf>(256)` -/
def eventCapacity : Nat := 256

/-- What the actor shares with everybody else. -/
structure WatchWorld extends TaskWorld where
  isDir : Path → Bool
  /-- How often each file changed so far. -/
  version : String → Nat

/-- What others may do between two steps of the actor: anything, but a file that changes has a
    later version. -/
structure WatchWorld.Moves (w w' : WatchWorld) : Prop where
  version_le : ∀ uri, w.version uri ≤ w'.version uri
  files : ∀ uri, w'.version uri = w.version uri → w'.files uri = w.files uri

/-- Where the actor is. -/
inductive WatcherPc where
  /-- At the `select!`, between two iterations of the loop. -/
  | selecting
  /-- In the loop over the uris drained, waiting for queries. -/
  | draining (uris : List String)
  /-- In `reconcile_uri`, with what is left of it. -/
  | reconciling (uri : String) (rest : TaskM Unit) (uris : List String)
  | stopped

/-- A record of what happened, kept by an observer. -/
inductive WatchEntry where
  /-- A path that passes the filter was received when its file had this version. -/
  | received (uri : String) (version : Nat)
  /-- `reconcile_uri` is called. -/
  | started (uri : String)
  /-- It reads the text of the file, which has this version. -/
  | read (uri : String) (text : Option String) (version : Nat)

/-- The actor, its event channel and the world. -/
structure WatchState where
  world : WatchWorld
  events : List Path
  pending : List String
  /-- Is the timer armed? -/
  debounce : Bool
  pc : WatcherPc
  history : List WatchEntry

/-- The actor as `FsWatcher::spawn` starts it. -/
def WatchState.spawn (w : WatchWorld) : WatchState where
  world := w
  events := []
  pending := []
  debounce := false
  pc := .selecting
  history := []

/-- A path is received: the timer is armed anew if it passes the filter. -/
def WatchState.receive (actor : WatcherActor) (adapters : List LanguageAdapter)
    (s : WatchState) (path : Path) : WatchState :=
  match actor.filter adapters s.world.isDir path with
  | some uri =>
    { s with
      pending := s.pending.insert uri
      debounce := true
      history := s.history ++ [.received uri (s.world.version uri)] }
  | none => s

/-- What the observer records of a command. -/
def TaskCmd.observed (w : WatchWorld) {β : Type} : TaskCmd β → List WatchEntry
  | .readToString uri => [.read uri ((w.files uri).bind decodeUtf8) (w.version uri)]
  | _ => []

/-- The reconcile issues a command; an error ends it and is logged. -/
def WatchState.perform (H : Hasher) (S : TaskServer) (s : WatchState) (uri : String) {β : Type}
    (c : TaskCmd β) (k : β → TaskM Unit) (uris : List String) : WatchState :=
  let (reply, w') := c.handle H S s.world.toTaskWorld
  { s with
    world := { s.world with toTaskWorld := w' }
    pc := match reply with
      | .ok b => .reconciling uri (k b) uris
      | .error _ => .draining uris
    history := s.history ++ c.observed s.world }

/-- The steps of the actor and of the world around it. -/
inductive WatchStep (actor : WatcherActor) (env : TaskEnv) (S : TaskServer) :
    WatchState → WatchState → Prop where
  | world {s : WatchState} {w' : WatchWorld} (hmoves : s.world.Moves w') :
      WatchStep actor env S s { s with world := w' }
  /-- The callback of `notify` hands off a path, once there is room. -/
  | notify {s : WatchState} (path : Path) (hroom : s.events.length < eventCapacity) :
      WatchStep actor env S s { s with events := s.events ++ [path] }
  | receive {s : WatchState} {path : Path} {events : List Path} (hpc : s.pc = .selecting)
      (hevents : s.events = path :: events) :
      WatchStep actor env S s ({ s with events := events }.receive actor env.adapters path)
  /-- The timer has elapsed; the `select!` is biased: no event is there. -/
  | expire {s : WatchState} {uris : List String} (hpc : s.pc = .selecting)
      (hevents : s.events = []) (harmed : s.debounce = true) (hdrain : uris.Perm s.pending) :
      WatchStep actor env S s { s with debounce := false, pending := [], pc := .draining uris }
  | start {s : WatchState} {uri : String} {uris : List String}
      (hpc : s.pc = .draining (uri :: uris)) :
      WatchStep actor env S s
        { s with
          pc := .reconciling uri (env.reconcileUri uri) uris
          history := s.history ++ [.started uri] }
  | command {s : WatchState} {uri : String} {β : Type} {c : TaskCmd β} {k : β → TaskM Unit}
      {uris : List String} (hpc : s.pc = .reconciling uri (.op c k) uris) :
      WatchStep actor env S s (s.perform env.hasher S uri c k uris)
  | reconciled {s : WatchState} {uri : String} {uris : List String}
      (hpc : s.pc = .reconciling uri (.pure ()) uris) :
      WatchStep actor env S s { s with pc := .draining uris }
  | drained {s : WatchState} (hpc : s.pc = .draining []) :
      WatchStep actor env S s { s with pc := .selecting }
  | shutdown {s : WatchState} (hpc : s.pc = .selecting) :
      WatchStep actor env S s { s with pc := .stopped }

/-- Any number of steps. -/
abbrev WatchRun (actor : WatcherActor) (env : TaskEnv) (S : TaskServer) :
    WatchState → WatchState → Prop :=
  Relation.ReflTransGen (WatchStep actor env S)

end Semnav.Indexer
