import Semnav.Lsp.Server

/-!
# The pool of supervisors

One supervisor per language in a lazily filled map (`supervisor_for` and `restart_language` of
`src/query/pool.rs`).  The supervisors are actors of their own: whoever got a handle may send to
it, and the loops of all of them, the processes they started and the callers interleave.
-/

namespace Semnav.Query

open Semnav.ForStd Semnav.Adapters Semnav.Lsp

/-- Where the loop of a supervisor is. -/
inductive Phase where
  | idle
  | busy (event : SupervisorEvent) (rest : SupervisorM SupervisorReply)
  /-- Waiting for the factory. -/
  | starting (event : SupervisorEvent)
      (k : Except StartError StartedServer → SupervisorM SupervisorReply)
      (rest : Prog FactoryCmd (Except StartError StartedServer))
  | stopped

/-- A supervisor's actor. -/
structure SupervisorTask where
  factory : RealServerFactory
  sup : Supervisor
  inbox : List SupervisorMsg
  phase : Phase

/-- The map, all actors that were spawned and all processes that these have started. -/
structure Pool where
  adapters : List LanguageAdapter
  supervisors : List (String × Nat)
  tasks : List SupervisorTask
  servers : List ServerProcess
  /-- What `restart_language` has removed and is about to shut down. -/
  resets : List Nat

def Pool.new (adapters : List LanguageAdapter) : Pool := ⟨adapters, [], [], [], []⟩

/-- What happens next. -/
inductive PoolAction where
  /-- The critical section of `supervisor_for`. -/
  | supervisorFor (language : String)
  /-- A caller's message to a supervisor. -/
  | acquire (i : Nat)
  | reportFailure (i : Nat) (kind : FailureKind)
  /-- The critical section of `restart_language`. -/
  | restartLanguage (language : Option String)
  /-- Its message to a supervisor that it has removed. -/
  | sendShutdown (i : Nat)
  /-- A supervisor takes an event. -/
  | take (i : Nat) (event : SupervisorEvent)
  /-- A supervisor goes on, at a time, and where the factory is asked with an outcome. -/
  | advance (i : Nat) (now : Int) (outcome : Except String Unit)
  /-- A process ends, for whatever reason. -/
  | serverExit (server : ServerId)

/-- Carry out a command of the actor. -/
def SupervisorTask.exec {β : Type} (t : SupervisorTask) (event : SupervisorEvent) (now : Int)
    (servers : List ServerProcess) (c : SupervisorCmd β) (k : β → SupervisorM SupervisorReply) :
    SupervisorTask × List ServerProcess :=
  match c with
  | .get => ({ t with phase := .busy event (k t.sup) }, servers)
  | .update f => ({ t with sup := f t.sup, phase := .busy event (k ()) }, servers)
  | .start => ({ t with phase := .starting event k t.factory.start }, servers)
  | .recordMeta _ _ => ({ t with phase := .busy event (k ()) }, servers)
  | .nowSecs => ({ t with phase := .busy event (k now) }, servers)
  | .spawnShutdown server => ({ t with phase := .busy event (k ()) }, release server servers)
  | .shutdown server => ({ t with phase := .busy event (k ()) }, release server servers)
  | .dropServer server => ({ t with phase := .busy event (k ()) }, release server servers)

/-- The loop goes on: with a command, with one of the factory, or to the next round. -/
def SupervisorTask.advance (t : SupervisorTask) (i : Nat) (now : Int) (outcome : Except String Unit)
    (servers : List ServerProcess) : Option (SupervisorTask × List ServerProcess) :=
  match t.phase with
  | .busy _ (.pure .stopped) => some ({ t with phase := .stopped }, servers)
  | .busy _ (.pure _) => some ({ t with phase := .idle }, servers)
  | .busy event (.op c k) => some (t.exec event now servers c k)
  | .starting event k (.pure res) => some ({ t with phase := .busy event (k res) }, servers)
  | .starting event k (.op c rest) =>
    let (b, servers) := c.exec outcome t.factory.language i servers
    some ({ t with phase := .starting event k (rest b) }, servers)
  | .idle | .stopped => none

/-- Has the process ended? -/
def exited (servers : List ServerProcess) (server : ServerId) : Bool :=
  (servers[server]?.map fun p => !p.running).getD false

/-- An idle loop takes an event: an exit that the watcher has published, a timer that is armed,
    or the next message.  That all handles are dropped comes after a shutdown only. -/
def SupervisorTask.take (t : SupervisorTask) (servers : List ServerProcess) :
    SupervisorEvent → Option SupervisorTask
  | .childExit =>
    if t.sup.currentExit.any (exited servers) then
      some { t with phase := .busy .childExit (Supervisor.handle .childExit) }
    else none
  | .timer =>
    if t.sup.restartTimer.isSome then
      some { t with phase := .busy .timer (Supervisor.handle .timer) }
    else none
  | .msg m =>
    match t.inbox with
    | next :: inbox =>
      if next = m then
        some { t with inbox, phase := .busy (.msg m) (Supervisor.handle (.msg m)) }
      else none
    | [] => none
  | .closed => none

/-- Has the actor ended, so that nothing can be sent to it? -/
def SupervisorTask.ended (t : SupervisorTask) : Bool :=
  match t.phase with
  | .stopped => true
  | _ => false

def SupervisorTask.idle (t : SupervisorTask) : Bool :=
  match t.phase with
  | .idle => true
  | _ => false

namespace Pool

variable (pool : Pool)

/-- `supervisor_for`. -/
def supervisorFor (language : String) : Pool :=
  match pool.supervisors.lookup language with
  | some _ => pool
  | none =>
    { pool with
      supervisors := (language, pool.tasks.length) :: pool.supervisors
      tasks := pool.tasks ++
        [⟨⟨language, pool.adapters⟩, .spawn language .defaultReal, [], .idle⟩] }

/-- A message for the inbox of a supervisor; nothing happens where the actor has ended. -/
def send (i : Nat) (m : SupervisorMsg) : Pool :=
  { pool with tasks := pool.tasks.modify i fun t =>
      if t.ended then t else { t with inbox := t.inbox ++ [m] } }

/-- `restart_language`, up to its first message. -/
def restartLanguage : Option String → Pool
  | some language =>
    match pool.supervisors.lookup language with
    | some i =>
      { pool with
        supervisors := pool.supervisors.filter (·.1 ≠ language)
        resets := pool.resets ++ [i] }
    | none => pool
  | none =>
    { pool with
      supervisors := []
      resets := pool.resets ++ pool.supervisors.map (·.2) }

/-- What an action does, if it can happen. -/
def act : PoolAction → Option Pool
  | .supervisorFor language => some (pool.supervisorFor language)
  | .acquire i => some (pool.send i .acquire)
  | .reportFailure i kind => some (pool.send i (.reportFailure kind))
  | .restartLanguage language => some (pool.restartLanguage language)
  | .sendShutdown i =>
    if i ∈ pool.resets then
      some { pool.send i .shutdown with resets := pool.resets.erase i }
    else none
  | .take i event =>
    match pool.tasks[i]? with
    | some t =>
      if t.idle then
        (t.take pool.servers event).map fun t => { pool with tasks := pool.tasks.set i t }
      else none
    | none => none
  | .advance i now outcome =>
    match pool.tasks[i]? with
    | some t => (t.advance i now outcome pool.servers).map fun (t, servers) =>
        { pool with tasks := pool.tasks.set i t, servers }
    | none => none
  | .serverExit server =>
    some { pool with servers := pool.servers.modify server fun p => { p with running := false } }

/-- A run. -/
def run : List PoolAction → Pool → Option Pool
  | [], pool => some pool
  | action :: actions, pool =>
    match pool.act action with
    | some pool => run actions pool
    | none => none

end Pool

end Semnav.Query
