import Mathlib.Logic.Relation
import Semnav.Daemon.Client

/-!
# The sessions of a serve process with its daemons

Both ends of each connection: the tasks of the `serve` process (`Daemon.Client`), and for each
connection the lines under way and the task that serves it (`handle_connection` of
`src/daemon/server.rs`).  Requests and responses are as `read_line` reads them.  The daemon of a
connection may be gone at any time, and the next one may have another daemon.  What every caller was
asked, what was sent, dispatched and answered is kept beside the state.
-/

namespace Semnav.Daemon

open Semnav.ForStd

/-- The daemon behind the connections.  A dispatched request runs among other tasks, so what it
    returns and leaves is a relation. -/
structure Service (Req Val σ : Type) where
  dispatch : Req → σ → Except String Val → σ → Prop
  /-- The response to `DaemonRequest::Shutdown`, which is not dispatched. -/
  stop : Req → Option Val

/-- The daemon's end of a connection. -/
structure Connection (Req Val : Type) where
  /-- Written by the client's actor and not read yet. -/
  requests : List (Nat × Req)
  /-- `handle_connection` is in `dispatch`, or about to answer a `Shutdown`. -/
  serving : Option (Nat × Req)
  /-- Written and not read by the client's reader. -/
  responses : List (Nat × Except String Val)
  /-- `handle_connection` has returned, or its process is gone. -/
  ended : Bool

/-- A connection without any lines. -/
def Connection.fresh {Req Val : Type} : Connection Req Val := ⟨[], none, [], false⟩

/-- A command that a caller has sent, by its connection and its reply channel. -/
structure Sent (Req : Type) where
  caller : Nat
  link : LinkId
  slot : Nat
  request : Req

/-- A request that a connection's task has read, by its connection and its envelope's id. -/
structure Dispatched (Req : Type) where
  link : LinkId
  id : Nat
  request : Req

structure Session (Req Val σ : Type) where
  tasks : Tasks Req Val
  daemon : σ
  connections : LinkId → Connection Req Val
  /-- What each caller was asked. -/
  asked : Nat → Option Req
  sent : List (Sent Req)
  dispatched : List (Dispatched Req)
  answered : List (Dispatched Req × Except String Val)

variable {Req Val σ : Type}

/-- `run_serve` has made its first connection. -/
def Session.boot (s : σ) : Session Req Val σ where
  tasks := .boot Req Val
  daemon := s
  connections _ := .fresh
  asked _ := none
  sent := []
  dispatched := []
  answered := []

/-- With another end of connection `k`. -/
def Session.connect (S : Session Req Val σ) (k : LinkId) (conn : Connection Req Val) :
    Session Req Val σ :=
  { S with connections := Function.update S.connections k conn }

/-- The steps of the `serve` process that put nothing on a connection and take nothing from it, and
    that nothing is noted of. -/
def Session.Silent (S : Session Req Val σ) (t : TaskId) (e : TaskStep Req Val) : Prop :=
  match S.tasks.procs t with
  | .caller (.sending _ _ k) => (S.tasks.shared.links k).closed = true
  | .caller .unstarted => False
  | .actor (.selecting _ _) => ∀ k, t = .actor k → (S.tasks.shared.links k).queue = []
  | .reader _ => ∀ id result, e ≠ .line id result
  | _ => True

/-- One step of the `serve` process, of a connection's task or of a daemon. -/
inductive SessionStep (D : Service Req Val σ) (env : σ → σ → Prop) :
    Session Req Val σ → Session Req Val σ → Prop where
  | silent {S : Session Req Val σ} {t : TaskId} {e : TaskStep Req Val} {T : Tasks Req Val}
      (hsilent : S.Silent t e) (hstep : S.tasks.step taskStep t e = some T) :
      SessionStep D env S { S with tasks := T }
  | call {S : Session Req Val σ} {n : Nat} {request : Req} {T : Tasks Req Val}
      (hstep : S.tasks.step taskStep (.caller n) (.call request) = some T) :
      SessionStep D env S
        { S with tasks := T, asked := Function.update S.asked n (some request) }
  | send {S : Session Req Val σ} {n : Nat} {request : Req} {attempt : Try} {k : LinkId}
      {T : Tasks Req Val}
      (hpc : S.tasks.procs (.caller n) = .caller (.sending request attempt k))
      (hclosed : (S.tasks.shared.links k).closed = false)
      (hstep : S.tasks.step taskStep (.caller n) .go = some T) :
      SessionStep D env S
        { S with tasks := T, sent := S.sent ++ [⟨n, k, (S.tasks.shared.links k).sent, request⟩] }
  /-- The actor begins to write: from here on the daemon may have the line. -/
  | write {S : Session Req Val σ} {k : LinkId} {pending : Pending} {nextId : Nat} {cmd : Cmd Req}
      {rest : List (Cmd Req)} {T : Tasks Req Val}
      (hpc : S.tasks.procs (.actor k) = .actor (.selecting pending nextId))
      (hqueue : (S.tasks.shared.links k).queue = cmd :: rest)
      (hstep : S.tasks.step taskStep (.actor k) .go = some T) :
      SessionStep D env S (Session.connect { S with tasks := T } k { S.connections k with
        requests := (S.connections k).requests ++ [(nextId, cmd.request)] })
  | deliver {S : Session Req Val σ} {k : LinkId} {id : Nat} {result : Except String Val}
      {rest : List (Nat × Except String Val)} {T : Tasks Req Val}
      (hresponses : (S.connections k).responses = (id, result) :: rest)
      (hstep : S.tasks.step taskStep (.reader k) (.line id result) = some T) :
      SessionStep D env S (Session.connect { S with tasks := T } k { S.connections k with
        responses := rest })
  /-- `read_line`. -/
  | read {S : Session Req Val σ} {k : LinkId} {id : Nat} {request : Req} {rest : List (Nat × Req)}
      (hended : (S.connections k).ended = false) (hserving : (S.connections k).serving = none)
      (hrequests : (S.connections k).requests = (id, request) :: rest) :
      SessionStep D env S (Session.connect
        { S with dispatched := S.dispatched ++ [⟨k, id, request⟩] } k
        { S.connections k with requests := rest, serving := some (id, request) })
  /-- `dispatch` returns, and the response is written. -/
  | answer {S : Session Req Val σ} {k : LinkId} {id : Nat} {request : Req}
      {result : Except String Val} {s : σ}
      (hserving : (S.connections k).serving = some (id, request))
      (hstop : D.stop request = none) (hdispatch : D.dispatch request S.daemon result s) :
      SessionStep D env S (Session.connect
        { S with daemon := s, answered := S.answered ++ [(⟨k, id, request⟩, result)] } k
        { S.connections k with
          serving := none, responses := (S.connections k).responses ++ [(id, result)] })
  /-- The response to a `Shutdown` is written, and the task returns. -/
  | stop {S : Session Req Val σ} {k : LinkId} {id : Nat} {request : Req} {value : Val}
      (hserving : (S.connections k).serving = some (id, request))
      (hstop : D.stop request = some value) :
      SessionStep D env S (Session.connect
        { S with answered := S.answered ++ [(⟨k, id, request⟩, .ok value)] } k
        { S.connections k with
          serving := none, ended := true,
          responses := (S.connections k).responses ++ [(id, .ok value)] })
  /-- `dispatch` returns, and the response cannot be written. -/
  | unanswered {S : Session Req Val σ} {k : LinkId} {id : Nat} {request : Req}
      {result : Except String Val} {s : σ}
      (hserving : (S.connections k).serving = some (id, request))
      (hstop : D.stop request = none) (hdispatch : D.dispatch request S.daemon result s) :
      SessionStep D env S (Session.connect { S with daemon := s } k
        { S.connections k with serving := none, ended := true })
  /-- The daemon is gone, with what is on the way to it and some of what it has written. -/
  | lost {S : Session Req Val σ} {k : LinkId} (kept : Nat) :
      SessionStep D env S (S.connect k
        ⟨[], none, (S.connections k).responses.take kept, true⟩)
  /-- Anything else that happens to the daemons. -/
  | env {S : Session Req Val σ} {s : σ} (hs : env S.daemon s) :
      SessionStep D env S { S with daemon := s }

/-- What a run gets to. -/
abbrev SessionRun (D : Service Req Val σ) (env : σ → σ → Prop) :
    Session Req Val σ → Session Req Val σ → Prop := Relation.ReflTransGen (SessionStep D env)

end Semnav.Daemon
