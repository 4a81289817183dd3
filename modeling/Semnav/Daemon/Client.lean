import Semnav.ForStd.Processes

/-!
# The daemon client and its callers

The tasks of a `serve` process around its daemon connections: the `actor_loop` and the
`reader_loop` of each `DaemonClient`, and the calls of `ReconnectingDaemonClient`.  What they share
are the channels between them and the `RwLock` around the current client.  A send into a channel,
a receive and the drop of a receiver are atomic, as tokio documents them.
-/

namespace Semnav.Daemon

open Semnav.ForStd

/-- A connection, in the order in which they were made. -/
abbrev LinkId := Nat

/-- What a oneshot reply channel holds. -/
inductive Reply (Val : Type) where
  | waiting
  /-- The sender has sent; `answered` says whether it was the daemon's own response. -/
  | sent (result : Except String Val) (answered : Bool)
  /-- The sender was dropped. -/
  | dropped

/-- A `Cmd::Call`, with the number of its reply channel. -/
structure Cmd (Req : Type) where
  request : Req
  reply : Nat

/-- What the reader task passes on. -/
inductive Inbound (Val : Type) where
  | response (id : Nat) (result : Except String Val)
  | eof
  | failed (msg : String)

/-- The channels of one connection. -/
structure Link (Req Val : Type) where
  /-- `cmd_tx` to `cmd_rx`. -/
  queue : List (Cmd Req)
  /-- `cmd_rx` is dropped. -/
  closed : Bool
  inbound : List (Inbound Val)
  /-- The reply channels, by the order in which the commands were sent. -/
  replies : Nat → Reply Val
  sent : Nat

/-- `mpsc::channel::<Cmd>(64)` -/
def cmdCapacity : Nat := 64

/-- What the tasks share. -/
structure Shared (Req Val : Type) where
  /-- How many connections were made. -/
  made : Nat
  links : LinkId → Link Req Val
  /-- The client in the `RwLock`. -/
  current : LinkId
  /-- The task that has the write half of the `RwLock`. -/
  writer : Option Nat
  /-- How often a caller has entered `DaemonClient::call`. -/
  calls : Nat → Nat

/-- A new connection. -/
def Link.fresh {Req Val : Type} : Link Req Val := ⟨[], false, [], fun _ => .waiting, 0⟩

/-- The tasks: actors of connections, and callers. -/
inductive TaskId where
  | caller (n : Nat)
  | actor (k : LinkId)
  | reader (k : LinkId)
  deriving DecidableEq, Repr

/-- An error of a call.  `lost` and `answered` are the same `daemon error` to the code. -/
inductive CallError where
  /-- The command could not be sent. -/
  | closed
  | droppedReply
  /-- The actor failed the call because its connection was lost. -/
  | lost (msg : String)
  /-- The daemon answered with an error. -/
  | answered (msg : String)
  | reconnectFailed (msg : String)
  deriving DecidableEq, Repr

/-- What the caller is told. -/
def CallError.text : CallError → String
  | .closed => "daemon client closed"
  | .droppedReply => "daemon client dropped reply"
  | .lost msg | .answered msg => "daemon error: " ++ msg
  | .reconnectFailed msg => "daemon reconnect failed: " ++ msg

/-- `DaemonClient::call` has returned the error because its connection died. -/
def CallError.died : CallError → Bool
  | .closed | .droppedReply | .lost _ => true
  | .answered _ | .reconnectFailed _ => false

/-- Which of its `DaemonClient::call`s a caller is at; the second follows the error of the first. -/
inductive Try where
  | first
  | again (link : LinkId) (err : CallError)
  deriving DecidableEq, Repr

/-- Where a `ReconnectingDaemonClient::call` is: before which of its steps. -/
inductive CallPc (Req Val : Type) where
  | unstarted
  /-- `self.current.read().await.clone()`. -/
  | reading (request : Req)
  /-- `client.is_closed()`, before the first call. -/
  | checking (request : Req) (link : LinkId)
  /-- `self.current.write().await`. -/
  | locking (request : Req) (attempt : Try)
  /-- `guard.is_closed()`. -/
  | rechecking (request : Req) (attempt : Try)
  /-- `ensure_and_connect`, under the lock. -/
  | connecting (request : Req) (attempt : Try)
  /-- `self.tx.send(..)`. -/
  | sending (request : Req) (attempt : Try) (link : LinkId)
  /-- `rx.await`. -/
  | awaiting (request : Req) (attempt : Try) (link : LinkId) (reply : Nat)
  /-- `Err(_) if client.is_closed()`, after the first call. -/
  | judging (request : Req) (link : LinkId) (err : CallError)
  | done (attempt : Try) (result : Except CallError Val)

/-- The replies that an actor owes, by the id of the request. -/
abbrev Pending := List (Nat × Nat)

/-- Where an `actor_loop` is. -/
inductive ActorPc (Req : Type) where
  /-- `biased`: before it polls `inbound_rx`. -/
  | looping (pending : Pending) (nextId : Nat)
  /-- `inbound_rx` was empty: before it polls `cmd_rx`. -/
  | selecting (pending : Pending) (nextId : Nat)
  /-- In `write_line`, with the envelope's id. -/
  | writing (pending : Pending) (id : Nat) (cmd : Cmd Req)
  /-- After the loop: the pending replies are failed one by one. -/
  | draining (reason : String) (pending : Pending)
  /-- At its end, before `cmd_rx` is dropped. -/
  | dropping
  /-- `cmd_rx` is closed, and what is left in its queue is dropped. -/
  | emptying
  | gone

/-- Where a task is. -/
inductive TaskPc (Req Val : Type) where
  | caller (pc : CallPc Req Val)
  | actor (pc : ActorPc Req)
  | reader (ended : Bool)

/-- What a task does next. -/
inductive TaskStep (Req Val : Type) where
  /-- A call of `ReconnectingDaemonClient` begins. -/
  | call (request : Req)
  /-- The next step of the task. -/
  | go
  /-- `ensure_and_connect` has made a connection. -/
  | connected
  /-- `ensure_and_connect` has failed. -/
  | refused (msg : String)
  /-- `write_line` has written the envelope. -/
  | wrote
  | writeFailed (err : String)
  /-- `pending.drain()` comes to the reply of this id; the order is the map's. -/
  | drain (id : Nat)
  /-- The reader has read a response. -/
  | line (id : Nat) (result : Except String Val)
  | eof
  | garbled (msg : String)

section Moves

variable {Req Val : Type}

/-- A connection changes. -/
def Shared.setLink (s : Shared Req Val) (k : LinkId) (link : Link Req Val) : Shared Req Val :=
  { s with links := Function.update s.links k link }

/-- A connection gets a reply of one of its callers. -/
def Link.reply (link : Link Req Val) (i : Nat) (r : Reply Val) : Link Req Val :=
  { link with replies := Function.update link.replies i r }

/-- Caller `n` enters `DaemonClient::call` on a connection. -/
def enterCall (s : Shared Req Val) (n : Nat) (request : Req) (attempt : Try) (k : LinkId) :
    Shared Req Val × CallPc Req Val :=
  ({ s with calls := Function.update s.calls n (s.calls n + 1) }, .sending request attempt k)

/-- The call has failed: the first one is judged, the second one's error is returned. -/
def failCall (request : Req) (attempt : Try) (k : LinkId) (err : CallError) : CallPc Req Val :=
  match attempt with
  | .first => .judging request k err
  | .again _ _ => .done attempt (.error err)

/-- A step of `ReconnectingDaemonClient::call`. -/
def callerStep (n : Nat) (e : TaskStep Req Val) (s : Shared Req Val) :
    CallPc Req Val → Option (Shared Req Val × CallPc Req Val)
  | .unstarted =>
    match e with
    | .call request => some (s, .reading request)
    | _ => none
  | .reading request =>
    match e, s.writer with
    | .go, none => some (s, .checking request s.current)
    | _, _ => none
  | .checking request k =>
    match e with
    | .go =>
      if (s.links k).closed then some (s, .locking request .first)
      else some (enterCall s n request .first k)
    | _ => none
  | .locking request attempt =>
    match e, s.writer with
    | .go, none => some ({ s with writer := some n }, .rechecking request attempt)
    | _, _ => none
  | .rechecking request attempt =>
    match e with
    | .go =>
      if (s.links s.current).closed then some (s, .connecting request attempt)
      else some (enterCall { s with writer := none } n request attempt s.current)
    | _ => none
  | .connecting request attempt =>
    match e with
    | .connected =>
      some (enterCall { s with made := s.made + 1, current := s.made, writer := none } n request
        attempt s.made)
    | .refused msg =>
      some ({ s with writer := none }, .done attempt (.error (.reconnectFailed msg)))
    | _ => none
  | .sending request attempt k =>
    match e with
    | .go =>
      let link := s.links k
      if link.closed then some (s, failCall request attempt k .closed)
      else if link.queue.length < cmdCapacity then
        some (s.setLink k
            { link with queue := link.queue ++ [⟨request, link.sent⟩], sent := link.sent + 1 },
          .awaiting request attempt k link.sent)
      else none
    | _ => none
  | .awaiting request attempt k i =>
    match e, (s.links k).replies i with
    | .go, .sent (.ok value) _ => some (s, .done attempt (.ok value))
    | .go, .sent (.error msg) true => some (s, failCall request attempt k (.answered msg))
    | .go, .sent (.error msg) false => some (s, failCall request attempt k (.lost msg))
    | .go, .dropped => some (s, failCall request attempt k .droppedReply)
    | _, _ => none
  | .judging request k err =>
    match e with
    | .go =>
      if (s.links k).closed then some (s, .locking request (.again k err))
      else some (s, .done .first (.error err))
    | _ => none
  | .done _ _ => none

/-- The actor answers its inbound events.  Its channel of commands cannot end: `current` keeps a
    sender until the receiver is gone. -/
def actorStep (k : LinkId) (e : TaskStep Req Val) (s : Shared Req Val) :
    ActorPc Req → Option (Shared Req Val × ActorPc Req)
  | .looping pending nextId =>
    let link := s.links k
    match e, link.inbound with
    | .go, [] => some (s, .selecting pending nextId)
    | .go, .response id result :: rest =>
      match pending.lookup id with
      | some i =>
        some (s.setLink k ({ link with inbound := rest }.reply i (.sent result true)),
          .looping (pending.filter (·.1 != id)) nextId)
      | none => some (s.setLink k { link with inbound := rest }, .looping pending nextId)
    | .go, .eof :: rest =>
      some (s.setLink k { link with inbound := rest }, .draining "daemon connection closed" pending)
    | .go, .failed msg :: rest =>
      some (s.setLink k { link with inbound := rest }, .draining msg pending)
    | _, _ => none
  | .selecting pending nextId =>
    let link := s.links k
    match e, link.queue with
    | .go, [] => some (s, .looping pending nextId)
    | .go, cmd :: rest =>
      some (s.setLink k { link with queue := rest }, .writing pending nextId cmd)
    | _, _ => none
  | .writing pending id cmd =>
    match e with
    | .wrote => some (s, .looping ((id, cmd.reply) :: pending) (id + 1))
    | .writeFailed err =>
      let msg := "write failed: " ++ err
      some (s.setLink k ((s.links k).reply cmd.reply (.sent (.error msg) false)),
        .draining msg pending)
    | _ => none
  | .draining reason pending =>
    match e with
    | .drain id =>
      match pending.lookup id with
      | some i =>
        some (s.setLink k ((s.links k).reply i (.sent (.error reason) false)),
          .draining reason (pending.filter (·.1 != id)))
      | none => none
    | .go => if pending.isEmpty then some (s, .dropping) else none
    | _ => none
  | .dropping =>
    match e with
    | .go => some (s.setLink k { s.links k with closed := true }, .emptying)
    | _ => none
  | .emptying =>
    let link := s.links k
    match e, link.queue with
    | .go, [] => some (s, .gone)
    | .go, cmd :: rest =>
      some (s.setLink k ({ link with queue := rest }.reply cmd.reply .dropped), .emptying)
    | _, _ => none
  | .gone => none

/-- A step of `reader_loop`. -/
def readerStep (k : LinkId) (e : TaskStep Req Val) (s : Shared Req Val) :
    Bool → Option (Shared Req Val × Bool)
  | false =>
    let link := s.links k
    match e with
    | .line id result =>
      some (s.setLink k { link with inbound := link.inbound ++ [.response id result] }, false)
    | .eof => some (s.setLink k { link with inbound := link.inbound ++ [.eof] }, true)
    | .garbled msg =>
      some (s.setLink k { link with inbound := link.inbound ++ [.failed msg] }, true)
    | _ => none
  | true => none

/-- A step of a task.  Those of a connection run once it is made. -/
def taskStep (t : TaskId) (e : TaskStep Req Val) (s : Shared Req Val) (pc : TaskPc Req Val) :
    Option (Shared Req Val × TaskPc Req Val) :=
  match t, pc with
  | .caller n, .caller pc => (callerStep n e s pc).map fun r => (r.1, .caller r.2)
  | .actor k, .actor pc =>
    if k < s.made then (actorStep k e s pc).map fun r => (r.1, .actor r.2) else none
  | .reader k, .reader ended =>
    if k < s.made then (readerStep k e s ended).map fun r => (r.1, .reader r.2) else none
  | _, _ => none

end Moves

/-- The tasks of a `serve` process. -/
abbrev Tasks (Req Val : Type) := Processes TaskId (Shared Req Val) (TaskPc Req Val)

/-- `run_serve` has made its first connection. -/
def Tasks.boot (Req Val : Type) : Tasks Req Val where
  shared := ⟨1, fun _ => .fresh, 0, none, fun _ => 0⟩
  procs
    | .caller _ => .caller .unstarted
    | .actor _ => .actor (.looping [] 0)
    | .reader _ => .reader false

end Semnav.Daemon
