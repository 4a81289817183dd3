import Semnav.Lsp.Proto

/-!
# The client actor

The actor owns the server's streams: it numbers the requests, writes them, and hands each answer
to the reply channel that waits under its id (`src/lsp/client.rs`).  What its `select!` receives
comes as an `Input`, with the outcome of the write that follows; what it does is an `Effect`.
-/

namespace Semnav.Lsp

open Semnav.ForStd

/-- A oneshot reply channel; each request creates one. -/
abbrev Channel := Nat

/-- What is sent through a reply channel: a result, or an error object. -/
abbrev Reply := Except RpcError Json

/-- A command to the actor. -/
inductive Cmd where
  | request (method : String) (params : Option Json) (reply : Channel)
  | notify (method : String) (params : Option Json)

/-- Inbound events produced by the reader task. -/
inductive Inbound where
  | message (msg : Message)
  /-- Clean end of the stream between messages. -/
  | eof
  /-- Unparseable message or transport error. -/
  | failed (reason : String)

/-- What the loop of the actor receives. -/
inductive Input where
  /-- From the reader; `none` when it is gone. -/
  | inbound (event : Option Inbound)
  /-- From the callers, with the outcome of writing it; `none` when every handle was dropped. -/
  | cmd (cmd : Option Cmd) (written : Except String Unit)

/-- What the actor does. -/
inductive Effect where
  /-- A message is written to the server, or the write fails. -/
  | write (msg : Message)
  /-- A reply is sent. -/
  | reply (channel : Channel) (value : Reply)

/-- The variables of `actor_loop`. -/
structure Actor where
  nextId : Id
  /-- The waiting channels by request id, each id once. -/
  pending : List (Id × Channel)
  closeReason : Option String
  alive : Bool

/-- The actor before its loop. -/
def Actor.start : Actor := ⟨1, [], none, true⟩

/-- `pending.insert`. -/
def insertPending (pending : List (Id × Channel)) (id : Id) (reply : Channel) :
    List (Id × Channel) :=
  pending.filter (fun p => p.1 ≠ id) ++ [(id, reply)]

/-- `pending.remove`, then the reply is sent. -/
def settle (pending : List (Id × Channel)) (id : Id) (value : Reply) :
    List (Id × Channel) × List Effect :=
  match pending.lookup id with
  | some channel => (pending.filter (fun p => p.1 ≠ id), [.reply channel value])
  | none => (pending, [])

/-- `dispatch_inbound`: route a message to the pending reply, if any. -/
def dispatchInbound (pending : List (Id × Channel)) :
    Message → List (Id × Channel) × List Effect
  | .response id result => settle pending id (.ok result)
  | .error id e => settle pending id (.error e)
  | .request .. | .notification .. => (pending, [])

/-- The error of a request that could not be written. -/
def writeFailed (e : String) : RpcError := ⟨-32000, "write failed: " ++ e, none⟩

/-- The error of a request that is still waiting when the loop ends. -/
def streamClosed (closeReason : Option String) : RpcError :=
  ⟨-32001, closeReason.getD "client stream closed", none⟩

/-- One iteration of the loop. -/
def actorStep (a : Actor) : Input → Actor × List Effect
  | .inbound (some (.message msg)) =>
    let (pending, effects) := dispatchInbound a.pending msg
    ({ a with pending := pending }, effects)
  | .inbound (some .eof) | .inbound none => ({ a with alive := false }, [])
  | .inbound (some (.failed reason)) =>
    ({ a with closeReason := some reason, alive := false }, [])
  | .cmd (some (.request method params reply)) written =>
    let id := a.nextId
    let req := Message.request id method params
    match written with
    | .ok () =>
      ({ a with nextId := id + 1, pending := insertPending a.pending id reply }, [.write req])
    | .error e =>
      ({ a with nextId := id + 1 }, [.write req, .reply reply (.error (writeFailed e))])
  | .cmd (some (.notify method params)) _ => (a, [.write (.notification method params)])
  | .cmd none _ => ({ a with alive := false }, [])

/-- After the loop: fail anything still waiting. -/
def drain (a : Actor) : Actor × List Effect :=
  ({ a with pending := [] },
    a.pending.map fun p => .reply p.2 (.error (streamClosed a.closeReason)))

/-- `actor_loop` for one input: an iteration, and what follows if it was the last one. -/
def actorLoop (a : Actor) (input : Input) : Actor × List Effect :=
  let (a', effects) := actorStep a input
  if a'.alive then (a', effects)
  else
    let (a'', failures) := drain a'
    (a'', effects ++ failures)

/-! ## The client and its callers -/

/-- The receiving end of a reply channel. -/
inductive Receiver where
  | waiting
  /-- The requester has given up. -/
  | dropped
  | got (value : Reply)

/-- `tx.send`: a reply reaches the receiver unless it was dropped. -/
def deliver (receivers : Channel → Receiver) : Effect → Channel → Receiver
  | .write _ => receivers
  | .reply channel value => fun c =>
    match receivers c with
    | .waiting => if c = channel then .got value else .waiting
    | r => r

/-- The capacity of the command channel. -/
def cmdCapacity : Nat := 64

/-- The actor, the commands on their way to it and the requesters. -/
structure Client where
  actor : Actor
  cmds : List Cmd
  nextChannel : Channel
  receivers : Channel → Receiver

/-- A client that was just spawned. -/
def Client.spawn : Client := ⟨.start, [], 0, fun _ => .waiting⟩

/-- The client after the actor has taken an input and left these commands. -/
def Client.advance (c : Client) (input : Input) (cmds : List Cmd) : Client :=
  let (actor, effects) := actorLoop c.actor input
  { c with actor := actor, cmds := cmds, receivers := effects.foldl deliver c.receivers }

/-- What may be the next input, and the commands left after it. -/
inductive Offers : List Cmd → Input → List Cmd → Prop where
  | inbound (cmds : List Cmd) (event : Option Inbound) : Offers cmds (.inbound event) cmds
  | cmd (c : Cmd) (rest : List Cmd) (written : Except String Unit) :
      Offers (c :: rest) (.cmd (some c) written) rest
  | closed (written : Except String Unit) : Offers [] (.cmd none written) []

/-- A run of the client with the inputs and the effects of its actor so far. -/
inductive ClientRun : List Input → List Effect → Client → Prop where
  | spawn : ClientRun [] [] .spawn
  /-- `request`: a command with a channel of its own. -/
  | request {inputs : List Input} {effects : List Effect} {c : Client}
      (h : ClientRun inputs effects c) (method : String) (params : Option Json)
      (halive : c.actor.alive = true) (hroom : c.cmds.length < cmdCapacity) :
      ClientRun inputs effects
        { c with
          cmds := c.cmds ++ [.request method params c.nextChannel]
          nextChannel := c.nextChannel + 1 }
  /-- `notify`. -/
  | notify {inputs : List Input} {effects : List Effect} {c : Client}
      (h : ClientRun inputs effects c) (method : String) (params : Option Json)
      (halive : c.actor.alive = true) (hroom : c.cmds.length < cmdCapacity) :
      ClientRun inputs effects { c with cmds := c.cmds ++ [.notify method params] }
  /-- A requester gives up. -/
  | giveUp {inputs : List Input} {effects : List Effect} {c : Client}
      (h : ClientRun inputs effects c) {channel : Channel} (hasked : channel < c.nextChannel)
      (hwaits : c.receivers channel = .waiting) :
      ClientRun inputs effects
        { c with receivers := fun ch => if ch = channel then .dropped else c.receivers ch }
  | actor {inputs : List Input} {effects : List Effect} {c : Client}
      (h : ClientRun inputs effects c) (halive : c.actor.alive = true) {input : Input}
      {cmds : List Cmd} (hoffers : Offers c.cmds input cmds) :
      ClientRun (inputs ++ [input]) (effects ++ (actorLoop c.actor input).2)
        (c.advance input cmds)

end Semnav.Lsp
