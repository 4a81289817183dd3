import Semnav.ForStd.Str
import Semnav.Lsp.Client

/-!
# The `initialize` handshake

What the server is told of the client and of the workspace, and the task that runs the handshake
while the client is in nobody else's hands (`src/lsp/handshake.rs`, and where
`RealServerFactory::start` of `src/lsp/supervisor.rs` calls it).
-/

namespace Semnav.Lsp

open Semnav.ForStd

/-- `workspace_name_for`: the last segment of the root's path, or a name for a root without one. -/
def workspaceNameFor (rootUri : String) : String :=
  let segments := (rootUri.toList.splitOn '/').reverse
  match segments.find? fun seg => !seg.isEmpty && !seg.contains ':' with
  | some seg => String.ofList seg
  | none => "workspace"

/-- `build_initialize_params`. -/
def buildInitializeParams (processId : UInt32) (rootUri workspaceName : String) : Json :=
  .obj [
    ("capabilities", .obj [
      ("textDocument", .obj [
        ("callHierarchy", .obj []),
        ("definition", .obj [("linkSupport", .bool true)]),
        ("documentSymbol", .obj [("hierarchicalDocumentSymbolSupport", .bool true)]),
        ("hover", .obj []),
        ("implementation", .obj [("linkSupport", .bool true)]),
        ("typeDefinition", .obj [("linkSupport", .bool true)])]),
      ("workspace", .obj [("workspaceFolders", .bool true)])]),
    ("processId", .int processId.toNat),
    ("rootUri", .str rootUri),
    ("workspaceFolders", .arr [.obj [("name", .str workspaceName), ("uri", .str rootUri)]])]

/-- The error of a request that the server refuses. -/
def rpcFailed (e : RpcError) : String :=
  "lsp rpc error (code " ++ toString e.code ++ "): " ++ e.message

/-- The error of a handshake whose deadline, as it is printed, has passed. -/
def initializeTimedOut (deadline : String) : String := "initialize timed out after " ++ deadline

/-- The error of a handshake whose notification finds no actor. -/
def notInitialized : String := "initialized notification failed: lsp client closed"

/-- Where `initialize` stands. -/
inductive HandshakePc where
  | requesting
  | awaiting (channel : Channel)
  | notifying (result : Json)
  | done (outcome : Except String Json)

/-- A run of a client from when it was spawned: the handshake, then, if it got through, whatever
    those do who were handed the client. -/
inductive ConnectionRun (deadline : String) (params : Json) :
    List Input → List Effect → Client → HandshakePc → Prop where
  | spawn : ConnectionRun deadline params [] [] .spawn .requesting
  | request {inputs : List Input} {effects : List Effect} {c : Client}
      (h : ConnectionRun deadline params inputs effects c .requesting)
      (halive : c.actor.alive = true) (hroom : c.cmds.length < cmdCapacity) :
      ConnectionRun deadline params inputs effects
        { c with
          cmds := c.cmds ++ [.request "initialize" (some params) c.nextChannel]
          nextChannel := c.nextChannel + 1 }
        (.awaiting c.nextChannel)
  | requestClosed {inputs : List Input} {effects : List Effect} {c : Client}
      (h : ConnectionRun deadline params inputs effects c .requesting)
      (hdead : c.actor.alive = false) :
      ConnectionRun deadline params inputs effects c (.done (.error "lsp client closed"))
  | answered {inputs : List Input} {effects : List Effect} {c : Client} {channel : Channel}
      {result : Json} (h : ConnectionRun deadline params inputs effects c (.awaiting channel))
      (hgot : c.receivers channel = .got (.ok result)) :
      ConnectionRun deadline params inputs effects c (.notifying result)
  | refused {inputs : List Input} {effects : List Effect} {c : Client} {channel : Channel}
      {e : RpcError} (h : ConnectionRun deadline params inputs effects c (.awaiting channel))
      (hgot : c.receivers channel = .got (.error e)) :
      ConnectionRun deadline params inputs effects c (.done (.error (rpcFailed e)))
  /-- The actor has ended with the request on its way. -/
  | dropped {inputs : List Input} {effects : List Effect} {c : Client} {channel : Channel}
      (h : ConnectionRun deadline params inputs effects c (.awaiting channel))
      (hdead : c.actor.alive = false) (hwaits : c.receivers channel = .waiting) :
      ConnectionRun deadline params inputs effects c (.done (.error "lsp client dropped reply"))
  /-- The request is given up at its deadline. -/
  | timedOut {inputs : List Input} {effects : List Effect} {c : Client} {channel : Channel}
      (h : ConnectionRun deadline params inputs effects c (.awaiting channel))
      (hwaits : c.receivers channel = .waiting) :
      ConnectionRun deadline params inputs effects
        { c with receivers := fun ch => if ch = channel then .dropped else c.receivers ch }
        (.done (.error (initializeTimedOut deadline)))
  | notify {inputs : List Input} {effects : List Effect} {c : Client} {result : Json}
      (h : ConnectionRun deadline params inputs effects c (.notifying result))
      (halive : c.actor.alive = true) (hroom : c.cmds.length < cmdCapacity) :
      ConnectionRun deadline params inputs effects
        { c with cmds := c.cmds ++ [.notify "initialized" (some (.obj []))] } (.done (.ok result))
  | notifyClosed {inputs : List Input} {effects : List Effect} {c : Client} {result : Json}
      (h : ConnectionRun deadline params inputs effects c (.notifying result))
      (hdead : c.actor.alive = false) :
      ConnectionRun deadline params inputs effects c (.done (.error notInitialized))
  /-- Someone who was handed the client sends a request. -/
  | useRequest {inputs : List Input} {effects : List Effect} {c : Client} {result : Json}
      (h : ConnectionRun deadline params inputs effects c (.done (.ok result))) (method : String)
      (args : Option Json) (halive : c.actor.alive = true) (hroom : c.cmds.length < cmdCapacity) :
      ConnectionRun deadline params inputs effects
        { c with
          cmds := c.cmds ++ [.request method args c.nextChannel]
          nextChannel := c.nextChannel + 1 }
        (.done (.ok result))
  | useNotify {inputs : List Input} {effects : List Effect} {c : Client} {result : Json}
      (h : ConnectionRun deadline params inputs effects c (.done (.ok result))) (method : String)
      (args : Option Json) (halive : c.actor.alive = true) (hroom : c.cmds.length < cmdCapacity) :
      ConnectionRun deadline params inputs effects
        { c with cmds := c.cmds ++ [.notify method args] } (.done (.ok result))
  | useGiveUp {inputs : List Input} {effects : List Effect} {c : Client} {result : Json}
      (h : ConnectionRun deadline params inputs effects c (.done (.ok result))) {channel : Channel}
      (hasked : channel < c.nextChannel) (hwaits : c.receivers channel = .waiting) :
      ConnectionRun deadline params inputs effects
        { c with receivers := fun ch => if ch = channel then .dropped else c.receivers ch }
        (.done (.ok result))
  | actor {inputs : List Input} {effects : List Effect} {c : Client} {pc : HandshakePc}
      (h : ConnectionRun deadline params inputs effects c pc) (halive : c.actor.alive = true)
      {input : Input} {cmds : List Cmd} (hoffers : Offers c.cmds input cmds) :
      ConnectionRun deadline params (inputs ++ [input]) (effects ++ (actorLoop c.actor input).2)
        (c.advance input cmds) pc

end Semnav.Lsp
