import Semnav.Daemon.Protocol
import Semnav.Daemon.Session
import Semnav.Mcp.Server

/-!
# The tools behind the daemon

Which method of `SemnavServer` answers a request (`dispatch` of `src/daemon/server.rs`), and which
request a tool of `ProxyServer` is (`src/mcp/proxy.rs`).
-/

namespace Semnav.Daemon

open Semnav.ForStd Semnav.Mcp
open Semnav.Query (CursorCodec)

/-- `to_result`, of what a method returns. -/
def ofMethod (tool : Tool) (outcome : Except ErrorData tool.Output) : Except String Value :=
  toResult tool (outcome.mapError ErrorData.message)

section Dispatch

variable {σ : Type} (R : Runtime σ) (E : CursorCodec)

/-- `dispatch` -/
def dispatch (request : DaemonRequest) (s : σ) (result : Except String Value) (s' : σ) : Prop :=
  match request with
  | .findSymbol input =>
    ∃ outcome, SemnavServer.findSymbol R E input s outcome s' ∧ result = ofMethod .findSymbol outcome
  | .findDefinition input =>
    ∃ outcome, SemnavServer.findDefinition R input s outcome s' ∧
      result = ofMethod .findDefinition outcome
  | .findReferences input =>
    ∃ outcome, SemnavServer.findReferences R E input s outcome s' ∧
      result = ofMethod .findReferences outcome
  | .findCallers input =>
    ∃ outcome, SemnavServer.findCallers R E input s outcome s' ∧ result = ofMethod .findCallers outcome
  | .findCallees input =>
    ∃ outcome, SemnavServer.findCallees R E input s outcome s' ∧ result = ofMethod .findCallees outcome
  | .findCallPath input =>
    ∃ outcome, SemnavServer.findCallPath R input s outcome s' ∧
      result = ofMethod .findCallPath outcome
  | .readRange input =>
    ∃ outcome, SemnavServer.readRange R input s outcome s' ∧ result = ofMethod .readRange outcome
  | .restartLsp input =>
    ∃ outcome, SemnavServer.restartLsp R input s outcome s' ∧ result = ofMethod .restartLsp outcome
  | .shutdown => result = .ok (.ofJson .null) ∧ s' = s

/-- The daemon: a `Shutdown` is answered before it comes to `dispatch`. -/
def semnavService : Service DaemonRequest Value σ where
  dispatch := dispatch R E
  stop
    | .shutdown => some (.ofJson .null)
    | _ => none

end Dispatch

/-! ## The proxy -/

def Tool.Input : Tool → Type
  | .findSymbol => FindSymbolInput
  | .findDefinition => FindDefinitionInput
  | .findReferences => SymbolQueryInput
  | .findCallers => CallGraphQueryInput
  | .findCallees => CallGraphQueryInput
  | .findCallPath => FindCallPathInput
  | .readRange => ReadRangeInput
  | .restartLsp => RestartLspInput

/-- The request that the tool's method of `ProxyServer` forwards. -/
def Tool.request : (tool : Tool) → tool.Input → DaemonRequest
  | .findSymbol => .findSymbol
  | .findDefinition => .findDefinition
  | .findReferences => .findReferences
  | .findCallers => .findCallers
  | .findCallees => .findCallees
  | .findCallPath => .findCallPath
  | .readRange => .readRange
  | .restartLsp => .restartLsp

/-- The tool's method of `SemnavServer`. -/
def Tool.method {σ : Type} (R : Runtime σ) (E : CursorCodec) :
    (tool : Tool) → tool.Input → σ → Except ErrorData tool.Output → σ → Prop
  | .findSymbol => SemnavServer.findSymbol R E
  | .findDefinition => SemnavServer.findDefinition R
  | .findReferences => SemnavServer.findReferences R E
  | .findCallers => SemnavServer.findCallers R E
  | .findCallees => SemnavServer.findCallees R E
  | .findCallPath => SemnavServer.findCallPath R
  | .readRange => SemnavServer.readRange R
  | .restartLsp => SemnavServer.restartLsp R

/-- `ProxyServer::call`, after `ReconnectingDaemonClient::call`; `why` is the text of serde's
    error. -/
def ProxyServer.call (why : Value → String) (tool : Tool) :
    Except CallError Value → Except ErrorData tool.Output
  | .error err => .error (internalError err.text)
  | .ok value =>
    match proxyResult tool value with
    | some output => .ok output
    | none => .error (internalError ("malformed daemon response: " ++ why value))

end Semnav.Daemon
