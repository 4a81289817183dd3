import Mathlib.Data.List.DropRight
import Semnav.ForStd.BufRead
import Semnav.ForStd.Utf8
import Semnav.Mcp.Dto

/-!
# The protocol of serve and daemon

Requests and responses with their ids, one JSON text per line (`src/daemon/protocol.rs`), and the
results of the tools as they go through a response (`to_result` of `src/daemon/server.rs`,
`ProxyServer::call` of `src/mcp/proxy.rs`).
-/

namespace Semnav.Daemon

open Semnav.ForStd Semnav.Mcp
open Semnav.Query (ReadRangeResult)

/-- One of the tools, or the control message. -/
inductive DaemonRequest where
  | findSymbol (input : FindSymbolInput)
  | findDefinition (input : FindDefinitionInput)
  | findReferences (input : SymbolQueryInput)
  | findCallers (input : CallGraphQueryInput)
  | findCallees (input : CallGraphQueryInput)
  | findCallPath (input : FindCallPathInput)
  | readRange (input : ReadRangeInput)
  | restartLsp (input : RestartLspInput)
  | shutdown

/-- `op` and `params` of a request. -/
def DaemonRequest.split : DaemonRequest → String × Option Json
  | .findSymbol input => ("FindSymbol", some (FindSymbolInput.fields.codec.encode input))
  | .findDefinition input =>
    ("FindDefinition", some (FindDefinitionInput.fields.codec.encode input))
  | .findReferences input => ("FindReferences", some (SymbolQueryInput.fields.codec.encode input))
  | .findCallers input => ("FindCallers", some (CallGraphQueryInput.fields.codec.encode input))
  | .findCallees input => ("FindCallees", some (CallGraphQueryInput.fields.codec.encode input))
  | .findCallPath input => ("FindCallPath", some (FindCallPathInput.fields.codec.encode input))
  | .readRange input => ("ReadRange", some (ReadRangeInput.fields.codec.encode input))
  | .restartLsp input => ("RestartLsp", some (RestartLspInput.fields.codec.encode input))
  | .shutdown => ("Shutdown", none)

/-- The request that `op` and `params` stand for. -/
def DaemonRequest.join : String → Option Json → Option DaemonRequest
  | "FindSymbol", some v => (FindSymbolInput.fields.codec.decode v).map .findSymbol
  | "FindDefinition", some v => (FindDefinitionInput.fields.codec.decode v).map .findDefinition
  | "FindReferences", some v => (SymbolQueryInput.fields.codec.decode v).map .findReferences
  | "FindCallers", some v => (CallGraphQueryInput.fields.codec.decode v).map .findCallers
  | "FindCallees", some v => (CallGraphQueryInput.fields.codec.decode v).map .findCallees
  | "FindCallPath", some v => (FindCallPathInput.fields.codec.decode v).map .findCallPath
  | "ReadRange", some v => (ReadRangeInput.fields.codec.decode v).map .readRange
  | "RestartLsp", some v => (RestartLspInput.fields.codec.decode v).map .restartLsp
  | "Shutdown", none | "Shutdown", some .null => some .shutdown
  | _, _ => none

/-- A request is put together again from what it is split into. -/
theorem DaemonRequest.join_split (view : View) (request : DaemonRequest) :
    join request.split.1 (request.split.2.map view.apply) = some request := by
  cases request with
  | shutdown => rfl
  | findSymbol input | findDefinition input | findReferences input | findCallers input
  | findCallees input | findCallPath input | readRange input | restartLsp input =>
    simp only [split, join, Option.map_some, Codec.reads]

/-- `#[serde(tag = "op", content = "params")]` -/
def DaemonRequest.codec : Codec DaemonRequest :=
  .adjacent "op" "params" (by decide) split join join_split

/-- A framed request. -/
structure DaemonEnvelope where
  id : UInt64
  request : DaemonRequest

/-- The fields of a request's envelope. -/
def DaemonEnvelope.fields : Fields DaemonEnvelope :=
  ((Fields.field "id" .u64).and (.field "request" DaemonRequest.codec) (by decide)).map
    (fun (id, request) => ⟨id, request⟩) (fun e => (e.id, e.request)) fun _ => rfl

/-- A framed response; an error is its message. -/
structure DaemonResponseEnvelope where
  id : UInt64
  result : Except String Value

/-- The fields of a response's envelope. -/
def DaemonResponseEnvelope.fields : Fields DaemonResponseEnvelope :=
  ((Fields.field "id" .u64).and (.field "result" (Codec.result .value .string)) (by decide)).map
    (fun (id, result) => ⟨id, result⟩) (fun e => (e.id, e.result)) fun _ => rfl

/-- `serde_json`: the text of a value, and the value of a text. -/
structure SerdeJson where
  toText : Json → String
  fromText : String → Option Json

/-- Why no envelope was read; the text of serde's error is left out. -/
inductive ReadLineError where
  /-- `stream did not contain valid UTF-8`. -/
  | invalidUtf8
  /-- `malformed daemon protocol line`. -/
  | malformed
  deriving DecidableEq, Repr

section Lines

variable {α : Type} (S : SerdeJson) (c : Codec α)

/-- `write_line`: the bytes that are written. -/
def writeLine (value : α) : List UInt8 := asBytes ((S.toText (c.encode value)).push '\n')

/-- `trim_end_matches('\n')` -/
def trimNewlines (s : String) : String := String.ofList (s.toList.rdropWhile (· == '\n'))

/-- `read_line`: `none` at the end of the stream. -/
def readLine (r : BufReader UInt8) : Except ReadLineError (Option α) × BufReader UInt8 :=
  let (line, r') := r.readUntil 10
  match fromUtf8 line with
  | none => (.error .invalidUtf8, r')
  | some text =>
    if line.isEmpty then (.ok none, r')
    else
      match (S.fromText (trimNewlines text)).bind c.decode with
      | some value => (.ok (some value), r')
      | none => (.error .malformed, r')

end Lines

/-! ## Results of the tools -/

/-- The tools of the protocol. -/
inductive Tool where
  | findSymbol
  | findDefinition
  | findReferences
  | findCallers
  | findCallees
  | findCallPath
  | readRange
  | restartLsp
  deriving DecidableEq, Repr

/-- What the method of a tool returns. -/
def Tool.Output : Tool → Type
  | .findSymbol => FindSymbolResult
  | .findDefinition => FindDefinitionOutput
  | .findReferences => FindReferencesOutput
  | .findCallers => FindCallersOutput
  | .findCallees => FindCalleesOutput
  | .findCallPath => FindCallPathOutput
  | .readRange => ReadRangeResult
  | .restartLsp => RestartLspResult

/-- How the result of a tool is written. -/
def Tool.outputCodec : (tool : Tool) → Codec tool.Output
  | .findSymbol => FindSymbolResult.fields.codec
  | .findDefinition => FindDefinitionOutput.fields.codec
  | .findReferences => FindReferencesOutput.fields.codec
  | .findCallers => FindCallersOutput.fields.codec
  | .findCallees => FindCalleesOutput.fields.codec
  | .findCallPath => FindCallPathOutput.fields.codec
  | .readRange => ReadRangeResult.fields.codec
  | .restartLsp => RestartLspResult.fields.codec

/-- `to_result`: the output as a value, or the message of the error. -/
def toResult (tool : Tool) : Except String tool.Output → Except String Value
  | .ok output => .ok (tool.outputCodec.toValue output)
  | .error msg => .error msg

/-- `ProxyServer::call`, with the value that the daemon's response carries. -/
def proxyResult (tool : Tool) (value : Value) : Option tool.Output :=
  tool.outputCodec.fromValue value

end Semnav.Daemon
