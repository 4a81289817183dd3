import Semnav.ForStd.Json

/-!
# JSON-RPC messages

The JSON-RPC 2.0 envelopes of LSP, the JSON value that each is serialized as, and the untagged
decoding that tries the four variants in their order (`src/lsp/proto.rs`).
-/

namespace Semnav.Lsp

open Semnav.ForStd

/-- JSON-RPC id. -/
abbrev Id := Int64

/-- A JSON-RPC 2.0 error object. -/
structure RpcError where
  code : Int64
  message : String
  data : Option Json

/-- An outbound or inbound JSON-RPC 2.0 message; each also carries its version. -/
inductive Message where
  | request (id : Id) (method : String) (params : Option Json)
  | response (id : Id) (result : Json)
  | error (id : Id) (e : RpcError)
  | notification (method : String) (params : Option Json)

/-! ## Serializing -/

/-- A field that is skipped if it is `None`. -/
def optionalField (key : String) (v : Option Json) : List (String × Json) :=
  v.toList.map fun json => (key, json)

/-- `JsonRpcVersion::serialize`. -/
def jsonrpcField : String × Json := ("jsonrpc", .str "2.0")

/-- The value an error object is serialized as. -/
def RpcError.toValue (e : RpcError) : Json :=
  .obj (("code", .int e.code.toInt) :: optionalField "data" e.data ++
    [("message", .str e.message)])

/-- The value a message is serialized as. -/
def Message.toValue : Message → Json
  | .request id method params =>
    .obj ([("id", .int id.toInt), jsonrpcField, ("method", .str method)] ++
      optionalField "params" params)
  | .response id result => .obj [("id", .int id.toInt), jsonrpcField, ("result", result)]
  | .error id e => .obj [("error", e.toValue), ("id", .int id.toInt), jsonrpcField]
  | .notification method params =>
    .obj ([jsonrpcField, ("method", .str method)] ++ optionalField "params" params)

/-! ## Deserializing -/

/-- `RpcError::deserialize`: from an object, or from its fields in their order. -/
def RpcError.fromValue : Json → Option RpcError
  | .obj fields => do
    let code ← (Json.field fields "code").bind Json.asI64
    let message ← (Json.field fields "message").bind Json.asString
    some ⟨code, message, Json.optional (Json.field fields "data")⟩
  | .arr (code :: message :: rest) => do
    let code ← code.asI64
    let message ← message.asString
    match rest with
    | [] => some ⟨code, message, none⟩
    | [data] => some ⟨code, message, Json.optional (some data)⟩
    | _ => none
  | _ => none

/-- The id, if it is one. -/
def idOf (fields : List (String × Json)) : Option Id := (Json.field fields "id").bind Json.asI64

/-- The method, if it is one. -/
def methodOf (fields : List (String × Json)) : Option String :=
  (Json.field fields "method").bind Json.asString

/-- `Message::Request`: an id and a method. -/
def decodeRequest (fields : List (String × Json)) : Option Message := do
  let id ← idOf fields
  let method ← methodOf fields
  some (.request id method (Json.optional (Json.field fields "params")))

/-- `Message::Response`: an id and a result. -/
def decodeResponse (fields : List (String × Json)) : Option Message := do
  let id ← idOf fields
  let result ← Json.field fields "result"
  some (.response id result)

/-- `Message::Error`: an id and an error object. -/
def decodeError (fields : List (String × Json)) : Option Message := do
  let id ← idOf fields
  let error ← (Json.field fields "error").bind RpcError.fromValue
  some (.error id error)

/-- `Message::Notification`: a method. -/
def decodeNotification (fields : List (String × Json)) : Option Message := do
  let method ← methodOf fields
  some (.notification method (Json.optional (Json.field fields "params")))

/-- `Message::from_value`: the first variant that fits.  The version may be anything, and other
    fields are ignored. -/
def Message.fromValue : Json → Option Message
  | .obj fields =>
    decodeRequest fields <|> decodeResponse fields <|> decodeError fields <|>
      decodeNotification fields
  | _ => none

end Semnav.Lsp
