import Semnav.Mcp.Server

/-!
# The runtime behind the tools

The operations of the query runtime (`src/query/pool.rs`) as the tool methods call them, each run
with nothing else going on.  A cursor leaves as its token, and an error as its text.
-/

namespace Semnav.Mcp

open Semnav.Graph Semnav.Query

variable {α β : Type} (S : Servers) (text : DbError → String)

/-- An operation that runs a query alone; `out` is what is made of its result. -/
def Operation.ofQuery (out : α → β) (q : QueryM α) : Operation World β :=
  fun w result w' => ∃ r, q.run S w = (r, w') ∧ result = (r.map out).mapError text

/-- One that runs a search with fuel enough. -/
def Operation.ofSearch (q : Nat → QueryM (Option α)) : Operation World α :=
  fun w result w' => ∃ fuel,
    (∃ r, (q fuel).run S w = (.ok (some r), w') ∧ result = .ok r) ∨
    (∃ e, (q fuel).run S w = (.error e, w') ∧ result = .error (text e))

/-- `read_range` reads a file below the root; the text of an error goes on with what confining the
    path or reading the file says. -/
def Operation.readRange (uri : String) (startLine endLine : Nat) : Operation World ReadRangeResult :=
  fun w result w' => w' = w ∧
    match w.text uri with
    | some content => result = .ok (QueryEngine.readRange uri content startLine endLine)
    | none => ∃ why, result = .error ("read_range: " ++ why)

/-- The query runtime; resetting a server is left to the pool of supervisors. -/
def Runtime.ofQuery (rt : QueryRuntime) (E : CursorCodec)
    (restartLanguage : Option String → World → List String → World → Prop) : Runtime World where
  findSymbol pattern mode ignoreCase options filter page :=
    .ofQuery S text (.ofPage E) (rt.findSymbol pattern mode ignoreCase options filter page)
  findDefinition symref := .ofQuery S text id (rt.findDefinition symref)
  findReferences symref filter page :=
    .ofQuery S text (Prod.map (.ofPage E) id) (rt.findReferences symref filter page)
  findCallers symref filter page withSignature :=
    .ofQuery S text (Prod.map (.ofPage E) id) (rt.findCallers symref filter page withSignature)
  findCallees symref filter page withSignature :=
    .ofQuery S text (Prod.map (.ofPage E) id) (rt.findCallees symref filter page withSignature)
  findCallPath source target maxDepth maxLspCalls :=
    .ofSearch S text fun fuel => rt.findCallPath fuel source target maxDepth maxLspCalls
  readRange := .readRange
  restartLanguage := restartLanguage

end Semnav.Mcp
