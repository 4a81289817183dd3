import Semnav.Mcp.Dto
import Semnav.Query.Pool

/-!
# The tool methods

`SemnavServer` (`src/mcp/server.rs`): a method reads the parts of its input, calls the runtime and
reshapes what that returns (`src/mcp/dto.rs`).  What the runtime returns and leaves is a relation,
since an operation runs among other tasks.
-/

namespace Semnav.Mcp

open Semnav.Query (SymbolRef Filter Page CursorCodec MatchMode FindSymbolOptions Degradation
  DegradeReason LspStatus ReadRangeResult FindDefinitionResult FindCallPathResult)

/-- The code of an rmcp `ErrorData`. -/
inductive ErrorCode where
  | invalidParams
  | internalError
deriving DecidableEq, Repr

/-- An rmcp `ErrorData`. -/
structure ErrorData where
  code : ErrorCode
  message : String
deriving DecidableEq, Repr

/-- `ErrorData::invalid_params` -/
def invalidParams (message : String) : ErrorData := ⟨.invalidParams, message⟩

/-- `internal_error` -/
def internalError (err : String) : ErrorData := ⟨.internalError, err⟩

/-! ## Inputs -/

/-- `SymbolRef::from(AtRef)` -/
def AtRef.toSymbolRef (r : AtRef) : SymbolRef := .at r.uri r.line.toNat r.character.toNat

/-- `SymbolRef::try_from(SymbolRefInput)` -/
def SymbolRefInput.toSymbolRef (input : SymbolRefInput) : Except ErrorData SymbolRef :=
  match input.fqn, input.at with
  | some fqn, none => .ok (.fqn fqn)
  | none, some pos => .ok pos.toSymbolRef
  | some _, some _ => .error (invalidParams "symbol ref must not specify both fqn and at")
  | none, none => .error (invalidParams "symbol ref must specify fqn or at")

/-- `Filter::from(FilterInput)` -/
def FilterInput.toFilter (input : FilterInput) : Filter :=
  ⟨input.language, input.kind, input.includeExternal⟩

/-- `DEFAULT_CALL_PATH_MAX_DEPTH`, `MAX_CALL_PATH_MAX_DEPTH` -/
def defaultCallPathMaxDepth : Nat := 8

/-- The most that `max_depth` may be. -/
def maxCallPathMaxDepth : Nat := 20

/-- `DEFAULT_CALL_PATH_LSP_BUDGET`, `MAX_CALL_PATH_LSP_BUDGET` -/
def defaultCallPathLspBudget : Nat := 30

/-- The most that `max_lsp_calls` may be. -/
def maxCallPathLspBudget : Nat := 200

section Parts

variable (E : CursorCodec)

/-- `into_page`: the limit is clamped, and the token decoded. -/
def PageInput.intoPage (input : PageInput) : Except ErrorData Page :=
  (Query.PageInput.intoPage E ⟨input.limit.map UInt32.toNat, input.cursor⟩).mapError invalidParams

/-- `into_parts`; it fails on a bad token only. -/
def FindSymbolInput.intoParts (input : FindSymbolInput) :
    Except ErrorData (String × MatchMode × Bool × FindSymbolOptions × Filter × Page) := do
  let page ← input.page.intoPage E
  let options := ⟨input.brief, input.withSignature⟩
  pure (input.pattern, input.matchMode, input.ignoreCase, options, input.filter.toFilter, page)

/-- The page is read before the symbol. -/
def SymbolQueryInput.intoParts (input : SymbolQueryInput) :
    Except ErrorData (SymbolRef × Filter × Page) := do
  let page ← input.page.intoPage E
  let symref ← input.symbol.toSymbolRef
  pure (symref, input.filter.toFilter, page)

/-- As for any query, with the flag. -/
def CallGraphQueryInput.intoParts (input : CallGraphQueryInput) :
    Except ErrorData (SymbolRef × Filter × Page × Bool) := do
  let (symref, filter, page) ← input.query.intoParts E
  pure (symref, filter, page, input.withSignature)

end Parts

/-- Both ends, and the two bounds with their defaults and clamps. -/
def FindCallPathInput.intoParts (input : FindCallPathInput) :
    Except ErrorData (SymbolRef × SymbolRef × Nat × Nat) := do
  let source ← input.from.toSymbolRef
  let target ← input.to.toSymbolRef
  let maxDepth := max 1 (min ((input.maxDepth.map UInt32.toNat).getD defaultCallPathMaxDepth)
    maxCallPathMaxDepth)
  let maxLspCalls := min ((input.maxLspCalls.map UInt32.toNat).getD defaultCallPathLspBudget)
    maxCallPathLspBudget
  pure (source, target, maxDepth, maxLspCalls)

/-- The first and the last line; without a range, all of them. -/
def ReadRangeInput.intoParts (input : ReadRangeInput) : String × Nat × Nat :=
  match input.range with
  | some range => (input.uri, range.start.line.toNat, range.end.line.toNat)
  | none => (input.uri, 0, 2 ^ 32 - 1)

/-! ## Outputs -/

/-- `degrade_reason_str` -/
def degradeReasonStr : DegradeReason → String
  | .lspUnavailable => "lsp_unavailable"
  | .lspTimeout => "lsp_timeout"

/-- `lsp_status_str` -/
def lspStatusStr : LspStatus → String
  | .down => "down"
  | .degraded => "degraded"

/-- `DegradeInfo::from(Degradation)` -/
def DegradeInfo.of (d : Degradation) : DegradeInfo :=
  ⟨true, degradeReasonStr d.reason, lspStatusStr d.status⟩

/-- `refreshing.then_some(FreshnessInfo { refreshing: true })` -/
def FreshnessInfo.of (refreshing : Bool) : Option FreshnessInfo :=
  if refreshing then some ⟨true⟩ else none

/-- `FindDefinitionOutput::from` -/
def FindDefinitionOutput.of (x : FindDefinitionResult × Option Degradation) :
    FindDefinitionOutput :=
  ⟨x.1, x.2.map .of⟩

/-- `FindReferencesOutput::from` -/
def FindReferencesOutput.of (x : FindReferencesResult × Option Degradation × Bool) :
    FindReferencesOutput :=
  ⟨x.1, x.2.1.map .of, FreshnessInfo.of x.2.2⟩

/-- `FindCallersOutput::from` -/
def FindCallersOutput.of (x : CallGraphResult × Option Degradation × Bool) : FindCallersOutput :=
  ⟨x.1.items, x.1.nextCursor, x.1.hintFqns, x.2.1.map .of, FreshnessInfo.of x.2.2⟩

/-- `FindCalleesOutput::from` -/
def FindCalleesOutput.of (x : CallGraphResult × Option Degradation) : FindCalleesOutput :=
  ⟨x.1.items, x.1.nextCursor, x.1.hintFqns, x.2.map .of⟩

/-- `FindCallPathOutput::from` -/
def FindCallPathOutput.of (x : FindCallPathResult × Option Degradation) : FindCallPathOutput :=
  ⟨x.1, x.2.map .of⟩

/-! ## Methods -/

/-- What an operation returns, and the state it is called in and leaves; an error is its text. -/
abbrev Operation (σ α : Type) := σ → Except String α → σ → Prop

/-- `QueryRuntime` -/
structure Runtime (σ : Type) where
  findSymbol : String → MatchMode → Bool → FindSymbolOptions → Filter → Page →
    Operation σ FindSymbolResult
  findDefinition : SymbolRef → Operation σ (FindDefinitionResult × Option Degradation)
  findReferences : SymbolRef → Filter → Page →
    Operation σ (FindReferencesResult × Option Degradation × Bool)
  findCallers : SymbolRef → Filter → Page → Bool →
    Operation σ (CallGraphResult × Option Degradation × Bool)
  findCallees : SymbolRef → Filter → Page → Bool →
    Operation σ (CallGraphResult × Option Degradation)
  findCallPath : SymbolRef → SymbolRef → Nat → Nat →
    Operation σ (FindCallPathResult × Option Degradation)
  readRange : String → Nat → Nat → Operation σ ReadRangeResult
  restartLanguage : Option String → σ → List String → σ → Prop

/-- A method: an input that has no parts is refused; else the runtime is called, and its result
    reshaped. -/
def method {σ parts α β : Type} (input : Except ErrorData parts) (op : parts → Operation σ α)
    (out : α → β) (s : σ) (result : Except ErrorData β) (s' : σ) : Prop :=
  match input with
  | .error err => result = .error err ∧ s' = s
  | .ok p => ∃ r, op p s r s' ∧ result = (r.mapError internalError).map out

namespace SemnavServer

variable {σ : Type} (R : Runtime σ) (E : CursorCodec)

/-- `find_symbol` -/
def findSymbol (input : FindSymbolInput) :
    σ → Except ErrorData FindSymbolResult → σ → Prop :=
  method (input.intoParts E)
    (fun (pattern, mode, ignoreCase, options, filter, page) =>
      R.findSymbol pattern mode ignoreCase options filter page) id

/-- `find_definition`: a position is always a symbol. -/
def findDefinition (input : FindDefinitionInput) :
    σ → Except ErrorData FindDefinitionOutput → σ → Prop :=
  method (.ok input.at.toSymbolRef) R.findDefinition .of

/-- `find_references` -/
def findReferences (input : SymbolQueryInput) :
    σ → Except ErrorData FindReferencesOutput → σ → Prop :=
  method (input.intoParts E) (fun (symref, filter, page) => R.findReferences symref filter page) .of

/-- `find_callers` -/
def findCallers (input : CallGraphQueryInput) :
    σ → Except ErrorData FindCallersOutput → σ → Prop :=
  method (input.intoParts E)
    (fun (symref, filter, page, withSignature) => R.findCallers symref filter page withSignature) .of

/-- `find_callees` -/
def findCallees (input : CallGraphQueryInput) :
    σ → Except ErrorData FindCalleesOutput → σ → Prop :=
  method (input.intoParts E)
    (fun (symref, filter, page, withSignature) => R.findCallees symref filter page withSignature) .of

/-- `find_call_path` -/
def findCallPath (input : FindCallPathInput) :
    σ → Except ErrorData FindCallPathOutput → σ → Prop :=
  method input.intoParts
    (fun (source, target, maxDepth, maxLspCalls) =>
      R.findCallPath source target maxDepth maxLspCalls) .of

/-- `read_range`: every range has its lines. -/
def readRange (input : ReadRangeInput) : σ → Except ErrorData ReadRangeResult → σ → Prop :=
  method (.ok input.intoParts) (fun (uri, startLine, endLine) => R.readRange uri startLine endLine) id

/-- `restart_lsp`, which cannot fail. -/
def restartLsp (input : RestartLspInput) (s : σ) (result : Except ErrorData RestartLspResult)
    (s' : σ) : Prop :=
  ∃ restarted, R.restartLanguage input.language s restarted s' ∧ result = .ok ⟨restarted⟩

end SemnavServer

end Semnav.Mcp
