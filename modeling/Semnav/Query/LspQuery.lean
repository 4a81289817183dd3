import Semnav.Indexer.Symbol

/-!
# The query-time LSP surface

The requests the server is asked while a query runs, with their parsed replies
(`src/query/lsp_query.rs`).  A reply that is an error response, does not parse, or whose
connection died is `LspError.other`; one that missed the deadline is `LspError.timedOut`.
-/

namespace Semnav.Query

open Semnav.Indexer

/-- A normalized LSP `Location`. -/
structure Location where
  uri : String
  range : LspRange
deriving DecidableEq

/-- A `CallHierarchyItem`; `raw` is the server's own JSON, echoed back verbatim. -/
structure CallHierarchyItem where
  name : String
  kind : Nat
  uri : String
  range : LspRange
  selectionRange : LspRange
  raw : String
deriving DecidableEq

/-- `from` calls the prepared item, at `fromRanges`. -/
structure IncomingCall where
  «from» : CallHierarchyItem
  fromRanges : List LspRange
deriving DecidableEq

/-- The prepared item calls `to`, at `fromRanges`. -/
structure OutgoingCall where
  «to» : CallHierarchyItem
  fromRanges : List LspRange
deriving DecidableEq

/-- Why a round trip failed. -/
inductive LspError where
  /-- `QueryTimedOut`: the deadline passed. -/
  | timedOut
  | other
deriving DecidableEq

/-- `is_timeout`. -/
def LspError.isTimeout (e : LspError) : Bool := e == .timedOut

/-- The requests, indexed by what a successful reply carries. -/
inductive Request : Type → Type where
  | definition (uri : String) (line character : Nat) : Request (List Location)
  | references (uri : String) (line character : Nat) (includeDeclaration : Bool) :
      Request (List Location)
  | implementation (uri : String) (line character : Nat) : Request (List Location)
  | prepareCallHierarchy (uri : String) (line character : Nat) : Request (List CallHierarchyItem)
  | incomingCalls (item : CallHierarchyItem) : Request (List IncomingCall)
  | outgoingCalls (item : CallHierarchyItem) : Request (List OutgoingCall)
  | hover (uri : String) (line character : Nat) : Request (Option String)
  | documentSymbol (uri : String) : Request (List DocumentSymbol)

/-- The method of a request. -/
inductive Method where
  | definition | references | implementation | prepareCallHierarchy | incomingCalls
  | outgoingCalls | hover | documentSymbol
deriving DecidableEq

/-- The method of a request. -/
def Request.method {β : Type} : Request β → Method
  | .definition .. => .definition
  | .references .. => .references
  | .implementation .. => .implementation
  | .prepareCallHierarchy .. => .prepareCallHierarchy
  | .incomingCalls .. => .incomingCalls
  | .outgoingCalls .. => .outgoingCalls
  | .hover .. => .hover
  | .documentSymbol .. => .documentSymbol

/-- How a round trip ended. -/
inductive Outcome where
  | ok
  | failed (e : LspError)
deriving DecidableEq

/-- Forget what a reply carries. -/
def Outcome.ofReply {β : Type} : Except LspError β → Outcome
  | .ok _ => .ok
  | .error e => .failed e

end Semnav.Query
