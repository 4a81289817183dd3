import Semnav.ForStd.DefaultHasher
import Semnav.Graph.Db

/-!
# `reconcile_file_symbols`

The diff of a uri's freshly fetched symbols against its rows, in one transaction
(`src/graph/db.rs`): clear the file's callees cache, park every row on a negative
line, match symbols to rows (Pass 1 by fqn, Pass 2 by rename score), write the
symbols (Pass 3), reclaim the rows left over (Pass 4) and upsert the `contains`
edges (Pass 5).

The transaction is the `Except` result: on an error it is rolled back, so the
caller keeps the tables it had.
-/

namespace Semnav.Graph

open Semnav.ForStd

/-- `RENAME_MAX_LINE_DRIFT`. -/
def renameMaxLineDrift : Int := 3

/-- The trailing-name-stripped fqn (`a.b.C.method` ↦ `a.b.C`), `""` without a dot:
    `fqn.rsplit_once('.')`. -/
def containerPrefix (fqn : String) : String :=
  match fqn.toList.reverse.dropWhile (· ≠ '.') with
  | [] => ""
  | _ :: before => String.ofList before.reverse

/-- `span` of `src/graph/db.rs`: the four coordinates, as written to the hasher. -/
def span (r : Range) : List HashWrite :=
  [.i64 r.startLine, .i64 r.startCol, .i64 r.endLine, .i64 r.endCol]

/-- `body_fingerprint`: scores rename candidates, never persisted. -/
def bodyFingerprint (H : Hasher) (kind : Int) (detail : Option String) (range sel : Range) :
    UInt64 :=
  H ([.i64 kind] ++ hashOptionStr detail ++ span range ++ span sel)

/-! ## Passes 1 and 2: matching symbols to rows -/

/-- The two bookkeeping vectors of the matching, by symbol index and by row index. -/
structure Assignment where
  assigned : Nat → Option Nat
  oldUsed : Nat → Bool

namespace Assignment

/-- `vec![None; symbols.len()]` and `vec![false; old_nodes.len()]`. -/
def init : Assignment := ⟨fun _ => none, fun _ => false⟩

/-- `assigned[i] = Some(j); old_used[j] = true`. -/
def claim (a : Assignment) (i j : Nat) : Assignment :=
  ⟨Function.update a.assigned i (some j), Function.update a.oldUsed j true⟩

end Assignment

/-- One round of Pass 1: the first unclaimed row with the symbol's fqn. -/
def claimExact (olds : List Node) (a : Assignment) (sym : ReconcileSymbol) (i : Nat) :
    Assignment :=
  match olds.zipIdx.find? fun (old, j) => !a.oldUsed j && old.fqn == sym.fqn with
  | some (_, j) => a.claim i j
  | none => a

/-- Pass 1: exact fqn match. -/
def pass1 (olds : List Node) (syms : List ReconcileSymbol) : Assignment :=
  syms.zipIdx.foldl (fun a (sym, i) => claimExact olds a sym i) Assignment.init

/-- A scored pairing of an unclaimed row with an unclaimed symbol. -/
structure RenameCandidate where
  /-- `1` when the body fingerprint matches (confident), `0` otherwise (probable). -/
  tier : Nat
  lineDrift : Int
  oldIdx : Nat
  symIdx : Nat
deriving DecidableEq

/-- The candidate that row `j` and symbol `i` make, if they may be a rename of one
    another: same kind, same container prefix, at most `renameMaxLineDrift` apart. -/
def renameCandidate? (H : Hasher) (old : Node) (j : Nat) (sym : ReconcileSymbol) (i : Nat) :
    Option RenameCandidate :=
  if old.kind ≠ sym.kind then none
  else if containerPrefix old.fqn ≠ containerPrefix sym.fqn then none
  else
    let lineDrift : Int := |old.range.startLine - sym.range.startLine|
    if lineDrift > renameMaxLineDrift then none
    else
      let tier := if bodyFingerprint H old.kind old.detail old.range old.sel =
          bodyFingerprint H sym.kind sym.detail sym.range sym.sel then 1 else 0
      some ⟨tier, lineDrift, j, i⟩

/-- The candidate list of Pass 2, in the order the two loops push it. -/
def renameCandidates (H : Hasher) (olds : List Node) (syms : List ReconcileSymbol)
    (a : Assignment) : List RenameCandidate :=
  syms.zipIdx.flatMap fun (sym, i) =>
    if (a.assigned i).isSome then []
    else olds.zipIdx.filterMap fun (old, j) =>
      if a.oldUsed j then none else renameCandidate? H old j sym i

/-- The `sort_by` of Pass 2: tier descending, then drift, then row index. -/
def RenameCandidate.le (a b : RenameCandidate) : Prop :=
  b.tier < a.tier ∨ (a.tier = b.tier ∧
    (a.lineDrift < b.lineDrift ∨ (a.lineDrift = b.lineDrift ∧ a.oldIdx ≤ b.oldIdx)))

instance (a b : RenameCandidate) : Decidable (a.le b) :=
  inferInstanceAs (Decidable (_ ∨ (_ ∧ (_ ∨ (_ ∧ _)))))

/-- One round of the greedy assignment. -/
def claimRename (a : Assignment) (c : RenameCandidate) : Assignment :=
  if a.oldUsed c.oldIdx || (a.assigned c.symIdx).isSome then a else a.claim c.symIdx c.oldIdx

/-- Pass 2: rename candidates, best first (`sort_by` is stable, as `insertionSort` is). -/
def pass2 (H : Hasher) (olds : List Node) (syms : List ReconcileSymbol) (a : Assignment) :
    Assignment :=
  ((renameCandidates H olds syms a).insertionSort RenameCandidate.le).foldl claimRename a

/-- Passes 1 and 2. -/
def matchSymbols (H : Hasher) (olds : List Node) (syms : List ReconcileSymbol) : Assignment :=
  pass2 H olds syms (pass1 olds syms)

/-! ## Pass 3: writing the symbols -/

/-- `UPDATE_NODE_SQL`: the columns a matched row takes from its symbol. -/
def ReconcileSymbol.writeOver (sym : ReconcileSymbol) (containerId : Option RowId)
    (n : NodeCols) : NodeCols :=
  { n with
    fqn := sym.fqn, name := sym.name, kind := sym.kind, nodeKind := sym.nodeKind
    containerId := containerId, range := sym.range, sel := sym.sel, detail := sym.detail
    signatureHash := some sym.signatureHash, valid := true, orphan := false }

/-- The node an unmatched symbol is upserted as. -/
def ReconcileSymbol.toNode (sym : ReconcileSymbol) (uri language : String) (isExternal : Bool)
    (containerId : Option RowId) : NodeCols where
  fqn := sym.fqn
  uri := uri
  name := sym.name
  language := language
  kind := sym.kind
  nodeKind := sym.nodeKind
  construct := none
  containerId := containerId
  range := sym.range
  sel := sym.sel
  signature := none
  documentation := none
  detail := sym.detail
  signatureHash := some sym.signatureHash
  valid := true
  orphan := false
  generation := 0
  isExternal := isExternal

/-- The arguments of a reconcile besides the symbols. -/
structure FileArgs where
  uri : String
  language : String
  isExternal : Bool
deriving DecidableEq

/-- What the Pass 3 loop carries from symbol to symbol. -/
structure ApplyState where
  db : Db
  /-- `ids[i]`: the row that symbol `i` was written to. -/
  ids : Nat → Option RowId
  outcome : ReconcileOutcome

/-- `ids[p].ok_or_else(..)` for a parent index, nothing for a top-level symbol. -/
def parentId (ids : Nat → Option RowId) : Option Nat → Except DbError (Option RowId)
  | none => .ok none
  | some p =>
    match ids p with
    | some id => .ok (some id)
    | none => .error .parentProcessedBeforeChild

/-- A matched symbol: rewrite its row; on a rename or a changed hash, drop the
    validity of the row's edges. -/
def applyMatched (old : Node) (sym : ReconcileSymbol) (i : Nat) (containerId : Option RowId)
    (st : ApplyState) : Except DbError ApplyState := do
  let db ← st.db.updateNode old.id (sym.writeOver containerId)
  let ids := Function.update st.ids i (some old.id)
  if old.fqn ≠ sym.fqn then
    .ok ⟨db.invalidateEdges old.id, ids, { st.outcome with renamed := st.outcome.renamed + 1 }⟩
  else if old.signatureHash ≠ some sym.signatureHash then
    .ok ⟨db.invalidateEdges old.id, ids, { st.outcome with updated := st.outcome.updated + 1 }⟩
  else
    .ok ⟨db, ids, { st.outcome with unchanged := st.outcome.unchanged + 1 }⟩

/-- An unmatched symbol: upsert a fresh node. -/
def applyNew (args : FileArgs) (sym : ReconcileSymbol) (i : Nat) (containerId : Option RowId)
    (st : ApplyState) : Except DbError ApplyState := do
  let (db, id) ← st.db.upsertNode (sym.toNode args.uri args.language args.isExternal containerId)
  .ok ⟨db, Function.update st.ids i (some id),
    { st.outcome with inserted := st.outcome.inserted + 1 }⟩

/-- One round of Pass 3 (`a.assigned i` always indexes `olds`). -/
def applySymbol (args : FileArgs) (olds : List Node) (a : Assignment) (st : ApplyState)
    (sym : ReconcileSymbol) (i : Nat) : Except DbError ApplyState := do
  let containerId ← parentId st.ids sym.parent
  match (a.assigned i).bind (olds[·]?) with
  | some old => applyMatched old sym i containerId st
  | none => applyNew args sym i containerId st

/-- Pass 3, in parent-before-child order. -/
def pass3 (args : FileArgs) (olds : List Node) (a : Assignment) (syms : List ReconcileSymbol)
    (db : Db) : Except DbError ApplyState :=
  syms.zipIdx.foldlM (fun st (sym, i) => applySymbol args olds a st sym i) ⟨db, fun _ => none, {}⟩

/-! ## Passes 4 and 5 -/

/-- `ORPHAN_NODE_SQL`: flag the row and give it back its start line. -/
def orphanCols (startLine : Int) (n : NodeCols) : NodeCols :=
  { n with orphan := true, valid := false, range := { n.range with startLine := startLine } }

/-- One round of Pass 4: two-strike reclamation of an unclaimed row. -/
def reclaim (a : Assignment) (st : Db × ReconcileOutcome) (old : Node) (j : Nat) :
    Except DbError (Db × ReconcileOutcome) :=
  if a.oldUsed j then .ok st
  else if old.orphan then
    .ok (st.1.deleteNode old.id, { st.2 with deleted := st.2.deleted + 1 })
  else do
    let db ← st.1.updateNode old.id (orphanCols old.range.startLine)
    .ok (db, { st.2 with orphaned := st.2.orphaned + 1 })

/-- Pass 4. -/
def pass4 (olds : List Node) (a : Assignment) (st : Db × ReconcileOutcome) :
    Except DbError (Db × ReconcileOutcome) :=
  olds.zipIdx.foldlM (fun st (old, j) => reclaim a st old j) st

/-- The `contains` edge of Pass 5. -/
def containsEdge (src dst : RowId) : Edge := ⟨src, dst, .contains, none, true⟩

/-- One round of Pass 5. -/
def linkParent (ids : Nat → Option RowId) (db : Db) (sym : ReconcileSymbol) (i : Nat) :
    Except DbError Db :=
  match sym.parent with
  | none => .ok db
  | some p =>
    match ids p, ids i with
    | some src, some dst => do
      let (db, _) ← db.upsertEdge (containsEdge src dst)
      .ok db
    | _, _ => .error .parentProcessedBeforeChild

/-- Pass 5: `contains` edges. -/
def pass5 (ids : Nat → Option RowId) (syms : List ReconcileSymbol) (db : Db) :
    Except DbError Db :=
  syms.zipIdx.foldlM (fun db (sym, i) => linkParent ids db sym i) db

/-! ## The transaction -/

/-- `DELETE FROM callees_cache WHERE anchor_id IN (SELECT id FROM nodes WHERE uri = ?1)`. -/
def Db.clearCalleesCache (db : Db) (uri : String) : Db :=
  { db with calleesCache := fun a =>
      if (db.nodesByUri uri).any (·.id == a) then none else db.calleesCache a }

/-- Park a row: `range_start_line = -id`. -/
def parkCols (id : RowId) (n : NodeCols) : NodeCols :=
  { n with range := { n.range with startLine := -(id : Int) } }

/-- `UPDATE nodes SET range_start_line = -id WHERE uri = ?1`, row by row. -/
def park (olds : List Node) (db : Db) : Except DbError Db :=
  olds.foldlM (fun db old => db.updateNode old.id (parkCols old.id)) db

/-- `reconcile_file_symbols`. -/
def reconcileFileSymbols (H : Hasher) (db : Db) (args : FileArgs) (syms : List ReconcileSymbol) :
    Except DbError (Db × ReconcileOutcome) := do
  let db := db.clearCalleesCache args.uri
  let olds := db.nodesByUri args.uri
  let parked ← park olds db
  let a := matchSymbols H olds syms
  let st ← pass3 args olds a syms parked
  let (db, outcome) ← pass4 olds a (st.db, st.outcome)
  let db ← pass5 st.ids syms db
  .ok (db, outcome)

end Semnav.Graph
