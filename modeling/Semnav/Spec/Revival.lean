import Semnav.Spec.Containment

/-!
# Revived rows

A row that vanished keeps its edges through the grace period.  When a symbol matches it again the
row is valid once more, and its edges are dropped by the branches that rename or update it, not by
the one that finds it unchanged.

## Key results

- `revival_drops_edges_iff`: when a revived row is left without a valid edge
- `unchanged_revival_keeps_edge`: a method that vanishes and returns, with the edge it had
-/

namespace Semnav.Graph

open Semnav.ForStd

/-! ## Rows whose edges a reconcile drops -/

section

variable (olds : List Node) (syms : List ReconcileSymbol) (a : Assignment)

/-- The row is matched with a symbol of another fqn or signature hash: it is renamed or updated. -/
def Renewed (id : RowId) : Prop :=
  ∃ (i : Nat) (s : ReconcileSymbol) (old : Node), syms[i]? = some s ∧
    claimedRow olds a i = some old ∧ old.id = id ∧
    (old.fqn ≠ s.fqn ∨ old.signatureHash ≠ some s.signatureHash)

/-- The row is an orphan that no symbol is matched with: this is its second strike. -/
def StruckTwice (id : RowId) : Prop :=
  ∃ (j : Nat) (old : Node), olds[j]? = some old ∧ a.oldUsed j = false ∧ old.orphan = true ∧
    old.id = id

/-- An edge of which one end is such a row. -/
def Dropped (e : EdgeRow) : Prop :=
  Renewed olds syms a e.srcId ∨ Renewed olds syms a e.dstId ∨ StruckTwice olds a e.srcId ∨
    StruckTwice olds a e.dstId

end

/-- The row has a valid edge other than `contains`. -/
def Db.HasValidEdge (db : Db) (id : RowId) : Prop :=
  ∃ e ∈ db.edges, e.edgeType ≠ .contains ∧ (e.srcId = id ∨ e.dstId = id) ∧ e.valid = true

section

variable {db db' : Db} {args : FileArgs} {olds : List Node} {syms : List ReconcileSymbol}
  {a : Assignment} {ids : Nat → Option RowId} {o : ReconcileOutcome}

/-- The stale rows are those renewed. -/
theorem staleIds_iff_renewed {id : RowId} :
    staleIds olds syms a id = true ↔ Renewed olds syms a id := by
  rw [staleIds_iff]
  constructor
  · intro h
    obtain ⟨i, s, hs, hrow⟩ := h
    obtain ⟨old, hclaim, hid, hne⟩ := staleRow_eq_some_iff.mp hrow
    exact ⟨i, s, old, hs, hclaim, hid, hne⟩
  · intro h
    obtain ⟨i, s, old, hs, hclaim, hid, hne⟩ := h
    exact ⟨i, s, hs, staleRow_eq_some_iff.mpr ⟨old, hclaim, hid, hne⟩⟩

/-- An edge stays when neither end is stale or deleted. -/
theorem not_dropped_iff {e : EdgeRow} : ¬ Dropped olds syms a e ↔
    (staleIds olds syms a e.srcId = false ∧ staleIds olds syms a e.dstId = false) ∧
      deletedIds olds a e.srcId = false ∧ deletedIds olds a e.dstId = false := by
  unfold Dropped StruckTwice
  rw [← staleIds_iff_renewed, ← staleIds_iff_renewed, ← Reconciled.deletedIds_iff,
    ← Reconciled.deletedIds_iff]
  simp only [not_or, Bool.not_eq_true]
  tauto

/-- The valid edges of a row after a reconcile are those that the reconcile has not dropped. -/
private theorem Reconciled.hasValidEdge_iff (hr : Reconciled db args olds syms a ids db' o)
    (id : RowId) :
    db'.HasValidEdge id ↔ ∃ e ∈ db.edges, e.edgeType ≠ .contains ∧
      (e.srcId = id ∨ e.dstId = id) ∧ e.valid = true ∧ ¬ Dropped olds syms a e := by
  constructor
  · intro h
    obtain ⟨e, he, hne, hend, hvalid⟩ := h
    obtain ⟨e₀, he₀, rfl, hdeleted⟩ := (hr.edges_other e hne).mp he
    -- A flag that is still set was set before, and no end of the edge was renewed.
    have hflag : (e₀.valid && !(staleIds olds syms a e₀.srcId || staleIds olds syms a e₀.dstId)) =
        true := hvalid
    simp only [Bool.and_eq_true, Bool.not_eq_true', Bool.or_eq_false_iff] at hflag
    exact ⟨e₀, he₀, hne, hend, hflag.1, not_dropped_iff.mpr ⟨hflag.2, hdeleted⟩⟩
  · intro h
    obtain ⟨e₀, he₀, hne, hend, hvalid, hkept⟩ := h
    obtain ⟨hstale, hdeleted⟩ := not_dropped_iff.mp hkept
    refine ⟨e₀.staleIf (staleIds olds syms a), ?_, hne, hend, ?_⟩
    · exact (hr.edges_other (e₀.staleIf _) hne).mpr ⟨e₀, he₀, rfl, hdeleted⟩
    · show (e₀.valid && !(staleIds olds syms a e₀.srcId || staleIds olds syms a e₀.dstId)) = true
      simp [hvalid, hstale.1, hstale.2]

end

/-- No revived row is left with a valid edge other than `contains` if and only if the reconcile
    drops every such edge for another reason: one of its ends is renamed, updated or deleted. -/
theorem revival_drops_edges_iff (H : Hasher) {db db' : Db} (h : db.Stored) {args : FileArgs}
    {syms : List ReconcileSymbol} (hline : ∀ s ∈ syms, 0 ≤ s.range.startLine)
    {o : ReconcileOutcome} (hok : reconcileFileSymbols H db args syms = .ok (db', o)) :
    (∀ i old, claimedRow (db.nodesByUri args.uri)
        (matchSymbols H (db.nodesByUri args.uri) syms) i = some old → old.orphan = true →
      ¬ db'.HasValidEdge old.id) ↔
    ∀ i old, claimedRow (db.nodesByUri args.uri)
        (matchSymbols H (db.nodesByUri args.uri) syms) i = some old → old.orphan = true →
      ∀ e ∈ db.edges, e.edgeType ≠ .contains → (e.srcId = old.id ∨ e.dstId = old.id) →
        e.valid = true →
        Dropped (db.nodesByUri args.uri) syms (matchSymbols H (db.nodesByUri args.uri) syms) e := by
  obtain ⟨ids, hr⟩ := reconcile_reconciled H h hline hok
  constructor
  · -- An edge not dropped would be left valid at the revived row.
    intro hnone i old hclaim horphan e he hne hend hvalid
    by_contra hkept
    apply hnone i old hclaim horphan
    exact (hr.hasValidEdge_iff old.id).mpr ⟨e, he, hne, hend, hvalid, hkept⟩
  · -- Conversely a valid edge at the row is one of before that was not dropped.
    intro hdropped i old hclaim horphan hvalid
    obtain ⟨e, he, hne, hend, hset, hkept⟩ := (hr.hasValidEdge_iff old.id).mp hvalid
    exact hkept (hdropped i old hclaim horphan e he hne hend hset)

/-! ## A class that vanishes and returns -/

/-- The method calls its class. -/
def calledDb : Db :=
  match fooDb.upsertEdge ⟨2, 1, .calls, some ⟨appPy.uri, ⟨1, 8, 1, 11⟩⟩, true⟩ with
  | .ok (db, _) => db
  | .error _ => .empty

/-- Both are gone from the file: one strike. -/
def goneDb : Db :=
  match reconcileFileSymbols lengthHasher calledDb appPy [] with
  | .ok (db, _) => db
  | .error _ => .empty

/-- Both are back, the way they were. -/
def backDb : Db :=
  match reconcileFileSymbols lengthHasher goneDb appPy (classSymbols "Foo") with
  | .ok (db, _) => db
  | .error _ => .empty

/-- The rows of the example reconciled away. -/
private theorem goneDb_eq : reconcileFileSymbols lengthHasher calledDb appPy [] =
    .ok (goneDb, { orphaned := 2 }) := rfl

/-- The rows of the example reconciled back unchanged. -/
private theorem backDb_eq : reconcileFileSymbols lengthHasher goneDb appPy (classSymbols "Foo") =
    .ok (backDb, { unchanged := 2 }) := rfl

/-- (a well-formed graph in between) -/
private theorem goneDb_stored : goneDb.Stored := by
  have hedge : fooDb.upsertEdge ⟨2, 1, .calls, some ⟨appPy.uri, ⟨1, 8, 1, 11⟩⟩, true⟩ =
      .ok (calledDb, 2) := rfl
  have hcalled : calledDb.Stored := by
    refine ⟨Db.upsertEdge_wf fooDb_stored.toWF hedge, ?_⟩
    rw [(Db.upsertEdge_frame hedge).1]
    exact fooDb_stored.line_nonneg
  exact reconcile_stored lengthHasher hcalled (by decide) goneDb_eq

/-- Both are back with other signature hashes. -/
def renewedDb : Db :=
  match reconcileFileSymbols lengthHasher goneDb appPy
      ((classSymbols "Foo").map fun s => { s with signatureHash := "7" }) with
  | .ok (db, _) => db
  | .error _ => .empty

/-- The rows of the example reconciled back with another hash. -/
private theorem renewedDb_eq : reconcileFileSymbols lengthHasher goneDb appPy
    ((classSymbols "Foo").map fun s => { s with signatureHash := "7" }) =
      .ok (renewedDb, { updated := 2 }) := rfl

/-- The reconcile updates the class and its method, and leaves neither with a valid edge. -/
theorem revival_drops_edges_updated :
    reconcileFileSymbols lengthHasher goneDb appPy
        ((classSymbols "Foo").map fun s => { s with signatureHash := "7" }) =
      .ok (renewedDb, { updated := 2 }) ∧
    ∀ i old, claimedRow (goneDb.nodesByUri appPy.uri)
      (matchSymbols lengthHasher (goneDb.nodesByUri appPy.uri)
        ((classSymbols "Foo").map fun s => { s with signatureHash := "7" })) i = some old →
      old.orphan = true → ¬ renewedDb.HasValidEdge old.id := by
  refine ⟨renewedDb_eq,
    (revival_drops_edges_iff lengthHasher goneDb_stored (by decide) renewedDb_eq).mpr ?_⟩
  intro i old _ _ e he hne _ _
  have hmethod : ∀ e ∈ goneDb.edges, e.edgeType ≠ .contains → e.srcId = 2 := by decide
  refine .inl ?_
  rw [hmethod e he hne]
  exact ⟨1, _, _, rfl, rfl, rfl, .inr (by decide)⟩

/-- The class and its method are revived, and the call is valid without a new look at it. -/
theorem unchanged_revival_keeps_edge : goneDb.Stored ∧
    reconcileFileSymbols lengthHasher goneDb appPy (classSymbols "Foo") =
      .ok (backDb, { unchanged := 2 }) ∧
    ∃ i old, claimedRow (goneDb.nodesByUri appPy.uri)
        (matchSymbols lengthHasher (goneDb.nodesByUri appPy.uri) (classSymbols "Foo")) i = some old ∧
      old.orphan = true ∧ backDb.HasValidEdge old.id :=
  ⟨goneDb_stored, backDb_eq, 0, _, rfl, rfl, by
    unfold Db.HasValidEdge
    decide⟩

end Semnav.Graph
