import Semnav.Spec.ReconcileCommits

/-!
# What a committed reconcile leaves behind

The postcondition of `reconcile_file_symbols` for a batch without collisions whose fqns no
other file holds, row by row: the symbols' rows, the rows that were left over, and the
rows of other files.

## Key results

- `reconcile_post`: every committed reconcile meets `ReconcilePost`
- `reconcile_clears_foreign_container`: deleting a row clears `container_id` in rows of
  other files
-/

namespace Semnav.Graph

open Semnav.ForStd

/-- A row holds a symbol's data under the given container, alive. -/
structure Node.Carries (x : Node) (s : ReconcileSymbol) (containerId : Option RowId) : Prop where
  fqn : x.fqn = s.fqn
  name : x.name = s.name
  kind : x.kind = s.kind
  nodeKind : x.nodeKind = s.nodeKind
  range : x.range = s.range
  sel : x.sel = s.sel
  detail : x.detail = s.detail
  signatureHash : x.signatureHash = some s.signatureHash
  container : x.containerId = containerId
  valid : x.valid = true
  orphan : x.orphan = false

/-- The postcondition of a reconcile that found the rows `olds`, matched them by `a`, and wrote
    symbol `i` to the row `row i`. -/
structure ReconcilePost (db : Db) (args : FileArgs) (syms : List ReconcileSymbol)
    (olds : List Node) (a : Assignment) (db' : Db) (o : ReconcileOutcome)
    (row : Nat → Option RowId) : Prop where
  /-- Different symbols have different rows. -/
  row_inj : ∀ i < syms.length, ∀ j < syms.length, row i = row j → i = j
  /-- Every symbol's row carries its data, below the row of its parent. -/
  carries : ∀ (i : Nat) (s : ReconcileSymbol), syms[i]? = some s →
    ∃ x ∈ db'.nodes, row i = some x.id ∧ x.uri = args.uri ∧ x.Carries s (s.parent.bind row)
  /-- The valid rows of the file are the symbols' rows. -/
  valid_iff : ∀ x ∈ db'.nodes, x.uri = args.uri →
    (x.valid = true ↔ ∃ i < syms.length, row i = some x.id)
  /-- A matched row keeps its id. -/
  matched : ∀ (i j : Nat) (old : Node), a.assigned i = some j → olds[j]? = some old →
    row i = some old.id
  /-- First strike: the row is flagged and keeps its fqn and its position. -/
  orphaned : ∀ (j : Nat) (old : Node), olds[j]? = some old → a.oldUsed j = false →
    old.orphan = false → ∃ x ∈ db'.nodes, x.id = old.id ∧ x.orphan = true ∧ x.valid = false ∧
      x.fqn = old.fqn ∧ x.range = old.range
  /-- Second strike: the row is gone, with everything that refers to it. -/
  deleted : ∀ (j : Nat) (old : Node), olds[j]? = some old → a.oldUsed j = false →
    old.orphan = true → (∀ x ∈ db'.nodes, x.id ≠ old.id) ∧
      (∀ e ∈ db'.edges, e.srcId ≠ old.id ∧ e.dstId ≠ old.id) ∧
      db'.calleesCache old.id = none ∧ ∀ t, db'.materialized old.id t = false
  /-- A row of another file is unchanged, except that a container that was deleted is
      cleared. -/
  other : ∀ x, x.uri ≠ args.uri → (x ∈ db'.nodes ↔
    ∃ y ∈ db.nodes, y.uri ≠ args.uri ∧ x = y.forget (deletedIds olds a))
  total : o.unchanged + o.updated + o.renamed + o.inserted = syms.length
  reclaimed : o.orphaned + o.deleted = olds.zipIdx.countP fun x => !a.oldUsed x.2

theorem writtenCols_carries (args : FileArgs) (olds : List Node) (a : Assignment)
    (ids : Nat → Option RowId) (i : Nat) (s : ReconcileSymbol) (id : RowId) :
    Node.Carries ⟨writtenCols args olds a ids i s, id⟩ s (s.parent.bind ids) := by
  unfold writtenCols
  split <;> exact ⟨rfl, rfl, rfl, rfl, rfl, rfl, rfl, rfl, rfl, rfl, rfl⟩

private theorem reclaimCount_add (olds : List Node) (a : Assignment) (k : Nat)
    (hk : k ≤ olds.length) :
    reclaimCount olds a k false + reclaimCount olds a k true =
      (olds.take k).zipIdx.countP fun x => !a.oldUsed x.2 := by
  induction k with
  | zero => rfl
  | succ k ih =>
    have hlt : k < olds.length := hk
    have hget := List.getElem?_eq_getElem hlt
    have hlen : (olds.take k).length = k := by
      rw [List.length_take]
      omega
    rw [reclaimCount_succ k _ hget, reclaimCount_succ k _ hget, List.take_add_one, hget,
      Option.toList_some, List.zipIdx_append, List.countP_append, ← ih (Nat.le_of_lt hlt), hlen]
    simp only [Nat.zero_add, List.zipIdx_singleton, List.countP_singleton]
    cases a.oldUsed k <;> cases olds[k].orphan <;> simp <;> omega

namespace Reconciled

variable {db : Db} {args : FileArgs} {olds : List Node} {syms : List ReconcileSymbol}
  {a : Assignment} {ids : Nat → Option RowId} {db' : Db} {o : ReconcileOutcome}

/-- The row a symbol was written to, when no later symbol shares it. -/
theorem row_mem (hr : Reconciled db args olds syms a ids db' o) {i : Nat} {s : ReconcileSymbol}
    {id : RowId} (hs : syms[i]? = some s) (hlast : LastWriter ids syms.length i)
    (hid : ids i = some id) : (⟨writtenCols args olds a ids i s, id⟩ : Node) ∈ db'.nodes :=
  (hr.nodes _).mpr (.inl ⟨i, s, hs, hlast, hid, rfl⟩)

/-- No row of another file is written to unless it has the fqn of a symbol. -/
theorem ids_ne_of_fqn (hm : Matched (db.clearCalleesCache args.uri) args olds syms a)
    (hr : Reconciled db args olds syms a ids db' o) {y : Node} (hy : y ∈ db.nodes)
    (hu : y.uri ≠ args.uri) (hfqn : ∀ s ∈ syms, y.fqn ≠ s.fqn) (i : Nat) :
    ids i ≠ some y.id := by
  intro hid
  cases hr.origin i y.id hid with
  | claimed i' hi' old hclaim hid' =>
    obtain rfl := hm.stored.node_ext hy (hm.old_mem_base (claimedRow_mem hclaim)) hid'
    exact hu (hm.old_uri (claimedRow_mem hclaim))
  | stolen x hx hxu hid' i' hi' s hs heq =>
    obtain rfl := hm.stored.node_ext hy hx hid'
    exact hfqn s (List.mem_of_getElem? hs) heq
  | fresh hlt => exact Nat.not_le_of_lt hlt (hm.stored.id_le y hy)

/-- No symbol of a batch whose fqns are free has another file's row. -/
private theorem ids_ne_other (hm : Matched (db.clearCalleesCache args.uri) args olds syms a)
    (hfree : FqnsFree db args.uri syms) (hr : Reconciled db args olds syms a ids db' o) {y : Node}
    (hy : y ∈ db.nodes) (hu : y.uri ≠ args.uri) (i : Nat) : ids i ≠ some y.id :=
  hr.ids_ne_of_fqn hm hy hu (hfree y hy hu) i

/-- An id that is deleted belongs to an unclaimed row that had its first strike. -/
theorem deletedIds_iff {id : RowId} : deletedIds olds a id = true ↔
    ∃ (j : Nat) (old : Node), olds[j]? = some old ∧ a.oldUsed j = false ∧ old.orphan = true ∧
      old.id = id := by
  rw [deletedBefore_iff]
  constructor
  · rintro ⟨j, -, old, h⟩
    exact ⟨j, old, h⟩
  · rintro ⟨j, old, h⟩
    exact ⟨j, (List.getElem?_eq_some_iff.mp h.1).1, old, h⟩

/-- Any other row is still there. -/
theorem hasNode_of_not_deleted (hm : Matched (db.clearCalleesCache args.uri) args olds syms a)
    (hr : Reconciled db args olds syms a ids db' o) {y : Node} (hy : y ∈ db.nodes)
    (hkept : deletedIds olds a y.id = false) : db'.hasNode y.id = true := by
  by_cases hwritten : ∃ i, ids i = some y.id
  · -- A row that a symbol is written to.
    obtain ⟨i, hi⟩ := hwritten
    have hlt := (hr.ids_iff i).mp ⟨_, hi⟩
    obtain ⟨i', hlast, hsame⟩ := exists_lastWriter ids hlt
    have hs := List.getElem?_eq_getElem hlast.1
    exact (db'.hasNode_iff _).mpr ⟨_, hr.row_mem hs hlast (hsame.trans hi), rfl⟩
  · have hfree : ∀ i, ids i ≠ some y.id := fun i hi => hwritten ⟨i, hi⟩
    by_cases hu : y.uri = args.uri
    · -- A row that is left over, at its first strike.
      have hold : y ∈ olds := (hm.mem_olds y).mpr ⟨hy, hu⟩
      have hunclaimed : ∀ i, claimedRow olds a i ≠ some y := fun i hi =>
        hfree i (hr.claimed i y hi)
      have horphan : y.orphan = false := by
        by_contra htrue
        obtain ⟨j, hj⟩ := List.getElem?_of_mem hold
        have hunused : a.oldUsed j = false := by
          rw [← Bool.not_eq_true, hm.oldUsed_iff hj]
          exact fun ⟨i, hi⟩ => hunclaimed i hi
        have hdeleted := deletedIds_iff.mpr ⟨j, y, hj, hunused, by simpa using htrue, rfl⟩
        exact Bool.noConfusion (hkept.symm.trans hdeleted)
      have hmem := (hr.nodes _).mpr (.inr (.inl ⟨y, hold, hunclaimed, horphan, rfl⟩))
      exact (db'.hasNode_iff _).mpr ⟨_, hmem, rfl⟩
    · -- A row of another file.
      have hmem := (hr.nodes _).mpr (.inr (.inr ⟨y, hy, hu, hfree, rfl⟩))
      exact (db'.hasNode_iff _).mpr ⟨_, hmem, y.forget_id _⟩

/-- Nothing refers to a deleted row any more. -/
theorem deleted_gone (hm : Matched (db.clearCalleesCache args.uri) args olds syms a)
    (hr : Reconciled db args olds syms a ids db' o) {id : RowId}
    (hdel : deletedIds olds a id = true) : (∀ x ∈ db'.nodes, x.id ≠ id) ∧
      (∀ e ∈ db'.edges, e.srcId ≠ id ∧ e.dstId ≠ id) ∧
      db'.calleesCache id = none ∧ ∀ t, db'.materialized id t = false := by
  obtain ⟨j, old, hj, hfree, horph, rfl⟩ := deletedIds_iff.mp hdel
  have hold := List.mem_of_getElem? hj
  -- The id is none of a symbol's row, of an orphan's or of another file's row.
  have hnodes : ∀ x ∈ db'.nodes, x.id ≠ old.id := by
    intro x hx hid
    rcases (hr.nodes x).mp hx with ⟨i, s, hs, -, hids, -⟩ | ⟨old', hold', -, horph', rfl⟩ |
      ⟨y, hy, hu, -, rfl⟩
    · obtain ⟨i', -, hclaim⟩ := (hid ▸ hr.origin i x.id hids).old_claimed hm hold
      exact hm.not_claimed hj hfree i' hclaim
    · obtain rfl := hm.old_ext hold' hold hid
      rw [horph] at horph'
      exact nomatch horph'
    · obtain rfl := hm.stored.node_ext hy (hm.old_mem_base hold) hid
      exact hu (hm.old_uri hold)
  -- Edges, hashes and markers refer to rows that are stored, so none refers to this one.
  have hno : ¬ db'.hasNode old.id = true := fun h => by
    obtain ⟨x, hx, hid⟩ := (db'.hasNode_iff old.id).mp h
    exact hnodes x hx hid
  refine ⟨hnodes, fun e he => ⟨fun h => ?_, fun h => ?_⟩, ?_, fun t => ?_⟩
  · exact hno (h ▸ (hr.stored.edge_ok e he).1)
  · exact hno (h ▸ (hr.stored.edge_ok e he).2)
  · by_contra h
    exact hno (hr.stored.cache_ok _ h)
  · by_contra h
    exact hno (hr.stored.materialized_ok _ t (by simpa using h))

/-- The postcondition of a batch without collisions. -/
private theorem post (hm : Matched (db.clearCalleesCache args.uri) args olds syms a)
    (hS : SymbolBatch syms) (hfree : FqnsFree db args.uri syms)
    (hr : Reconciled db args olds syms a ids db' o) :
    ReconcilePost db args syms olds a db' o ids where
  row_inj := fun i hi j hj => hr.collapse.inj hS hi hj
  carries := by
    intro i s hs
    have hlt := (List.getElem?_eq_some_iff.mp hs).1
    obtain ⟨id, hid⟩ := (hr.ids_iff i).mpr hlt
    refine ⟨_, hr.row_mem hs (hr.collapse.lastWriter hS hlt) hid, hid, ?_,
      writtenCols_carries args olds a ids i s id⟩
    exact congrArg Prod.fst (hm.writtenCols_phys ids i s)
  -- A row of the file is a symbol's, which is valid, or an orphan, which is not.
  valid_iff := by
    intro x hx hu
    rcases (hr.nodes x).mp hx with ⟨i, s, hs, hlast, hid, hcols⟩ | ⟨old, hold, hfree', -, rfl⟩ |
      ⟨y, -, hyu, -, rfl⟩
    · refine iff_of_true ?_ ⟨i, hlast.1, hid⟩
      rw [hcols]
      exact (writtenCols_carries args olds a ids i s x.id).valid
    · refine iff_of_false (by simp [Node.orphaned, orphanCols]) fun ⟨i, hi, hid⟩ => ?_
      obtain ⟨i', -, hclaim⟩ := (hr.origin i _ hid).old_claimed hm hold
      exact hfree' i' hclaim
    · exact absurd hu hyu
  matched := fun i j old hi hj => hr.claimed i old (claimedRow_eq_some_iff.mpr ⟨j, hi, hj⟩)
  orphaned := by
    intro j old hj hunused horph
    exact ⟨_, (hr.nodes _).mpr (.inr (.inl ⟨old, List.mem_of_getElem? hj,
      hm.not_claimed hj hunused, horph, rfl⟩)), rfl, rfl, rfl, rfl, rfl⟩
  deleted := fun j old hj hunused horph =>
    hr.deleted_gone hm (deletedIds_iff.mpr ⟨j, old, hj, hunused, horph, rfl⟩)
  -- Another file's row is not written, as no symbol has its name.
  other := by
    intro x hu
    rw [hr.nodes]
    constructor
    · rintro (⟨i, s, -, -, -, hcols⟩ | ⟨old, hold, -, -, rfl⟩ | ⟨y, hy, hyu, -, rfl⟩)
      · refine absurd ?_ hu
        rw [hcols]
        exact congrArg Prod.fst (hm.writtenCols_phys ids i s)
      · exact absurd (hm.old_uri hold) hu
      · exact ⟨y, hy, hyu, rfl⟩
    · rintro ⟨y, hy, hyu, rfl⟩
      exact .inr (.inr ⟨y, hy, hyu, hr.ids_ne_other hm hfree hy hyu, rfl⟩)
  total := by
    rw [hr.outcome]
    exact tally_total olds a syms
  reclaimed := by
    rw [hr.outcome]
    have := reclaimCount_add olds a olds.length (Nat.le_refl _)
    rwa [List.take_length] at this

end Reconciled

/-- Every reconcile of a batch without collisions that commits meets its postcondition. -/
theorem reconcile_post (H : Hasher) {db : Db} (h : db.Stored) {args : FileArgs}
    {syms : List ReconcileSymbol} (hS : SymbolBatch syms) (hfree : FqnsFree db args.uri syms)
    {db' : Db} {o : ReconcileOutcome}
    (hok : reconcileFileSymbols H db args syms = .ok (db', o)) :
    ∃ row, ReconcilePost db args syms (db.nodesByUri args.uri)
      (matchSymbols H (db.nodesByUri args.uri) syms) db' o row := by
  obtain ⟨ids, hr⟩ := reconcile_reconciled H h hS.line_nonneg hok
  exact ⟨ids, hr.post (matched_of_stored H h args hS.line_nonneg) hS hfree⟩

theorem reconcile_post_class : ∃ row, ReconcilePost .empty appPy (classSymbols "Foo")
    (Db.empty.nodesByUri appPy.uri)
    (matchSymbols lengthHasher (Db.empty.nodesByUri appPy.uri) (classSymbols "Foo")) fooDb
    { inserted := 2 } row :=
  reconcile_post lengthHasher Db.empty_stored (by decide) (by decide) fooDb_eq

/-! ## A container in another file -/

/-- A function row, orphaned or not. -/
def functionRow (id : RowId) (uri fqn : String) (containerId : Option RowId) (orphan : Bool) :
    Node :=
  { fqn := fqn, uri := uri, name := fqn, language := "python", kind := 12, nodeKind := "function",
    construct := none, containerId := containerId, range := ⟨0, 0, 1, 0⟩, sel := ⟨0, 4, 0, 5⟩,
    signature := none, documentation := none, detail := none, signatureHash := none,
    valid := !orphan, orphan := orphan, generation := 0, isExternal := false, id := id }

/-- An orphaned row of `app.py` that a row of `lib.py` names as its container. -/
def crossFileDb : Db :=
  { Db.empty with
    nodes := [functionRow 1 appPy.uri "app.f" none true,
      functionRow 2 "file:///lib.py" "lib.g" (some 1) false]
    nodesSeq := 2 }

private theorem crossFileDb_stored : crossFileDb.Stored where
  ids_nodup := by decide
  id_pos := by decide
  id_le := by decide
  fqn_unique := by decide
  phys_unique := by decide
  container_ok := by simp [crossFileDb, functionRow, Db.hasNode]
  edge_ids_nodup := by simp [crossFileDb, Db.empty]
  edge_id_le := by simp [crossFileDb, Db.empty]
  edge_ok := by simp [crossFileDb, Db.empty]
  cache_ok := by simp [crossFileDb, Db.empty]
  materialized_ok := by simp [crossFileDb, Db.empty]
  line_nonneg := by decide

/-- Reconciling `app.py` without symbols deletes its row, and thereby rewrites a row of
    `lib.py`. -/
theorem reconcile_clears_foreign_container :
    crossFileDb.Stored ∧ SymbolBatch [] ∧ FqnsFree crossFileDb appPy.uri [] ∧
      functionRow 2 "file:///lib.py" "lib.g" (some 1) false ∈ crossFileDb.nodes ∧
      ∃ db' o, reconcileFileSymbols lengthHasher crossFileDb appPy [] = .ok (db', o) ∧
        functionRow 2 "file:///lib.py" "lib.g" (some 1) false ∉ db'.nodes :=
  ⟨crossFileDb_stored, by decide, by decide, by decide, _, _, rfl, by decide⟩

end Semnav.Graph
