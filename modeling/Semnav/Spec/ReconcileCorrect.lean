import Semnav.Spec.LinkParents
import Semnav.Spec.ReclaimRows

/-!
# `reconcile_file_symbols` as a whole

The five passes put together: what the tables hold after a reconcile that commits, for
any list of symbols (`Reconciled`).

## Key results

- `reconcile_eq_ok_iff`: a reconcile is Passes 3 to 5 on the parked table
- `reconcile_reconciled`: the postcondition
-/

namespace Semnav.Graph

open Semnav.ForStd

/-! ## Inputs -/

/-- A flattened symbol tree without collisions: real lines, every fqn and every position
    once, parents before their children. -/
structure SymbolBatch (syms : List ReconcileSymbol) : Prop where
  line_nonneg : ∀ s ∈ syms, 0 ≤ s.range.startLine
  fqns_nodup : (syms.map (·.fqn)).Nodup
  keys_nodup : (syms.map ReconcileSymbol.key).Nodup
  parent_lt : ∀ (i : Nat) (s : ReconcileSymbol) (p : Nat), syms[i]? = some s →
    s.parent = some p → p < i

instance (syms : List ReconcileSymbol) : Decidable (SymbolBatch syms) :=
  decidable_of_iff ((∀ s ∈ syms, 0 ≤ s.range.startLine) ∧ (syms.map (·.fqn)).Nodup ∧
      (syms.map ReconcileSymbol.key).Nodup ∧ ∀ x ∈ syms.zipIdx, ∀ p ∈ x.1.parent, p < x.2)
    ⟨fun ⟨hline, hfqn, hkey, hparent⟩ => ⟨hline, hfqn, hkey, fun i s p hs hp =>
      hparent (s, i) (List.mk_mem_zipIdx_iff_getElem?.mpr hs) p hp⟩,
    fun h => ⟨h.line_nonneg, h.fqns_nodup, h.keys_nodup, fun x hx p hp =>
      h.parent_lt x.2 x.1 p (List.mk_mem_zipIdx_iff_getElem?.mp hx) hp⟩⟩

/-- No row of another file has the fqn of one of the symbols. -/
def FqnsFree (db : Db) (uri : String) (syms : List ReconcileSymbol) : Prop :=
  ∀ n ∈ db.nodes, n.uri ≠ uri → ∀ s ∈ syms, n.fqn ≠ s.fqn

instance (db : Db) (uri : String) (syms : List ReconcileSymbol) :
    Decidable (FqnsFree db uri syms) :=
  inferInstanceAs (Decidable (∀ n ∈ db.nodes, n.uri ≠ uri → ∀ s ∈ syms, n.fqn ≠ s.fqn))

/-- Entries that agree on a column without repeats are one. -/
private theorem idx_eq_of_map_nodup {β : Type} {syms : List ReconcileSymbol}
    {f : ReconcileSymbol → β} (h : (syms.map f).Nodup) {i j : Nat} {s t : ReconcileSymbol}
    (hs : syms[i]? = some s) (ht : syms[j]? = some t) (heq : f s = f t) : i = j := by
  have hi : i < (syms.map f).length := by
    rw [List.length_map]
    exact (List.getElem?_eq_some_iff.mp hs).1
  refine (List.getElem?_inj hi h).mp ?_
  rw [List.getElem?_map, List.getElem?_map, hs, ht, Option.map_some, Option.map_some, heq]

/-- In a batch a name determines the symbol. -/
theorem SymbolBatch.fqn_inj {syms : List ReconcileSymbol} (h : SymbolBatch syms) {i j : Nat}
    {s t : ReconcileSymbol} (hs : syms[i]? = some s) (ht : syms[j]? = some t)
    (heq : s.fqn = t.fqn) : i = j :=
  idx_eq_of_map_nodup h.fqns_nodup hs ht heq

/-- In a batch a key determines the symbol. -/
theorem SymbolBatch.key_inj {syms : List ReconcileSymbol} (h : SymbolBatch syms) {i j : Nat}
    {s t : ReconcileSymbol} (hs : syms[i]? = some s) (ht : syms[j]? = some t)
    (heq : s.key = t.key) : i = j :=
  idx_eq_of_map_nodup h.keys_nodup hs ht heq

/-- In a batch without collisions every symbol has a row of its own. -/
theorem Collapses.inj {syms : List ReconcileSymbol} {ids : Nat → Option RowId}
    (h : Collapses syms ids syms.length) (hS : SymbolBatch syms) {i j : Nat}
    (hi : i < syms.length) (hj : j < syms.length) (heq : ids i = ids j) : i = j := by
  -- Compare the later of the two symbols with the last writer before it.
  have hlt : ∀ {x y : Nat}, y < syms.length → x < y → ids y ≠ ids x := by
    intro x y hy hxy heq
    obtain ⟨x', hlast, hx'⟩ := exists_lastWriter ids hxy
    have hsy := List.getElem?_eq_getElem hy
    have hsx := List.getElem?_eq_getElem (Nat.lt_trans hlast.1 hy)
    rcases (h y hy _ hsy x' _ hsx hlast).mp (heq.trans hx'.symm) with hfqn | hkey
    · exact Nat.ne_of_lt hlast.1 (hS.fqn_inj hsx hsy hfqn)
    · exact Nat.ne_of_lt hlast.1 (hS.key_inj hsx hsy hkey)
  rcases Nat.lt_trichotomy i j with hij | rfl | hij
  · exact absurd heq.symm (hlt hj hij)
  · rfl
  · exact absurd heq (hlt hi hij)

/-- Each symbol of a batch is the last writer of its row. -/
theorem Collapses.lastWriter {syms : List ReconcileSymbol} {ids : Nat → Option RowId}
    (h : Collapses syms ids syms.length) (hS : SymbolBatch syms) {i : Nat}
    (hi : i < syms.length) : LastWriter ids syms.length i :=
  ⟨hi, fun _ hij hj heq => Nat.ne_of_gt hij (h.inj hS hj hi heq)⟩

/-! ## The start of the transaction -/

/-- Clearing the callees cache leaves the rows. -/
@[simp] theorem clearCalleesCache_nodes (db : Db) (uri : String) :
    (db.clearCalleesCache uri).nodes = db.nodes := rfl

/-- Clearing the callees cache leaves the rows of each file. -/
@[simp] theorem clearCalleesCache_nodesByUri (db : Db) (uri uri' : String) :
    (db.clearCalleesCache uri).nodesByUri uri' = db.nodesByUri uri' := rfl

/-- Clearing the callees cache keeps the tables' invariants. -/
private theorem clearCalleesCache_stored {db : Db} (h : db.Stored) (uri : String) :
    (db.clearCalleesCache uri).Stored where
  ids_nodup := h.ids_nodup
  id_pos := h.id_pos
  id_le := h.id_le
  fqn_unique := h.fqn_unique
  phys_unique := h.phys_unique
  container_ok := h.container_ok
  edge_ids_nodup := h.edge_ids_nodup
  edge_id_le := h.edge_id_le
  edge_ok := h.edge_ok
  cache_ok := by
    intro a ha
    refine h.cache_ok a fun hnone => ha ?_
    simp only [Db.clearCalleesCache, hnone, ite_self]
  materialized_ok := h.materialized_ok
  line_nonneg := h.line_nonneg

/-- The rows of a file have distinct names. -/
theorem nodesByUri_fqnsDistinct {db : Db} (h : db.WF) (uri : String) :
    FqnsDistinct (db.nodesByUri uri) := by
  intro j j' old old' hj hj' hfqn
  have hnodup : (db.nodesByUri uri).Nodup :=
    (List.Nodup.of_map (fun n : Node => n.id) h.ids_nodup).filter _
  have hold := (Db.mem_nodesByUri.mp (List.mem_of_getElem? hj)).1
  have hold' := (Db.mem_nodesByUri.mp (List.mem_of_getElem? hj')).1
  obtain rfl := h.node_ext hold hold' (h.fqn_unique old hold old' hold' hfqn)
  obtain ⟨hlt, hget⟩ := List.getElem?_eq_some_iff.mp hj
  obtain ⟨hlt', hget'⟩ := List.getElem?_eq_some_iff.mp hj'
  exact (hnodup.getElem_inj_iff).mp (hget.trans hget'.symm)

/-- The matching a reconcile computes is one that Pass 3 can work with. -/
theorem matched_of_stored (H : Hasher) {db : Db} (h : db.Stored) (args : FileArgs)
    {syms : List ReconcileSymbol} (hnn : ∀ s ∈ syms, 0 ≤ s.range.startLine) :
    Matched (db.clearCalleesCache args.uri) args (db.nodesByUri args.uri) syms
      (matchSymbols H (db.nodesByUri args.uri) syms) where
  stored := clearCalleesCache_stored h args.uri
  mem_olds := fun _ => Db.mem_nodesByUri
  nodup := (List.Nodup.of_map (fun n : Node => n.id) h.ids_nodup).filter _
  sym_nonneg := hnn
  valid := matchSymbols_valid H (nodesByUri_fqnsDistinct h.toWF args.uri) syms
  of_exact := (matchSymbols_isMatching H (nodesByUri_fqnsDistinct h.toWF args.uri) syms).of_exact

/-- A reconcile is Passes 3 to 5 on the parked table. -/
theorem reconcile_eq_ok_iff (H : Hasher) {db : Db} (h : db.Stored) (args : FileArgs)
    (syms : List ReconcileSymbol) (db' : Db) (o : ReconcileOutcome) :
    reconcileFileSymbols H db args syms = .ok (db', o) ↔
      ∃ st₃ st₄, pass3 args (db.nodesByUri args.uri) (matchSymbols H (db.nodesByUri args.uri) syms)
          syms ((db.clearCalleesCache args.uri).parkUri args.uri) = .ok st₃ ∧
        pass4 (db.nodesByUri args.uri) (matchSymbols H (db.nodesByUri args.uri) syms)
          (st₃.db, st₃.outcome) = .ok st₄ ∧
        pass5 st₃.ids syms st₄.1 = .ok db' ∧ o = st₄.2 := by
  have hpark := (park_eq (clearCalleesCache_stored h args.uri) args.uri).1
  rw [clearCalleesCache_nodesByUri] at hpark
  simp only [reconcileFileSymbols, clearCalleesCache_nodesByUri]
  -- The parking always succeeds, so what is left are the three passes in sequence.
  rw [Except.bind_eq_ok]
  constructor
  · rintro ⟨d, hd, hrest⟩
    obtain rfl := Except.ok.inj (hpark.symm.trans hd)
    obtain ⟨st₃, h₃, hrest⟩ := Except.bind_eq_ok.mp hrest
    obtain ⟨⟨db₄, o₄⟩, h₄, hrest⟩ := Except.bind_eq_ok.mp hrest
    obtain ⟨db₅, h₅, hrest⟩ := Except.bind_eq_ok.mp hrest
    obtain ⟨rfl, rfl⟩ := Prod.mk.inj (Except.ok.inj hrest)
    exact ⟨st₃, (db₄, o₄), h₃, h₄, h₅, rfl⟩
  · rintro ⟨st₃, st₄, h₃, h₄, h₅, rfl⟩
    exact ⟨_, hpark, Except.bind_eq_ok.mpr ⟨st₃, h₃, Except.bind_eq_ok.mpr
      ⟨st₄, h₄, Except.bind_eq_ok.mpr ⟨db', h₅, rfl⟩⟩⟩⟩

/-! ## The postcondition -/

/-- The ids a reconcile deletes. -/
abbrev deletedIds (olds : List Node) (a : Assignment) : RowId → Bool :=
  deletedBefore olds a olds.length

/-- The rows whose edges a reconcile puts up for re-evaluation. -/
abbrev staleIds (olds : List Node) (syms : List ReconcileSymbol) (a : Assignment) :
    RowId → Bool :=
  staleBefore olds syms a syms.length

/-- What a committed reconcile of `syms` has made of `db`; `olds` are the rows the file had,
    `a` their matching with the symbols, and `ids` the rows the symbols were written to. -/
structure Reconciled (db : Db) (args : FileArgs) (olds : List Node)
    (syms : List ReconcileSymbol) (a : Assignment) (ids : Nat → Option RowId) (db' : Db)
    (o : ReconcileOutcome) : Prop where
  stored : db'.Stored
  ids_iff : ∀ i, (∃ r, ids i = some r) ↔ i < syms.length
  parent_lt : ∀ (i : Nat) (s : ReconcileSymbol) (p : Nat), syms[i]? = some s →
    s.parent = some p → p < i
  claimed : ∀ i old, claimedRow olds a i = some old → ids i = some old.id
  origin : ∀ i r, ids i = some r →
    Origin (db.clearCalleesCache args.uri) args olds syms a syms.length r
  stolen : ∀ s ∈ syms, ∀ x ∈ db.nodes, x.uri ≠ args.uri → x.fqn = s.fqn →
    ∃ i, ids i = some x.id
  collapse : Collapses syms ids syms.length
  nodes : ∀ x, x ∈ db'.nodes ↔ WrittenRow args olds syms a ids syms.length x ∨
    (∃ old ∈ olds, (∀ i, claimedRow olds a i ≠ some old) ∧ old.orphan = false ∧
      x = old.orphaned.forget (deletedIds olds a)) ∨
    ∃ y ∈ db.nodes, y.uri ≠ args.uri ∧ (∀ i, ids i ≠ some y.id) ∧
      x = y.forget (deletedIds olds a)
  edges_other : ∀ e : EdgeRow, e.edgeType ≠ .contains → (e ∈ db'.edges ↔
    ∃ e₀ ∈ db.edges, e = e₀.staleIf (staleIds olds syms a) ∧
      deletedIds olds a e.srcId = false ∧ deletedIds olds a e.dstId = false)
  linked : ∀ src dst, LinkPair ids syms syms.length src dst →
    db'.HasEdge (containsEdge src dst)
  contains_iff : ∀ src dst,
    (∃ e ∈ db'.edges, e.edgeType = .contains ∧ e.srcId = src ∧ e.dstId = dst ∧
      e.valid = true) ↔
      (∃ e₀ ∈ db.edges, e₀.edgeType = .contains ∧ e₀.srcId = src ∧ e₀.dstId = dst ∧
        (e₀.staleIf (staleIds olds syms a)).valid = true ∧ deletedIds olds a src = false ∧
        deletedIds olds a dst = false) ∨ LinkPair ids syms syms.length src dst
  calleesCache : ∀ id, db'.calleesCache id =
    if deletedIds olds a id then none else (db.clearCalleesCache args.uri).calleesCache id
  materialized : ∀ id t, db'.materialized id t =
    (!deletedIds olds a id && db.materialized id t)
  indexMeta : db'.indexMeta = db.indexMeta
  outcome : o = { tally olds a syms with
    orphaned := reclaimCount olds a olds.length false
    deleted := reclaimCount olds a olds.length true }

section Run

variable {db : Db} {args : FileArgs} {olds : List Node} {syms : List ReconcileSymbol}
  {a : Assignment}

/-- Writing symbols orphans and deletes nothing. -/
private theorem tally_reclaim_zero (olds : List Node) (a : Assignment) (l : List ReconcileSymbol) :
    (tally olds a l).orphaned = 0 ∧ (tally olds a l).deleted = 0 :=
  List.foldl_zipIdx_induction (fun _ (o : ReconcileOutcome) => o.orphaned = 0 ∧ o.deleted = 0) ⟨rfl, rfl⟩
    fun k s o _ h => by
      dsimp only
      cases fate olds a k s <;> exact h

/-- Writing symbols counts each symbol once. -/
theorem tally_total (olds : List Node) (a : Assignment) (l : List ReconcileSymbol) :
    (tally olds a l).unchanged + (tally olds a l).updated + (tally olds a l).renamed +
      (tally olds a l).inserted = l.length :=
  List.foldl_zipIdx_induction
    (fun k (o : ReconcileOutcome) => o.unchanged + o.updated + o.renamed + o.inserted = k) rfl
    fun k s o _ h => by
      dsimp only
      cases fate olds a k s <;> simp only [ReconcileOutcome.bump] <;> omega

/-- A written row keeps its container: the row of a parent is never deleted. -/
private theorem writtenRow_forget (hm : Matched (db.clearCalleesCache args.uri) args olds syms a)
    {st₃ : ApplyState}
    (hw : Written (db.clearCalleesCache args.uri) args olds syms a syms.length st₃) {y : Node}
    (hy : WrittenRow args olds syms a st₃.ids syms.length y) :
    y.forget (deletedIds olds a) = y := by
  obtain ⟨i, s, -, -, -, hcols⟩ := hy
  refine y.forget_eq_self _ fun c hc => ?_
  rw [hcols, writtenCols_containerId] at hc
  obtain ⟨p, -, hp⟩ := Option.bind_eq_some_iff.mp hc
  by_contra hdel
  rw [Bool.not_eq_false, deletedBefore_iff] at hdel
  obtain ⟨j, -, old, hj, hfree, -, rfl⟩ := hdel
  obtain ⟨i', -, hclaim⟩ := (hw.origin p old.id hp).old_claimed hm (List.mem_of_getElem? hj)
  exact hm.not_claimed hj hfree i' hclaim

/-- The rows after Pass 4. -/
theorem Reclaimed.nodes_final (hm : Matched (db.clearCalleesCache args.uri) args olds syms a)
    {st₃ : ApplyState} {st₄ : Db × ReconcileOutcome}
    (hw : Written (db.clearCalleesCache args.uri) args olds syms a syms.length st₃)
    (hr : Reclaimed (db.clearCalleesCache args.uri) args olds syms a st₃ olds.length st₄)
    (x : Node) : x ∈ st₄.1.nodes ↔ WrittenRow args olds syms a st₃.ids syms.length x ∨
      (∃ old ∈ olds, (∀ i, claimedRow olds a i ≠ some old) ∧ old.orphan = false ∧
        x = old.orphaned.forget (deletedIds olds a)) ∨
      ∃ y ∈ db.nodes, y.uri ≠ args.uri ∧ (∀ i, st₃.ids i ≠ some y.id) ∧
        x = y.forget (deletedIds olds a) := by
  have hids : ∀ i r, st₃.ids i = some r → i < syms.length := fun i r h =>
    (hw.ids_iff i).mp ⟨r, h⟩
  rw [hr.nodes]
  -- A row left is one that was written, an orphan, or a row that pass 3 did not touch.
  constructor
  · rintro ⟨y, hwr | ⟨j, old, hj, hfree, ⟨hle, -⟩ | ⟨-, horph, rfl⟩⟩ | ⟨hbase, hu, hfree⟩, rfl⟩
    · exact .inl (by rwa [writtenRow_forget hm hw hwr])
    · -- After the last index no row waits any more.
      exact absurd (List.getElem?_eq_some_iff.mp hj).1 (Nat.not_lt_of_le hle)
    · exact .inr (.inl ⟨old, List.mem_of_getElem? hj, hm.not_claimed hj hfree, horph, rfl⟩)
    · exact .inr (.inr ⟨y, hbase, hu, fun i h => hfree i (hids i _ h) h, rfl⟩)
  · rintro (hwr | ⟨old, hold, hunclaimed, horph, rfl⟩ | ⟨y, hy, hu, hfree, rfl⟩)
    · exact ⟨x, .inl hwr, (writtenRow_forget hm hw hwr).symm⟩
    · obtain ⟨j, hj⟩ := List.getElem?_of_mem hold
      refine ⟨old.orphaned, .inr (.inl ⟨j, old, hj, ?_,
        .inr ⟨(List.getElem?_eq_some_iff.mp hj).1, horph, rfl⟩⟩), rfl⟩
      rw [← Bool.not_eq_true, hm.oldUsed_iff hj]
      exact fun ⟨i, hi⟩ => hunclaimed i hi
    · exact ⟨y, .inr (.inr ⟨hy, hu, fun i _ => hfree i⟩), rfl⟩

/-- The edges after Pass 4. -/
private theorem Reclaimed.mem_edges_final {st₃ : ApplyState} {st₄ : Db × ReconcileOutcome}
    (hw : Written (db.clearCalleesCache args.uri) args olds syms a syms.length st₃)
    (hr : Reclaimed (db.clearCalleesCache args.uri) args olds syms a st₃ olds.length st₄)
    (e : EdgeRow) : e ∈ st₄.1.edges ↔ ∃ e₀ ∈ db.edges, e = e₀.staleIf (staleIds olds syms a) ∧
      deletedIds olds a e.srcId = false ∧ deletedIds olds a e.dstId = false := by
  rw [hr.edges, hw.edges]
  simp only [List.mem_filter, List.mem_map, Bool.and_eq_true, Bool.not_eq_true']
  constructor
  · rintro ⟨⟨e₀, he₀, rfl⟩, hdel⟩
    exact ⟨e₀, he₀, rfl, hdel⟩
  · rintro ⟨e₀, he₀, rfl, hdel⟩
    exact ⟨⟨e₀, he₀, rfl⟩, hdel⟩

/-- The passes, put together. -/
private theorem reconciled_of_passes (hm : Matched (db.clearCalleesCache args.uri) args olds syms a)
    {st₃ : ApplyState} {st₄ : Db × ReconcileOutcome} {db' : Db}
    (hw : Written (db.clearCalleesCache args.uri) args olds syms a syms.length st₃)
    (hr : Reclaimed (db.clearCalleesCache args.uri) args olds syms a st₃ olds.length st₄)
    (hl : Linked st₃.ids syms st₄.1 syms.length db') :
    Reconciled db args olds syms a st₃.ids db' st₄.2 := by
  have hnodes : ∀ x, x ∈ db'.nodes ↔ x ∈ st₄.1.nodes := fun x => by rw [hl.nodes]
  -- The lines are those of symbols or of rows that were stored, none of which is negative.
  have hline : ∀ x ∈ db'.nodes, 0 ≤ x.range.startLine := by
    intro x hx
    rcases (hr.nodes_final hm hw x).mp ((hnodes x).mp hx) with ⟨i, s, hs, -, -, hcols⟩ |
      ⟨old, hold, -, -, rfl⟩ | ⟨y, hy, -, -, rfl⟩
    · rw [hcols, writtenCols_range]
      exact hm.sym_nonneg s (List.mem_of_getElem? hs)
    · exact hm.stored.line_nonneg old (hm.old_mem_base hold)
    · exact hm.stored.line_nonneg y hy
  have hlt : ∀ {i : Nat} {s : ReconcileSymbol}, syms[i]? = some s → i < syms.length :=
    fun h => (List.getElem?_eq_some_iff.mp h).1
  refine {
    stored := ⟨hl.wf, hline⟩
    ids_iff := hw.ids_iff
    parent_lt := fun i s p hs hp => hw.parent_lt i (hlt hs) s hs p hp
    claimed := fun i old h => hw.claimed i (hm.claimedRow_lt h) old h
    origin := hw.origin
    stolen := ?_
    collapse := hw.collapse
    nodes := fun x => (hnodes x).trans (hr.nodes_final hm hw x)
    edges_other := fun e ht => (hl.other e ht).trans (hr.mem_edges_final hw e)
    linked := hl.linked
    contains_iff := ?_
    calleesCache := ?_
    materialized := ?_
    indexMeta := hl.indexMeta.trans (hr.indexMeta.trans hw.indexMeta)
    outcome := ?_ }
  · -- A row that was taken over is the row of the last symbol with its name.
    intro s hs x hx hu hfqn
    obtain ⟨i, hi⟩ := List.getElem?_of_mem hs
    obtain ⟨i', -, hid⟩ := hw.stolen i (hlt hi) s hi x hx hu hfqn
    exact ⟨i', hid⟩
  · intro src dst
    rw [hl.contains_iff]
    refine or_congr ?_ Iff.rfl
    constructor
    · -- A `contains` edge comes from before or from the linking; the deletion takes it with its
      -- end.
      rintro ⟨e, he, ht, rfl, rfl, hv⟩
      obtain ⟨e₀, he₀, rfl, hdel⟩ := (hr.mem_edges_final hw e).mp he
      exact ⟨e₀, he₀, ht, rfl, rfl, hv, hdel⟩
    · rintro ⟨e₀, he₀, ht, rfl, rfl, hv, hdel⟩
      exact ⟨_, (hr.mem_edges_final hw _).mpr ⟨e₀, he₀, rfl, hdel⟩, ht, rfl, rfl, hv⟩
  · intro id
    rw [hl.calleesCache, hr.calleesCache, hw.calleesCache]
  · intro id t
    rw [hl.materialized, hr.materialized, hw.materialized]
    rfl
  · -- The outcome is the tally of the fates and of the rows that were reclaimed.
    have hzero := tally_reclaim_zero olds a syms
    rw [hr.outcome, hw.outcome, List.take_length, hzero.1, hzero.2, Nat.zero_add, Nat.zero_add]

end Run

/-- The postcondition of a reconcile that commits, for any list of symbols on real lines, and
    which symbol has taken over a row of another file. -/
theorem reconcile_takesOver (H : Hasher) {db : Db} (h : db.Stored) {args : FileArgs}
    {syms : List ReconcileSymbol} (hnn : ∀ s ∈ syms, 0 ≤ s.range.startLine) {db' : Db}
    {o : ReconcileOutcome} (hok : reconcileFileSymbols H db args syms = .ok (db', o)) :
    ∃ ids, Reconciled db args (db.nodesByUri args.uri) syms
      (matchSymbols H (db.nodesByUri args.uri) syms) ids db' o ∧
      TakesOver (db.clearCalleesCache args.uri) args syms ids syms.length := by
  obtain ⟨st₃, st₄, h₃, h₄, h₅, rfl⟩ := (reconcile_eq_ok_iff H h args syms db' o).mp hok
  have hm := matched_of_stored H h args hnn
  have hw := pass3_written hm h₃
  have hr := pass4_reclaimed hm hw h₄
  exact ⟨st₃.ids, reconciled_of_passes hm hw hr (pass5_linked hr.wf h₅), pass3_takesOver hm h₃⟩

/-- What `reconcile_file_symbols` leaves, pass by pass. -/
theorem reconcile_reconciled (H : Hasher) {db : Db} (h : db.Stored) {args : FileArgs}
    {syms : List ReconcileSymbol} (hnn : ∀ s ∈ syms, 0 ≤ s.range.startLine) {db' : Db}
    {o : ReconcileOutcome} (hok : reconcileFileSymbols H db args syms = .ok (db', o)) :
    ∃ ids, Reconciled db args (db.nodesByUri args.uri) syms
      (matchSymbols H (db.nodesByUri args.uri) syms) ids db' o := by
  obtain ⟨ids, hr, -⟩ := reconcile_takesOver H h hnn hok
  exact ⟨ids, hr⟩

/-- A reconcile leaves a stored graph. -/
theorem reconcile_stored (H : Hasher) {db : Db} (h : db.Stored) {args : FileArgs}
    {syms : List ReconcileSymbol} (hnn : ∀ s ∈ syms, 0 ≤ s.range.startLine) {db' : Db}
    {o : ReconcileOutcome} (hok : reconcileFileSymbols H db args syms = .ok (db', o)) :
    db'.Stored := by
  obtain ⟨ids, hr⟩ := reconcile_reconciled H h hnn hok
  exact hr.stored

end Semnav.Graph
