import Semnav.Spec.ReconcilePost

/-!
# Reconciling the same symbols again

A file is settled when every symbol of a batch has its row, up to date, and every other row
of the file is orphaned.  A committed reconcile of a batch leaves its file settled, and a
reconcile of a settled file only deletes the orphaned rows.

## Key results

- `Reconciled.settled`: one reconcile settles the file
- `reconcile_settled`: the next one is a no-op but for the orphans
- `reconcile_idempotent_iff`: when the second of two reconciles of one symbol list is a
  no-op
-/

namespace Semnav.Graph

open Semnav.ForStd

/-! ## Settled files -/

/-- Every symbol has an up-to-date row, `ids i` for symbol `i`, and all other rows of the
    file are orphaned. -/
structure Settled (db : Db) (uri : String) (syms : List ReconcileSymbol)
    (ids : Nat → Option RowId) : Prop where
  row : ∀ (i : Nat) (s : ReconcileSymbol), syms[i]? = some s →
    ∃ x ∈ db.nodes, ids i = some x.id ∧ x.uri = uri ∧ x.Carries s (s.parent.bind ids)
  rest : ∀ x ∈ db.nodes, x.uri = uri → (∃ i < syms.length, ids i = some x.id) ∨ x.orphan = true
  linked : ∀ src dst, LinkPair ids syms syms.length src dst → db.HasEdge (containsEdge src dst)

/-- The ids of the orphaned rows of a file. -/
def orphanIds (db : Db) (uri : String) (id : RowId) : Bool :=
  (db.nodesByUri uri).any fun n => n.orphan && n.id == id

/-- `db'` is `db` without the orphaned rows of `uri` and what refers to them. -/
structure OnlyReclaims (db : Db) (uri : String) (db' : Db) : Prop where
  nodes : ∀ x, x ∈ db'.nodes ↔
    ∃ y ∈ db.nodes, orphanIds db uri y.id = false ∧ x = y.forget (orphanIds db uri)
  edges : db'.edges = db.edges.filter fun e =>
    !orphanIds db uri e.srcId && !orphanIds db uri e.dstId
  calleesCache : ∀ id, db'.calleesCache id =
    if orphanIds db uri id then none else db.calleesCache id
  materialized : ∀ id t, db'.materialized id t = (!orphanIds db uri id && db.materialized id t)
  indexMeta : db'.indexMeta = db.indexMeta

/-- The orphans of a file, by id. -/
theorem orphanIds_iff {db : Db} {uri : String} {id : RowId} :
    orphanIds db uri id = true ↔ ∃ n ∈ db.nodes, n.uri = uri ∧ n.orphan = true ∧ n.id = id := by
  simp only [orphanIds, List.any_eq_true, Db.mem_nodesByUri, Bool.and_eq_true, beq_iff_eq,
    and_assoc]

/-- A row of another file or alive is none of the orphans. -/
private theorem orphanIds_of_mem {db : Db} (h : db.WF) {uri : String} {x : Node} (hx : x ∈ db.nodes)
    (hstay : x.uri ≠ uri ∨ x.orphan = false) : orphanIds db uri x.id = false := by
  refine Bool.eq_false_iff.mpr fun hany => ?_
  obtain ⟨n, hn, hu, horph, hid⟩ := orphanIds_iff.mp hany
  obtain rfl := h.node_ext hn hx hid
  rcases hstay with hne | hno
  · exact hne hu
  · exact absurd (horph.symm.trans hno) (by decide)

/-- Clearing the callees cache makes no orphan. -/
@[simp] theorem orphanIds_clear (db : Db) (uri uri' : String) :
    orphanIds (db.clearCalleesCache uri) uri' = orphanIds db uri' := rfl

/-- A reconcile settles its file. -/
theorem Reconciled.settled {db : Db} {args : FileArgs} {olds : List Node}
    {syms : List ReconcileSymbol} {a : Assignment} {ids : Nat → Option RowId} {db' : Db}
    {o : ReconcileOutcome} (hm : Matched (db.clearCalleesCache args.uri) args olds syms a)
    (hS : SymbolBatch syms) (hr : Reconciled db args olds syms a ids db' o) :
    Settled db' args.uri syms ids where
  row := by
    intro i s hs
    have hlt := (List.getElem?_eq_some_iff.mp hs).1
    obtain ⟨id, hid⟩ := (hr.ids_iff i).mpr hlt
    exact ⟨_, hr.row_mem hs (hr.collapse.lastWriter hS hlt) hid, hid,
      congrArg Prod.fst (hm.writtenCols_phys ids i s), writtenCols_carries args olds a ids i s id⟩
  rest := by
    intro x hx hu
    -- A row of the file after the run is written by a symbol or an orphan.
    rcases (hr.nodes x).mp hx with ⟨i, s, -, hlast, hid, -⟩ | ⟨old, -, -, -, rfl⟩ |
      ⟨y, -, hyu, -, rfl⟩
    · exact .inl ⟨i, hlast.1, hid⟩
    · exact .inr rfl
    · exact absurd hu hyu
  linked := hr.linked

section Again

variable {db : Db} {args : FileArgs} {syms : List ReconcileSymbol} {ids : Nat → Option RowId}

/-- The rows of a settled file hold all the fqns of the batch. -/
private theorem Settled.fqnsFree (h : db.WF) (hs : Settled db args.uri syms ids) :
    FqnsFree db args.uri syms := by
  intro n hn hu s hmem hfqn
  obtain ⟨i, hi⟩ := List.getElem?_of_mem hmem
  obtain ⟨x, hx, -, hxu, hc⟩ := hs.row i s hi
  obtain rfl := h.node_ext hn hx (h.fqn_unique n hn x hx (hfqn.trans hc.fqn.symm))
  exact hu hxu

/-- Pass 1 pairs every symbol with its row. -/
theorem Settled.claimedRow_eq (hS : SymbolBatch syms) (hs : Settled db args.uri syms ids)
    {olds : List Node} {a : Assignment}
    (hm : Matched (db.clearCalleesCache args.uri) args olds syms a) {i : Nat}
    {s : ReconcileSymbol} (hi : syms[i]? = some s) :
    ∃ x ∈ db.nodes, claimedRow olds a i = some x ∧ ids i = some x.id ∧
      x.Carries s (s.parent.bind ids) := by
  obtain ⟨x, hx, hid, hu, hc⟩ := hs.row i s hi
  refine ⟨x, hx, ?_, hid, hc⟩
  refine hm.claimedRow_of_fqn ((hm.mem_olds x).mpr ⟨hx, hu⟩) hi hc.fqn fun i' hlt s' hs' heq => ?_
  exact Nat.ne_of_lt hlt (hS.fqn_inj hs' hi heq)

/-- What Pass 4 finds unclaimed are the orphaned rows. -/
private theorem Settled.unclaimed_iff (h : db.WF) (hS : SymbolBatch syms)
    (hs : Settled db args.uri syms ids) {olds : List Node} {a : Assignment}
    (hm : Matched (db.clearCalleesCache args.uri) args olds syms a) {j : Nat} {old : Node}
    (hj : olds[j]? = some old) : a.oldUsed j = false ↔ old.orphan = true := by
  have hold := List.mem_of_getElem? hj
  have hmem := hm.old_mem_base hold
  constructor
  · intro hfree
    -- A live row of the file is some symbol's, and that symbol claims it again.
    rcases hs.rest old hmem (hm.old_uri hold) with ⟨i, hi, hid⟩ | horph
    · obtain ⟨x, hx, hclaim, hxid, -⟩ :=
        hs.claimedRow_eq hS hm (List.getElem?_eq_getElem hi)
      obtain rfl := h.node_ext hx hmem (Option.some.inj (hxid.symm.trans hid))
      exact absurd hclaim (hm.not_claimed hj hfree i)
    · exact horph
  · intro horph
    -- A claimed row carries its symbol's columns, and these are not an orphan's.
    rw [← Bool.not_eq_true, hm.oldUsed_iff hj]
    rintro ⟨i, hclaim⟩
    obtain ⟨x, -, hclaim', -, hc⟩ :=
      hs.claimedRow_eq hS hm (List.getElem?_eq_getElem (hm.claimedRow_lt hclaim))
    obtain rfl := Option.some.inj (hclaim.symm.trans hclaim')
    exact absurd (horph.symm.trans hc.orphan) (by decide)

/-- Every symbol takes the unchanged branch. -/
private theorem Settled.fate_eq (hS : SymbolBatch syms) (hs : Settled db args.uri syms ids)
    {olds : List Node} {a : Assignment}
    (hm : Matched (db.clearCalleesCache args.uri) args olds syms a) {i : Nat}
    {s : ReconcileSymbol} (hi : syms[i]? = some s) : fate olds a i s = .unchanged := by
  obtain ⟨x, -, hclaim, -, hc⟩ := hs.claimedRow_eq hS hm hi
  simp [fate, hclaim, hc.fqn, hc.signatureHash]

/-- Writing a symbol over a row that carries it changes nothing. -/
private theorem Node.Carries.writeOver_eq {x : Node} {s : ReconcileSymbol} {c : Option RowId}
    (h : x.Carries s c) : s.writeOver c x.toNodeCols = x.toNodeCols := by
  obtain ⟨⟨⟩, id⟩ := x
  obtain ⟨rfl, rfl, rfl, rfl, rfl, rfl, rfl, rfl, rfl, rfl, rfl⟩ := h
  rfl

/-- The counters when every symbol takes the unchanged branch. -/
private theorem tally_unchanged {olds : List Node} {a : Assignment} {l : List ReconcileSymbol}
    (h : ∀ (i : Nat) (s : ReconcileSymbol), l[i]? = some s → fate olds a i s = .unchanged) :
    tally olds a l = { unchanged := l.length } :=
  List.foldl_zipIdx_induction (fun k (o : ReconcileOutcome) => o = { unchanged := k }) rfl
    fun k s o hk ho => by
      simp only [h k s hk, ho, ReconcileOutcome.bump]

/-- With the other three counters zero, every symbol is unchanged. -/
theorem fate_of_tally_zero {olds : List Node} {a : Assignment} {l : List ReconcileSymbol}
    (hu : (tally olds a l).updated = 0) (hn : (tally olds a l).renamed = 0)
    (hi : (tally olds a l).inserted = 0) (i : Nat) (s : ReconcileSymbol) (hs : l[i]? = some s) :
    fate olds a i s = .unchanged := by
  have hinv : (tally olds a l).updated = 0 → (tally olds a l).renamed = 0 →
      (tally olds a l).inserted = 0 → ∀ i < l.length, ∀ s, l[i]? = some s →
        fate olds a i s = .unchanged :=
    List.foldl_zipIdx_induction (fun k (o : ReconcileOutcome) =>
      o.updated = 0 → o.renamed = 0 → o.inserted = 0 →
        ∀ i < k, ∀ s, l[i]? = some s → fate olds a i s = .unchanged)
    (fun _ _ _ i hi => absurd hi (Nat.not_lt_zero i)) fun k t o hk ho => by
      dsimp only
      cases hf : fate olds a k t <;> intro hu hn hi' i hlt s hs
      · -- The first `k` symbols are unchanged by the counts so far; this one counts as unchanged
        -- too.
        rcases Nat.lt_succ_iff_lt_or_eq.mp hlt with hlt | rfl
        · exact ho hu hn hi' i hlt s hs
        · obtain rfl := Option.some.inj (hk.symm.trans hs)
          exact hf
      · exact nomatch hu
      · exact nomatch hn
      · exact nomatch hi'
  exact hinv hu hn hi i (List.getElem?_eq_some_iff.mp hs).1 s hs

/-- The written rows of a settled file are its rows that are not orphaned. -/
private theorem Settled.writtenRow_iff (h : db.WF) (hS : SymbolBatch syms)
    (hs : Settled db args.uri syms ids) {olds : List Node} {a : Assignment}
    (hm : Matched (db.clearCalleesCache args.uri) args olds syms a) {st₃ : ApplyState}
    (hw : Written (db.clearCalleesCache args.uri) args olds syms a syms.length st₃)
    (hids : ∀ i < syms.length, st₃.ids i = ids i) (x : Node) :
    WrittenRow args olds syms a st₃.ids syms.length x ↔
      x ∈ db.nodes ∧ x.uri = args.uri ∧ x.orphan = false := by
  -- A symbol that claims the row that carries it writes what is there.
  have hcols : ∀ (i : Nat) (s : ReconcileSymbol) (y : Node), syms[i]? = some s →
      claimedRow olds a i = some y → y.Carries s (s.parent.bind ids) →
      writtenCols args olds a st₃.ids i s = y.toNodeCols := by
    intro i s y hi hclaim hc
    have hlt := (List.getElem?_eq_some_iff.mp hi).1
    have hparent : s.parent.bind st₃.ids = s.parent.bind ids := by
      cases hp : s.parent with
      | none => rfl
      | some p => exact hids p (Nat.lt_trans (hS.parent_lt i s p hi hp) hlt)
    rw [← hparent] at hc
    simp only [writtenCols, hclaim, hc.writeOver_eq]
  constructor
  · -- A row written is the row its symbol had settled on.
    rintro ⟨i, s, hi, hlast, hid, hx⟩
    obtain ⟨y, hy, hclaim, hyid, hc⟩ := hs.claimedRow_eq hS hm hi
    rw [hids i hlast.1, hyid] at hid
    have hxy : x = y := by
      rw [hcols i s y hi hclaim hc] at hx
      cases x
      cases y
      simp_all
    rw [hxy]
    exact ⟨hy, hm.old_uri (claimedRow_mem hclaim), hc.orphan⟩
  · -- Conversely a live row of the file is settled on by a symbol, which writes it last.
    rintro ⟨hx, hu, horph⟩
    rcases hs.rest x hx hu with ⟨i, hlt, hid⟩ | h'
    · have hi := List.getElem?_eq_getElem hlt
      obtain ⟨y, hy, hclaim, hyid, hc⟩ := hs.claimedRow_eq hS hm hi
      obtain rfl := h.node_ext hx hy (Option.some.inj (hid.symm.trans hyid))
      exact ⟨i, _, hi, hw.collapse.lastWriter hS hlt, (hids i hlt).trans hid,
        (hcols i _ x hi hclaim hc).symm⟩
    · rw [horph] at h'
      cases h'

/-- A valid edge between rows that stay is found after the deletions as before. -/
private theorem HasEdge.filter {es : List EdgeRow} {e : Edge} {p : RowId → Bool}
    (hsrc : p e.srcId = false) (hdst : p e.dstId = false) :
    (es.filter fun r => !p r.srcId && !p r.dstId).find? (·.key == e.key) =
      es.find? (·.key == e.key) := by
  rw [List.find?_filter]
  refine List.find?_congr fun r _ => ?_
  by_cases hkey : r.key = e.key
  · have hs : r.srcId = e.srcId := congrArg Prod.fst hkey
    have hd : r.dstId = e.dstId := congrArg (fun k => k.2.1) hkey
    simp only [hs, hd, hsrc, hdst, Bool.not_false, Bool.and_self, true_and, Bool.decide_eq_true]
  · simp [hkey]

/-- The row of a symbol is not orphaned. -/
theorem Settled.orphanIds_false (h : db.WF) (hs : Settled db args.uri syms ids) {i : Nat}
    {id : RowId} (hi : i < syms.length) (hid : ids i = some id) :
    orphanIds db args.uri id = false := by
  obtain ⟨x, hx, hxid, -, hc⟩ := hs.row i _ (List.getElem?_eq_getElem hi)
  refine Bool.eq_false_iff.mpr fun horph => ?_
  obtain ⟨n, hn, -, hno, hnid⟩ := orphanIds_iff.mp horph
  obtain rfl := h.node_ext hn hx (hnid.trans (Option.some.inj (hid.symm.trans hxid)))
  exact absurd (hno.symm.trans hc.orphan) (by decide)

/-- A row keeps its container unless that is deleted, which a symbol's parent is not. -/
private theorem Settled.forget_eq (hS : SymbolBatch syms) (hs : Settled db args.uri syms ids)
    {x : Node}
    (hx : x ∈ db.nodes) (hu : x.uri = args.uri) (horph : x.orphan = false) (h : db.WF) :
    x.forget (orphanIds db args.uri) = x := by
  refine x.forget_eq_self _ fun c hc => ?_
  rcases hs.rest x hx hu with ⟨i, hi, hid⟩ | h'
  · have hsi := List.getElem?_eq_getElem hi
    obtain ⟨y, hy, hyid, -, hcar⟩ := hs.row i _ hsi
    obtain rfl := h.node_ext hx hy (Option.some.inj (hid.symm.trans hyid))
    obtain ⟨p, hp, hpc⟩ := Option.bind_eq_some_iff.mp (hcar.container.symm.trans hc)
    exact hs.orphanIds_false h (Nat.lt_trans (hS.parent_lt i _ p hsi hp) hi) hpc
  · exact absurd (h'.symm.trans horph) (by decide)

/-- A reconcile of a settled file commits, counts every symbol as unchanged, and only deletes
    the orphaned rows (and the file's callees cache). -/
private theorem reconcile_settled (H : Hasher) (h : db.Stored) (hS : SymbolBatch syms)
    (hs : Settled db args.uri syms ids) : ∃ db' o,
    reconcileFileSymbols H db args syms = .ok (db', o) ∧
      OnlyReclaims (db.clearCalleesCache args.uri) args.uri db' ∧
      o.unchanged = syms.length ∧ o.updated = 0 ∧ o.renamed = 0 ∧ o.inserted = 0 ∧
      o.orphaned = 0 := by
  have hm := matched_of_stored H h args hS.line_nonneg
  have hclear : ∀ (j : Nat) (old : Node), (db.nodesByUri args.uri)[j]? = some old →
      (matchSymbols H (db.nodesByUri args.uri) syms).oldUsed j = false → old.orphan = true :=
    fun j old hj hfree => (hs.unclaimed_iff h.toWF hS hm hj).mp hfree
  obtain ⟨db', o, hok⟩ := (reconcile_ok_iff_clear H h args hS (hs.fqnsFree h.toWF)).mpr
    fun j old hj hfree horph => absurd ((hclear j old hj hfree).symm.trans horph) (by decide)
  obtain ⟨st₃, st₄, h₃, h₄, h₅, rfl⟩ := (reconcile_eq_ok_iff H h args syms db' o).mp hok
  have hw := pass3_written hm h₃
  have hr := pass4_reclaimed hm hw h₄
  have hids : ∀ i < syms.length, st₃.ids i = ids i := by
    intro i hi
    obtain ⟨x, -, hclaim, hid, -⟩ := hs.claimedRow_eq hS hm (List.getElem?_eq_getElem hi)
    rw [hw.claimed i hi x hclaim, hid]
  have hgone : deletedBefore (db.nodesByUri args.uri)
      (matchSymbols H (db.nodesByUri args.uri) syms) (db.nodesByUri args.uri).length =
      orphanIds db args.uri := by
    funext id
    rw [Bool.eq_iff_iff, orphanIds_iff]
    refine Reconciled.deletedIds_iff.trans ?_
    constructor
    · rintro ⟨j, old, hj, -, horph, rfl⟩
      obtain ⟨hmem, hu⟩ := Db.mem_nodesByUri.mp (List.mem_of_getElem? hj)
      exact ⟨old, hmem, hu, horph, rfl⟩
    · rintro ⟨n, hn, hu, horph, rfl⟩
      obtain ⟨j, hj⟩ := List.getElem?_of_mem (Db.mem_nodesByUri.mpr ⟨hn, hu⟩)
      exact ⟨j, n, hj, (hs.unclaimed_iff h.toWF hS hm hj).mpr horph, horph, rfl⟩
  have hstale : staleBefore (db.nodesByUri args.uri) syms
      (matchSymbols H (db.nodesByUri args.uri) syms) syms.length = fun _ => false := by
    funext id
    refine Bool.eq_false_iff.mpr fun hany => ?_
    simp only [staleBefore, List.any_eq_true, Option.any_eq_true] at hany
    obtain ⟨i, -, s, hi, hrow⟩ := hany
    simp [staleRow, hs.fate_eq hS hm hi] at hrow
  have hedges : st₄.1.edges = db.edges.filter fun e =>
      !orphanIds db args.uri e.srcId && !orphanIds db args.uri e.dstId := by
    rw [hr.edges, hw.edges, hstale, map_staleIf_false, ← hgone]
    rfl
  -- Pass 5 finds every `contains` edge in place.
  have hdb' : db' = st₄.1 := by
    refine pass5_eq_self hr.wf h₅ fun src dst hlink => ?_
    obtain ⟨i, hi, s, p, hsi, hp, hsrc, hdst⟩ := hlink
    have hpi := Nat.lt_trans (hS.parent_lt i s p hsi hp) hi
    rw [hids p hpi] at hsrc
    rw [hids i hi] at hdst
    obtain ⟨r, hfind, hvalid⟩ := hs.linked src dst ⟨i, hi, s, p, hsi, hp, hsrc, hdst⟩
    refine ⟨r, ?_, hvalid⟩
    rw [hedges, HasEdge.filter (hs.orphanIds_false h.toWF hpi hsrc)
      (hs.orphanIds_false h.toWF hi hdst)]
    exact hfind
  subst hdb'
  refine ⟨st₄.1, st₄.2, hok, ⟨fun x => ?_, hedges, fun id => ?_, fun id t => ?_, ?_⟩, ?_⟩
  · rw [hr.nodes_final hm hw, hs.writtenRow_iff h.toWF hS hm hw hids, orphanIds_clear]
    simp only [deletedIds, hgone, clearCalleesCache_nodes]
    constructor
    · rintro (⟨hx, hu, horph⟩ | ⟨old, hold, hunclaimed, horph, -⟩ | ⟨y, hy, hu, -, rfl⟩)
      · exact ⟨x, hx, orphanIds_of_mem h.toWF hx (.inr horph), (hs.forget_eq hS hx hu horph h.toWF).symm⟩
      · obtain ⟨j, hj⟩ := List.getElem?_of_mem hold
        refine absurd ((hclear j old hj ?_).symm.trans horph) (by decide)
        rw [← Bool.not_eq_true, hm.oldUsed_iff hj]
        exact not_exists.mpr hunclaimed
      · exact ⟨y, hy, orphanIds_of_mem h.toWF hy (.inl hu), rfl⟩
    · rintro ⟨y, hy, hstays, rfl⟩
      by_cases hu : y.uri = args.uri
      · have horph : y.orphan = false := by
          refine Bool.eq_false_iff.mpr fun horph => ?_
          rw [orphanIds_iff.mpr ⟨y, hy, hu, horph, rfl⟩] at hstays
          cases hstays
        rw [hs.forget_eq hS hy hu horph h.toWF]
        exact .inl ⟨hy, hu, horph⟩
      · refine .inr (.inr ⟨y, hy, hu, fun i hid => ?_, rfl⟩)
        have hi := (hw.ids_iff i).mp ⟨_, hid⟩
        obtain ⟨x, hx, hxid, hxu, -⟩ := hs.row i _ (List.getElem?_eq_getElem hi)
        rw [hids i hi, hxid] at hid
        obtain rfl := h.node_ext hx hy (Option.some.inj hid)
        exact hu hxu
  · rw [hr.calleesCache, hw.calleesCache, hgone, orphanIds_clear]
  · rw [hr.materialized, hw.materialized, hgone, orphanIds_clear]
  · exact hr.indexMeta.trans hw.indexMeta
  · have hcount : reclaimCount (db.nodesByUri args.uri)
        (matchSymbols H (db.nodesByUri args.uri) syms) (db.nodesByUri args.uri).length false = 0 := by
      refine List.countP_eq_zero.mpr fun j _ hany => ?_
      simp only [Option.any_eq_true, Bool.and_eq_true, Bool.not_eq_true', beq_iff_eq] at hany
      obtain ⟨old, hj, hfree, horph⟩ := hany
      exact absurd ((hclear j old hj hfree).symm.trans horph) (by decide)
    rw [hr.outcome, hw.outcome, List.take_length,
      tally_unchanged fun i s hi => hs.fate_eq hS hm hi, hcount]
    exact ⟨rfl, rfl, rfl, rfl, rfl⟩

/-- A file without orphans has no rows to reclaim. -/
private theorem orphanIds_eq_false {uri : String}
    (h : ∀ n ∈ db.nodes, n.uri = uri → n.orphan = false)
    (id : RowId) : orphanIds db uri id = false := by
  cases horph : orphanIds db uri id with
  | false => rfl
  | true =>
    obtain ⟨n, hn, hu, ho, -⟩ := orphanIds_iff.mp horph
    rw [h n hn hu] at ho
    exact nomatch ho

/-- A reconcile of a settled file without orphans reports every symbol unchanged and leaves
    every row and every edge as it was. -/
theorem reconcile_settled_noop (H : Hasher) (h : db.Stored) (hS : SymbolBatch syms)
    (hs : Settled db args.uri syms ids) (hno : ∀ n ∈ db.nodes, n.uri = args.uri → n.orphan = false) :
    ∃ db', reconcileFileSymbols H db args syms = .ok (db', { unchanged := syms.length }) ∧
      (∀ x, x ∈ db'.nodes ↔ x ∈ db.nodes) ∧ db'.edges = db.edges ∧ db'.Stored := by
  obtain ⟨db', o, hok, honly, hunch, hupd, hren, hins, horph⟩ := reconcile_settled H h hS hs
  obtain ⟨ids', hr⟩ := reconcile_reconciled H h hS.line_nonneg hok
  have hgone := orphanIds_eq_false hno
  have hnodes : ∀ x, x ∈ db'.nodes ↔ x ∈ db.nodes := by
    intro x
    have hforget : ∀ y : Node, y.forget (orphanIds db args.uri) = y :=
      fun y => y.forget_eq_self _ fun c _ => hgone c
    rw [honly.nodes]
    simp only [orphanIds_clear, clearCalleesCache_nodes, hgone, hforget, true_and]
    constructor
    · rintro ⟨y, hy, rfl⟩
      exact hy
    · intro hx
      exact ⟨x, hx, rfl⟩
  have hedges : db'.edges = db.edges := by
    rw [honly.edges]
    simp only [orphanIds_clear, hgone, Bool.not_false, Bool.and_self, List.filter_true]
    rfl
  -- No row was there to be deleted.
  have hdel : o.deleted = 0 := by
    rw [hr.outcome]
    refine List.countP_eq_zero.mpr fun j _ hany => ?_
    simp only [Option.any_eq_true, Bool.and_eq_true, beq_iff_eq] at hany
    obtain ⟨old, hj, -, ho⟩ := hany
    obtain ⟨hmem, hu⟩ := Db.mem_nodesByUri.mp (List.mem_of_getElem? hj)
    rw [hno old hmem hu] at ho
    exact nomatch ho
  refine ⟨db', ?_, hnodes, hedges, hr.stored⟩
  cases o
  simp_all

end Again

/-! ## Two reconciles of one symbol list -/

/-- A reconcile of `syms` over `db` commits, finds every symbol unchanged, leaves the valid rows
    of the file and the edges between valid rows as they are, and does nothing but delete the
    file's orphaned rows. -/
def ReconcileIsNoop (H : Hasher) (db : Db) (args : FileArgs) (syms : List ReconcileSymbol) :
    Prop :=
  ∃ db' o, reconcileFileSymbols H db args syms = .ok (db', o) ∧
    (o.updated = 0 ∧ o.renamed = 0 ∧ o.inserted = 0) ∧
    (∀ x, x.uri = args.uri → x.valid = true → (x ∈ db'.nodes ↔ x ∈ db.nodes)) ∧
    (∀ e : EdgeRow, (∃ n ∈ db.nodes, n.id = e.srcId ∧ n.valid = true) →
      (∃ n ∈ db.nodes, n.id = e.dstId ∧ n.valid = true) → (e ∈ db'.edges ↔ e ∈ db.edges)) ∧
    OnlyReclaims db args.uri db'

/-- A row of another file that holds the fqn of one of the symbols has a cached callee list. -/
def StealsCached (db : Db) (uri : String) (syms : List ReconcileSymbol) : Prop :=
  ∃ x ∈ db.nodes, x.uri ≠ uri ∧ (∃ s ∈ syms, x.fqn = s.fqn) ∧ db.calleesCache x.id ≠ none

section Twice

variable {db : Db} {args : FileArgs} {olds : List Node} {syms : List ReconcileSymbol}
  {a : Assignment} {ids : Nat → Option RowId} {db₁ : Db} {o : ReconcileOutcome}

/-- An orphaned row of a file that was just reconciled is not valid. -/
private theorem Reconciled.valid_of_orphan (hr : Reconciled db args olds syms a ids db₁ o)
    {x : Node} (hx : x ∈ db₁.nodes)
    (hu : x.uri = args.uri) (horph : x.orphan = true) : x.valid = false := by
  rcases (hr.nodes x).mp hx with ⟨i, s, -, -, -, hcols⟩ | ⟨old, -, -, -, rfl⟩ | ⟨y, -, hyu, -, rfl⟩
  · have := (writtenCols_carries args olds a ids i s x.id).orphan
    rw [hcols] at horph
    exact absurd (horph.symm.trans this) (by decide)
  · rfl
  · exact absurd hu hyu

/-- A reconcile leaves its file without cached callee lists, except on rows it took over. -/
private theorem Reconciled.calleesCache_eq_none (h : db.Stored)
    (hm : Matched (db.clearCalleesCache args.uri) args olds syms a)
    (hr : Reconciled db args olds syms a ids db₁ o) (hsteal : ¬ StealsCached db args.uri syms)
    {i : Nat} {id : RowId} (hid : ids i = some id) : db₁.calleesCache id = none := by
  rw [hr.calleesCache]
  -- The rows of the file are cleared at the start, and those deleted on the way;
  split
  · rfl
  · simp only [Db.clearCalleesCache]
    split
    · rfl
    · rename_i hnot
      -- a row with a symbol is one of them, or one taken over, or a new one without a hash.
      cases hr.origin i id hid with
      | claimed i' hi' old hclaim hold =>
        have hmem := claimedRow_mem hclaim
        refine absurd ?_ hnot
        simp only [List.any_eq_true, Db.mem_nodesByUri, beq_iff_eq]
        exact ⟨old, ⟨hm.old_mem_base hmem, hm.old_uri hmem⟩, hold.symm⟩
      | stolen x hx hu hxid i' hi' s hs hfqn =>
        by_contra hcache
        exact hsteal ⟨x, hx, hu, ⟨s, List.mem_of_getElem? hs, hfqn⟩, hxid ▸ hcache⟩
      | fresh hlt =>
        by_contra hcache
        obtain ⟨n, hn, rfl⟩ := (db.hasNode_iff id).mp (h.cache_ok id hcache)
        exact Nat.not_le_of_lt hlt (h.id_le n hn)

/-- After a reconcile of a batch that takes over no cached row, the next one is a no-op. -/
private theorem Reconciled.noop (H : Hasher) (h : db.Stored)
    (hm : Matched (db.clearCalleesCache args.uri) args olds syms a) (hS : SymbolBatch syms)
    (hsteal : ¬ StealsCached db args.uri syms)
    (hr : Reconciled db args olds syms a ids db₁ o) : ReconcileIsNoop H db₁ args syms := by
  have hs := hr.settled hm hS
  obtain ⟨db₂, o₂, hok, hreclaim, -, hupd, hren, hins, -⟩ := reconcile_settled H hr.stored hS hs
  have hgone : ∀ id, (∃ n ∈ db₁.nodes, n.id = id ∧ n.valid = true) →
      orphanIds db₁ args.uri id = false := by
    rintro id ⟨n, hn, rfl, hvalid⟩
    refine orphanIds_of_mem hr.stored.toWF hn ?_
    by_cases hu : n.uri = args.uri
    · refine .inr (Bool.eq_false_iff.mpr fun horph => ?_)
      exact absurd (hvalid.symm.trans (hr.valid_of_orphan hn hu horph)) (by decide)
    · exact .inl hu
  -- The file's cache was empty, so clearing it again has no effect.
  have honly : OnlyReclaims db₁ args.uri db₂ := by
    refine ⟨hreclaim.nodes, hreclaim.edges, fun id => ?_, hreclaim.materialized,
      hreclaim.indexMeta⟩
    rw [hreclaim.calleesCache, orphanIds_clear]
    split
    · rfl
    · rename_i hstay
      simp only [Db.clearCalleesCache]
      split
      · rename_i hany
        simp only [List.any_eq_true, Db.mem_nodesByUri, beq_iff_eq] at hany
        obtain ⟨n, ⟨hn, hu⟩, rfl⟩ := hany
        rcases hs.rest n hn hu with ⟨i, -, hid⟩ | horph
        · exact (hr.calleesCache_eq_none h hm hsteal hid).symm
        · exact absurd (orphanIds_iff.mpr ⟨n, hn, hu, horph, rfl⟩) hstay
      · rfl
  refine ⟨db₂, o₂, hok, ⟨hupd, hren, hins⟩, fun x hu hvalid => ?_, fun e hsrc hdst => ?_, honly⟩
  · have hrow : ∀ y ∈ db₁.nodes, y.uri = args.uri → y.valid = true →
        y.forget (orphanIds db₁ args.uri) = y := by
      intro y hy hyu hyv
      refine hs.forget_eq hS hy hyu (Bool.eq_false_iff.mpr fun horph => ?_) hr.stored.toWF
      exact absurd (hyv.symm.trans (hr.valid_of_orphan hy hyu horph)) (by decide)
    rw [honly.nodes]
    constructor
    · rintro ⟨y, hy, -, rfl⟩
      rw [hrow y hy hu hvalid]
      exact hy
    · intro hx
      exact ⟨x, hx, hgone x.id ⟨x, hx, rfl, hvalid⟩, (hrow x hx hu hvalid).symm⟩
  · rw [honly.edges, List.mem_filter, hgone _ hsrc, hgone _ hdst]
    exact and_iff_left rfl

/-- A symbol found unchanged has claimed a row with its fqn and its hash. -/
theorem claimedRow_of_unchanged {i : Nat} {s : ReconcileSymbol}
    (h : fate olds a i s = .unchanged) :
    ∃ x, claimedRow olds a i = some x ∧ x.fqn = s.fqn ∧ x.signatureHash = some s.signatureHash := by
  unfold fate at h
  split at h
  · rename_i x hclaim
    split at h
    · exact nomatch h
    · rename_i hfqn
      split at h
      · exact nomatch h
      · rename_i hhash
        exact ⟨x, hclaim, not_not.mp hfqn, not_not.mp hhash⟩
  · exact nomatch h

/-- Symbols that differ pairwise give values without repeats. -/
private theorem map_nodup_of_inj {β : Type} {f : ReconcileSymbol → β}
    (h : ∀ (i j : Nat) (s t : ReconcileSymbol), i < j → syms[i]? = some s → syms[j]? = some t →
      f s ≠ f t) : (syms.map f).Nodup := by
  rw [List.nodup_iff_getElem?_ne_getElem?]
  intro i j hij hj heq
  rw [List.length_map] at hj
  have hi := List.getElem?_eq_getElem (Nat.lt_trans hij hj)
  have hj' := List.getElem?_eq_getElem hj
  rw [List.getElem?_map, List.getElem?_map, hi, hj', Option.map_some, Option.map_some,
    Option.some.injEq] at heq
  exact h i j _ _ hij hi hj' heq

/-- Symbols that a reconcile finds unchanged, and that it commits, have no collisions: two
    symbols with one fqn would need two rows with it, and two with one position would not
    both have been written. -/
private theorem Reconciled.batch_of_unchanged
    (hm : Matched (db.clearCalleesCache args.uri) args olds syms a)
    (hr : Reconciled db args olds syms a ids db₁ o)
    (hfate : ∀ (i : Nat) (s : ReconcileSymbol), syms[i]? = some s → fate olds a i s = .unchanged) :
    SymbolBatch syms := by
  -- Symbols that are unchanged claim different rows.
  have hids : ∀ {i j : Nat}, i < syms.length → j < syms.length → ids i = ids j → i = j := by
    intro i j hi hj heq
    obtain ⟨x, hx, -⟩ := claimedRow_of_unchanged (hfate i _ (List.getElem?_eq_getElem hi))
    obtain ⟨y, hy, -⟩ := claimedRow_of_unchanged (hfate j _ (List.getElem?_eq_getElem hj))
    rw [hr.claimed i x hx, hr.claimed j y hy, Option.some.injEq] at heq
    obtain rfl := hm.old_ext (claimedRow_mem hx) (claimedRow_mem hy) heq
    exact hm.claimedRow_inj hx hy
  refine ⟨hm.sym_nonneg, map_nodup_of_inj fun i j s t hij hs ht heq => ?_,
    map_nodup_of_inj fun i j s t hij hs ht heq => ?_, hr.parent_lt⟩
  · -- Two symbols of one name would claim one row,
    obtain ⟨x, hx, hxs, -⟩ := claimedRow_of_unchanged (hfate i s hs)
    obtain ⟨y, hy, hyt, -⟩ := claimedRow_of_unchanged (hfate j t ht)
    have hxb := hm.old_mem_base (claimedRow_mem hx)
    have hyb := hm.old_mem_base (claimedRow_mem hy)
    obtain rfl := hm.stored.node_ext hxb hyb
      (hm.stored.fqn_unique x hxb y hyb (hxs.trans (heq.trans hyt.symm)))
    exact Nat.ne_of_lt hij (hm.claimedRow_inj hx hy)
  · -- and two of one key would have been written to one.
    have hj := (List.getElem?_eq_some_iff.mp ht).1
    have hlast : LastWriter ids j i := ⟨hij, fun k hik hkj hk =>
      Nat.ne_of_gt hik (hids (Nat.lt_trans hkj hj) (Nat.lt_trans hij hj) hk)⟩
    have hsame := (hr.collapse j hj t ht i s hs hlast).mpr (.inr heq)
    exact Nat.ne_of_gt hij (hids hj (Nat.lt_trans hij hj) hsame)

/-- The second reconcile clears the cached callee list of a row the first one took over. -/
private theorem Reconciled.not_noop_of_steals (H : Hasher) (h : db.Stored)
    (hm : Matched (db.clearCalleesCache args.uri) args olds syms a) (hS : SymbolBatch syms)
    (hsteal : StealsCached db args.uri syms) (hr : Reconciled db args olds syms a ids db₁ o) :
    ¬ ReconcileIsNoop H db₁ args syms := by
  rintro ⟨db₂, o₂, hok, -, -, -, honly⟩
  obtain ⟨x, hx, hxu, ⟨s, hs, hfqn⟩, hcache⟩ := hsteal
  obtain ⟨i, hid⟩ := hr.stolen s hs x hx hxu hfqn
  have hi := (hr.ids_iff i).mp ⟨_, hid⟩
  have hset := hr.settled hm hS
  obtain ⟨y, hy, hyid, hyu, -⟩ := hset.row i _ (List.getElem?_eq_getElem hi)
  have hxy : y.id = x.id := Option.some.inj (hyid.symm.trans hid)
  -- The first reconcile kept the cached list: the row was not in the file yet.
  have hkept : db₁.calleesCache x.id ≠ none := by
    have hdel : deletedIds olds a x.id = false := by
      refine Bool.eq_false_iff.mpr fun hdel => ?_
      exact (hr.deleted_gone hm hdel).1 y hy hxy
    have hnot : ¬ ((db.nodesByUri args.uri).any (·.id == x.id)) = true := by
      simp only [List.any_eq_true, Db.mem_nodesByUri, beq_iff_eq, not_exists, not_and]
      rintro n ⟨hn, hnu⟩ hnid
      obtain rfl := h.node_ext hn hx hnid
      exact hxu hnu
    rw [hr.calleesCache, hdel]
    simp only [Bool.false_eq_true, if_false, Db.clearCalleesCache, if_neg hnot]
    exact hcache
  have hstay := hset.orphanIds_false hr.stored.toWF hi hid
  obtain ⟨ids₂, hr₂⟩ := reconcile_reconciled H hr.stored hS.line_nonneg hok
  have hcleared : db₂.calleesCache x.id = none := by
    rw [hr₂.calleesCache]
    split
    · rfl
    · have hany : (db₁.nodesByUri args.uri).any (·.id == x.id) = true := by
        simp only [List.any_eq_true, Db.mem_nodesByUri, beq_iff_eq]
        exact ⟨y, ⟨hy, hyu⟩, hxy⟩
      simp only [Db.clearCalleesCache, hany, if_true]
  rw [honly.calleesCache, hstay] at hcleared
  exact hkept (by simpa using hcleared)

end Twice

/-- When the second of two reconciles of one symbol list is a no-op: the symbols have
    distinct fqns and distinct positions, and none takes over a cached row of another file. -/
theorem reconcile_idempotent_iff (H : Hasher) {db : Db} (h : db.Stored) {args : FileArgs}
    {syms : List ReconcileSymbol} (hnn : ∀ s ∈ syms, 0 ≤ s.range.startLine) {db₁ : Db}
    {o : ReconcileOutcome} (hok : reconcileFileSymbols H db args syms = .ok (db₁, o)) :
    ReconcileIsNoop H db₁ args syms ↔ (syms.map (·.fqn)).Nodup ∧
      (syms.map ReconcileSymbol.key).Nodup ∧ ¬ StealsCached db args.uri syms := by
  obtain ⟨ids, hr⟩ := reconcile_reconciled H h hnn hok
  have hm := matched_of_stored H h args hnn
  constructor
  · intro hnoop
    obtain ⟨db₂, o₂, hok₂, ⟨hupd, hren, hins⟩, -⟩ := id hnoop
    obtain ⟨ids₂, hr₂⟩ := reconcile_reconciled H hr.stored hnn hok₂
    rw [hr₂.outcome] at hupd hren hins
    have hS := hr₂.batch_of_unchanged (matched_of_stored H hr.stored args hnn)
      (fate_of_tally_zero hupd hren hins)
    exact ⟨hS.fqns_nodup, hS.keys_nodup, fun hsteal => hr.not_noop_of_steals H h hm hS hsteal hnoop⟩
  · rintro ⟨hfqns, hkeys, hsteal⟩
    exact hr.noop H h hm ⟨hnn, hfqns, hkeys, hr.parent_lt⟩ hsteal

/-- A class with a method, reconciled twice. -/
theorem reconcile_idempotent_iff_class :
    ReconcileIsNoop lengthHasher fooDb appPy (classSymbols "Foo") ↔
      ((classSymbols "Foo").map (·.fqn)).Nodup ∧
      ((classSymbols "Foo").map ReconcileSymbol.key).Nodup ∧
      ¬ StealsCached Db.empty appPy.uri (classSymbols "Foo") :=
  reconcile_idempotent_iff lengthHasher Db.empty_stored (by decide) fooDb_eq

/-! ## Overloads -/

/-- Two overloads of one function, on lines 1 and 5. -/
def overloads : List ReconcileSymbol :=
  [{ fqn := "app.f", name := "f", kind := 12, nodeKind := "function", range := ⟨1, 0, 1, 20⟩,
     sel := ⟨1, 9, 1, 10⟩, detail := none, signatureHash := "1", parent := none },
   { fqn := "app.f", name := "f", kind := 12, nodeKind := "function", range := ⟨5, 0, 7, 1⟩,
     sel := ⟨5, 9, 5, 10⟩, detail := none, signatureHash := "5", parent := none }]

/-- The graph once the overloads were reconciled. -/
def overloadDb : Db :=
  match reconcileFileSymbols lengthHasher .empty appPy overloads with
  | .ok (db, _) => db
  | .error _ => .empty

/-- The second reconcile of the overloads updates the row with the first one and upserts the
    second one onto it again. -/
theorem reconcile_overloads_not_noop :
    reconcileFileSymbols lengthHasher .empty appPy overloads = .ok (overloadDb, { inserted := 2 }) ∧
      (∃ db', reconcileFileSymbols lengthHasher overloadDb appPy overloads =
        .ok (db', { updated := 1, inserted := 1 })) ∧
      ¬ ReconcileIsNoop lengthHasher overloadDb appPy overloads := by
  refine ⟨rfl, ⟨_, rfl⟩, ?_⟩
  rintro ⟨db', o, hok, ⟨hupd, -⟩, -⟩
  have ho : o = { updated := 1, inserted := 1 } :=
    congrArg Prod.snd (Except.ok.inj (hok.symm.trans rfl))
  rw [ho] at hupd
  exact nomatch hupd

end Semnav.Graph
