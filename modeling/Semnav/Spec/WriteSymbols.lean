import Semnav.Spec.DbInvariant
import Semnav.Spec.MatchCorrect

/-!
# Parking the rows and writing the symbols (Pass 3)
-/

namespace Semnav.Graph

/-! ## Parking -/

/-- A row on its sentinel line. -/
def Node.parked (n : Node) : Node := ⟨parkCols n.id n.toNodeCols, n.id⟩

/-- The table with the rows `done` parked. -/
private def parkedDb (db : Db) (done : List Node) : Db :=
  { db with nodes := db.nodes.map fun n => if n ∈ done then n.parked else n }

/-- The table with every row of `uri` parked. -/
def Db.parkUri (db : Db) (uri : String) : Db :=
  { db with nodes := db.nodes.map fun n => if n.uri = uri then n.parked else n }

/-- A row is parked once its turn has come. -/
private theorem mem_parkedDb {db : Db} {done : List Node} {x : Node} :
    x ∈ (parkedDb db done).nodes ↔
      (∃ n ∈ db.nodes, n ∈ done ∧ x = n.parked) ∨ (x ∈ db.nodes ∧ x ∉ done) := by
  simp only [parkedDb, List.mem_map]
  constructor
  · rintro ⟨n, hn, rfl⟩
    by_cases h : n ∈ done
    · exact .inl ⟨n, hn, h, if_pos h⟩
    · rw [if_neg h]
      exact .inr ⟨hn, h⟩
  · rintro (⟨n, hn, h, rfl⟩ | ⟨hx, h⟩)
    · exact ⟨n, hn, if_pos h⟩
    · exact ⟨x, hx, if_neg h⟩

/-- Parking keeps the ids. -/
private theorem hasNode_parkedDb (db : Db) (done : List Node) (id : RowId) :
    (parkedDb db done).hasNode id = db.hasNode id := by
  rw [Bool.eq_iff_iff, Db.hasNode_iff, Db.hasNode_iff]
  constructor
  · rintro ⟨x, hx, rfl⟩
    rcases mem_parkedDb.mp hx with ⟨n, hn, -, rfl⟩ | ⟨hx, -⟩
    · exact ⟨n, hn, rfl⟩
    · exact ⟨x, hx, rfl⟩
  · rintro ⟨n, hn, rfl⟩
    by_cases h : n ∈ done
    · exact ⟨n.parked, mem_parkedDb.mpr (.inl ⟨n, hn, h, rfl⟩), rfl⟩
    · exact ⟨n, mem_parkedDb.mpr (.inr ⟨hn, h⟩), rfl⟩

/-- The sentinel lines are negative and differ, so parking one more row is admissible. -/
private theorem checkRow_parked {db : Db} (h : db.Stored) (done : List Node) {old : Node}
    (hold : old ∈ db.nodes) : (parkedDb db done).checkRow old.parked = .ok () := by
  refine (Db.checkRow_eq_ok_iff _ _).mpr ⟨fun m hm hfqn => ?_, fun m hm hphys => ?_,
    fun c hc => .inr ?_⟩
  · rcases mem_parkedDb.mp hm with ⟨n, hn, -, rfl⟩ | ⟨hm, -⟩
    · exact h.fqn_unique n hn old hold hfqn
    · exact h.fqn_unique m hm old hold hfqn
  · have hline : m.range.startLine = -(old.id : Int) := congrArg (fun k : PhysKey => k.2.1) hphys
    rcases mem_parkedDb.mp hm with ⟨n, hn, -, rfl⟩ | ⟨hm, -⟩
    · have : -(n.id : Int) = -(old.id : Int) := hline
      exact Int.ofNat.inj (Int.neg_inj.mp this)
    · have hpos : (0 : Int) < (old.id : Int) := Int.ofNat_lt.mpr (h.id_pos old hold)
      have hnn := h.line_nonneg m hm
      rw [hline] at hnn
      omega
  · rw [hasNode_parkedDb]
    exact h.container_ok old hold c hc

/-- Parking one more row is parking the longer list. -/
private theorem replaceNode_parkedDb {db : Db} (h : db.Stored) {done : List Node} {old : Node}
    (hold : old ∈ db.nodes) :
    (parkedDb db done).replaceNode old.parked = parkedDb db (done ++ [old]) := by
  simp only [Db.replaceNode, parkedDb, List.map_map, Db.mk.injEq, and_true]
  refine List.map_congr_left fun n hn => ?_
  by_cases hid : n.id = old.id
  · obtain rfl := h.node_ext hn hold hid
    by_cases hd : n ∈ done <;> simp [hd, Node.parked]
  · have hne : n ≠ old := fun heq => hid (heq ▸ rfl)
    by_cases hd : n ∈ done <;> simp [hd, hid, hne, Node.parked]

/-- The parking loop from any point on: it fails at no row, as no two rows are parked on one key. -/
private theorem park_from {db : Db} (h : db.Stored) (l : List Node) :
    ∀ done : List Node, (∀ n ∈ l, n ∈ db.nodes ∧ n ∉ done) → l.Nodup → (parkedDb db done).WF →
      park l (parkedDb db done) = .ok (parkedDb db (done ++ l)) ∧
        (parkedDb db (done ++ l)).WF := by
  -- Induction on the rows that are not parked yet.
  induction l with
  | nil =>
    intro done _ _ hwf
    rw [List.append_nil]
    exact ⟨rfl, hwf⟩
  | cons old l ih =>
    intro done hl hnodup hwf
    obtain ⟨hold, hfresh⟩ := hl old List.mem_cons_self
    obtain ⟨hnot, hnodup⟩ := List.nodup_cons.mp hnodup
    -- The row is still in its place, so parking it meets no row on its negative line.
    have hmem : old ∈ (parkedDb db done).nodes := mem_parkedDb.mpr (.inr ⟨hold, hfresh⟩)
    have hupd : (parkedDb db done).updateNode old.id (parkCols old.id) =
        .ok (parkedDb db (done ++ [old])) :=
      (Db.updateNode_ok hwf hmem).mpr
        ⟨checkRow_parked h done hold, (replaceNode_parkedDb h hold).symm⟩
    have hnext := ih (done ++ [old]) (fun n hn => ⟨(hl n (List.mem_cons_of_mem old hn)).1, fun hd => by
        rcases List.mem_append.mp hd with hd | hd
        · exact (hl n (List.mem_cons_of_mem old hn)).2 hd
        · exact hnot (List.mem_singleton.mp hd ▸ hn)⟩) hnodup (Db.updateNode_wf hwf hmem hupd)
    rw [List.append_assoc, List.singleton_append] at hnext
    refine ⟨?_, hnext.2⟩
    rw [park, List.foldlM_cons, hupd]
    exact hnext.1

/-- Parking all rows of a file. -/
private theorem parkedDb_nodesByUri (db : Db) (uri : String) :
    parkedDb db (db.nodesByUri uri) = db.parkUri uri := by
  simp only [parkedDb, Db.parkUri, Db.mk.injEq, and_true]
  refine List.map_congr_left fun n hn => ?_
  simp only [Db.mem_nodesByUri, hn, true_and]

/-- Parking starts from no row. -/
private theorem parkedDb_nil (db : Db) : parkedDb db [] = db := by
  simp [parkedDb]

/-- Parking never fails. -/
theorem park_eq {db : Db} (h : db.Stored) (uri : String) :
    park (db.nodesByUri uri) db = .ok (db.parkUri uri) ∧ (db.parkUri uri).WF := by
  have hnodup : (db.nodesByUri uri).Nodup :=
    (List.Nodup.of_map (fun n : Node => n.id) h.ids_nodup).filter _
  have := park_from h (db.nodesByUri uri) []
    (fun n hn => ⟨(Db.mem_nodesByUri.mp hn).1, List.not_mem_nil⟩) hnodup
    (by rw [parkedDb_nil]; exact h.toWF)
  rwa [parkedDb_nil, List.nil_append, parkedDb_nodesByUri] at this

/-- The rows of the file are parked, the others kept. -/
theorem mem_parkUri {db : Db} {uri : String} {x : Node} :
    x ∈ (db.parkUri uri).nodes ↔
      (∃ n ∈ db.nodesByUri uri, x = n.parked) ∨ (x ∈ db.nodes ∧ x.uri ≠ uri) := by
  rw [← parkedDb_nodesByUri, mem_parkedDb]
  constructor
  · rintro (⟨n, -, hn, rfl⟩ | ⟨hx, hnot⟩)
    · exact .inl ⟨n, hn, rfl⟩
    · exact .inr ⟨hx, fun hu => hnot (Db.mem_nodesByUri.mpr ⟨hx, hu⟩)⟩
  · rintro (⟨n, hn, rfl⟩ | ⟨hx, hu⟩)
    · exact .inl ⟨n, (Db.mem_nodesByUri.mp hn).1, hn, rfl⟩
    · exact .inr ⟨hx, fun h => hu (Db.mem_nodesByUri.mp h).2⟩

/-! ## The matching as Pass 3 uses it -/

/-- The row that symbol `i` was matched to. -/
def claimedRow (olds : List Node) (a : Assignment) (i : Nat) : Option Node :=
  (a.assigned i).bind (olds[·]?)

/-- The row of a symbol is the one it is assigned. -/
theorem claimedRow_eq_some_iff {olds : List Node} {a : Assignment} {i : Nat} {old : Node} :
    claimedRow olds a i = some old ↔ ∃ j, a.assigned i = some j ∧ olds[j]? = some old := by
  unfold claimedRow
  cases a.assigned i with
  | none => simp
  | some j => simp

/-- The row claimed by a symbol is one of the file. -/
theorem claimedRow_mem {olds : List Node} {a : Assignment} {i : Nat} {old : Node}
    (h : claimedRow olds a i = some old) : old ∈ olds := by
  obtain ⟨j, -, hj⟩ := claimedRow_eq_some_iff.mp h
  exact List.mem_of_getElem? hj

/-- What Pass 3 starts from: a stored table whose rows of the file are `olds`, symbols on
    real lines, and a matching between the two that pairs equal fqns. -/
structure Matched (base : Db) (args : FileArgs) (olds : List Node)
    (syms : List ReconcileSymbol) (a : Assignment) : Prop where
  stored : base.Stored
  mem_olds : ∀ n, n ∈ olds ↔ n ∈ base.nodes ∧ n.uri = args.uri
  nodup : olds.Nodup
  sym_nonneg : ∀ s ∈ syms, 0 ≤ s.range.startLine
  valid : a.Valid syms.length olds.length
  of_exact : ∀ i j, ExactPair olds syms i j → a.assigned i = some j

namespace Matched

variable {base : Db} {args : FileArgs} {olds : List Node} {syms : List ReconcileSymbol}
  {a : Assignment}


/-- Only symbols of the list have a claimed row. -/
theorem claimedRow_lt (hm : Matched base args olds syms a) {i : Nat} {old : Node}
    (h : claimedRow olds a i = some old) : i < syms.length := by
  obtain ⟨j, hi, -⟩ := claimedRow_eq_some_iff.mp h
  exact hm.valid.sym_lt i j hi

/-- No row is claimed twice. -/
theorem claimedRow_inj (hm : Matched base args olds syms a) {i i' : Nat} {old : Node}
    (h : claimedRow olds a i = some old) (h' : claimedRow olds a i' = some old) : i = i' := by
  obtain ⟨j, hi, hj⟩ := claimedRow_eq_some_iff.mp h
  obtain ⟨j', hi', hj'⟩ := claimedRow_eq_some_iff.mp h'
  obtain ⟨hlt, hget⟩ := List.getElem?_eq_some_iff.mp hj
  obtain ⟨hlt', hget'⟩ := List.getElem?_eq_some_iff.mp hj'
  obtain rfl : j = j' := (hm.nodup.getElem_inj_iff).mp (hget.trans hget'.symm)
  exact hm.valid.inj i i' j hi hi'

/-- A row is claimed by the first symbol that has its fqn. -/
theorem claimedRow_of_fqn (hm : Matched base args olds syms a) {i : Nat} {s : ReconcileSymbol}
    {old : Node} (hold : old ∈ olds) (hs : syms[i]? = some s) (hfqn : old.fqn = s.fqn)
    (hfirst : ∀ i' < i, ∀ s', syms[i']? = some s' → s'.fqn ≠ s.fqn) :
    claimedRow olds a i = some old := by
  obtain ⟨j, hj⟩ := List.getElem?_of_mem hold
  exact claimedRow_eq_some_iff.mpr ⟨j, hm.of_exact i j ⟨s, old, hs, hj, hfqn, hfirst⟩, hj⟩

/-- A row whose fqn some symbol has is claimed, by that symbol or an earlier one. -/
theorem exists_claimedRow (hm : Matched base args olds syms a) {i : Nat} {s : ReconcileSymbol}
    {old : Node} (hold : old ∈ olds) (hs : syms[i]? = some s) (hfqn : old.fqn = s.fqn) :
    ∃ i' ≤ i, claimedRow olds a i' = some old := by
  -- Induction on `i`: go down to the first symbol with the fqn.
  induction i using Nat.strong_induction_on generalizing s with
  | _ i ih =>
    by_cases hfirst : ∀ i' < i, ∀ s', syms[i']? = some s' → s'.fqn ≠ s.fqn
    · exact ⟨i, Nat.le_refl i, hm.claimedRow_of_fqn hold hs hfqn hfirst⟩
    · push Not at hfirst
      obtain ⟨i', hi', s', hs', hsame⟩ := hfirst
      obtain ⟨i'', hle, hclaim⟩ := ih i' hi' hs' (hfqn.trans hsame.symm)
      exact ⟨i'', Nat.le_of_lt (Nat.lt_of_le_of_lt hle hi'), hclaim⟩

/-- The rows matched against are rows of the graph. -/
theorem old_mem_base (hm : Matched base args olds syms a) {old : Node} (h : old ∈ olds) :
    old ∈ base.nodes := ((hm.mem_olds old).mp h).1

/-- The rows matched against are all of the file. -/
theorem old_uri (hm : Matched base args olds syms a) {old : Node} (h : old ∈ olds) :
    old.uri = args.uri := ((hm.mem_olds old).mp h).2

/-- The rows matched against are told apart by their ids. -/
theorem old_ext (hm : Matched base args olds syms a) {m n : Node} (hmem : m ∈ olds)
    (hn : n ∈ olds) (h : m.id = n.id) : m = n :=
  hm.stored.node_ext (hm.old_mem_base hmem) (hm.old_mem_base hn) h

end Matched

/-! ## What one round writes -/

/-- The columns symbol `i` leaves in its row: a matched row keeps the columns the symbol
    does not have, any other row is rewritten whole. -/
def writtenCols (args : FileArgs) (olds : List Node) (a : Assignment) (ids : Nat → Option RowId)
    (i : Nat) (s : ReconcileSymbol) : NodeCols :=
  match claimedRow olds a i with
  | some old => s.writeOver (s.parent.bind ids) old.toNodeCols
  | none => s.toNode args.uri args.language args.isExternal (s.parent.bind ids)

/-- What is written under a symbol has its name. -/
@[simp] theorem writtenCols_fqn (args : FileArgs) (olds : List Node) (a : Assignment)
    (ids : Nat → Option RowId) (i : Nat) (s : ReconcileSymbol) :
    (writtenCols args olds a ids i s).fqn = s.fqn := by
  unfold writtenCols; split <;> rfl

/-- What is written under a symbol has its range. -/
@[simp] theorem writtenCols_range (args : FileArgs) (olds : List Node) (a : Assignment)
    (ids : Nat → Option RowId) (i : Nat) (s : ReconcileSymbol) :
    (writtenCols args olds a ids i s).range = s.range := by
  unfold writtenCols; split <;> rfl

/-- What is written under a symbol has the row of its parent. -/
@[simp] theorem writtenCols_containerId (args : FileArgs) (olds : List Node) (a : Assignment)
    (ids : Nat → Option RowId) (i : Nat) (s : ReconcileSymbol) :
    (writtenCols args olds a ids i s).containerId = s.parent.bind ids := by
  unfold writtenCols; split <;> rfl

/-- What is written under a symbol has its key. -/
theorem Matched.writtenCols_phys {base : Db} {args : FileArgs} {olds : List Node}
    {syms : List ReconcileSymbol} {a : Assignment} (hm : Matched base args olds syms a)
    (ids : Nat → Option RowId) (i : Nat) (s : ReconcileSymbol) :
    (writtenCols args olds a ids i s).phys = (args.uri, s.key) := by
  unfold writtenCols
  split
  · rename_i old h
    rw [← hm.old_uri (claimedRow_mem h)]
    rfl
  · rfl

/-- Which counter a symbol goes to. -/
inductive Fate where
  | unchanged
  | updated
  | renamed
  | inserted
deriving DecidableEq

/-- The branch of Pass 3 that symbol `i` takes. -/
def fate (olds : List Node) (a : Assignment) (i : Nat) (s : ReconcileSymbol) : Fate :=
  match claimedRow olds a i with
  | some old =>
    if old.fqn ≠ s.fqn then .renamed
    else if old.signatureHash ≠ some s.signatureHash then .updated
    else .unchanged
  | none => .inserted

/-- Count one more symbol. -/
def ReconcileOutcome.bump (o : ReconcileOutcome) : Fate → ReconcileOutcome
  | .unchanged => { o with unchanged := o.unchanged + 1 }
  | .updated => { o with updated := o.updated + 1 }
  | .renamed => { o with renamed := o.renamed + 1 }
  | .inserted => { o with inserted := o.inserted + 1 }

/-- The row whose edges symbol `i` puts up for re-evaluation. -/
def staleRow (olds : List Node) (a : Assignment) (i : Nat) (s : ReconcileSymbol) : Option RowId :=
  if fate olds a i s = .renamed ∨ fate olds a i s = .updated then
    (claimedRow olds a i).map (·.id)
  else none

/-- An edge loses its flag when `p` holds of one of its ends. -/
def EdgeRow.staleIf (p : RowId → Bool) (e : EdgeRow) : EdgeRow :=
  { e with valid := e.valid && !(p e.srcId || p e.dstId) }

/-- Invalidating the edges of a row as a map. -/
private theorem invalidateEdges_eq (db : Db) (id : RowId) :
    db.invalidateEdges id = { db with edges := db.edges.map (EdgeRow.staleIf (· == id)) } := by
  simp only [Db.invalidateEdges, Db.mk.injEq, and_true, true_and]
  refine List.map_congr_left fun e _ => ?_
  by_cases h : e.srcId = id ∨ e.dstId = id
  · rcases h with h | h <;> simp [EdgeRow.staleIf, h]
  · rw [if_neg h]
    have hsrc : (e.srcId == id) = false := by simpa using fun hs => h (.inl hs)
    have hdst : (e.dstId == id) = false := by simpa using fun hd => h (.inr hd)
    simp only [EdgeRow.staleIf, hsrc, hdst, Bool.or_self, Bool.not_false, Bool.and_true]

/-- Making no edge stale changes nothing. -/
theorem map_staleIf_false (es : List EdgeRow) : es.map (EdgeRow.staleIf fun _ => false) = es := by
  conv_rhs => rw [← List.map_id es]
  exact List.map_congr_left fun e _ => by simp [EdgeRow.staleIf]

/-- Making edges stale twice makes stale what either does. -/
theorem map_staleIf_staleIf (p q : RowId → Bool) (es : List EdgeRow) :
    (es.map (EdgeRow.staleIf p)).map (EdgeRow.staleIf q) =
      es.map (EdgeRow.staleIf fun id => p id || q id) := by
  rw [List.map_map]
  refine List.map_congr_left fun e _ => ?_
  simp only [EdgeRow.staleIf, Function.comp]
  cases e.valid <;> cases p e.srcId <;> cases p e.dstId <;> cases q e.srcId <;>
    cases q e.dstId <;> rfl

/-- Which row a round writes to: its matched row, the row an upsert conflicts with, or a
    new one. -/
inductive Hit (args : FileArgs) (olds : List Node) (a : Assignment) (db : Db) (k : Nat)
    (s : ReconcileSymbol) (r : RowId) : Prop where
  | claimed (old : Node) (h : claimedRow olds a k = some old) (hr : r = old.id)
  | conflict (h : claimedRow olds a k = none) (m : Node) (hm : m ∈ db.nodes) (hr : r = m.id)
      (hkey : m.fqn = s.fqn ∨ m.phys = (args.uri, s.key))
  | fresh (h : claimedRow olds a k = none) (hr : r = db.nodesSeq + 1)

/-- The effect of a round that gets through. -/
structure WriteStep (args : FileArgs) (olds : List Node) (a : Assignment) (s : ReconcileSymbol)
    (k : Nat) (st st' : ApplyState) (r : RowId) : Prop where
  parent_some : ∀ p, s.parent = some p → ∃ id, st.ids p = some id
  ids_eq : st'.ids = Function.update st.ids k (some r)
  wf : st'.db.WF
  seq_le : st.db.nodesSeq ≤ st'.db.nodesSeq
  nodes : ∀ x, x ∈ st'.db.nodes ↔
    x = ⟨writtenCols args olds a st.ids k s, r⟩ ∨ (x ∈ st.db.nodes ∧ x.id ≠ r)
  hit : Hit args olds a st.db k s r
  edges : st'.db.edges =
    st.db.edges.map (EdgeRow.staleIf fun id => decide (staleRow olds a k s = some id))
  edgesSeq : st'.db.edgesSeq = st.db.edgesSeq
  calleesCache : st'.db.calleesCache = st.db.calleesCache
  materialized : st'.db.materialized = st.db.materialized
  indexMeta : st'.db.indexMeta = st.db.indexMeta
  outcome : st'.outcome = st.outcome.bump (fate olds a k s)

/-- A parent's row is found when the parent was written before. -/
private theorem parentId_eq_ok {ids : Nat → Option RowId} {parent : Option Nat} {c : Option RowId}
    (h : parentId ids parent = .ok c) :
    c = parent.bind ids ∧ ∀ p, parent = some p → ∃ id, ids p = some id := by
  cases parent with
  | none => exact ⟨(Except.ok.inj h).symm, fun _ h => nomatch h⟩
  | some p =>
    cases hp : ids p with
    | none =>
      simp only [parentId, hp] at h
      exact nomatch h
    | some id =>
      simp only [parentId, hp, Except.ok.injEq] at h
      refine ⟨by rw [Option.bind_some, hp, h], fun q hq => ?_⟩
      obtain rfl := Option.some.inj hq
      exact ⟨id, hp⟩

/-- Replacing a row changes that row only. -/
theorem mem_replaceNode_of_mem {db : Db} {n m x : Node} (hm : m ∈ db.nodes) (hid : m.id = n.id) :
    x ∈ (db.replaceNode n).nodes ↔ x = n ∨ (x ∈ db.nodes ∧ x.id ≠ n.id) := by
  rw [Db.mem_replaceNode]
  exact ⟨Or.imp And.left id, Or.imp (fun h => ⟨h, m, hm, hid⟩) id⟩

/-- The edges after a matched symbol's round, whichever branch it took. -/
private def staleEdges (olds : List Node) (a : Assignment) (k : Nat) (s : ReconcileSymbol)
    (db : Db) : Db :=
  { db with edges := db.edges.map (EdgeRow.staleIf fun id => decide (staleRow olds a k s = some id)) }

/-- The three branches of a matched symbol differ in the counter and in the edges only. -/
private theorem applyMatched_ok {olds : List Node} {a : Assignment} {old : Node}
    {s : ReconcileSymbol} {k : Nat} {c : Option RowId} {st st' : ApplyState}
    (hclaim : claimedRow olds a k = some old) (h : applyMatched old s k c st = .ok st') :
    ∃ db, st.db.updateNode old.id (s.writeOver c) = .ok db ∧
      st' = ⟨staleEdges olds a k s db, Function.update st.ids k (some old.id),
        st.outcome.bump (fate olds a k s)⟩ := by
  obtain ⟨db, hdb, h⟩ := Except.bind_eq_ok.mp h
  have hstale : ∀ r, staleRow olds a k s = some r →
      staleEdges olds a k s db = db.invalidateEdges r := by
    intro r hr
    rw [invalidateEdges_eq, staleEdges, hr]
    simp only [Option.some.injEq, eq_comm (a := r), beq_eq_decide]
  refine ⟨db, hdb, ?_⟩
  -- The name differs, or the hash does, or nothing; the first two invalidate the row's edges.
  split at h
  · rename_i hne
    have hfate : fate olds a k s = .renamed := by simp only [fate, hclaim, if_pos hne]
    have hrow : staleRow olds a k s = some old.id := by simp [staleRow, hfate, hclaim]
    rw [hstale old.id hrow, hfate, ← Except.ok.inj h]
    rfl
  · rename_i hfqn
    split at h
    · rename_i hhash
      have hfate : fate olds a k s = .updated := by
        simp only [fate, hclaim, if_neg hfqn, if_pos hhash]
      have hrow : staleRow olds a k s = some old.id := by simp [staleRow, hfate, hclaim]
      rw [hstale old.id hrow, hfate, ← Except.ok.inj h]
      rfl
    · rename_i hhash
      have hfate : fate olds a k s = .unchanged := by
        simp only [fate, hclaim, if_neg hfqn, if_neg hhash]
      have hrow : staleRow olds a k s = none := by simp [staleRow, hfate]
      have hsame : staleEdges olds a k s db = db := by
        simp only [staleEdges, hrow, reduceCtorEq, decide_false, map_staleIf_false]
      rw [hsame, hfate, ← Except.ok.inj h]
      rfl

/-- The round of a symbol with a partner. -/
theorem applySymbol_matched {args : FileArgs} {olds : List Node} {a : Assignment}
    {st : ApplyState} {s : ReconcileSymbol} {k : Nat} {old : Node} {c : Option RowId}
    (hclaim : claimedRow olds a k = some old) (hparent : parentId st.ids s.parent = .ok c) :
    applySymbol args olds a st s k = applyMatched old s k c st := by
  rw [claimedRow] at hclaim
  simp only [applySymbol, hparent, hclaim]
  rfl

/-- The round of a symbol without one. -/
theorem applySymbol_new {args : FileArgs} {olds : List Node} {a : Assignment} {st : ApplyState}
    {s : ReconcileSymbol} {k : Nat} {c : Option RowId} (hclaim : claimedRow olds a k = none)
    (hparent : parentId st.ids s.parent = .ok c) :
    applySymbol args olds a st s k = applyNew args s k c st := by
  rw [claimedRow] at hclaim
  simp only [applySymbol, hparent, hclaim]
  rfl

/-- Inversion of a round of Pass 3. -/
theorem applySymbol_ok {args : FileArgs} {olds : List Node} {a : Assignment} {st st' : ApplyState}
    {s : ReconcileSymbol} {k : Nat} (hwf : st.db.WF)
    (hpending : ∀ old, claimedRow olds a k = some old → old.parked ∈ st.db.nodes)
    (h : applySymbol args olds a st s k = .ok st') :
    ∃ r, WriteStep args olds a s k st st' r := by
  obtain ⟨c, hc, -⟩ := Except.bind_eq_ok.mp h
  obtain ⟨rfl, hparent⟩ := parentId_eq_ok hc
  cases hclaim : claimedRow olds a k with
  | some old =>
    rw [applySymbol_matched hclaim hc] at h
    obtain ⟨db, hdb, rfl⟩ := applyMatched_ok hclaim h
    have hmem := hpending old hclaim
    have hcols : writtenCols args olds a st.ids k s =
        s.writeOver (s.parent.bind st.ids) old.parked.toNodeCols := by
      simp only [writtenCols, hclaim]
      rfl
    have hwf' := Db.updateNode_wf hwf hmem hdb
    obtain ⟨-, rfl⟩ := (Db.updateNode_ok hwf hmem).mp hdb
    refine ⟨old.id, hparent, rfl, ?_, Nat.le_refl _, fun x => ?_, .claimed old hclaim rfl, rfl, rfl,
      rfl, rfl, rfl, rfl⟩
    · exact Db.mapEdges_wf hwf' _ (fun _ => rfl) (fun _ => rfl) fun _ => rfl
    · rw [hcols]
      exact mem_replaceNode_of_mem hmem rfl
  | none =>
    rw [applySymbol_new hclaim hc] at h
    obtain ⟨⟨db, id⟩, hdb, h⟩ := Except.bind_eq_ok.mp h
    have hcols : s.toNode args.uri args.language args.isExternal (s.parent.bind st.ids) =
        writtenCols args olds a st.ids k s := by
      simp only [writtenCols, hclaim]
    rw [hcols] at hdb
    have hfate : fate olds a k s = .inserted := by simp only [fate, hclaim]
    have hrow : staleRow olds a k s = none := by simp [staleRow, hfate]
    have hstep : ∀ {r : RowId}, db.WF → st.db.nodesSeq ≤ db.nodesSeq →
        (∀ x, x ∈ db.nodes ↔
          x = ⟨writtenCols args olds a st.ids k s, r⟩ ∨ (x ∈ st.db.nodes ∧ x.id ≠ r)) →
        Hit args olds a st.db k s r → db.edges = st.db.edges → db.edgesSeq = st.db.edgesSeq →
        db.calleesCache = st.db.calleesCache → db.materialized = st.db.materialized →
        db.indexMeta = st.db.indexMeta → id = r → WriteStep args olds a s k st st' r := by
      rintro r hwf' hseq hnodes hhit hedges hedgesSeq hcache hmat hmeta rfl
      obtain rfl := (Except.ok.inj h).symm
      refine ⟨hparent, rfl, hwf', hseq, hnodes, hhit, ?_, hedgesSeq, hcache, hmat, hmeta, ?_⟩
      · simp only [hrow, reduceCtorEq, decide_false, map_staleIf_false, hedges]
      · rw [hfate]
        rfl
    -- The upsert finds a row with the fqn, or one with the physical key, or none.
    have hwf' := Db.upsertNode_wf hwf hdb
    rcases Db.upsertNode_ok hwf hdb with ⟨m, hm, hfqn, hid, -, rfl⟩ |
      ⟨-, m, hm, hphys, hid, -, rfl⟩ | ⟨-, -, hid, -, rfl⟩
    · exact ⟨m.id, hstep hwf' (Nat.le_refl _) (fun x => mem_replaceNode_of_mem hm rfl)
        (.conflict hclaim m hm rfl (.inl (by simpa using hfqn))) rfl rfl rfl rfl rfl hid⟩
    · refine ⟨m.id, hstep hwf' (Nat.le_refl _) (fun x => mem_replaceNode_of_mem hm rfl)
        (.conflict hclaim m hm rfl (.inr (hphys.trans ?_))) rfl rfl rfl rfl rfl hid⟩
      rw [← hcols]
      rfl
    · refine ⟨st.db.nodesSeq + 1, hstep hwf' (Nat.le_succ _) (fun x => ?_) (.fresh hclaim rfl)
        rfl rfl rfl rfl rfl hid⟩
      rw [Db.mem_appendNode]
      constructor
      · rintro (hx | rfl)
        · exact .inr ⟨hx, hwf.fresh_id hx⟩
        · exact .inl rfl
      · exact fun hx => hx.symm.imp And.left fun h => h

end Semnav.Graph
