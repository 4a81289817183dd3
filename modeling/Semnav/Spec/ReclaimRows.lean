import Semnav.Spec.WriteRun

/-!
# Reclaiming the rows left over (Pass 4)

After Pass 3 the unclaimed rows of the file stand on their sentinel lines.  Pass 4 goes
over them once: a row that was orphaned before is deleted, any other one is flagged and
gets its line back.  Giving the line back is the one place where a reconcile can violate
a unique index: the row's position may by then belong to a symbol.

## Key results

- `Reclaimed.step`: one round keeps the invariant
- `pass4_reclaimed`: so a run that gets through ends in it
- `pass4_ok_iff`: and it gets through exactly when no flagged row stands where a symbol
  was written
-/

namespace Semnav.Graph

/-! ## Forgetting deleted containers -/

/-- `ON DELETE SET NULL` for a set of deleted ids. -/
def Node.forget (p : RowId → Bool) (n : Node) : Node :=
  { n with containerId := n.containerId.filter fun c => !p c }

namespace Node

variable (p q : RowId → Bool) (n : Node)

/-- Forgetting a container changes no id. -/
@[simp] theorem forget_id : (n.forget p).id = n.id := rfl

/-- Forgetting a container changes no name. -/
@[simp] theorem forget_fqn : (n.forget p).fqn = n.fqn := rfl

/-- Forgetting a container changes no file. -/
@[simp] theorem forget_uri : (n.forget p).uri = n.uri := rfl

/-- Forgetting a container changes no validity. -/
@[simp] theorem forget_valid : (n.forget p).valid = n.valid := rfl

/-- Forgetting a container changes no key. -/
@[simp] theorem forget_phys : (n.forget p).phys = n.phys := rfl

/-- Forgetting twice forgets what either does. -/
private theorem forget_forget : (n.forget p).forget q = n.forget fun c => p c || q c := by
  simp only [forget, Option.filter_filter]
  congr 3
  funext c
  cases p c <;> cases q c <;> rfl

/-- Nothing is forgotten when the container stays. -/
theorem forget_eq_self (h : ∀ c, n.containerId = some c → p c = false) : n.forget p = n := by
  have hc : n.containerId.filter (fun c => !p c) = n.containerId := by
    cases hid : n.containerId with
    | none => rfl
    | some c => simp [Option.filter, h c hid]
  simp only [forget, hc]

end Node

/-- A delete makes the rows below forget their container. -/
private theorem dropContainer_eq_forget (id : RowId) (n : Node) :
    Db.dropContainer id n = n.forget (· == id) := by
  unfold Db.dropContainer
  split
  · rename_i hc
    simp [Node.forget, hc, Option.filter]
  · rename_i hc
    refine (n.forget_eq_self _ fun c h => ?_).symm
    simpa using fun hid : c = id => hc (hid ▸ h)

/-! ## The invariant -/

/-- A row flagged by Pass 4, back on its line. -/
def Node.orphaned (n : Node) : Node := ⟨orphanCols n.range.startLine n.toNodeCols, n.id⟩

/-- The ids that the first `k` rounds of Pass 4 delete. -/
def deletedBefore (olds : List Node) (a : Assignment) (k : Nat) (id : RowId) : Bool :=
  (List.range k).any fun j =>
    olds[j]?.any fun old => !a.oldUsed j && old.orphan && old.id == id

/-- The rows that are left after `k` rounds, deleted containers aside. -/
def LeftRow (base : Db) (args : FileArgs) (olds : List Node) (syms : List ReconcileSymbol)
    (a : Assignment) (ids : Nat → Option RowId) (k : Nat) (y : Node) : Prop :=
  WrittenRow args olds syms a ids syms.length y ∨
  (∃ j old, olds[j]? = some old ∧ a.oldUsed j = false ∧
    ((k ≤ j ∧ y = old.parked) ∨ (j < k ∧ old.orphan = false ∧ y = old.orphaned))) ∨
  OtherRow base args ids syms.length y

/-- How many of the first `k` rows Pass 4 flags (`orphan = false`) or deletes. -/
def reclaimCount (olds : List Node) (a : Assignment) (k : Nat) (orphan : Bool) : Nat :=
  (List.range k).countP fun j => olds[j]?.any fun old => !a.oldUsed j && old.orphan == orphan

/-- The invariant of the Pass 4 loop after `k` rows. -/
structure Reclaimed (base : Db) (args : FileArgs) (olds : List Node)
    (syms : List ReconcileSymbol) (a : Assignment) (st₃ : ApplyState) (k : Nat)
    (st : Db × ReconcileOutcome) : Prop where
  wf : st.1.WF
  nodes : ∀ x, x ∈ st.1.nodes ↔ ∃ y, LeftRow base args olds syms a st₃.ids k y ∧
    x = y.forget (deletedBefore olds a k)
  nodesSeq : st.1.nodesSeq = st₃.db.nodesSeq
  edges : st.1.edges = st₃.db.edges.filter fun e =>
    !deletedBefore olds a k e.srcId && !deletedBefore olds a k e.dstId
  edgesSeq : st.1.edgesSeq = st₃.db.edgesSeq
  calleesCache : ∀ id, st.1.calleesCache id =
    if deletedBefore olds a k id then none else st₃.db.calleesCache id
  materialized : ∀ id t, st.1.materialized id t =
    (!deletedBefore olds a k id && st₃.db.materialized id t)
  indexMeta : st.1.indexMeta = st₃.db.indexMeta
  outcome : st.2 = { st₃.outcome with
    orphaned := st₃.outcome.orphaned + reclaimCount olds a k false
    deleted := st₃.outcome.deleted + reclaimCount olds a k true }

section Run

variable {base : Db} {args : FileArgs} {olds : List Node} {syms : List ReconcileSymbol}
  {a : Assignment}

/-- A row was deleted when it was an orphan that no symbol claimed. -/
theorem deletedBefore_iff {k : Nat} {id : RowId} : deletedBefore olds a k id = true ↔
    ∃ j < k, ∃ old, olds[j]? = some old ∧ a.oldUsed j = false ∧ old.orphan = true ∧
      old.id = id := by
  simp only [deletedBefore, List.any_eq_true, List.mem_range, Option.any_eq_true,
    Bool.and_eq_true, Bool.not_eq_true', beq_iff_eq, and_assoc]

/-- One more row decides on that row. -/
theorem deletedBefore_succ (k : Nat) (id : RowId) {old : Node} (hk : olds[k]? = some old) :
    deletedBefore olds a (k + 1) id =
      (deletedBefore olds a k id || (!a.oldUsed k && old.orphan && old.id == id)) := by
  simp only [deletedBefore, List.range_succ, List.any_append, List.any_cons, List.any_nil,
    Bool.or_false, hk, Option.any_some]

/-- One more row is counted. -/
theorem reclaimCount_succ (k : Nat) (orphan : Bool) {old : Node} (hk : olds[k]? = some old) :
    reclaimCount olds a (k + 1) orphan =
      reclaimCount olds a k orphan + if !a.oldUsed k && old.orphan == orphan then 1 else 0 := by
  simp only [reclaimCount, List.range_succ, List.countP_append, List.countP_singleton, hk,
    Option.any_some]

/-- A row that some symbol claims is flagged as used, and only such rows are. -/
theorem Matched.oldUsed_iff (hm : Matched base args olds syms a) {j : Nat} {old : Node}
    (hj : olds[j]? = some old) : a.oldUsed j = true ↔ ∃ i, claimedRow olds a i = some old := by
  rw [hm.valid.used_iff]
  constructor
  · rintro ⟨i, hi⟩
    exact ⟨i, claimedRow_eq_some_iff.mpr ⟨j, hi, hj⟩⟩
  · rintro ⟨i, hi⟩
    obtain ⟨j', hi', hj'⟩ := claimedRow_eq_some_iff.mp hi
    obtain ⟨hlt, hget⟩ := List.getElem?_eq_some_iff.mp hj
    obtain ⟨hlt', hget'⟩ := List.getElem?_eq_some_iff.mp hj'
    obtain rfl : j = j' := (hm.nodup.getElem_inj_iff).mp (hget.trans hget'.symm)
    exact ⟨i, hi'⟩

/-- A row left over is no symbol's. -/
theorem Matched.not_claimed (hm : Matched base args olds syms a) {j : Nat} {old : Node}
    (hj : olds[j]? = some old) (hfree : a.oldUsed j = false) (i : Nat) :
    claimedRow olds a i ≠ some old := fun h => by
  rw [(hm.oldUsed_iff hj).mpr ⟨i, h⟩] at hfree
  exact nomatch hfree

/-- Rows of the file with the same id have the same index. -/
private theorem Matched.idx_eq (hm : Matched base args olds syms a) {j j' : Nat} {old old' : Node}
    (hj : olds[j]? = some old) (hj' : olds[j']? = some old') (hid : old.id = old'.id) :
    j = j' := by
  obtain ⟨hlt, rfl⟩ := List.getElem?_eq_some_iff.mp hj
  obtain ⟨hlt', rfl⟩ := List.getElem?_eq_some_iff.mp hj'
  exact (hm.nodup.getElem_inj_iff).mp
    (hm.old_ext (List.getElem_mem hlt) (List.getElem_mem hlt') hid)

/-- The row of an unclaimed old node is nobody else's. -/
private theorem leftRow_id_ne (hm : Matched base args olds syms a) {st₃ : ApplyState}
    (hw : Written base args olds syms a syms.length st₃) {j : Nat} {old y : Node}
    (hj : olds[j]? = some old) (hfree : a.oldUsed j = false)
    (hy : WrittenRow args olds syms a st₃.ids syms.length y ∨
      OtherRow base args st₃.ids syms.length y) : y.id ≠ old.id := by
  intro hid
  rcases hy with ⟨i, s, -, -, hids, -⟩ | ⟨hbase, hu, -⟩
  · obtain ⟨i', -, hclaim⟩ := (hid ▸ hw.origin i y.id hids).old_claimed hm
      (List.mem_of_getElem? hj)
    exact hm.not_claimed hj hfree i' hclaim
  · have hold := List.mem_of_getElem? hj
    obtain rfl := hm.stored.node_ext hbase (hm.old_mem_base hold) hid
    exact hu (hm.old_uri hold)

/-- What a round does to the rows: row `k` is taken out and, unless it is deleted, put back
    flagged. -/
private theorem leftRow_succ (hm : Matched base args olds syms a) {st₃ : ApplyState}
    (hw : Written base args olds syms a syms.length st₃) {k : Nat} {old : Node}
    (hk : olds[k]? = some old) (hfree : a.oldUsed k = false) (y : Node) :
    LeftRow base args olds syms a st₃.ids (k + 1) y ↔
      (old.orphan = false ∧ y = old.orphaned) ∨
        (LeftRow base args olds syms a st₃.ids k y ∧ y.id ≠ old.id) := by
  -- By the three kinds of rows; the row of `old` is the only one that changes its side at `k`.
  constructor
  · rintro (hwr | ⟨j, old', hj, hfree', ⟨hle, rfl⟩ | ⟨hlt, horph, rfl⟩⟩ | hother)
    · exact .inr ⟨.inl hwr, leftRow_id_ne hm hw hk hfree (.inl hwr)⟩
    · refine .inr ⟨.inr (.inl ⟨j, old', hj, hfree', .inl ⟨by omega, rfl⟩⟩), fun hid => ?_⟩
      have := hm.idx_eq hj hk hid
      omega
    · rcases Nat.lt_succ_iff_lt_or_eq.mp hlt with hlt | rfl
      · refine .inr ⟨.inr (.inl ⟨j, old', hj, hfree', .inr ⟨hlt, horph, rfl⟩⟩), fun hid => ?_⟩
        have := hm.idx_eq hj hk hid
        omega
      · -- The row `k` is `old` itself, which is orphaned at this step.
        obtain rfl := Option.some.inj (hk.symm.trans hj)
        exact .inl ⟨horph, rfl⟩
    · exact .inr ⟨.inr (.inr hother), leftRow_id_ne hm hw hk hfree (.inr hother)⟩
  · rintro (⟨horph, rfl⟩ | ⟨hwr | ⟨j, old', hj, hfree', ⟨hle, rfl⟩ | ⟨hlt, horph, rfl⟩⟩ | hother,
      hne⟩)
    · exact .inr (.inl ⟨k, old, hk, hfree, .inr ⟨Nat.lt_succ_self k, horph, rfl⟩⟩)
    · exact .inl hwr
    · -- The row left is another one than `old`, so it has another index.
      have hjk : j ≠ k := by
        rintro rfl
        obtain rfl := Option.some.inj (hk.symm.trans hj)
        exact hne rfl
      exact .inr (.inl ⟨j, old', hj, hfree', .inl ⟨by omega, rfl⟩⟩)
    · exact .inr (.inl ⟨j, old', hj, hfree', .inr ⟨Nat.lt_succ_of_lt hlt, horph, rfl⟩⟩)
    · exact .inr (.inr hother)

/-- A claimed row is passed over. -/
private theorem leftRow_succ_used {ids : Nat → Option RowId} {k : Nat} (hused : a.oldUsed k = true)
    (y : Node) : LeftRow base args olds syms a ids (k + 1) y ↔
      LeftRow base args olds syms a ids k y := by
  -- The row at `k` is used, so a free row is before it or behind it.
  have hne : ∀ {j}, a.oldUsed j = false → j ≠ k := by
    rintro j hj rfl
    rw [hused] at hj
    exact nomatch hj
  constructor
  · rintro (hwr | ⟨j, old, hj, hfree, ⟨hle, rfl⟩ | ⟨hlt, horph, rfl⟩⟩ | hother)
    · exact .inl hwr
    · exact .inr (.inl ⟨j, old, hj, hfree, .inl ⟨by omega, rfl⟩⟩)
    · have := hne hfree
      exact .inr (.inl ⟨j, old, hj, hfree, .inr ⟨by omega, horph, rfl⟩⟩)
    · exact .inr (.inr hother)
  · rintro (hwr | ⟨j, old, hj, hfree, ⟨hle, rfl⟩ | ⟨hlt, horph, rfl⟩⟩ | hother)
    · exact .inl hwr
    · have := hne hfree
      exact .inr (.inl ⟨j, old, hj, hfree, .inl ⟨by omega, rfl⟩⟩)
    · exact .inr (.inl ⟨j, old, hj, hfree, .inr ⟨by omega, horph, rfl⟩⟩)
    · exact .inr (.inr hother)

namespace Reclaimed

variable {st₃ : ApplyState} {k : Nat} {st st' : Db × ReconcileOutcome} {old : Node}

/-- A claimed row is skipped. -/
private theorem step_used (hr : Reclaimed base args olds syms a st₃ k st) (hk : olds[k]? = some old)
    (hused : a.oldUsed k = true) : Reclaimed base args olds syms a st₃ (k + 1) st := by
  have hdel : deletedBefore olds a (k + 1) = deletedBefore olds a k := by
    funext id
    simp [deletedBefore_succ k id hk, hused]
  have hcount : ∀ o, reclaimCount olds a (k + 1) o = reclaimCount olds a k o := by
    intro o
    simp [reclaimCount_succ k o hk, hused]
  refine ⟨hr.wf, fun x => ?_, hr.nodesSeq, ?_, hr.edgesSeq, ?_, ?_, hr.indexMeta, ?_⟩
  · simp only [hdel, leftRow_succ_used hused]
    exact hr.nodes x
  · simpa only [hdel] using hr.edges
  · simpa only [hdel] using hr.calleesCache
  · simpa only [hdel] using hr.materialized
  · simpa only [hcount] using hr.outcome

/-- The second strike: the row goes, with all that refers to it. -/
private theorem step_deleted (hm : Matched base args olds syms a)
    (hw : Written base args olds syms a syms.length st₃)
    (hr : Reclaimed base args olds syms a st₃ k st) (hk : olds[k]? = some old)
    (hfree : a.oldUsed k = false) (horph : old.orphan = true) :
    Reclaimed base args olds syms a st₃ (k + 1)
      (st.1.deleteNode old.id, { st.2 with deleted := st.2.deleted + 1 }) := by
  -- The deleted ids grow by that of `old`.
  have hdel : deletedBefore olds a (k + 1) = fun id => deletedBefore olds a k id || id == old.id := by
    funext id
    simp [deletedBefore_succ k id hk, hfree, horph, Bool.beq_comm]
  refine ⟨Db.deleteNode_wf hr.wf _, fun x => ?_, hr.nodesSeq, ?_, hr.edgesSeq, ?_, ?_,
    hr.indexMeta, ?_⟩
  · simp only [Db.mem_deleteNode, hr.nodes, leftRow_succ hm hw hk hfree, horph, hdel]
    constructor
    · rintro ⟨n, ⟨y, hy, rfl⟩, hne, rfl⟩
      exact ⟨y, .inr ⟨hy, hne⟩, by rw [dropContainer_eq_forget, Node.forget_forget]⟩
    · rintro ⟨y, ⟨h, -⟩ | ⟨hy, hne⟩, rfl⟩
      · exact nomatch h
      · exact ⟨_, ⟨y, hy, rfl⟩, hne, by rw [dropContainer_eq_forget, Node.forget_forget]⟩
  · -- The edges of `old` go with it; those of the ids deleted before are gone already.
    simp only [Db.deleteNode, hr.edges, List.filter_filter, hdel]
    congr 1
    funext e
    cases deletedBefore olds a k e.srcId <;> cases deletedBefore olds a k e.dstId <;>
      simp [bne]
  · intro id
    by_cases hid : id = old.id
    · simp [Db.deleteNode, hdel, hid]
    · simp [Db.deleteNode, hdel, hid, hr.calleesCache]
  · intro id t
    by_cases hid : id = old.id
    · simp [Db.deleteNode, hdel, hid]
    · have hne : (id == old.id) = false := by simpa using hid
      simp [Db.deleteNode, hdel, hid, hne, hr.materialized]
  · simp [hr.outcome, reclaimCount_succ k _ hk, hfree, horph, Nat.add_assoc]

/-- The row of an unclaimed old node, before its round. -/
theorem parked_mem (hr : Reclaimed base args olds syms a st₃ k st) (hk : olds[k]? = some old)
    (hfree : a.oldUsed k = false) :
    old.parked.forget (deletedBefore olds a k) ∈ st.1.nodes :=
  (hr.nodes _).mpr ⟨_, .inr (.inl ⟨k, old, hk, hfree, .inl ⟨Nat.le_refl k, rfl⟩⟩), rfl⟩

/-- The first strike: the row is flagged and gets its line back. -/
private theorem step_orphaned (hm : Matched base args olds syms a)
    (hw : Written base args olds syms a syms.length st₃)
    (hr : Reclaimed base args olds syms a st₃ k st) (hk : olds[k]? = some old)
    (hfree : a.oldUsed k = false) (horph : old.orphan = false) {db : Db}
    (hdb : st.1.updateNode old.id (orphanCols old.range.startLine) = .ok db) :
    Reclaimed base args olds syms a st₃ (k + 1)
      (db, { st.2 with orphaned := st.2.orphaned + 1 }) := by
  have hmem := hr.parked_mem hk hfree
  -- An orphaned row is not deleted, so the deleted ids stay the same.
  have hdel : deletedBefore olds a (k + 1) = deletedBefore olds a k := by
    funext id
    simp [deletedBefore_succ k id hk, horph]
  have hwf' := Db.updateNode_wf hr.wf hmem hdb
  obtain ⟨-, rfl⟩ := (Db.updateNode_ok hr.wf hmem).mp hdb
  refine ⟨hwf', fun x => ?_, hr.nodesSeq, ?_, hr.edgesSeq, ?_, ?_, hr.indexMeta, ?_⟩
  · -- The row's replacement puts the orphan in the place of the parked row.
    have hnodes : x ∈ (st.1.replaceNode ⟨orphanCols old.range.startLine
        (old.parked.forget (deletedBefore olds a k)).toNodeCols, old.id⟩).nodes ↔
        x = old.orphaned.forget (deletedBefore olds a k) ∨ (x ∈ st.1.nodes ∧ x.id ≠ old.id) :=
      mem_replaceNode_of_mem hmem rfl
    refine hnodes.trans ?_
    simp only [hr.nodes, leftRow_succ hm hw hk hfree, horph, hdel]
    constructor
    · rintro (rfl | ⟨⟨y, hy, rfl⟩, hne⟩)
      · exact ⟨_, .inl ⟨trivial, rfl⟩, rfl⟩
      · exact ⟨y, .inr ⟨hy, hne⟩, rfl⟩
    · rintro ⟨y, ⟨-, rfl⟩ | ⟨hy, hne⟩, rfl⟩
      · exact .inl rfl
      · exact .inr ⟨⟨y, hy, rfl⟩, hne⟩
  · rw [hdel]
    exact hr.edges
  · rw [hdel]
    exact hr.calleesCache
  · rw [hdel]
    exact hr.materialized
  · simp [hr.outcome, reclaimCount_succ k _ hk, hfree, horph, Nat.add_assoc]

/-- One round of Pass 4 keeps the invariant. -/
private theorem step (hm : Matched base args olds syms a)
    (hw : Written base args olds syms a syms.length st₃)
    (hr : Reclaimed base args olds syms a st₃ k st) (hk : olds[k]? = some old)
    (h : reclaim a st old k = .ok st') : Reclaimed base args olds syms a st₃ (k + 1) st' := by
  unfold reclaim at h
  split at h
  · -- A used row is skipped.
    rename_i hused
    obtain rfl := Except.ok.inj h
    exact hr.step_used hk hused
  · rename_i hused
    have hfree : a.oldUsed k = false := by simpa using hused
    split at h
    · -- A free row that was an orphan already is deleted.
      rename_i horph
      obtain rfl := Except.ok.inj h
      exact hr.step_deleted hm hw hk hfree horph
    · -- A free row that was live becomes an orphan, on its old line.
      rename_i horph
      obtain ⟨db, hdb, h⟩ := Except.bind_eq_ok.mp h
      obtain rfl := Except.ok.inj h
      exact hr.step_orphaned hm hw hk hfree (by simpa using horph) hdb

/-- A flagged row may have its line back exactly when no symbol was written there. -/
private theorem checkRow_orphaned_iff (hm : Matched base args olds syms a)
    (hw : Written base args olds syms a syms.length st₃)
    (hr : Reclaimed base args olds syms a st₃ k st) (hk : olds[k]? = some old)
    (hfree : a.oldUsed k = false) :
    st.1.checkRow (old.orphaned.forget (deletedBefore olds a k)) = .ok () ↔
      ∀ y, WrittenRow args olds syms a st₃.ids syms.length y → y.phys ≠ old.phys := by
  have hold := List.mem_of_getElem? hk
  have hbase := hm.old_mem_base hold
  rw [Db.checkRow_eq_ok_iff]
  constructor
  · -- A symbol's row on the old place would clash with the orphan there.
    rintro ⟨-, hphys, -⟩ y hy heq
    exact leftRow_id_ne hm hw hk hfree (.inl hy)
      (hphys (y.forget _) ((hr.nodes _).mpr ⟨y, .inl hy, rfl⟩) heq)
  · intro hclear
    refine ⟨fun m hmem hfqn => ?_, fun m hmem hphys => ?_, fun c hc => .inr ?_⟩
    · -- No other row has the name: a symbol of that name would have claimed `old`.
      obtain ⟨y, hy, rfl⟩ := (hr.nodes m).mp hmem
      rcases hy with ⟨i, s, hs, -, -, hcols⟩ | ⟨j, old', hj, -, ⟨-, rfl⟩ | ⟨-, -, rfl⟩⟩ | hother
      · have hsf : old.fqn = s.fqn := by
          rw [← writtenCols_fqn args olds a st₃.ids i s, ← hcols]
          exact hfqn.symm
        obtain ⟨i', -, hclaim⟩ := hm.exists_claimedRow hold hs hsf
        exact absurd hclaim (hm.not_claimed hk hfree i')
      · exact hm.stored.fqn_unique old' (hm.old_mem_base (List.mem_of_getElem? hj)) old hbase hfqn
      · exact hm.stored.fqn_unique old' (hm.old_mem_base (List.mem_of_getElem? hj)) old hbase hfqn
      · exact hm.stored.fqn_unique y hother.1 old hbase hfqn
    · obtain ⟨y, hy, rfl⟩ := (hr.nodes m).mp hmem
      rcases hy with hwr | ⟨j, old', hj, -, ⟨-, rfl⟩ | ⟨-, -, rfl⟩⟩ | hother
      · exact absurd hphys (hclear y hwr)
      · -- A parked row is on a negative line, and no stored row is.
        have hold' := hm.old_mem_base (List.mem_of_getElem? hj)
        have hline : -(old'.id : Int) = old.range.startLine :=
          congrArg (fun key : PhysKey => key.2.1) hphys
        have hnn := hm.stored.line_nonneg old hbase
        have hpos : (0 : Int) < (old'.id : Int) := Int.ofNat_lt.mpr (hm.stored.id_pos old' hold')
        omega
      · exact hm.stored.phys_unique old' (hm.old_mem_base (List.mem_of_getElem? hj)) old hbase hphys
      · have huri : y.uri = old.uri := congrArg Prod.fst hphys
        exact absurd (huri.trans (hm.old_uri hold)) hother.2.1
    · exact hr.wf.container_ok _ (hr.parked_mem hk hfree) c hc

/-- When a round of Pass 4 gets through. -/
private theorem step_ok_iff (hm : Matched base args olds syms a)
    (hw : Written base args olds syms a syms.length st₃)
    (hr : Reclaimed base args olds syms a st₃ k st) (hk : olds[k]? = some old) :
    (∃ st', reclaim a st old k = .ok st') ↔ (a.oldUsed k = false → old.orphan = false →
      ∀ y, WrittenRow args olds syms a st₃.ids syms.length y → y.phys ≠ old.phys) := by
  unfold reclaim
  split
  · -- A claimed row and an orphan are reclaimed without a check.
    rename_i hused
    exact ⟨fun _ hfree => absurd (hused.symm.trans hfree) (by decide), fun _ => ⟨_, rfl⟩⟩
  · rename_i hused
    have hfree : a.oldUsed k = false := by simpa using hused
    split
    · rename_i horph
      exact ⟨fun _ _ h => absurd (horph.symm.trans h) (by decide), fun _ => ⟨_, rfl⟩⟩
    · -- Only a live row that no symbol claims is written back, which the check has to allow.
      rename_i horph
      rw [← hr.checkRow_orphaned_iff hm hw hk hfree]
      have hmem := hr.parked_mem hk hfree
      constructor
      · rintro ⟨st', h⟩ - -
        obtain ⟨db, hdb, -⟩ := Except.bind_eq_ok.mp h
        exact ((Db.updateNode_ok hr.wf hmem).mp hdb).1
      · intro hcheck
        exact ⟨_, Except.bind_eq_ok.mpr ⟨_, (Db.updateNode_ok hr.wf hmem).mpr
          ⟨hcheck hfree (by simpa using horph), rfl⟩, rfl⟩⟩

end Reclaimed

/-! ## The whole loop -/

/-- Before the loop every row is still there. -/
theorem reclaimed_init (hm : Matched base args olds syms a) {st₃ : ApplyState}
    (hw : Written base args olds syms a syms.length st₃) :
    Reclaimed base args olds syms a st₃ 0 (st₃.db, st₃.outcome) := by
  have hdel : deletedBefore olds a 0 = fun _ => false := rfl
  have hforget : ∀ y : Node, y.forget (fun _ => false) = y :=
    fun y => y.forget_eq_self _ fun _ _ => rfl
  refine ⟨hw.wf, fun x => ?_, rfl, ?_, rfl, fun _ => rfl, fun _ _ => ?_, rfl, rfl⟩
  · -- Before the pass every unclaimed row is parked and none is deleted.
    simp only [hw.nodes, hdel, hforget, exists_eq_right', LeftRow]
    refine or_congr Iff.rfl (or_congr ?_ Iff.rfl)
    constructor
    · rintro ⟨old, hold, hunclaimed, rfl⟩
      obtain ⟨j, hj⟩ := List.getElem?_of_mem hold
      refine ⟨j, old, hj, ?_, .inl ⟨Nat.zero_le j, rfl⟩⟩
      rw [← Bool.not_eq_true, hm.oldUsed_iff hj]
      rintro ⟨i, hi⟩
      exact hunclaimed i (hm.claimedRow_lt hi) hi
    · rintro ⟨j, old, hj, hfree, ⟨-, rfl⟩ | ⟨hlt, -⟩⟩
      · exact ⟨old, List.mem_of_getElem? hj, fun i _ => hm.not_claimed hj hfree i, rfl⟩
      · exact absurd hlt (Nat.not_lt_zero j)
  · simp [hdel]
  · simp [hdel]

/-- What Pass 4 has done when it gets through. -/
theorem pass4_reclaimed (hm : Matched base args olds syms a) {st₃ : ApplyState}
    (hw : Written base args olds syms a syms.length st₃) {st : Db × ReconcileOutcome}
    (h : pass4 olds a (st₃.db, st₃.outcome) = .ok st) :
    Reclaimed base args olds syms a st₃ olds.length st :=
  List.foldlM_zipIdx_induction (fun k st => Reclaimed base args olds syms a st₃ k st)
    (reclaimed_init hm hw) (fun _ _ _ _ hk hr hok => hr.step hm hw hk hok) h

/-- Pass 4 gets through exactly when every row it flags finds its position free. -/
theorem pass4_ok_iff (hm : Matched base args olds syms a) {st₃ : ApplyState}
    (hw : Written base args olds syms a syms.length st₃) :
    (∃ st, pass4 olds a (st₃.db, st₃.outcome) = .ok st) ↔
      ∀ j old, olds[j]? = some old → a.oldUsed j = false → old.orphan = false →
        ∀ y, WrittenRow args olds syms a st₃.ids syms.length y → y.phys ≠ old.phys := by
  refine (List.foldlM_zipIdx_ok_iff
    (fun k st => Reclaimed base args olds syms a st₃ k st)
    (fun j => ∀ old, olds[j]? = some old → a.oldUsed j = false → old.orphan = false →
      ∀ y, WrittenRow args olds syms a st₃.ids syms.length y → y.phys ≠ old.phys)
    (reclaimed_init hm hw) (fun _ _ _ _ hk hr hok => hr.step hm hw hk hok)
    fun k old st hk hr => ?_).trans ?_
  · rw [hr.step_ok_iff hm hw hk]
    -- The step at `j` needs the old line to be free of what pass 3 wrote.
    constructor
    · intro h old' hk'
      obtain rfl := Option.some.inj (hk.symm.trans hk')
      exact h
    · exact fun h => h old hk
  · exact ⟨fun h j old hj => h j (List.getElem?_eq_some_iff.mp hj).1 old hj,
      fun h j _ old hj => h j old hj⟩

end Run

end Semnav.Graph
