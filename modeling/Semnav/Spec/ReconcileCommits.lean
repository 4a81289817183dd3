import Semnav.Spec.ReconcileCorrect

/-!
# When a reconcile commits

On a batch without collisions Pass 3 always gets through: parking has moved every row of
the file out of the way.  Pass 4 then moves the left-over rows back, onto positions that
symbols may have taken by now, and that is the only way a reconcile of such a batch is
rolled back.

## Key results

- `pass3_total`: no symbol of a batch fails
- `reconcile_ok_iff_clear`: a reconcile commits when Pass 4 finds the old positions free
- `reconcile_commits_iff`: the same, with the matching described without the code
- `reconcile_class_rename_rolled_back`: a renamed class with a method that stays in place
-/

namespace Semnav.Graph

open Semnav.ForStd

section Batch

variable {base : Db} {args : FileArgs} {olds : List Node} {syms : List ReconcileSymbol}
  {a : Assignment}

/-- Before its round, a symbol's fqn and position are free, its own row aside. -/
private theorem Written.conflict_free (hm : Matched base args olds syms a) (hS : SymbolBatch syms)
    (hfree : FqnsFree base args.uri syms) {k : Nat} {st : ApplyState} {s : ReconcileSymbol}
    (hw : Written base args olds syms a k st) (hs : syms[k]? = some s) {m : Node}
    (hmem : m ∈ st.db.nodes) (hkey : m.fqn = s.fqn ∨ m.phys = (args.uri, s.key)) :
    ∃ old, claimedRow olds a k = some old ∧ m.id = old.id := by
  rcases (hw.nodes m).mp hmem with ⟨i, t, hti, hlast, -, hcols⟩ |
    ⟨old, hold, hunclaimed, rfl⟩ | ⟨hbase, hu, -⟩
  · -- A row written before has another symbol's name and place, as the batch repeats none.
    exfalso
    refine Nat.ne_of_lt hlast.1 ?_
    rcases hkey with hfqn | hphys
    · rw [hcols, writtenCols_fqn] at hfqn
      exact hS.fqn_inj hti hs hfqn
    · rw [hcols, hm.writtenCols_phys] at hphys
      exact hS.key_inj hti hs (congrArg Prod.snd hphys)
  · -- A parked row has the name of the symbol that claims it, and a place of no symbol.
    rcases hkey with hfqn | hphys
    · obtain ⟨i, hle, hclaim⟩ := hm.exists_claimedRow hold hs hfqn
      rcases Nat.lt_or_eq_of_le hle with hlt | rfl
      · exact absurd hclaim (hunclaimed i hlt)
      · exact ⟨old, hclaim, rfl⟩
    · have hline : -(old.id : Int) = s.range.startLine :=
        congrArg (fun key : PhysKey => key.2.1) hphys
      have hnn := hm.sym_nonneg s (List.mem_of_getElem? hs)
      have hpos : (0 : Int) < (old.id : Int) :=
        Int.ofNat_lt.mpr (hm.stored.id_pos old (hm.old_mem_base hold))
      omega
  · -- A row of another file has neither the symbol's name, by `hfree`, nor its URI.
    rcases hkey with hfqn | hphys
    · exact absurd hfqn (hfree m hbase hu s (List.mem_of_getElem? hs))
    · exact absurd (congrArg Prod.fst hphys) hu

/-- A matched symbol's round fails only in its `UPDATE`. -/
private theorem applyMatched_total {old : Node} {s : ReconcileSymbol} {k : Nat}
    {c : Option RowId} {st : ApplyState} {db : Db}
    (h : st.db.updateNode old.id (s.writeOver c) = .ok db) :
    ∃ st', applyMatched old s k c st = .ok st' := by
  refine Exists.imp (fun st' h' => Except.bind_eq_ok.mpr ⟨db, h, h'⟩) ?_
  split
  · exact ⟨_, rfl⟩
  · split
    · exact ⟨_, rfl⟩
    · exact ⟨_, rfl⟩

/-- Every round of Pass 3 gets through on a batch without collisions. -/
private theorem Written.step_total (hm : Matched base args olds syms a) (hS : SymbolBatch syms)
    (hfree : FqnsFree base args.uri syms) {k : Nat} {st : ApplyState} {s : ReconcileSymbol}
    (hw : Written base args olds syms a k st) (hs : syms[k]? = some s) :
    ∃ st', applySymbol args olds a st s k = .ok st' := by
  have hk : k ≤ syms.length := Nat.le_of_lt (List.getElem?_eq_some_iff.mp hs).1
  have hparent : parentId st.ids s.parent = .ok (s.parent.bind st.ids) := by
    cases hp : s.parent with
    | none => rfl
    | some p =>
      obtain ⟨id, hid⟩ := (hw.ids_iff p).mpr (hS.parent_lt k s p hs hp)
      simp only [parentId, hid, Option.bind_some]
  -- The parent comes earlier in the batch, so its row is written.
  have hcontainer : ∀ c, s.parent.bind st.ids = some c → st.db.hasNode c = true := by
    intro c hc
    obtain ⟨p, -, hp⟩ := Option.bind_eq_some_iff.mp hc
    obtain ⟨x, hx, rfl⟩ := hw.exists_row hk hp
    exact Db.hasNode_of_mem hx
  cases hclaim : claimedRow olds a k with
  -- The symbol has a row of its own, so the update can only meet that row.
  | some old =>
    have hold := claimedRow_mem hclaim
    have hmem : old.parked ∈ st.db.nodes := (hw.nodes _).mpr (.inr (.inl ⟨old, hold,
      fun i hi hclaim' => absurd (hm.claimedRow_inj hclaim' hclaim) (Nat.ne_of_lt hi), rfl⟩))
    have hown : ∀ m ∈ st.db.nodes, (m.fqn = s.fqn ∨ m.phys = (args.uri, s.key)) →
        m.id = old.id := by
      intro m hmm hkey
      obtain ⟨old', hclaim', hid⟩ := hw.conflict_free hm hS hfree hs hmm hkey
      obtain rfl := Option.some.inj (hclaim.symm.trans hclaim')
      exact hid
    have hphys : (s.writeOver (s.parent.bind st.ids) old.parked.toNodeCols).phys =
        (args.uri, s.key) := by
      rw [← hm.old_uri hold]
      rfl
    have hcheck : st.db.checkRow
        ⟨s.writeOver (s.parent.bind st.ids) old.parked.toNodeCols, old.parked.id⟩ = .ok () :=
      (Db.checkRow_eq_ok_iff _ _).mpr ⟨fun m hmm hfqn => hown m hmm (.inl hfqn),
        fun m hmm h => hown m hmm (.inr (h.trans hphys)), fun c hc => .inr (hcontainer c hc)⟩
    rw [applySymbol_matched hclaim hparent]
    exact applyMatched_total ((Db.updateNode_ok hw.wf hmem).mpr ⟨hcheck, rfl⟩)
  -- The symbol has no row, so the insert meets no row at all.
  | none =>
    have hnone : ∀ m ∈ st.db.nodes, m.fqn ≠ s.fqn ∧ m.phys ≠ (args.uri, s.key) := by
      refine fun m hmm => not_or.mp fun hkey => ?_
      obtain ⟨old, hclaim', -⟩ := hw.conflict_free hm hS hfree hs hmm hkey
      rw [hclaim] at hclaim'
      cases hclaim'
    have hins : st.db.upsertNode
        (s.toNode args.uri args.language args.isExternal (s.parent.bind st.ids)) = _ :=
      Db.upsertNode_insert (fun m hmm => (hnone m hmm).1) (fun m hmm => (hnone m hmm).2)
        hcontainer
    rw [applySymbol_new hclaim hparent]
    exact ⟨_, Except.bind_eq_ok.mpr ⟨_, hins, rfl⟩⟩

/-- Pass 3 gets through on a batch without collisions. -/
private theorem pass3_total (hm : Matched base args olds syms a) (hS : SymbolBatch syms)
    (hfree : FqnsFree base args.uri syms) :
    ∃ st, pass3 args olds a syms (base.parkUri args.uri) = .ok st :=
  (List.foldlM_zipIdx_ok_iff (fun k st => Written base args olds syms a k st) (fun _ => True)
    (written_init hm) (fun _ _ _ _ hs hw hok => hw.step_of_ok hm hs hok)
    fun _ _ _ hs hw => iff_of_true (hw.step_total hm hS hfree hs) trivial).mpr fun _ _ => trivial

end Batch

/-- A reconcile of a batch commits exactly when every unclaimed row that Pass 4 flags stands
    where no symbol stands. -/
theorem reconcile_ok_iff_clear (H : Hasher) {db : Db} (h : db.Stored) (args : FileArgs)
    {syms : List ReconcileSymbol} (hS : SymbolBatch syms) (hfree : FqnsFree db args.uri syms) :
    (∃ db' o, reconcileFileSymbols H db args syms = .ok (db', o)) ↔
      ∀ (j : Nat) (old : Node), (db.nodesByUri args.uri)[j]? = some old →
        (matchSymbols H (db.nodesByUri args.uri) syms).oldUsed j = false → old.orphan = false →
        ∀ s ∈ syms, s.key ≠ (old.range.startLine, old.range.startCol, old.name) := by
  have hm := matched_of_stored H h args hS.line_nonneg
  obtain ⟨st₃, h₃⟩ := pass3_total hm hS hfree
  have hw := pass3_written hm h₃
  -- The first three passes and the last one always succeed, so pass 4 decides.
  have hcommit : (∃ db' o, reconcileFileSymbols H db args syms = .ok (db', o)) ↔
      ∃ st₄, pass4 (db.nodesByUri args.uri) (matchSymbols H (db.nodesByUri args.uri) syms)
        (st₃.db, st₃.outcome) = .ok st₄ := by
    constructor
    · rintro ⟨db', o, hok⟩
      obtain ⟨st, st₄, h₃', h₄, -⟩ := (reconcile_eq_ok_iff H h args syms db' o).mp hok
      obtain rfl := Except.ok.inj (h₃.symm.trans h₃')
      exact ⟨st₄, h₄⟩
    · rintro ⟨st₄, h₄⟩
      have hr := pass4_reclaimed hm hw h₄
      -- The containers are rows of the batch, which are there after pass 4.
      obtain ⟨db', h₅⟩ := pass5_total hr.wf (fun i hi => (hw.ids_iff i).mpr hi) (fun i id hid => by
        obtain ⟨j, hlast, hj⟩ := exists_lastWriter st₃.ids ((hw.ids_iff i).mp ⟨id, hid⟩)
        have hs := List.getElem?_eq_getElem hlast.1
        have hrow : (⟨writtenCols args _ _ st₃.ids j _, id⟩ : Node) ∈ st₄.1.nodes :=
          (hr.nodes_final hm hw _).mpr (.inl ⟨j, _, hs, hlast, hj.trans hid, rfl⟩)
        exact Db.hasNode_of_mem hrow)
        hS.parent_lt
      exact ⟨db', st₄.2, (reconcile_eq_ok_iff H h args syms _ _).mpr
        ⟨st₃, st₄, h₃, h₄, h₅, rfl⟩⟩
  rw [hcommit, pass4_ok_iff hm hw]
  refine forall_congr' fun _ => forall_congr' fun old => forall_congr' fun hj => ?_
  have huri : old.uri = args.uri := hm.old_uri (List.mem_of_getElem? hj)
  -- The rows written are on the places of the symbols.
  have hkeys : (∀ y, WrittenRow args (db.nodesByUri args.uri) syms
      (matchSymbols H (db.nodesByUri args.uri) syms) st₃.ids syms.length y → y.phys ≠ old.phys) ↔
      ∀ s ∈ syms, s.key ≠ (old.range.startLine, old.range.startCol, old.name) := by
    have hphys : old.phys = (args.uri, old.range.startLine, old.range.startCol, old.name) := by
      rw [← huri]
      rfl
    constructor
    · intro hrow s hs hkey
      obtain ⟨i, hi⟩ := List.getElem?_of_mem hs
      have hlt := (List.getElem?_eq_some_iff.mp hi).1
      obtain ⟨id, hid⟩ := (hw.ids_iff i).mpr hlt
      refine hrow ⟨writtenCols _ _ _ st₃.ids i s, id⟩
        ⟨i, s, hi, hw.collapse.lastWriter hS hlt, hid, rfl⟩ ?_
      rw [hphys, ← hkey]
      exact hm.writtenCols_phys st₃.ids i s
    · rintro hkey y ⟨i, s, hi, -, -, hcols⟩ heq
      refine hkey s (List.mem_of_getElem? hi) ?_
      rw [hcols, hm.writtenCols_phys, hphys] at heq
      exact congrArg Prod.snd heq
  rw [hkeys]

/-- A reconcile of a batch commits exactly when every row it would flag as orphaned, because
    no fqn and no rename pairs it with a symbol, stands where no symbol stands. -/
theorem reconcile_commits_iff (H : Hasher) {db : Db} (h : db.Stored) (args : FileArgs)
    {syms : List ReconcileSymbol} (hS : SymbolBatch syms) (hfree : FqnsFree db args.uri syms) :
    (∃ db' o, reconcileFileSymbols H db args syms = .ok (db', o)) ↔
      ∀ (j : Nat) (old : Node), (db.nodesByUri args.uri)[j]? = some old → old.orphan = false →
        LeftUnmatched H (db.nodesByUri args.uri) syms j →
        ∀ s ∈ syms, s.key ≠ (old.range.startLine, old.range.startCol, old.name) := by
  rw [reconcile_ok_iff_clear H h args hS hfree]
  refine forall_congr' fun j => forall_congr' fun old => forall_congr' fun hj => ?_
  rw [leftUnmatched_iff (nodesByUri_fqnsDistinct h.toWF args.uri)]
  exact ⟨fun hall horph hfree => hall hfree horph, fun hall hfree horph => hall horph hfree⟩

/-! ## A renamed class whose method stays in place -/

/-- A hasher that tells inputs apart by length only. -/
def lengthHasher : Hasher := fun ws => UInt64.ofNat ws.length

/-- `app.py`, indexed as Python. -/
def appPy : FileArgs := ⟨"file:///app.py", "python", false⟩

/-- A class on line 0 with a method `new` on line 1, as an LSP reports them. -/
def classSymbols (cls : String) : List ReconcileSymbol :=
  [{ fqn := "app." ++ cls, name := cls, kind := 5, nodeKind := "class", range := ⟨0, 0, 2, 0⟩,
     sel := ⟨0, 6, 0, 9⟩, detail := none, signatureHash := "5", parent := none },
   { fqn := "app." ++ cls ++ ".new", name := "new", kind := 6, nodeKind := "method",
     range := ⟨1, 4, 2, 0⟩, sel := ⟨1, 8, 1, 11⟩, detail := none, signatureHash := "6",
     parent := some 0 }]

/-- The graph once `app.py` was reconciled with its class named `Foo`. -/
def fooDb : Db :=
  match reconcileFileSymbols lengthHasher .empty appPy (classSymbols "Foo") with
  | .ok (db, _) => db
  | .error _ => .empty

theorem fooDb_eq : reconcileFileSymbols lengthHasher .empty appPy (classSymbols "Foo") =
    .ok (fooDb, { inserted := 2 }) := rfl

theorem fooDb_stored : fooDb.Stored :=
  reconcile_stored lengthHasher Db.empty_stored (by decide) fooDb_eq

/-- `reconcile_commits_iff` where the class has been renamed to `Bar`. -/
theorem reconcile_commits_iff_class_rename :
    (∃ db' o, reconcileFileSymbols lengthHasher fooDb appPy (classSymbols "Bar") = .ok (db', o)) ↔
      ∀ (j : Nat) (old : Node), (fooDb.nodesByUri appPy.uri)[j]? = some old →
        old.orphan = false →
        LeftUnmatched lengthHasher (fooDb.nodesByUri appPy.uri) (classSymbols "Bar") j →
        ∀ s ∈ classSymbols "Bar",
          s.key ≠ (old.range.startLine, old.range.startCol, old.name) :=
  reconcile_commits_iff lengthHasher fooDb_stored appPy (by decide) (by decide)

/-- Renaming the class leaves the method's row without a partner and its position taken: the
    reconcile is rolled back, and so is every later one. -/
theorem reconcile_class_rename_rolled_back :
    fooDb.Stored ∧ SymbolBatch (classSymbols "Bar") ∧
      FqnsFree fooDb appPy.uri (classSymbols "Bar") ∧
      reconcileFileSymbols lengthHasher fooDb appPy (classSymbols "Bar") = .error .uniquePhys :=
  ⟨fooDb_stored, by decide, by decide, rfl⟩

end Semnav.Graph
