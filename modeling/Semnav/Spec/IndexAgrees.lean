import Semnav.Spec.FilesIndependent
import Semnav.Spec.ReconcileAgain

/-!
# The index pass against the reconcile

Over a graph that holds no row of the file and no row with one of its fqns, every symbol is
new to a reconcile, and what is left of it is the index pass: the same upserts and the same
`contains` edges, in the same order.

## Key results

- `upsertNodes_of_pass3`, `addContains_of_pass5`: the loops agree
- `index_reconcile_agree`: so do the graphs, and a reconcile after the pass is a no-op
-/

namespace Semnav.Indexer

open Semnav.ForStd Semnav.Graph Semnav.Adapters

section Loops

variable {H : Hasher} {args : FileArgs} {fetch : String → Option (List DocumentSymbol)}

/-- The two paths build the same node from the same symbol. -/
theorem toReconcile_toNode (sym : FlatSymbol) (c : Option RowId) :
    (sym.toReconcile H).toNode args.uri args.language args.isExternal c = sym.toNode H args c := rfl

/-- Pass 3 over a file without rows is the node loop. -/
private theorem upsertNodes_of_foldlM (fetch : String → Option (List DocumentSymbol))
    {a : Assignment} (flat : List FlatSymbol) :
    ∀ {k : Nat} (ids : List RowId) {db : Db} {o : ReconcileOutcome} {st : ApplyState},
      ids.length = k →
      (∀ (i : Nat) (sym : FlatSymbol), flat[i]? = some sym → ∀ p, sym.parent = some p → p < k + i) →
      ((flat.map (FlatSymbol.toReconcile H)).zipIdx k).foldlM
        (fun st (x : ReconcileSymbol × Nat) => applySymbol args [] a st x.1 x.2)
        ⟨db, (ids[·]?), o⟩ = .ok st →
      ∃ ids', (upsertNodes H args flat ids).run fetch db = (.ok ids', st.db) ∧
        st.ids = (ids'[·]?) ∧ ids'.length = k + flat.length := by
  induction flat with
  | nil =>
    intro k ids db o st hlen _ hok
    obtain rfl := Except.ok.inj hok
    exact ⟨ids, rfl, rfl, by simpa using hlen⟩
  | cons sym rest ih =>
    intro k ids db o st hlen hparent hok
    rw [List.map_cons, List.zipIdx_cons, List.foldlM_cons] at hok
    obtain ⟨st₁, h₁, hrest⟩ := Except.bind_eq_ok.mp hok
    -- The parent has its row, so both loops pass the same container.
    have hcontainer : parentId (ids[·]?) (sym.toReconcile H).parent =
        .ok (sym.parent.bind (ids[·]?)) := by
      cases hp : sym.parent with
      | none => simp [FlatSymbol.toReconcile, hp, parentId]
      | some p =>
        have hlt : p < ids.length := by
          have := hparent 0 sym rfl p hp
          omega
        simp [FlatSymbol.toReconcile, hp, parentId, List.getElem?_eq_getElem hlt]
    have hnew : (a.assigned k).bind (([] : List Node)[·]?) = none := by
      cases a.assigned k <;> rfl
    simp only [applySymbol, hcontainer, hnew, applyNew, bind, Except.bind] at h₁
    cases hup : db.upsertNode (sym.toNode H args (sym.parent.bind (ids[·]?))) with
    | error e =>
      simp only [toReconcile_toNode, hup] at h₁
      cases h₁
    | ok r =>
      obtain ⟨db₁, id⟩ := r
      simp only [toReconcile_toNode, hup] at h₁
      obtain rfl := Except.ok.inj h₁
      have hids : Function.update (ids[·]?) k (some id) = ((ids ++ [id])[·]?) := by
        funext i
        by_cases hi : i = k
        · subst hi
          simp [← hlen]
        · rw [Function.update_of_ne hi]
          by_cases hlt : i < ids.length
          · rw [List.getElem?_append_left hlt]
          · rw [List.getElem?_eq_none (by omega), List.getElem?_eq_none (by simp; omega)]
      rw [hids] at hrest
      obtain ⟨ids', hrun, hst, hlen'⟩ := ih (k := k + 1) (ids ++ [id]) (by simp [hlen])
        (fun i s hs p hp => by
          have := hparent (i + 1) s hs p hp
          omega) hrest
      refine ⟨ids', (run_upsertNode_bind fetch).mpr ⟨id, db₁, hup, hrun⟩, hst, ?_⟩
      rw [hlen', List.length_cons]
      omega

/-- Pass 5 is the edge loop. -/
private theorem addContains_of_foldlM {ids : List RowId} (flat : List FlatSymbol) :
    ∀ {k : Nat} {db db' : Db},
      ((flat.map (FlatSymbol.toReconcile H)).zipIdx k).foldlM
        (fun db (x : ReconcileSymbol × Nat) => linkParent (ids[·]?) db x.1 x.2) db = .ok db' →
      (addContains ids (flat.zipIdx k)).run fetch db = (.ok (), db') := by
  -- Induction on the symbols, each of which links itself to its parent or to nothing.
  induction flat with
  | nil =>
    intro k db db' hok
    obtain rfl := Except.ok.inj hok
    rfl
  | cons sym rest ih =>
    intro k db db' hok
    rw [List.map_cons, List.zipIdx_cons, List.foldlM_cons] at hok
    obtain ⟨db₁, h₁, hrest⟩ := Except.bind_eq_ok.mp hok
    rw [List.zipIdx_cons, addContains]
    simp only [linkParent, FlatSymbol.toReconcile] at h₁
    cases hp : sym.parent with
    | none =>
      rw [hp] at h₁
      obtain rfl := Except.ok.inj h₁
      exact ih hrest
    -- The parent and the symbol have rows, or the fold would have failed.
    | some p =>
      rw [hp] at h₁
      dsimp only at h₁
      cases hsrc : ids[p]? with
      | none => simp [hsrc] at h₁
      | some src =>
        cases hdst : ids[k]? with
        | none => simp [hsrc, hdst] at h₁
        | some dst =>
          simp only [hsrc, hdst] at h₁
          obtain ⟨⟨db₂, id⟩, hup, h₂⟩ := Except.bind_eq_ok.mp h₁
          obtain rfl := Except.ok.inj h₂
          have hgetD : ids.getD p 0 = src ∧ ids.getD k 0 = dst := by
            simp [List.getD, hsrc, hdst]
          -- Both sides make the same edge, as the ids are those of the list.
          refine (run_upsertEdge_bind fetch).mpr ⟨id, db₂, ?_, ih hrest⟩
          rw [hgetD.1, hgetD.2]
          exact hup

/-- A reconcile that finds no row of the file is the index pass. -/
private theorem upsertSymbolTree_of_reconcile {db db' : Db} {o : ReconcileOutcome}
    (hnone : db.nodesByUri args.uri = []) {flat : List FlatSymbol}
    (hparent : ∀ (i : Nat) (sym : FlatSymbol), flat[i]? = some sym →
      ∀ p, sym.parent = some p → p < i)
    (hok : reconcileFileSymbols H db args (flat.map (FlatSymbol.toReconcile H)) = .ok (db', o)) :
    (upsertSymbolTree H args flat).run fetch db = (.ok (), db') := by
  have hclear : db.clearCalleesCache args.uri = db := by
    simp [Db.clearCalleesCache, hnone]
  -- With no rows of the file there is nothing to park, match or delete.
  simp only [reconcileFileSymbols, hclear, hnone, park, List.foldlM_nil] at hok
  obtain ⟨d, hd, hok⟩ := Except.bind_eq_ok.mp hok
  obtain rfl := Except.ok.inj hd
  obtain ⟨st, h₃, hok⟩ := Except.bind_eq_ok.mp hok
  obtain ⟨⟨d₄, o₄⟩, h₄, hok⟩ := Except.bind_eq_ok.mp hok
  obtain ⟨d₅, h₅, hok⟩ := Except.bind_eq_ok.mp hok
  obtain ⟨rfl, rfl⟩ := Prod.mk.inj (Except.ok.inj hok)
  obtain ⟨rfl, rfl⟩ := Prod.mk.inj (Except.ok.inj h₄)
  -- What remains are the inserts and the containment edges, in the order of the first index.
  obtain ⟨ids, hrun, hids, -⟩ := upsertNodes_of_foldlM fetch flat (k := 0) [] rfl
    (fun i s hs p hp => by
      have := hparent i s hs p hp
      omega) h₃
  rw [pass5, hids] at h₅
  exact (Prog.run_bind_eq_ok _).mpr ⟨ids, st.db, hrun, addContains_of_foldlM flat h₅⟩

end Loops

/-! ## Batches -/

/-- A symbol's physical key inside its own file. -/
def FlatSymbol.key (sym : FlatSymbol) : Int × Int × String :=
  (sym.range.startLine, sym.range.startCol, sym.name)

/-- The symbols of a file, module root included, are a batch when their fqns and keys are
    distinct: lines and parents are right in any flattened tree. -/
theorem indexedSymbols_batch (H : Hasher) {symbols : List DocumentSymbol} {modulePath : String}
    (hfqns : ((indexedSymbols symbols modulePath).map (·.fqn)).Nodup)
    (hkeys : ((indexedSymbols symbols modulePath).map FlatSymbol.key).Nodup) :
    FlatBatch H (indexedSymbols symbols modulePath) where
  line_nonneg := fun s hs => by
    obtain ⟨sym, hsym, rfl⟩ := List.mem_map.mp hs
    exact fetchedSymbols_line_nonneg symbols modulePath true sym hsym
  fqns_nodup := by
    rw [List.map_map]
    exact hfqns
  keys_nodup := by
    rw [List.map_map]
    exact hkeys
  parent_lt := fun i s p hs hp => by
    rw [List.getElem?_map] at hs
    obtain ⟨sym, hsym, rfl⟩ := Option.map_eq_some_iff.mp hs
    have hflat := flattenDocumentSymbols_flattened symbols modulePath
    by_cases hi : i < (flattenDocumentSymbols symbols modulePath).length
    · rw [indexedSymbols, List.getElem?_append_left hi] at hsym
      exact hflat.parent_lt i sym hsym p hp
    · -- The module root has no parent.
      rw [indexedSymbols, List.getElem?_append_right (by omega)] at hsym
      obtain rfl := List.mem_singleton.mp (List.mem_of_getElem? hsym)
      exact nomatch hp

/-! ## Agreement -/

/-- A graph without rows of the file and without its fqns. -/
structure FreshFor (db : Db) (uri : String) (flat : List FlatSymbol) : Prop where
  no_row : ∀ x ∈ db.nodes, x.uri ≠ uri
  no_fqn : ∀ x ∈ db.nodes, ∀ sym ∈ flat, x.fqn ≠ sym.fqn

section Agree

variable {H : Hasher} {args : FileArgs} {db : Db} {flat : List FlatSymbol}

private theorem FreshFor.nodesByUri (hfresh : FreshFor db args.uri flat) :
    db.nodesByUri args.uri = [] :=
  List.filter_eq_nil_iff.mpr fun x hx => by simpa using hfresh.no_row x hx

/-- Over a fresh graph both paths get through and leave the same tables, in which the file is
    settled and has no orphan. -/
theorem FreshFor.agree (fetch : String → Option (List DocumentSymbol)) (h : db.Stored)
    (hS : FlatBatch H flat) (hfresh : FreshFor db args.uri flat) :
    ∃ db₁ o ids, (upsertSymbolTree H args flat).run fetch db = (.ok (), db₁) ∧
      reconcileFileSymbols H db args (flat.map (FlatSymbol.toReconcile H)) = .ok (db₁, o) ∧
      db₁.Stored ∧ Settled db₁ args.uri (flat.map (FlatSymbol.toReconcile H)) ids ∧
      (∀ x ∈ db₁.nodes, x.uri = args.uri → x.orphan = false) := by
  have hfree : FqnsFree db args.uri (flat.map (FlatSymbol.toReconcile H)) := by
    intro x hx _ s hs
    obtain ⟨sym, hsym, rfl⟩ := List.mem_map.mp hs
    exact hfresh.no_fqn x hx sym hsym
  obtain ⟨db₁, o, hok⟩ := (reconcile_ok_iff_clear H h args hS hfree).mpr fun j old hj => by
    rw [hfresh.nodesByUri] at hj
    exact nomatch hj
  obtain ⟨ids, hr⟩ := reconcile_reconciled H h hS.line_nonneg hok
  have hparent : ∀ (i : Nat) (sym : FlatSymbol), flat[i]? = some sym →
      ∀ p, sym.parent = some p → p < i := fun i sym hsym p hp =>
    hS.parent_lt i (sym.toReconcile H) p (by rw [List.getElem?_map, hsym]; rfl) hp
  refine ⟨db₁, o, ids, upsertSymbolTree_of_reconcile hfresh.nodesByUri hparent hok, hok, hr.stored,
    hr.settled (matched_of_stored H h args hS.line_nonneg) hS, ?_⟩
  -- Every row of the file was written by this reconcile.
  intro x hx hu
  rcases (hr.nodes x).mp hx with ⟨i, s, -, -, -, hcols⟩ | ⟨old, hold, -⟩ | ⟨y, -, hyu, -, rfl⟩
  · have hc := writtenCols_carries args (db.nodesByUri args.uri)
      (matchSymbols H (db.nodesByUri args.uri) (flat.map (FlatSymbol.toReconcile H))) ids i s x.id
    rw [hcols]
    exact hc.orphan
  · rw [hfresh.nodesByUri] at hold
    exact nomatch hold
  · exact absurd hu hyu

/-- Over a graph without rows of the file or rows with its fqns, the index pass and the
    reconcile leave the same tables; a reconcile right after the pass reports every symbol
    unchanged and leaves every row and every edge as it was. -/
theorem index_reconcile_agree (H : Hasher) (fetch : String → Option (List DocumentSymbol))
    (h : db.Stored) (args : FileArgs) (symbols : List DocumentSymbol) (modulePath : String)
    (hfqns : ((indexedSymbols symbols modulePath).map (·.fqn)).Nodup)
    (hkeys : ((indexedSymbols symbols modulePath).map FlatSymbol.key).Nodup)
    (hfresh : FreshFor db args.uri (indexedSymbols symbols modulePath)) :
    ∃ db₁, (upsertSymbolTree H args (indexedSymbols symbols modulePath)).run fetch db =
        (.ok (), db₁) ∧
      (∃ o, reconcileFileSymbols H db args
        ((indexedSymbols symbols modulePath).map (FlatSymbol.toReconcile H)) = .ok (db₁, o)) ∧
      ∃ db₂, reconcileFileSymbols H db₁ args
          ((indexedSymbols symbols modulePath).map (FlatSymbol.toReconcile H)) =
            .ok (db₂, { unchanged := (indexedSymbols symbols modulePath).length }) ∧
        (∀ x, x ∈ db₂.nodes ↔ x ∈ db₁.nodes) ∧ db₂.edges = db₁.edges := by
  have hS := indexedSymbols_batch H hfqns hkeys
  -- The index and the first reconcile agree; the second reconcile finds everything settled.
  obtain ⟨db₁, o, ids, hrun, hok, hstored, hsettled, hno⟩ := hfresh.agree fetch h hS
  obtain ⟨db₂, hok₂, hnodes, hedges, -⟩ := reconcile_settled_noop H hstored hS hsettled hno
  rw [List.length_map] at hok₂
  exact ⟨db₁, hrun, ⟨o, hok⟩, db₂, hok₂, hnodes, hedges⟩

end Agree

/-- A class with a method, as a server reports them. -/
def classTree : List DocumentSymbol :=
  [.mk "Foo" none 5 ⟨⟨1, 0⟩, ⟨3, 0⟩⟩ ⟨⟨1, 6⟩, ⟨1, 9⟩⟩
    [.mk "new" none 6 ⟨⟨2, 4⟩, ⟨3, 0⟩⟩ ⟨⟨2, 8⟩, ⟨2, 11⟩⟩ []]]

/-- `index_reconcile_agree` for a class and its method, next to `lib.py`. -/
theorem index_reconcile_agree_class :
    ∃ db₁, (upsertSymbolTree lengthHasher appPy (indexedSymbols classTree "app")).run noSymbols
        libDb = (.ok (), db₁) ∧
      (∃ o, reconcileFileSymbols lengthHasher libDb appPy
        ((indexedSymbols classTree "app").map (FlatSymbol.toReconcile lengthHasher)) =
          .ok (db₁, o)) ∧
      ∃ db₂, reconcileFileSymbols lengthHasher db₁ appPy
          ((indexedSymbols classTree "app").map (FlatSymbol.toReconcile lengthHasher)) =
            .ok (db₂, { unchanged := (indexedSymbols classTree "app").length }) ∧
        (∀ x, x ∈ db₂.nodes ↔ x ∈ db₁.nodes) ∧ db₂.edges = db₁.edges :=
  index_reconcile_agree lengthHasher noSymbols libDb_stored appPy classTree "app" (by decide)
    (by decide) ⟨by decide, by decide⟩

end Semnav.Indexer
