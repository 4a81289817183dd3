import Semnav.Spec.IndexAgrees

/-!
# The module root and the declared symbols

The synthetic root stands at position (0,0) under the stem of its file and takes part in the
same unique keys as the symbols the server reports.  Root and symbols have rows of their own
exactly when no symbol is declared at (0,0) under that name.

## Key results

- `module_root_own_row_iff`: for the index pass, and for every later reconcile
- `button_loses_row`: `Button` on the first line of `Button.tsx`
-/

namespace Semnav.Indexer

open Semnav.ForStd Semnav.Graph Semnav.Adapters

/-- Every symbol has a valid row of the file with its fqn and its position (and different
    symbols have different rows, if their fqns differ). -/
def OwnRows (db : Db) (uri : String) (flat : List FlatSymbol) : Prop :=
  ∀ sym ∈ flat, ∃ x ∈ db.nodes, x.uri = uri ∧ x.fqn = sym.fqn ∧
    (x.range.startLine, x.range.startCol, x.name) = sym.key ∧ x.valid = true

/-- No symbol is declared at (0,0) under the last segment of the module path. -/
def RootClear (symbols : List DocumentSymbol) (modulePath : String) : Prop :=
  ∀ sym ∈ flattenDocumentSymbols symbols modulePath,
    sym.key ≠ (FlatSymbol.moduleRoot modulePath).key

instance (symbols : List DocumentSymbol) (modulePath : String) :
    Decidable (RootClear symbols modulePath) :=
  inferInstanceAs (Decidable (∀ sym ∈ flattenDocumentSymbols symbols modulePath,
    sym.key ≠ (FlatSymbol.moduleRoot modulePath).key))

/-- A symbol tree whose flattened fqns and physical keys are distinct. -/
structure DistinctTree (symbols : List DocumentSymbol) (modulePath : String) : Prop where
  fqns : ((flattenDocumentSymbols symbols modulePath).map (·.fqn)).Nodup
  keys : ((flattenDocumentSymbols symbols modulePath).map FlatSymbol.key).Nodup

/-- The graphs of a workspace with one file: index passes over it, which may fail half-way, and
    reconciles of it. -/
inductive FileRun (H : Hasher) (fetch : String → Option (List DocumentSymbol)) (args : FileArgs)
    (modulePath : String) : Db → Prop where
  | empty : FileRun H fetch args modulePath .empty
  | index {db : Db} (h : FileRun H fetch args modulePath db) (symbols : List DocumentSymbol) :
      FileRun H fetch args modulePath
        ((upsertSymbolTree H args (indexedSymbols symbols modulePath)).run fetch db).2
  | reconcile {db db' : Db} (h : FileRun H fetch args modulePath db)
      (symbols : List DocumentSymbol) (fileExists : Bool) {o : ReconcileOutcome}
      (hok : reconcileFileSymbols H db args ((fetchedSymbols symbols modulePath fileExists).map
        (FlatSymbol.toReconcile H)) = .ok (db', o)) : FileRun H fetch args modulePath db'

section Root

variable {H : Hasher} {fetch : String → Option (List DocumentSymbol)} {args : FileArgs}
  {modulePath : String} {symbols : List DocumentSymbol} {db : Db}

private theorem FileRun.stored (h : FileRun H fetch args modulePath db) :
    db.Stored ∧ ∀ x ∈ db.nodes, x.uri = args.uri := by
  -- Induction on the run of the file: the empty graph, an indexing, a reconcile.
  induction h with
  | empty => exact ⟨Db.empty_stored, by simp [Db.empty]⟩
  | index h symbols ih =>
    obtain ⟨hstored, hrows⟩ := upsertSymbolTree_frame fetch H args
      (indexedSymbols symbols modulePath) ih.1 (fetchedSymbols_line_nonneg symbols modulePath true)
    exact ⟨hstored, fun x hx => (hrows x hx).elim (ih.2 x) id⟩
  | @reconcile db db' h symbols fileExists o hok ih =>
    have hnn : ∀ s ∈ (fetchedSymbols symbols modulePath fileExists).map
        (FlatSymbol.toReconcile H), 0 ≤ s.range.startLine := by
      intro s hs
      obtain ⟨sym, hsym, rfl⟩ := List.mem_map.mp hs
      exact fetchedSymbols_line_nonneg symbols modulePath fileExists sym hsym
    obtain ⟨ids, hr⟩ := reconcile_reconciled H ih.1 hnn hok
    have hm := matched_of_stored H ih.1 args hnn
    refine ⟨hr.stored, fun x hx => ?_⟩
    -- A row after a reconcile is a symbol's, an orphan of the file, or of no interest to it.
    rcases (hr.nodes x).mp hx with ⟨i, s, -, -, -, hcols⟩ | ⟨old, hold, -, -, rfl⟩ |
      ⟨y, hy, hu, -, rfl⟩
    · rw [hcols]
      exact congrArg Prod.fst (hm.writtenCols_phys ids i s)
    · show old.uri = args.uri
      exact hm.old_uri hold
    · exact ih.2 y hy

/-- A tree of distinct symbols is a batch with its module root when nothing stands on the
    root's position. -/
private theorem DistinctTree.batch (hT : DistinctTree symbols modulePath)
    (hclear : RootClear symbols modulePath) : FlatBatch H (indexedSymbols symbols modulePath) := by
  have hflat := flattenDocumentSymbols_flattened symbols modulePath
  have hnodup : ∀ {β : Type} (f : FlatSymbol → β),
      ((flattenDocumentSymbols symbols modulePath).map f).Nodup →
      (∀ sym ∈ flattenDocumentSymbols symbols modulePath, f sym ≠ f (.moduleRoot modulePath)) →
      ((indexedSymbols symbols modulePath).map f).Nodup := by
    intro β f hf hroot
    rw [indexedSymbols, List.map_append, List.map_singleton, List.nodup_append]
    refine ⟨hf, List.nodup_singleton _, fun a ha b hb => ?_⟩
    obtain ⟨sym, hsym, rfl⟩ := List.mem_map.mp ha
    rw [List.mem_singleton.mp hb]
    exact hroot sym hsym
  exact indexedSymbols_batch H (hnodup (·.fqn) hT.fqns fun sym hsym => hflat.fqn_ne hsym)
    (hnodup FlatSymbol.key hT.keys hclear)

/-- Two rows on one position would be one row, with one fqn. -/
private theorem OwnRows.rootClear (hwf : db.WF)
    (h : OwnRows db args.uri (indexedSymbols symbols modulePath)) :
    RootClear symbols modulePath := by
  intro sym hsym hkey
  obtain ⟨x, hx, hxu, hxfqn, hxkey, -⟩ := h sym (List.mem_append_left _ hsym)
  obtain ⟨y, hy, hyu, hyfqn, hykey, -⟩ :=
    h (.moduleRoot modulePath) (List.mem_append_right _ (List.mem_singleton_self _))
  have hphys : x.phys = y.phys := by
    show (x.uri, x.range.startLine, x.range.startCol, x.name) =
      (y.uri, y.range.startLine, y.range.startCol, y.name)
    rw [hxkey, hykey, hkey, hxu, hyu]
  obtain rfl := hwf.node_ext hx hy (hwf.phys_unique x hx y hy hphys)
  have hflat := flattenDocumentSymbols_flattened symbols modulePath
  exact hflat.fqn_ne hsym (hxfqn.symm.trans hyfqn)

/-- In a settled file every symbol has its own row. -/
private theorem ownRows_of_settled {flat : List FlatSymbol} {ids : Nat → Option RowId}
    (hs : Settled db args.uri (flat.map (FlatSymbol.toReconcile H)) ids) :
    OwnRows db args.uri flat := by
  intro sym hsym
  obtain ⟨i, hi⟩ := List.getElem?_of_mem hsym
  obtain ⟨x, hx, -, hu, hc⟩ := hs.row i (sym.toReconcile H) (by rw [List.getElem?_map, hi]; rfl)
  refine ⟨x, hx, hu, hc.fqn, ?_, hc.valid⟩
  rw [hc.range, hc.name]
  rfl

/-- For a tree of distinct symbols: an index pass over the empty graph gives the module root
    and each symbol a row of its own exactly when no symbol is declared on the root's position;
    a later reconcile commits and does so exactly when, besides, every row of the file that is
    left without a partner stands where no symbol stands. -/
theorem module_root_own_row_iff (H : Hasher) (fetch : String → Option (List DocumentSymbol))
    (args : FileArgs) {modulePath : String} {symbols : List DocumentSymbol}
    (hT : DistinctTree symbols modulePath) :
    ((∃ db, (upsertSymbolTree H args (indexedSymbols symbols modulePath)).run fetch .empty =
        (.ok (), db) ∧ OwnRows db args.uri (indexedSymbols symbols modulePath)) ↔
      RootClear symbols modulePath) ∧
    ∀ db, FileRun H fetch args modulePath db →
      ((∃ db' o, reconcileFileSymbols H db args
          ((indexedSymbols symbols modulePath).map (FlatSymbol.toReconcile H)) = .ok (db', o) ∧
          OwnRows db' args.uri (indexedSymbols symbols modulePath)) ↔
        RootClear symbols modulePath ∧
        ∀ (j : Nat) (old : Node), (db.nodesByUri args.uri)[j]? = some old → old.orphan = false →
          LeftUnmatched H (db.nodesByUri args.uri)
            ((indexedSymbols symbols modulePath).map (FlatSymbol.toReconcile H)) j →
          ∀ sym ∈ indexedSymbols symbols modulePath,
            sym.key ≠ (old.range.startLine, old.range.startCol, old.name)) := by
  refine ⟨⟨?_, fun hclear => ?_⟩, fun db hrun => ?_⟩
  · rintro ⟨db, hrun, hown⟩
    have hwf := IndexM.run_wf fetch
      (upsertSymbolTree H args (indexedSymbols symbols modulePath)) Db.empty_wf
    rw [hrun] at hwf
    exact hown.rootClear hwf
  · have hfresh : FreshFor .empty args.uri (indexedSymbols symbols modulePath) :=
      ⟨by simp [Db.empty], by simp [Db.empty]⟩
    obtain ⟨db, -, ids, hrun, -, -, hsettled, -⟩ :=
      hfresh.agree fetch Db.empty_stored (hT.batch (H := H) hclear)
    exact ⟨db, hrun, ownRows_of_settled hsettled⟩
  · obtain ⟨hstored, huri⟩ := hrun.stored
    -- There is no other file whose rows could be in the way.
    have hfree : FqnsFree db args.uri
        ((indexedSymbols symbols modulePath).map (FlatSymbol.toReconcile H)) :=
      fun x hx hu => absurd (huri x hx) hu
    have hkeys : ∀ key, (∀ s ∈ (indexedSymbols symbols modulePath).map
        (FlatSymbol.toReconcile H), s.key ≠ key) ↔
        ∀ sym ∈ indexedSymbols symbols modulePath, sym.key ≠ key := by
      intro key
      rw [List.forall_mem_map]
      rfl
    simp only [← hkeys]
    constructor
    · rintro ⟨db', o, hok, hown⟩
      have hnn : ∀ s ∈ (indexedSymbols symbols modulePath).map (FlatSymbol.toReconcile H),
          0 ≤ s.range.startLine := by
        intro s hs
        obtain ⟨sym, hsym, rfl⟩ := List.mem_map.mp hs
        exact fetchedSymbols_line_nonneg symbols modulePath true sym hsym
      have hclear := hown.rootClear (reconcile_stored H hstored hnn hok).toWF
      exact ⟨hclear, (reconcile_commits_iff H hstored args (hT.batch hclear) hfree).mp
        ⟨db', o, hok⟩⟩
    · rintro ⟨hclear, hfit⟩
      have hS : FlatBatch H (indexedSymbols symbols modulePath) := hT.batch hclear
      obtain ⟨db', o, hok⟩ := (reconcile_commits_iff H hstored args hS hfree).mpr hfit
      obtain ⟨ids, hr⟩ := reconcile_reconciled H hstored hS.line_nonneg hok
      exact ⟨db', o, hok, ownRows_of_settled
        (hr.settled (matched_of_stored H hstored args hS.line_nonneg) hS)⟩

end Root

/-! ## A component on the first line of its file -/

/-- `module_root_own_row_iff` for a class on the second line of `app.py`. -/
theorem module_root_own_row_iff_class :
    ((∃ db, (upsertSymbolTree lengthHasher appPy (indexedSymbols classTree "app")).run noSymbols
        .empty = (.ok (), db) ∧ OwnRows db appPy.uri (indexedSymbols classTree "app")) ↔
      RootClear classTree "app") ∧
    ∀ db, FileRun lengthHasher noSymbols appPy "app" db →
      ((∃ db' o, reconcileFileSymbols lengthHasher db appPy
          ((indexedSymbols classTree "app").map (FlatSymbol.toReconcile lengthHasher)) =
            .ok (db', o) ∧ OwnRows db' appPy.uri (indexedSymbols classTree "app")) ↔
        RootClear classTree "app" ∧
        ∀ (j : Nat) (old : Node), (db.nodesByUri appPy.uri)[j]? = some old → old.orphan = false →
          LeftUnmatched lengthHasher (db.nodesByUri appPy.uri)
            ((indexedSymbols classTree "app").map (FlatSymbol.toReconcile lengthHasher)) j →
          ∀ sym ∈ indexedSymbols classTree "app",
            sym.key ≠ (old.range.startLine, old.range.startCol, old.name)) :=
  module_root_own_row_iff lengthHasher noSymbols appPy ⟨by decide, by decide⟩

/-- `Button.tsx`, whose first line exports the component `Button`. -/
def buttonTree : List DocumentSymbol :=
  [.mk "Button" none 12 ⟨⟨0, 0⟩, ⟨4, 1⟩⟩ ⟨⟨0, 16⟩, ⟨0, 22⟩⟩ []]

/-- `Button.tsx`, indexed as TypeScript. -/
def buttonTsx : FileArgs := fileArgs typeScriptAdapter "file:///Button.tsx" "file:///"

/-- The index pass succeeds and leaves one row for the module root and the component, the
    root's. -/
theorem button_loses_row :
    DistinctTree buttonTree "Button" ∧
      ∃ db, (upsertSymbolTree lengthHasher buttonTsx (indexedSymbols buttonTree "Button")).run
          noSymbols .empty = (.ok (), db) ∧
        db.nodes.map (·.fqn) = ["Button"] ∧
        ¬ OwnRows db buttonTsx.uri (indexedSymbols buttonTree "Button") := by
  refine ⟨⟨by decide, by decide⟩, _, rfl, by decide, fun hown => ?_⟩
  obtain ⟨x, hx, -, hfqn, -⟩ := hown _ List.mem_cons_self
  revert hfqn
  revert x
  decide

end Semnav.Indexer
