import Semnav.Indexer.Reconcile
import Semnav.Spec.FlattenTree
import Semnav.Spec.IndexCorrect
import Semnav.Spec.ReconcilePost

/-!
# What indexing one file does to the rows of another

Rows are keyed by fqn across all files, and an fqn is the path without its extension and the
dotted names below it.  An index pass or a reconcile of one file leaves the rows of another
alone exactly when no row of the other holds one of its fqns (and, for a reconcile, when no
row it deletes contains one of them).

## Key results

- `files_independent_iff`: when the rows of the other file stay as they are
- `index_moves_row`: `lib.py` loses its row to `lib.ts`
-/

namespace Semnav.Indexer

open Semnav.ForStd Semnav.Graph Semnav.Adapters

/-- Every row of `uri` is still there, with the same id and columns. -/
def RowsKept (uri : String) (db db' : Db) : Prop := ∀ x ∈ db.nodes, x.uri = uri → x ∈ db'.nodes

instance (uri : String) (db db' : Db) : Decidable (RowsKept uri db db') :=
  inferInstanceAs (Decidable (∀ x ∈ db.nodes, x.uri = uri → x ∈ db'.nodes))

/-- No row of `uri` holds the fqn of one of the symbols. -/
def FqnsApart (db : Db) (uri : String) (flat : List FlatSymbol) : Prop :=
  ∀ x ∈ db.nodes, x.uri = uri → ∀ sym ∈ flat, x.fqn ≠ sym.fqn

/-- No row of `uri` lies in a row of `args.uri` that has had its first strike and matches no
    symbol. -/
def ContainersStay (H : Hasher) (db : Db) (uri : String) (args : FileArgs)
    (syms : List ReconcileSymbol) : Prop :=
  ∀ x ∈ db.nodes, x.uri = uri → ∀ (j : Nat) (old : Node),
    (db.nodesByUri args.uri)[j]? = some old → old.orphan = true →
    LeftUnmatched H (db.nodesByUri args.uri) syms j → x.containerId ≠ some old.id

/-! ## The index pass -/

section Index

variable {fetch : String → Option (List DocumentSymbol)} {H : Hasher} {args : FileArgs}
  {uri : String}

/-- A symbol of one file hits a row of another only by its fqn. -/
private theorem hits_iff_fqn {x : Node} (hu : x.uri = uri) (hne : uri ≠ args.uri) (sym : FlatSymbol)
    (c : Option RowId) : (sym.toNode H args c).Hits x ↔ x.fqn = sym.fqn := by
  refine or_iff_left fun hphys => hne ?_
  rw [← hu]
  exact congrArg Prod.fst hphys

/-- However far the loop gets, a row of another file whose fqn no symbol has stays. -/
private theorem upsertNodes_rowsKept (hne : uri ≠ args.uri) (flat : List FlatSymbol)
    {ids : List RowId}
    {db : Db} (hwf : db.WF) (hapart : FqnsApart db uri flat) :
    RowsKept uri db ((upsertNodes H args flat ids).run fetch db).2 := by
  induction flat generalizing ids db with
  | nil => exact fun x hx _ => hx
  | cons sym rest ih =>
    simp only [upsertNodes, IndexM.run, upsertNode, Prog.run_perform_bind, IndexCmd.handle]
    cases hok : db.upsertNode (sym.toNode H args (sym.parent.bind (ids[·]?))) with
    | error e => exact fun x hx _ => hx
    | ok r =>
      obtain ⟨db₁, id⟩ := r
      obtain ⟨hrows, -⟩ := upsertNode_rows hwf hok
      -- The row just written is of the file indexed, so the fqns of the rest stay apart.
      have hapart₁ : FqnsApart db₁ uri rest := by
        intro x hx hu s hs
        rcases (hrows x).mp hx with rfl | ⟨hx, -⟩
        · exact absurd hu.symm hne
        · exact hapart x hx hu s (List.mem_cons_of_mem _ hs)
      intro x hx hu
      refine ih (Db.upsertNode_wf hwf hok) hapart₁ x ((hrows x).mpr (.inr ⟨hx, ?_⟩)) hu
      -- Across files the upsert can only hit the key of an fqn.
      rw [hits_iff_fqn hu hne]
      exact hapart x hx hu sym List.mem_cons_self

/-- The row with the id belongs to the file. -/
def RowTaken (args : FileArgs) (db : Db) (id : RowId) : Prop :=
  ∃ y ∈ db.nodes, y.id = id ∧ y.uri = args.uri

/-- A loop that gets through takes every row that holds the fqn of a symbol. -/
private theorem upsertNodes_rowTaken {x : Node} (flat : List FlatSymbol) {ids ids' : List RowId}
    {db db' : Db} (hwf : db.WF) (hrun : (upsertNodes H args flat ids).run fetch db = (.ok ids', db'))
    (h : (x ∈ db.nodes ∧ ∃ sym ∈ flat, x.fqn = sym.fqn) ∨ RowTaken args db x.id) :
    RowTaken args db' x.id := by
  induction flat generalizing ids db with
  | nil =>
    obtain ⟨-, rfl⟩ := Prod.mk.inj hrun
    rcases h with ⟨-, sym, hsym, -⟩ | h
    · exact nomatch hsym
    · exact h
  | cons sym rest ih =>
    obtain ⟨id, db₁, hok, hrest⟩ := (run_upsertNode_bind fetch).mp hrun
    obtain ⟨hrows, hhits⟩ := upsertNode_rows hwf hok
    refine ih (Db.upsertNode_wf hwf hok) hrest ?_
    -- A row that this symbol hits is taken now, any other is as before.
    have hnow : ∀ y ∈ db.nodes, (sym.toNode H args (sym.parent.bind (ids[·]?))).Hits y →
        RowTaken args db₁ y.id := fun y hy hhit =>
      ⟨_, (hrows _).mpr (.inl rfl), ((hhits y hy).mpr hhit).symm, rfl⟩
    rcases h with ⟨hx, s, hs, hfqn⟩ | ⟨y, hy, hid, hu⟩
    · by_cases hhit : (sym.toNode H args (sym.parent.bind (ids[·]?))).Hits x
      · exact .inr (hnow x hx hhit)
      · refine .inl ⟨(hrows x).mpr (.inr ⟨hx, hhit⟩), s, ?_, hfqn⟩
        rcases List.mem_cons.mp hs with rfl | hs
        · exact absurd (.inl hfqn) hhit
        · exact hs
    · refine .inr ?_
      by_cases hhit : (sym.toNode H args (sym.parent.bind (ids[·]?))).Hits y
      · rw [← hid]
        exact hnow y hy hhit
      · exact ⟨y, (hrows y).mpr (.inr ⟨hy, hhit⟩), hid, hu⟩

/-- The rows after `upsert_symbol_tree` are those after its node loop. -/
theorem upsertSymbolTree_nodes (fetch : String → Option (List DocumentSymbol)) (H : Hasher)
    (args : FileArgs) (flat : List FlatSymbol) (db : Db) :
    ((upsertSymbolTree H args flat).run fetch db).2.nodes =
      ((upsertNodes H args flat []).run fetch db).2.nodes := by
  rw [upsertSymbolTree, IndexM.run, Prog.run_bind]
  rcases hrun : Prog.run (IndexCmd.handle fetch) (upsertNodes H args flat []) db with ⟨e | ids, db₁⟩
  · simp only [IndexM.run, hrun]
  · simp only [IndexM.run, hrun]
    exact (addContains_frame fetch ids flat.zipIdx db₁).1

/-- A whole pass over a file keeps another file's rows if their fqns are apart. -/
private theorem upsertSymbolTree_rowsKept (fetch : String → Option (List DocumentSymbol))
    (H : Hasher)
    (hne : uri ≠ args.uri) (flat : List FlatSymbol) {db : Db}
    (hwf : db.WF) (hapart : FqnsApart db uri flat) :
    RowsKept uri db ((upsertSymbolTree H args flat).run fetch db).2 := by
  intro x hx hu
  rw [upsertSymbolTree_nodes]
  exact upsertNodes_rowsKept hne flat hwf hapart x hx hu

/-- An index pass that gets through keeps the rows of a file only if its fqns are apart. -/
private theorem fqnsApart_of_rowsKept (hne : uri ≠ args.uri) {flat : List FlatSymbol} {db db' : Db}
    (hwf : db.WF) (hrun : (upsertSymbolTree H args flat).run fetch db = (.ok (), db'))
    (hkept : RowsKept uri db db') : FqnsApart db uri flat := by
  intro x hx hu sym hsym hfqn
  obtain ⟨ids, db₁, hnodes, -⟩ := (Prog.run_bind_eq_ok _).mp hrun
  obtain ⟨y, hy, hid, hyu⟩ := upsertNodes_rowTaken flat hwf hnodes (.inl ⟨hx, sym, hsym, hfqn⟩)
  have hrows : db'.nodes = db₁.nodes := by
    have h := upsertSymbolTree_nodes fetch H args flat db
    rwa [hrun, IndexM.run, hnodes] at h
  have hwf' : db'.WF := by
    have h := IndexM.run_wf fetch (upsertSymbolTree H args flat) hwf
    rwa [hrun] at h
  -- The row that was taken and the row that was kept have one id.
  obtain rfl := hwf'.node_ext (hkept x hx hu) (hrows ▸ hy) hid.symm
  exact hne (hu.symm.trans hyu)

end Index

/-! ## The reconcile -/

section Reconcile

variable {H : Hasher} {db db' : Db} {args : FileArgs} {uri : String}
  {syms : List ReconcileSymbol} {o : ReconcileOutcome}

/-- A committed reconcile keeps another file's rows exactly when it writes over none of them
    and deletes no container of theirs. -/
private theorem reconcile_rowsKept_iff (h : db.Stored) (hne : uri ≠ args.uri)
    (hnn : ∀ s ∈ syms, 0 ≤ s.range.startLine)
    (hok : reconcileFileSymbols H db args syms = .ok (db', o)) :
    RowsKept uri db db' ↔ (∀ x ∈ db.nodes, x.uri = uri → ∀ s ∈ syms, x.fqn ≠ s.fqn) ∧
      ContainersStay H db uri args syms := by
  obtain ⟨ids, hr⟩ := reconcile_reconciled H h hnn hok
  have hm := matched_of_stored H h args hnn
  have hother : ∀ x : Node, x.uri = uri → x.uri ≠ args.uri := fun x hu heq =>
    hne (hu.symm.trans heq)
  have hstays : ∀ x ∈ db.nodes, x.uri = uri →
      ((∀ (j : Nat) (old : Node), (db.nodesByUri args.uri)[j]? = some old → old.orphan = true →
        LeftUnmatched H (db.nodesByUri args.uri) syms j → x.containerId ≠ some old.id) ↔
      ∀ c, x.containerId = some c →
        deletedIds (db.nodesByUri args.uri) (matchSymbols H (db.nodesByUri args.uri) syms) c =
          false) := by
    intro x hx hu
    constructor
    · intro hstay c hc
      rw [← Bool.not_eq_true, Reconciled.deletedIds_iff]
      rintro ⟨j, old, hj, hfree, horph, rfl⟩
      rw [← leftUnmatched_iff (nodesByUri_fqnsDistinct h.toWF args.uri)] at hfree
      exact hstay j old hj horph hfree hc
    · intro hkeep j old hj horph hfree hc
      rw [leftUnmatched_iff (nodesByUri_fqnsDistinct h.toWF args.uri)] at hfree
      have hdel := Reconciled.deletedIds_iff.mpr ⟨j, old, hj, hfree, horph, rfl⟩
      exact absurd (hdel.symm.trans (hkeep old.id hc)) (by decide)
  constructor
  · intro hkept
    have hapart : ∀ x ∈ db.nodes, x.uri = uri → ∀ s ∈ syms, x.fqn ≠ s.fqn := by
      intro x hx hu s hs hfqn
      obtain ⟨i, hi⟩ := hr.stolen s hs x hx (hother x hu) hfqn
      obtain ⟨i', hlast, hi'⟩ := exists_lastWriter ids ((hr.ids_iff i).mp ⟨_, hi⟩)
      obtain ⟨t, ht⟩ : ∃ t, syms[i']? = some t := ⟨_, List.getElem?_eq_getElem hlast.1⟩
      have hrow := hr.row_mem ht hlast (hi'.trans hi)
      have heq := hr.stored.node_ext (hkept x hx hu) hrow rfl
      have hphys := hm.writtenCols_phys ids i' t
      refine hother x hu ?_
      rw [heq]
      exact congrArg Prod.fst hphys
    refine ⟨hapart, fun x hx hu => (hstays x hx hu).mpr fun c hc => ?_⟩
    rcases (hr.nodes x).mp (hkept x hx hu) with ⟨i, s, hs, -, -, hcols⟩ | ⟨old, hold, -, -, rfl⟩ |
      ⟨y, hy, -, -, hxy⟩
    · refine absurd (?_ : x.uri = args.uri) (hother x hu)
      rw [hcols]
      exact congrArg Prod.fst (hm.writtenCols_phys ids i s)
    · exact absurd (hm.old_uri hold) (hother _ hu)
    · -- The row that stayed is what is left of itself.
      have hid : y.id = x.id := by rw [hxy, Node.forget_id]
      obtain rfl := h.node_ext hx hy hid.symm
      have hcontainer := congrArg (·.containerId) hxy
      rw [hc] at hcontainer
      by_contra hdel
      rw [Bool.not_eq_false] at hdel
      simp [Node.forget, hc, Option.filter, hdel] at hcontainer
  · rintro ⟨hapart, hstay⟩ x hx hu
    have hforget := x.forget_eq_self _ ((hstays x hx hu).mp (hstay x hx hu))
    exact (hr.nodes x).mpr (.inr (.inr ⟨x, hx, hother x hu,
      hr.ids_ne_of_fqn hm hx (hother x hu) (hapart x hx hu), hforget.symm⟩))

end Reconcile

/-! ## Both, for the symbols a server reports -/

theorem fetchedSymbols_line_nonneg (symbols : List DocumentSymbol) (modulePath : String)
    (fileExists : Bool) : ∀ s ∈ fetchedSymbols symbols modulePath fileExists,
      0 ≤ s.range.startLine := by
  intro s hs
  have hflat := (flattenDocumentSymbols_flattened symbols modulePath).line_nonneg
  cases fileExists with
  | false => exact hflat s hs
  | true =>
    rcases List.mem_append.mp hs with hs | hs
    · exact hflat s hs
    · rw [List.mem_singleton.mp hs]
      exact Int.le_refl 0

/-- Indexing or reconciling a file keeps the rows of another exactly when no row of the other
    holds an fqn of the file's symbols and, for the reconcile, none lies in a row that gets its
    second strike. -/
theorem files_independent_iff (env : TaskEnv) (adapter : LanguageAdapter)
    (fetch : String → Option (List DocumentSymbol)) {db : Db} (h : db.Stored) {A B : String}
    (hne : A ≠ B) (symbols : List DocumentSymbol) :
    -- indexing `B`, however far the pass gets
    ((FqnsApart db A (indexedSymbols symbols (modulePathFromUri B env.rootUri)) →
      RowsKept A db ((upsertSymbolTree env.hasher (fileArgs adapter B env.rootUri)
        (indexedSymbols symbols (modulePathFromUri B env.rootUri))).run fetch db).2) ∧
    ∀ db', (upsertSymbolTree env.hasher (fileArgs adapter B env.rootUri)
        (indexedSymbols symbols (modulePathFromUri B env.rootUri))).run fetch db = (.ok (), db') →
      (RowsKept A db db' ↔
        FqnsApart db A (indexedSymbols symbols (modulePathFromUri B env.rootUri)))) ∧
    -- reconciling `B`, which changes nothing unless it commits
    ∀ fileExists db' o, reconcileFileSymbols env.hasher db
        (env.fetchedOf adapter B fileExists symbols).args
        (env.fetchedOf adapter B fileExists symbols).reconcileSymbols = .ok (db', o) →
      (RowsKept A db db' ↔
        FqnsApart db A (fetchedSymbols symbols (modulePathFromUri B env.rootUri) fileExists) ∧
        ContainersStay env.hasher db A (fileArgs adapter B env.rootUri)
          (env.fetchedOf adapter B fileExists symbols).reconcileSymbols) := by
  have hne' : A ≠ (fileArgs adapter B env.rootUri).uri := hne
  refine ⟨⟨upsertSymbolTree_rowsKept fetch env.hasher hne' _ h.toWF, fun db' hrun => ?_⟩, ?_⟩
  · constructor
    · exact fqnsApart_of_rowsKept hne' h.toWF hrun
    · intro hapart
      have hkept := upsertSymbolTree_rowsKept fetch env.hasher hne' _ h.toWF hapart
      rwa [hrun] at hkept
  · intro fileExists db' o hok
    have hnn : ∀ s ∈ (env.fetchedOf adapter B fileExists symbols).reconcileSymbols,
        0 ≤ s.range.startLine := by
      intro s hs
      obtain ⟨sym, hsym, rfl⟩ := List.mem_map.mp hs
      exact fetchedSymbols_line_nonneg symbols _ fileExists sym hsym
    rw [reconcile_rowsKept_iff h hne' hnn hok]
    refine and_congr_left fun _ => forall_congr' fun x => forall_congr' fun hx =>
      forall_congr' fun hu => ?_
    simp [TaskEnv.fetchedOf, FlatSymbol.toReconcile]

/-! ## Two files of one name -/

/-- The repository under `file:///`, hashed by length. -/
def rootEnv : TaskEnv := ⟨lengthHasher, builtinAdapters [], "file:///"⟩

/-- A server that reports no symbols for any file. -/
def noSymbols (_ : String) : Option (List DocumentSymbol) := some []

/-- Index a file whose server reports `symbols`. -/
def indexFile (adapter : LanguageAdapter) (uri : String) (symbols : List DocumentSymbol)
    (db : Db) : Db :=
  ((upsertSymbolTree rootEnv.hasher (fileArgs adapter uri rootEnv.rootUri)
    (indexedSymbols symbols (modulePathFromUri uri rootEnv.rootUri))).run noSymbols db).2

/-- The graph once `lib.py`, a file without symbols, was indexed. -/
def libDb : Db := indexFile pythonAdapter "file:///lib.py" [] .empty

theorem libDb_stored : libDb.Stored where
  toWF := IndexM.run_wf noSymbols _ Db.empty_wf
  line_nonneg := by decide

/-- `files_independent_iff` where `app.ts` is indexed or reconciled next to `lib.py`. -/
theorem files_independent_iff_app :
    ((FqnsApart libDb "file:///lib.py"
        (indexedSymbols [] (modulePathFromUri "file:///app.ts" rootEnv.rootUri)) →
      RowsKept "file:///lib.py" libDb ((upsertSymbolTree rootEnv.hasher
        (fileArgs typeScriptAdapter "file:///app.ts" rootEnv.rootUri)
        (indexedSymbols [] (modulePathFromUri "file:///app.ts" rootEnv.rootUri))).run
          noSymbols libDb).2) ∧
    ∀ db', (upsertSymbolTree rootEnv.hasher
        (fileArgs typeScriptAdapter "file:///app.ts" rootEnv.rootUri)
        (indexedSymbols [] (modulePathFromUri "file:///app.ts" rootEnv.rootUri))).run
          noSymbols libDb = (.ok (), db') →
      (RowsKept "file:///lib.py" libDb db' ↔ FqnsApart libDb "file:///lib.py"
        (indexedSymbols [] (modulePathFromUri "file:///app.ts" rootEnv.rootUri)))) ∧
    ∀ fileExists db' o, reconcileFileSymbols rootEnv.hasher libDb
        (rootEnv.fetchedOf typeScriptAdapter "file:///app.ts" fileExists []).args
        (rootEnv.fetchedOf typeScriptAdapter "file:///app.ts" fileExists []).reconcileSymbols =
          .ok (db', o) →
      (RowsKept "file:///lib.py" libDb db' ↔
        FqnsApart libDb "file:///lib.py"
          (fetchedSymbols [] (modulePathFromUri "file:///app.ts" rootEnv.rootUri) fileExists) ∧
        ContainersStay rootEnv.hasher libDb "file:///lib.py"
          (fileArgs typeScriptAdapter "file:///app.ts" rootEnv.rootUri)
          (rootEnv.fetchedOf typeScriptAdapter "file:///app.ts" fileExists []).reconcileSymbols) :=
  files_independent_iff rootEnv typeScriptAdapter noSymbols libDb_stored (by decide) []

/-- Indexing or reconciling `lib.ts` writes over the only row of `lib.py`: both modules are
    named `lib`. -/
theorem index_moves_row :
    ¬ RowsKept "file:///lib.py" libDb (indexFile typeScriptAdapter "file:///lib.ts" [] libDb) ∧
      ∃ db' o, reconcileFileSymbols rootEnv.hasher libDb
          (rootEnv.fetchedOf typeScriptAdapter "file:///lib.ts" true []).args
          (rootEnv.fetchedOf typeScriptAdapter "file:///lib.ts" true []).reconcileSymbols =
            .ok (db', o) ∧
        ¬ RowsKept "file:///lib.py" libDb db' :=
  ⟨by decide, _, _, rfl, by decide⟩

end Semnav.Indexer
