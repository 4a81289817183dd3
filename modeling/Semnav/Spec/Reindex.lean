import Mathlib.Data.List.Flatten
import Semnav.Spec.IndexAgrees

/-!
# Re-indexing a repository

`index_repository` only upserts, so over a graph that already holds rows it is exact when each
old valid row of an indexed file is written over: when some symbol has its fqn or its physical
key.

## Key results

- `indexRepository_indexed`: the rows after a pass over all files
- `reindex_exact_iff`: when they are exactly the current symbols
- `reindex_keeps_removed`: a removed class stays valid
-/

namespace Semnav.Indexer

open Semnav.ForStd Semnav.Graph Semnav.Adapters

/-- A file as a pass indexes it. -/
structure IndexedFile where
  args : FileArgs
  flat : List FlatSymbol

/-- The file that the pass makes of a discovered uri, if it indexes it. -/
def indexedFile? (adapters : List LanguageAdapter) (rootUri language : String)
    (fetch : String → Option (List DocumentSymbol)) (uri : String) : Option IndexedFile := do
  let adapter ← selectForUri adapters uri
  guard (adapter.languageName = language)
  let symbols ← fetch uri
  some ⟨fileArgs adapter uri rootUri, indexedSymbols symbols (modulePathFromUri uri rootUri)⟩

/-- The files a pass indexes: of the language, and with a fetch that succeeds. -/
def indexedFiles (adapters : List LanguageAdapter) (rootUri language : String)
    (fetch : String → Option (List DocumentSymbol)) (files : List String) : List IndexedFile :=
  files.filterMap (indexedFile? adapters rootUri language fetch)

/-- Every fqn and every physical key once across all files. -/
structure RepoDistinct (files : List IndexedFile) : Prop where
  fqns : (files.flatMap fun f => f.flat.map (·.fqn)).Nodup
  keys : (files.flatMap fun f => f.flat.map fun sym => (f.args.uri, sym.key)).Nodup

/-- Would indexing the file write over the row? -/
def IndexedFile.Hits (f : IndexedFile) (x : Node) : Prop :=
  ∃ sym ∈ f.flat, x.fqn = sym.fqn ∨ x.phys = (f.args.uri, sym.key)

instance (f : IndexedFile) (x : Node) : Decidable (f.Hits x) :=
  inferInstanceAs (Decidable (∃ sym ∈ f.flat, x.fqn = sym.fqn ∨ x.phys = (f.args.uri, sym.key)))

/-- The row of symbol `i` of a file, when the rows of its symbols are `ids`. -/
def RowOfFile (H : Hasher) (f : IndexedFile) (ids : List RowId) (i : Nat) (x : Node) : Prop :=
  ∃ sym id, f.flat[i]? = some sym ∧ ids[i]? = some id ∧ x = rowOf H f.args ids sym id

/-- The valid rows of the file are exactly its symbols' rows, at their positions and in their
    containers. -/
def Exact (H : Hasher) (db : Db) (f : IndexedFile) : Prop :=
  ∃ ids : List RowId, (∀ i < f.flat.length, ∃ x ∈ db.nodes, RowOfFile H f ids i x) ∧
    ∀ x ∈ db.nodes, x.uri = f.args.uri → (x.valid = true ↔ ∃ i, RowOfFile H f ids i x)

/-- What indexing the files of `done`, each with the row ids given, has made of `db₀`. -/
structure RepoIndexed (H : Hasher) (db₀ : Db) (done : List (IndexedFile × List RowId)) (db : Db) :
    Prop where
  stored : db.Stored
  row : ∀ f ∈ done, ∀ i < f.1.flat.length, ∃ x ∈ db.nodes, RowOfFile H f.1 f.2 i x
  rest : ∀ x ∈ db.nodes, (∃ f ∈ done, ∃ i, RowOfFile H f.1 f.2 i x) ∨
    (x ∈ db₀.nodes ∧ ∀ f ∈ done, ¬ f.1.Hits x)
  kept : ∀ x ∈ db₀.nodes, (∀ f ∈ done, ¬ f.1.Hits x) → x ∈ db.nodes

section Repo

variable {H : Hasher} {db₀ db : Db} {fetch : String → Option (List DocumentSymbol)}

theorem RowOfFile.uri {f : IndexedFile} {ids : List RowId} {i : Nat} {x : Node}
    (h : RowOfFile H f ids i x) : x.uri = f.args.uri := by
  obtain ⟨sym, id, -, -, rfl⟩ := h
  rfl

private theorem RowOfFile.valid {f : IndexedFile} {ids : List RowId} {i : Nat} {x : Node}
    (h : RowOfFile H f ids i x) : x.valid = true := by
  obtain ⟨sym, id, -, -, rfl⟩ := h
  rfl

/-- A file's own symbols hit its rows. -/
private theorem RowOfFile.hits {f : IndexedFile} {ids : List RowId} {i : Nat} {x : Node}
    (h : RowOfFile H f ids i x) : f.Hits x := by
  obtain ⟨sym, id, hsym, -, rfl⟩ := h
  exact ⟨sym, List.mem_of_getElem? hsym, .inl rfl⟩

/-- Another file's symbols do not. -/
theorem RowOfFile.not_hits {f g : IndexedFile} (hfg : RepoDistinct [f, g]) {ids : List RowId}
    {i : Nat} {x : Node} (h : RowOfFile H f ids i x) : ¬ g.Hits x := by
  obtain ⟨sym, id, hsym, -, rfl⟩ := h
  rintro ⟨t, ht, heq⟩
  have hmem := List.mem_of_getElem? hsym
  have hfqns := hfg.fqns
  have hkeys := hfg.keys
  simp only [List.flatMap_cons, List.flatMap_nil, List.append_nil, List.nodup_append] at hfqns hkeys
  cases heq with
  | inl hfqn =>
    exact hfqns.2.2 sym.fqn (List.mem_map_of_mem hmem) t.fqn (List.mem_map_of_mem ht) hfqn
  | inr hphys =>
    exact hkeys.2.2 (f.args.uri, sym.key) (List.mem_map.mpr ⟨sym, hmem, rfl⟩)
      (g.args.uri, t.key) (List.mem_map.mpr ⟨t, ht, rfl⟩) hphys

/-- Being hit by a file is being hit by the node of one of its symbols. -/
theorem not_hits_iff {f : IndexedFile} {x : Node} :
    ¬ f.Hits x ↔ ∀ sym ∈ f.flat, ¬ (sym.toNode H f.args none).Hits x := by
  simp only [IndexedFile.Hits, not_exists, not_and]
  rfl

/-- One more file. -/
private theorem RepoIndexed.step {done : List (IndexedFile × List RowId)}
    (h : RepoIndexed H db₀ done db)
    {f : IndexedFile} (hdistinct : ∀ g ∈ done, RepoDistinct [g.1, f])
    {ids : List RowId} {db' : Db} (hf : Indexed H f.args db f.flat ids db') :
    RepoIndexed H db₀ (done ++ [(f, ids)]) db' where
  stored := hf.stored
  row := by
    intro g hg i hi
    -- A row of an earlier file is kept, since the symbols of `f` do not hit it.
    rcases List.mem_append.mp hg with hg | hg
    · obtain ⟨x, hx, hrow⟩ := h.row g hg i hi
      exact ⟨x, hf.kept x hx (not_hits_iff.mp (hrow.not_hits (hdistinct g hg))), hrow⟩
    · obtain rfl := List.mem_singleton.mp hg
      obtain ⟨id, hid, hmem⟩ := hf.row i _ (List.getElem?_eq_getElem hi)
      exact ⟨_, hmem, _, id, List.getElem?_eq_getElem hi, hid, rfl⟩
  rest := by
    intro x hx
    -- A row afterwards is of `f`, of an earlier file, or from before the pass.
    rcases hf.rest x hx with ⟨i, sym, id, hsym, hid, rfl⟩ | ⟨hx, hfree⟩
    · exact .inl ⟨(f, ids), by simp, i, sym, id, hsym, hid, rfl⟩
    rcases h.rest x hx with ⟨g, hg, i, hrow⟩ | ⟨hx₀, hfree₀⟩
    · exact .inl ⟨g, List.mem_append_left _ hg, i, hrow⟩
    · refine .inr ⟨hx₀, fun g hg => ?_⟩
      rcases List.mem_append.mp hg with hg | hg
      · exact hfree₀ g hg
      · obtain rfl := List.mem_singleton.mp hg
        exact not_hits_iff.mpr hfree
  kept := by
    intro x hx hfree
    refine hf.kept x (h.kept x hx fun g hg => hfree g (List.mem_append_left _ hg)) ?_
    exact not_hits_iff.mp (hfree (f, ids) (by simp))

/-- What an indexed file is made of. -/
theorem indexedFile?_eq_some {adapters : List LanguageAdapter} {rootUri language uri : String}
    {f : IndexedFile} (hmade : indexedFile? adapters rootUri language fetch uri = some f) :
    f.args.uri = uri ∧
      ∃ symbols, f.flat = indexedSymbols symbols (modulePathFromUri uri rootUri) := by
  simp only [indexedFile?, Option.bind_eq_bind, Option.bind_eq_some_iff] at hmade
  obtain ⟨adapter, -, -, -, symbols, -, hf⟩ := hmade
  rw [← Option.some.inj hf]
  exact ⟨rfl, symbols, rfl⟩

/-- A file of a distinct repository is a batch. -/
theorem RepoDistinct.batch {files : List IndexedFile} (h : RepoDistinct files)
    {adapters : List LanguageAdapter} {rootUri language uri : String} {f : IndexedFile}
    (hf : f ∈ files) (hmade : indexedFile? adapters rootUri language fetch uri = some f) :
    FlatBatch H f.flat := by
  have hfqns := (List.nodup_flatMap.mp h.fqns).1 f hf
  have hkeys := (List.nodup_flatMap.mp h.keys).1 f hf
  obtain ⟨-, symbols, hsymbols⟩ := indexedFile?_eq_some hmade
  rw [hsymbols] at hfqns hkeys ⊢
  refine indexedSymbols_batch H hfqns ?_
  -- Within one file the uri adds nothing to a key.
  have : (indexedSymbols symbols (modulePathFromUri uri rootUri)).map (fun sym =>
      (f.args.uri, sym.key)) = ((indexedSymbols symbols (modulePathFromUri uri rootUri)).map
        FlatSymbol.key).map (Prod.mk f.args.uri) := by
    rw [List.map_map]
    rfl
  rw [this] at hkeys
  exact hkeys.of_map _

/-- The loop over the files, from any point on. -/
private theorem indexFiles_indexed {adapters : List LanguageAdapter} {rootUri language : String}
    {stats' : IndexStats} {db' : Db} (files : List String) :
    ∀ {done : List (IndexedFile × List RowId)} {db : Db} {stats : IndexStats},
      RepoIndexed H db₀ done db →
      RepoDistinct (done.map (·.1) ++ indexedFiles adapters rootUri language fetch files) →
      (indexFiles H adapters rootUri language files stats).run fetch db = (.ok stats', db') →
      ∃ done', RepoIndexed H db₀ done' db' ∧
        done'.map (·.1) = done.map (·.1) ++ indexedFiles adapters rootUri language fetch files := by
  induction files with
  | nil =>
    intro done db stats h _ hrun
    obtain ⟨-, rfl⟩ := Prod.mk.inj hrun
    exact ⟨done, h, by simp [indexedFiles]⟩
  | cons uri files ih =>
    intro done db stats h hdistinct hrun
    rw [indexFiles] at hrun
    cases hselect : selectForUri adapters uri with
    | none =>
      -- A file that no adapter takes is passed over, as one of another language is, and one that
      -- the server does not answer for.
      have hskip : indexedFile? adapters rootUri language fetch uri = none := by
        simp [indexedFile?, hselect]
      rw [hselect] at hrun
      rw [indexedFiles, List.filterMap_cons, hskip] at hdistinct ⊢
      exact ih h hdistinct hrun
    | some adapter =>
      rw [hselect] at hrun
      by_cases hlang : adapter.languageName = language
      · simp only [hlang, ne_eq, not_true_eq_false, if_false] at hrun
        obtain ⟨reply, db₁, hreply, hrest⟩ := (Prog.run_bind_eq_ok _).mp hrun
        rw [Prog.run_perform] at hreply
        obtain ⟨hfetch, rfl⟩ : fetch uri = reply ∧ db = db₁ := by
          simpa [IndexCmd.handle] using hreply
        cases reply with
        | none =>
          have hskip : indexedFile? adapters rootUri language fetch uri = none := by
            simp [indexedFile?, hselect, hfetch]
          rw [indexedFiles, List.filterMap_cons, hskip] at hdistinct ⊢
          exact ih h hdistinct hrest
        | some symbols =>
          obtain ⟨⟨⟩, db₂, htree, hrest⟩ := (Prog.run_bind_eq_ok _).mp hrest
          have hmade : indexedFile? adapters rootUri language fetch uri =
              some ⟨fileArgs adapter uri rootUri,
                indexedSymbols symbols (modulePathFromUri uri rootUri)⟩ := by
            simp [indexedFile?, hselect, hlang, hfetch]
          rw [indexedFiles, List.filterMap_cons, hmade] at hdistinct ⊢
          dsimp only at hdistinct ⊢
          obtain ⟨ids, hindexed⟩ := upsertSymbolTree_indexed fetch h.stored
            (hdistinct.batch (by simp) hmade) htree
          have hstep := h.step (f := ⟨fileArgs adapter uri rootUri,
              indexedSymbols symbols (modulePathFromUri uri rootUri)⟩) (fun g hg => ?_) hindexed
          · rw [List.append_cons] at hdistinct ⊢
            have hmap : (done ++ [((⟨fileArgs adapter uri rootUri,
                indexedSymbols symbols (modulePathFromUri uri rootUri)⟩ : IndexedFile), ids)]).map
                (·.1) = done.map (·.1) ++ [⟨fileArgs adapter uri rootUri,
                indexedSymbols symbols (modulePathFromUri uri rootUri)⟩] := by simp
            rw [← hmap] at hdistinct ⊢
            exact ih hstep hdistinct hrest
          · -- Two files of a distinct repository are distinct from one another.
            have hsub : List.Sublist [g.1, (⟨fileArgs adapter uri rootUri,
                indexedSymbols symbols (modulePathFromUri uri rootUri)⟩ : IndexedFile)]
                (done.map (·.1) ++ ⟨fileArgs adapter uri rootUri,
                  indexedSymbols symbols (modulePathFromUri uri rootUri)⟩ ::
                  indexedFiles adapters rootUri language fetch files) :=
              List.Sublist.append (List.singleton_sublist.mpr (List.mem_map_of_mem hg))
                (List.singleton_sublist.mpr List.mem_cons_self)
            exact ⟨hdistinct.fqns.sublist (hsub.flatMap _), hdistinct.keys.sublist (hsub.flatMap _)⟩
      · have hskip : indexedFile? adapters rootUri language fetch uri = none := by
          simp [indexedFile?, hselect, hlang]
        simp only [ne_eq, hlang, not_false_eq_true, if_true] at hrun
        rw [indexedFiles, List.filterMap_cons, hskip] at hdistinct ⊢
        exact ih h hdistinct hrun

/-- What a successful pass over the repository leaves. -/
theorem indexRepository_indexed {adapters : List LanguageAdapter} {rootUri language : String}
    {files : List String} (h : db₀.Stored)
    (hdistinct : RepoDistinct (indexedFiles adapters rootUri language fetch files))
    {stats : IndexStats}
    (hrun : (indexRepository H adapters rootUri language files).run fetch db₀ = (.ok stats, db)) :
    ∃ done, RepoIndexed H db₀ done db ∧
      done.map (·.1) = indexedFiles adapters rootUri language fetch files := by
  have hinit : RepoIndexed H db₀ [] db₀ :=
    ⟨h, by simp, fun x hx => .inr ⟨hx, by simp⟩, fun x hx _ => hx⟩
  exact indexFiles_indexed files hinit hdistinct hrun

/-- No uri is indexed twice: both times the module root would have the same fqn. -/
private theorem RepoDistinct.uris_nodup {adapters : List LanguageAdapter}
    {rootUri language : String}
    {files : List String}
    (h : RepoDistinct (indexedFiles adapters rootUri language fetch files)) :
    ((indexedFiles adapters rootUri language fetch files).map (·.args.uri)).Nodup := by
  refine List.pairwise_map.mpr ((List.nodup_flatMap.mp h.fqns).2.imp_of_mem ?_)
  intro f g hf hg hdisjoint heq
  obtain ⟨uri, -, hmade⟩ := List.mem_filterMap.mp hf
  obtain ⟨uri', -, hmade'⟩ := List.mem_filterMap.mp hg
  obtain ⟨huri, symbols, hsymbols⟩ := indexedFile?_eq_some hmade
  obtain rfl : uri = uri' := huri.symm.trans (heq.trans (indexedFile?_eq_some hmade').1)
  obtain rfl := Option.some.inj (hmade.symm.trans hmade')
  have hroot : modulePathFromUri uri rootUri ∈ f.flat.map (·.fqn) := by
    rw [hsymbols]
    exact List.mem_map.mpr ⟨.moduleRoot (modulePathFromUri uri rootUri),
      List.mem_append_right _ (List.mem_singleton_self _), rfl⟩
  exact hdisjoint hroot hroot

/-- After a successful pass over files whose symbols are distinct, every indexed file's valid
    rows are exactly its current symbols if and only if each valid row that such a file had
    before has the fqn, or the uri, position and name, of one of the symbols. -/
theorem reindex_exact_iff (H : Hasher) (fetch : String → Option (List DocumentSymbol))
    {db db' : Db} (h : db.Stored) (adapters : List LanguageAdapter) (rootUri language : String)
    (files : List String)
    (hdistinct : RepoDistinct (indexedFiles adapters rootUri language fetch files))
    {stats : IndexStats}
    (hrun : (indexRepository H adapters rootUri language files).run fetch db = (.ok stats, db')) :
    (∀ f ∈ indexedFiles adapters rootUri language fetch files, Exact H db' f) ↔
      ∀ x ∈ db.nodes, x.valid = true →
        (∃ f ∈ indexedFiles adapters rootUri language fetch files, x.uri = f.args.uri) →
        ∃ g ∈ indexedFiles adapters rootUri language fetch files, g.Hits x := by
  obtain ⟨done, hr, hdone⟩ := indexRepository_indexed h hdistinct hrun
  have hmem : ∀ {f}, f ∈ indexedFiles adapters rootUri language fetch files ↔
      ∃ d ∈ done, d.1 = f := by
    intro f
    rw [← hdone]
    exact List.mem_map
  constructor
  · rintro hexact x hx hvalid ⟨f, hf, hu⟩
    by_contra hnone
    -- A row that is hit by nothing is still there, as valid as before.
    have hkept : x ∈ db'.nodes := hr.kept x hx fun d hd hhit =>
      hnone ⟨d.1, hmem.mpr ⟨d, hd, rfl⟩, hhit⟩
    obtain ⟨ids, -, hvalid_iff⟩ := hexact f hf
    obtain ⟨i, hrow⟩ := (hvalid_iff x hkept hu).mp hvalid
    exact hnone ⟨f, hf, hrow.hits⟩
  · intro hall f hf
    obtain ⟨d, hd, rfl⟩ := hmem.mp hf
    refine ⟨d.2, hr.row d hd, fun x hx hu => ⟨fun hvalid => ?_, fun ⟨i, hrow⟩ => hrow.valid⟩⟩
    rcases hr.rest x hx with ⟨g, hg, i, hrow⟩ | ⟨hx₀, hfree⟩
    · -- The row of a symbol of this uri is the row of a symbol of this file.
      have huris := hdistinct.uris_nodup
      rw [← hdone, List.map_map] at huris
      obtain rfl : g = d := List.inj_on_of_nodup_map huris hg hd (hrow.uri.symm.trans hu)
      exact ⟨i, hrow⟩
    · obtain ⟨g, hg, hhit⟩ := hall x hx₀ hvalid ⟨d.1, hf, hu⟩
      obtain ⟨d', hd', rfl⟩ := hmem.mp hg
      exact absurd hhit (hfree d' hd')

end Repo

/-! ## A class that is gone -/

/-- A repository of `app.py` alone, with the symbols given. -/
def appFetch (symbols : List DocumentSymbol) (uri : String) : Option (List DocumentSymbol) :=
  if uri = "file:///app.py" then some symbols else none

/-- The graph once the repository was indexed with its class. -/
def classDb : Db :=
  ((indexRepository lengthHasher (builtinAdapters []) "file:///" "python" ["file:///app.py"]).run
    (appFetch classTree) .empty).2

private theorem classDb_stored : classDb.Stored where
  toWF := IndexM.run_wf _ _ Db.empty_wf
  line_nonneg := by decide

/-- `reindex_exact_iff` where the same class is indexed again. -/
theorem reindex_exact_iff_class :
    (∀ f ∈ indexedFiles (builtinAdapters []) "file:///" "python" (appFetch classTree)
        ["file:///app.py"], Exact lengthHasher
          ((indexRepository lengthHasher (builtinAdapters []) "file:///" "python"
            ["file:///app.py"]).run (appFetch classTree) classDb).2 f) ↔
      ∀ x ∈ classDb.nodes, x.valid = true →
        (∃ f ∈ indexedFiles (builtinAdapters []) "file:///" "python" (appFetch classTree)
          ["file:///app.py"], x.uri = f.args.uri) →
        ∃ g ∈ indexedFiles (builtinAdapters []) "file:///" "python" (appFetch classTree)
          ["file:///app.py"], g.Hits x :=
  reindex_exact_iff lengthHasher (appFetch classTree) classDb_stored (builtinAdapters [])
    "file:///" "python" ["file:///app.py"] ⟨by decide, by decide⟩ rfl

/-- Indexing `app.py` again once its class is gone succeeds and leaves the class and its method
    valid. -/
theorem reindex_keeps_removed :
    ∃ stats db', (indexRepository lengthHasher (builtinAdapters []) "file:///" "python"
        ["file:///app.py"]).run (appFetch []) classDb = (.ok stats, db') ∧
      (db'.nodes.filter (·.valid)).map (·.fqn) = ["app.Foo", "app.Foo.new", "app"] ∧
      indexedSymbols [] (modulePathFromUri "file:///app.py" "file:///") =
        [.moduleRoot "app"] :=
  ⟨_, _, rfl, by decide, by decide⟩

end Semnav.Indexer
