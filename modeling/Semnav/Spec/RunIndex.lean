import Mathlib.Data.List.Perm.Basic
import Semnav.Indexer.Runner
import Semnav.Spec.Reindex

/-!
# Indexing every language

`semnav index` makes one pass after the other over one graph, whatever becomes of each.  A pass that
gets through leaves the rows of its files; one that fails has written some rows of its own files at
most.  As long as the symbols of all files are distinct, no pass touches what another has written.

## Key results

- `indexRepository_touched`: what a pass has done, however it ends
- `PassesIndexed.complete`, `PassesIndexed.fails`: one more pass
- `indexLanguages_passes`: the loop is one pass of each language
- `run_index_exact`: the whole command
-/

namespace Semnav.Indexer

open Semnav.ForStd Semnav.Graph Semnav.Adapters

/-! ## However a pass ends -/

/-- The rows that no symbol of the files hits are still there, and every new one is of a file. -/
structure Touched (files : List IndexedFile) (db db' : Db) : Prop where
  stored : db'.Stored
  kept : ∀ x ∈ db.nodes, (∀ f ∈ files, ¬ f.Hits x) → x ∈ db'.nodes
  new : ∀ x ∈ db'.nodes, x ∈ db.nodes ∨ ∃ f ∈ files, x.uri = f.args.uri

/-- Nothing is touched where nothing is done. -/
theorem Touched.refl {files : List IndexedFile} {db : Db} (h : db.Stored) : Touched files db db :=
  ⟨h, fun _ hx _ => hx, fun _ hx => .inl hx⟩

/-- Two parts in turn touch what each of them does. -/
theorem Touched.trans {files : List IndexedFile} {db₁ db₂ db₃ : Db} (h₁ : Touched files db₁ db₂)
    (h₂ : Touched files db₂ db₃) : Touched files db₁ db₃ where
  stored := h₂.stored
  kept x hx hfree := h₂.kept x (h₁.kept x hx hfree) hfree
  new x hx := by
    cases h₂.new x hx with
    | inl hx => exact h₁.new x hx
    | inr hnew => exact .inr hnew

/-- What touches some files touches these among more. -/
theorem Touched.mono {files files' : List IndexedFile} {db db' : Db} (h : Touched files db db')
    (hsub : ∀ f ∈ files, f ∈ files') : Touched files' db db' where
  stored := h.stored
  kept x hx hfree := h.kept x hx fun f hf => hfree f (hsub f hf)
  new x hx := by
    cases h.new x hx with
    | inl hx => exact .inl hx
    | inr hnew =>
      obtain ⟨f, hf, huri⟩ := hnew
      exact .inr ⟨f, hsub f hf, huri⟩

section Pass

variable {H : Hasher} {fetch : String → Option (List DocumentSymbol)}

/-- However far the node loop gets, a row that no symbol hits stays. -/
private theorem upsertNodes_kept {f : IndexedFile} {x : Node} (flat : List FlatSymbol)
    (ids : List RowId)
    {db : Db} (hwf : db.WF) (hfree : ∀ sym ∈ flat, ¬ (sym.toNode H f.args none).Hits x)
    (hx : x ∈ db.nodes) : x ∈ ((upsertNodes H f.args flat ids).run fetch db).2.nodes := by
  induction flat generalizing ids db with
  | nil => exact hx
  | cons sym rest ih =>
    simp only [upsertNodes, IndexM.run, upsertNode, Prog.run_perform_bind, IndexCmd.handle]
    cases hok : db.upsertNode (sym.toNode H f.args (sym.parent.bind (ids[·]?))) with
    | error e => exact hx
    | ok r =>
      obtain ⟨db₁, id⟩ := r
      refine ih (ids ++ [id]) (Db.upsertNode_wf hwf hok)
        (fun s hs => hfree s (List.mem_cons_of_mem _ hs)) ?_
      exact ((upsertNode_rows hwf hok).1 x).mpr (.inr ⟨hx, hfree sym List.mem_cons_self⟩)

/-- A file that is persisted, as far as it goes. -/
private theorem upsertSymbolTree_touched (f : IndexedFile) (hflat : FlatBatch H f.flat) {db : Db}
    (h : db.Stored) :
    Touched [f] db ((upsertSymbolTree H f.args f.flat).run fetch db).2 := by
  have hline : ∀ s ∈ f.flat, 0 ≤ s.range.startLine := fun s hs =>
    hflat.line_nonneg (s.toReconcile H) (List.mem_map_of_mem hs)
  obtain ⟨hstored, hnew⟩ := upsertSymbolTree_frame fetch H f.args f.flat h hline
  refine ⟨hstored, fun x hx hfree => ?_, fun x hx => ?_⟩
  · rw [upsertSymbolTree_nodes]
    exact upsertNodes_kept f.flat [] h.toWF (not_hits_iff.mp (hfree f List.mem_cons_self)) hx
  · cases hnew x hx with
    | inl hold => exact .inl hold
    | inr huri => exact .inr ⟨f, List.mem_cons_self, huri⟩

variable {adapters : List LanguageAdapter} {rootUri language uri : String}

/-- A file that the pass does not index: of no adapter, of another language, or without an
    answer. -/
private theorem indexFiles_skip (hskip : indexedFile? adapters rootUri language fetch uri = none)
    (files : List String) (stats : IndexStats) (db : Db) : ∃ stats',
      (indexFiles H adapters rootUri language (uri :: files) stats).run fetch db =
        (indexFiles H adapters rootUri language files stats').run fetch db := by
  rw [indexFiles]
  cases hselect : selectForUri adapters uri with
  | none => exact ⟨stats, rfl⟩
  | some adapter =>
    by_cases hlang : adapter.languageName = language
    · have hfetch : fetch uri = none := by
        cases hfetch : fetch uri with
        | none => rfl
        | some symbols => simp [indexedFile?, hselect, hlang, hfetch] at hskip
      refine ⟨{ stats with
        filesSeen := stats.filesSeen + 1, fetchErrors := stats.fetchErrors + 1 }, ?_⟩
      simp [hlang, Prog.run_perform_bind, IndexCmd.handle, hfetch]
    · exact ⟨stats, by simp [hlang]⟩

/-- A file that can be read is upserted before the rest. -/
private theorem indexFiles_file {f : IndexedFile}
    (hmade : indexedFile? adapters rootUri language fetch uri = some f) (files : List String)
    (stats : IndexStats) (db : Db) : ∃ stats',
      (indexFiles H adapters rootUri language (uri :: files) stats).run fetch db =
        (upsertSymbolTree H f.args f.flat >>= fun _ =>
          indexFiles H adapters rootUri language files stats').run fetch db := by
  simp only [indexedFile?, Option.bind_eq_bind, Option.bind_eq_some_iff] at hmade
  obtain ⟨adapter, hselect, ⟨⟩, hguard, symbols, hfetch, hf⟩ := hmade
  obtain rfl := Option.some.inj hf
  -- The guard compares the adapter's language with the language of the run.
  have hlang : adapter.languageName = language := by
    by_contra hne
    simp [hne] at hguard
  rw [indexFiles, hselect]
  refine ⟨{ stats with
    filesSeen := stats.filesSeen + 1
    filesIndexed := stats.filesIndexed + 1
    symbolsUpserted := stats.symbolsUpserted +
      (indexedSymbols symbols (modulePathFromUri uri rootUri)).length }, ?_⟩
  simp [hlang, Prog.run_perform_bind, IndexCmd.handle, hfetch]

/-- What a pass has done, however it ends. -/
private theorem indexRepository_touched (files : List String) {db : Db} (h : db.Stored)
    (hflat : ∀ f ∈ indexedFiles adapters rootUri language fetch files, FlatBatch H f.flat) :
    Touched (indexedFiles adapters rootUri language fetch files) db
      ((indexRepository H adapters rootUri language files).run fetch db).2 := by
  rw [indexRepository]
  -- The statistics only count, so they are generalised away before the induction on the files.
  generalize ({} : IndexStats) = stats
  induction files generalizing db stats with
  | nil => exact .refl h
  | cons uri files ih =>
    -- A file that cannot be read is skipped, its rows untouched;
    cases hmade : indexedFile? adapters rootUri language fetch uri with
    | none =>
      rw [indexedFiles, List.filterMap_cons, hmade] at hflat ⊢
      obtain ⟨stats', hrun⟩ := indexFiles_skip (H := H) hmade files stats db
      rw [hrun]
      exact ih h hflat stats'
    | some f =>
      rw [indexedFiles, List.filterMap_cons, hmade] at hflat ⊢
      -- one that can be read is upserted, and the rest only if that went well.
      obtain ⟨stats', hrun⟩ := indexFiles_file (H := H) hmade files stats db
      have htree : Touched (f :: indexedFiles adapters rootUri language fetch files) db
          ((upsertSymbolTree H f.args f.flat).run fetch db).2 :=
        (upsertSymbolTree_touched f (hflat f List.mem_cons_self) h).mono
          fun g hg => List.mem_cons.mpr (.inl (List.mem_singleton.mp hg))
      rw [hrun, IndexM.run, Prog.run_bind]
      rcases hend : Prog.run (IndexCmd.handle fetch) (upsertSymbolTree H f.args f.flat) db with
        ⟨e | _, db₁⟩
      · rw [IndexM.run, hend] at htree
        exact htree
      · rw [IndexM.run, hend] at htree
        refine htree.trans (Touched.mono (ih htree.stored
          (fun g hg => hflat g (List.mem_cons_of_mem f hg)) stats') ?_)
        exact fun g hg => List.mem_cons_of_mem f hg

end Pass

/-! ## Pass after pass -/

/-- What the passes have made of `db₀`: those that got through have indexed the files of `done`,
    each with the row ids given, and the others were to index those of `partly`. -/
structure PassesIndexed (H : Hasher) (db₀ : Db) (done : List (IndexedFile × List RowId))
    (partly : List IndexedFile) (db : Db) : Prop where
  stored : db.Stored
  row : ∀ f ∈ done, ∀ i < f.1.flat.length, ∃ x ∈ db.nodes, RowOfFile H f.1 f.2 i x
  rest : ∀ x ∈ db.nodes, (∃ f ∈ done, ∃ i, RowOfFile H f.1 f.2 i x) ∨
    (x ∈ db₀.nodes ∧ ∀ f ∈ done, ¬ f.1.Hits x) ∨ ∃ f ∈ partly, x.uri = f.args.uri
  kept : ∀ x ∈ db₀.nodes, (∀ f ∈ done, ¬ f.1.Hits x) → (∀ f ∈ partly, ¬ f.Hits x) → x ∈ db.nodes

/-- Fewer files stay distinct. -/
theorem RepoDistinct.sublist {files files' : List IndexedFile} (h : RepoDistinct files)
    (hsub : List.Sublist files' files) : RepoDistinct files' :=
  ⟨h.fqns.sublist (hsub.flatMap _), h.keys.sublist (hsub.flatMap _)⟩

/-- Distinct files stay distinct in any order. -/
private theorem RepoDistinct.perm {files files' : List IndexedFile} (h : RepoDistinct files)
    (hperm : List.Perm files' files) : RepoDistinct files' :=
  ⟨(hperm.flatMap_right _).nodup_iff.mpr h.fqns, (hperm.flatMap_right _).nodup_iff.mpr h.keys⟩

/-- Two files of a distinct repository are distinct from one another. -/
private theorem RepoDistinct.pair {files files' : List IndexedFile}
    (h : RepoDistinct (files ++ files'))
    {f g : IndexedFile} (hf : f ∈ files) (hg : g ∈ files') : RepoDistinct [f, g] :=
  h.sublist (List.Sublist.append (List.singleton_sublist.mpr hf) (List.singleton_sublist.mpr hg))

section Passes

variable {H : Hasher} {db₀ db db' : Db} {done : List (IndexedFile × List RowId)}
  {partly : List IndexedFile}

/-- One more pass that gets through. -/
private theorem PassesIndexed.complete (h : PassesIndexed H db₀ done partly db)
    {done' : List (IndexedFile × List RowId)} (hpass : RepoIndexed H db done' db')
    (hdistinct : RepoDistinct (done.map (·.1) ++ done'.map (·.1))) :
    PassesIndexed H db₀ (done ++ done') partly db' where
  stored := hpass.stored
  -- The rows of an earlier language stay, as the files are distinct,
  row := by
    intro f hf i hi
    rcases List.mem_append.mp hf with hf | hf
    · obtain ⟨x, hx, hrow⟩ := h.row f hf i hi
      refine ⟨x, hpass.kept x hx fun g hg => ?_, hrow⟩
      exact hrow.not_hits (hdistinct.pair (List.mem_map_of_mem hf) (List.mem_map_of_mem hg))
    · exact hpass.row f hf i hi
  -- and each row is of a file done, was there and is hit by none, or is of a file partly done.
  rest := by
    intro x hx
    rcases hpass.rest x hx with ⟨f, hf, i, hrow⟩ | ⟨hold, hfree⟩
    · exact .inl ⟨f, List.mem_append_right _ hf, i, hrow⟩
    rcases h.rest x hold with ⟨f, hf, i, hrow⟩ | ⟨hx₀, hfree₀⟩ | hpartly
    · exact .inl ⟨f, List.mem_append_left _ hf, i, hrow⟩
    · refine .inr (.inl ⟨hx₀, fun f hf => ?_⟩)
      rcases List.mem_append.mp hf with hf | hf
      · exact hfree₀ f hf
      · exact hfree f hf
    · exact .inr (.inr hpartly)
  kept := by
    intro x hx hdone hpartly
    refine hpass.kept x (h.kept x hx (fun f hf => hdone f (List.mem_append_left _ hf)) hpartly) ?_
    exact fun f hf => hdone f (List.mem_append_right _ hf)

/-- One that fails. -/
private theorem PassesIndexed.fails (h : PassesIndexed H db₀ done partly db)
    {files : List IndexedFile}
    (hpass : Touched files db db') (hdistinct : RepoDistinct (done.map (·.1) ++ files)) :
    PassesIndexed H db₀ done (partly ++ files) db' where
  stored := hpass.stored
  row := by
    -- What a failed pass touched are rows of its own files.
    intro f hf i hi
    obtain ⟨x, hx, hrow⟩ := h.row f hf i hi
    refine ⟨x, hpass.kept x hx fun g hg => ?_, hrow⟩
    exact hrow.not_hits (hdistinct.pair (List.mem_map_of_mem hf) hg)
  -- A row that is new lies in one of those files.
  rest := by
    intro x hx
    cases hpass.new x hx with
    | inl hold =>
      rcases h.rest x hold with hrow | hx₀ | ⟨f, hf, huri⟩
      · exact .inl hrow
      · exact .inr (.inl hx₀)
      · exact .inr (.inr ⟨f, List.mem_append_left _ hf, huri⟩)
    | inr hnew =>
      obtain ⟨f, hf, huri⟩ := hnew
      exact .inr (.inr ⟨f, List.mem_append_right _ hf, huri⟩)
  kept := by
    intro x hx hdone hpartly
    refine hpass.kept x (h.kept x hx hdone fun f hf => hpartly f (List.mem_append_left _ hf)) ?_
    exact fun f hf => hpartly f (List.mem_append_right _ hf)

end Passes

/-! ## One language -/

/-- How the pass of a language has ended. -/
inductive PassEnd where
  | indexed (stats : IndexStats)
  | notAcquired
  | failed
deriving DecidableEq

namespace PassEnd

/-- Whether a language was indexed to the end. -/
def isIndexed : PassEnd → Bool
  | indexed _ => true
  | notAcquired => false
  | failed => false

/-- What is done to the supervisor and printed in a pass that ends so. -/
def events (language : String) : PassEnd → List RunnerEvent
  | indexed stats => [.acquire language, .shutdown language, .indexed language stats]
  | notAcquired => [.acquire language, .failed language]
  | failed => [.acquire language, .reportFailure language, .shutdown language, .failed language]

end PassEnd

/-- The files that the pass of a language is to index. -/
def IndexHost.files (host : IndexHost) (adapters : List LanguageAdapter)
    (rootUri language : String) : List IndexedFile :=
  if host.acquires language then
    match host.discovers language with
    | none => []
    | some files => indexedFiles adapters rootUri language (host.fetch language) files
  else []

section Language

variable (H : Hasher) (adapters : List LanguageAdapter) (rootUri : String) (host : IndexHost)
  (language : String)

/-- What the pass of a language makes of `db`, for each way in which it ends. -/
inductive LanguagePass (db : Db) : PassEnd → Db → Prop
  | indexed {files : List String} {stats : IndexStats} {db' : Db}
      (acquired : host.acquires language = true)
      (walked : host.discovers language = some files)
      (run : (indexRepository H adapters rootUri language files).run (host.fetch language) db =
        (.ok stats, db')) : LanguagePass db (.indexed stats) db'
  | notAcquired (refused : host.acquires language = false) : LanguagePass db .notAcquired db
  | notWalked (acquired : host.acquires language = true)
      (walked : host.discovers language = none) : LanguagePass db .failed db
  | failed {files : List String} {e : DbError} {db' : Db}
      (acquired : host.acquires language = true)
      (walked : host.discovers language = some files)
      (run : (indexRepository H adapters rootUri language files).run (host.fetch language) db =
        (.error e, db')) : LanguagePass db .failed db'

variable {H adapters rootUri host language} in
/-- A language is skipped when its server is not acquired. -/
private theorem LanguagePass.notAcquired_iff {db db' : Db} {e : PassEnd}
    (h : LanguagePass H adapters rootUri host language db e db') :
    e = .notAcquired ↔ host.acquires language = false := by
  cases h with
  | notAcquired refused => simp [refused]
  | indexed acquired => simp [acquired]
  | notWalked acquired => simp [acquired]
  | failed acquired => simp [acquired]

/-- A language of an adapter, and the loop after it. -/
private theorem indexLanguages_cons (hadapter : ∃ a ∈ adapters, a.languageName = language)
    (rest : List String) (failures : Nat) (w : RunnerWorld) : ∃ e db',
      LanguagePass H adapters rootUri host language w.db e db' ∧
      indexLanguages H adapters rootUri host (language :: rest) failures w =
        indexLanguages H adapters rootUri host rest
          (failures + if e.isIndexed then 0 else 1) ⟨db', w.events ++ e.events language⟩ := by
  have hfound : (Lsp.adapterForLanguage adapters language).isNone = false := by
    obtain ⟨a, ha, hname⟩ := hadapter
    rw [Lsp.adapterForLanguage, ← Option.not_isSome, Bool.not_eq_false', List.find?_isSome]
    exact ⟨a, ha, by simpa using hname⟩
  -- Does the language acquire its server, can its files be walked, does the pass go through?
  rw [indexLanguages, indexLanguage, hfound]
  cases hacquires : host.acquires language with
  | false =>
    refine ⟨.notAcquired, w.db, .notAcquired hacquires, ?_⟩
    simp [RunnerWorld.log, PassEnd.events, PassEnd.isIndexed]
  | true =>
    cases hwalked : host.discovers language with
    | none =>
      refine ⟨.failed, w.db, .notWalked hacquires hwalked, ?_⟩
      simp [indexWalked, hwalked, RunnerWorld.log, PassEnd.events, PassEnd.isIndexed]
    | some files =>
      rcases hrun : (indexRepository H adapters rootUri language files).run (host.fetch language)
        w.db with ⟨e | stats, db'⟩
      · refine ⟨.failed, db', .failed hacquires hwalked hrun, ?_⟩
        simp [indexWalked, hwalked, hrun, RunnerWorld.log, PassEnd.events, PassEnd.isIndexed]
      · refine ⟨.indexed stats, db', .indexed hacquires hwalked hrun, ?_⟩
        simp [indexWalked, hwalked, hrun, RunnerWorld.log, PassEnd.events, PassEnd.isIndexed]

end Language

/-! ## Every language -/

/-- The files of those languages whose pass has ended in a way. -/
def filesWhere (files : String → List IndexedFile) (p : PassEnd → Bool)
    (tried : List (String × PassEnd)) : List IndexedFile :=
  tried.flatMap fun t => if p t.2 then files t.1 else []

/-- One more language adds its files. -/
private theorem filesWhere_snoc (files : String → List IndexedFile) (p : PassEnd → Bool)
    (tried : List (String × PassEnd)) (t : String × PassEnd) :
    filesWhere files p (tried ++ [t]) =
      filesWhere files p tried ++ if p t.2 then files t.1 else [] := by
  simp [filesWhere]

/-- The files of some languages are among those of the languages tried. -/
private theorem filesWhere_sublist (files : String → List IndexedFile) (p : PassEnd → Bool)
    (tried : List (String × PassEnd)) :
    List.Sublist (filesWhere files p tried) ((tried.map Prod.fst).flatMap files) := by
  induction tried with
  | nil => exact List.Sublist.refl _
  | cons t tried ih =>
    rw [filesWhere, List.flatMap_cons, List.map_cons, List.flatMap_cons]
    refine List.Sublist.append ?_ ih
    cases p t.2 with
    | false => exact List.nil_sublist _
    | true => exact List.Sublist.refl _

/-- Each file is of a pass that ended one way or the other. -/
private theorem filesWhere_perm (files : String → List IndexedFile) (p : PassEnd → Bool)
    (tried : List (String × PassEnd)) :
    List.Perm (filesWhere files p tried ++ filesWhere files (fun e => !p e) tried)
      ((tried.map Prod.fst).flatMap files) := by
  rw [filesWhere, filesWhere, List.flatMap_map]
  refine (List.flatMap_append_perm _ _ _).trans (.of_eq (List.flatMap_congr fun t _ => ?_))
  cases p t.2 <;> simp

section Languages

variable {H : Hasher} {adapters : List LanguageAdapter} {rootUri : String} {host : IndexHost}

/-- What the languages tried have made of the graph. -/
def LanguagesIndexed (H : Hasher) (adapters : List LanguageAdapter) (rootUri : String)
    (host : IndexHost) (db₀ : Db) (tried : List (String × PassEnd)) (db : Db) : Prop :=
  ∃ done, PassesIndexed H db₀ done
      (filesWhere (host.files adapters rootUri) (fun e => !e.isIndexed) tried) db ∧
    done.map (·.1) = filesWhere (host.files adapters rootUri) PassEnd.isIndexed tried

/-- One more language. -/
private theorem LanguagesIndexed.step {db₀ db db' : Db} {tried : List (String × PassEnd)}
    (h : LanguagesIndexed H adapters rootUri host db₀ tried db) {language : String} {e : PassEnd}
    (hpass : LanguagePass H adapters rootUri host language db e db')
    (hdistinct : RepoDistinct (filesWhere (host.files adapters rootUri) PassEnd.isIndexed tried ++
      host.files adapters rootUri language)) :
    LanguagesIndexed H adapters rootUri host db₀ (tried ++ [(language, e)]) db' := by
  obtain ⟨done, hdone, hfiles⟩ := h
  rw [LanguagesIndexed, filesWhere_snoc, filesWhere_snoc]
  -- Only a pass that goes through completes files; one that fails leaves them partly done.
  cases hpass with
  | notAcquired refused =>
    have hnone : host.files adapters rootUri language = [] := by simp [IndexHost.files, refused]
    refine ⟨done, by simpa [PassEnd.isIndexed, hnone] using hdone, ?_⟩
    simp [PassEnd.isIndexed, hfiles]
  | notWalked acquired walked =>
    have hnone : host.files adapters rootUri language = [] := by
      simp [IndexHost.files, acquired, walked]
    refine ⟨done, by simpa [PassEnd.isIndexed, hnone] using hdone, ?_⟩
    simp [PassEnd.isIndexed, hfiles]
  | @indexed files stats db' acquired walked run =>
    have hsome : host.files adapters rootUri language =
        indexedFiles adapters rootUri language (host.fetch language) files := by
      simp [IndexHost.files, acquired, walked]
    rw [hsome] at hdistinct
    -- The files of this language are done now, beside those of the earlier ones.
    obtain ⟨done', hpass, hfiles'⟩ := indexRepository_indexed hdone.stored
      (hdistinct.sublist (List.sublist_append_right _ _)) run
    refine ⟨done ++ done', ?_, by simp [PassEnd.isIndexed, hfiles, hfiles', hsome]⟩
    have hmore := hdone.complete hpass (by rwa [hfiles, hfiles'])
    simpa [PassEnd.isIndexed] using hmore
  | @failed files err db' acquired walked run =>
    have hsome : host.files adapters rootUri language =
        indexedFiles adapters rootUri language (host.fetch language) files := by
      simp [IndexHost.files, acquired, walked]
    rw [hsome] at hdistinct
    have hpassed := hdistinct.sublist (List.sublist_append_right _ _)
    have hbatch : ∀ f ∈ indexedFiles adapters rootUri language (host.fetch language) files,
        FlatBatch H f.flat := fun f hf => by
      obtain ⟨uri, -, hmade⟩ := List.mem_filterMap.mp hf
      exact hpassed.batch hf hmade
    -- The rows touched are of this language's files, and count as partly done.
    have htouched := indexRepository_touched files hdone.stored hbatch
    rw [run] at htouched
    refine ⟨done, ?_, by simp [PassEnd.isIndexed, hfiles]⟩
    have hmore := hdone.fails htouched (by rwa [hfiles])
    simpa [PassEnd.isIndexed, hsome] using hmore

/-- The passes of several languages, one after the other, with how they ended. -/
inductive Passes (H : Hasher) (adapters : List LanguageAdapter) (rootUri : String)
    (host : IndexHost) : Db → List (String × PassEnd) → Db → Prop
  | nil (db : Db) : Passes H adapters rootUri host db [] db
  | cons {db db' db'' : Db} {language : String} {e : PassEnd} {tried : List (String × PassEnd)}
      (pass : LanguagePass H adapters rootUri host language db e db')
      (rest : Passes H adapters rootUri host db' tried db'') :
      Passes H adapters rootUri host db ((language, e) :: tried) db''

/-- The languages skipped are those not acquired. -/
private theorem Passes.refused {db db' : Db} {tried : List (String × PassEnd)}
    (h : Passes H adapters rootUri host db tried db') :
    ∀ t ∈ tried, t.2 = .notAcquired ↔ host.acquires t.1 = false := by
  induction h with
  | nil => exact fun _ ht => absurd ht List.not_mem_nil
  | cons pass _ ih =>
    intro t ht
    rcases List.mem_cons.mp ht with rfl | ht
    · exact pass.notAcquired_iff
    · exact ih t ht

/-- What they make of the graph after the passes of `before`. -/
private theorem Passes.indexed {db₀ db db' : Db} {before tried : List (String × PassEnd)}
    (hpasses : Passes H adapters rootUri host db tried db')
    (h : LanguagesIndexed H adapters rootUri host db₀ before db)
    (hdistinct : RepoDistinct
      (((before ++ tried).map Prod.fst).flatMap (host.files adapters rootUri))) :
    LanguagesIndexed H adapters rootUri host db₀ (before ++ tried) db' := by
  induction hpasses generalizing before with
  | nil => simpa using h
  | @cons db db' db'' language e tried pass _ ih =>
    have hstep := h.step pass (hdistinct.sublist (by
      rw [List.map_append, List.flatMap_append, List.map_cons, List.flatMap_cons]
      exact (filesWhere_sublist _ _ before).append (List.sublist_append_left _ _)))
    simpa using ih hstep (by simpa using hdistinct)

variable (H adapters rootUri host) in
/-- The loop is one pass of each language, whatever becomes of them. -/
private theorem indexLanguages_passes (languages : List String) (failures : Nat) (w : RunnerWorld)
    (hadapters : ∀ language ∈ languages, ∃ a ∈ adapters, a.languageName = language) :
    ∃ tried, tried.map Prod.fst = languages ∧
      Passes H adapters rootUri host w.db tried
        (indexLanguages H adapters rootUri host languages failures w).2.db ∧
      (indexLanguages H adapters rootUri host languages failures w).2.events =
        w.events ++ tried.flatMap (fun t => t.2.events t.1) ∧
      (indexLanguages H adapters rootUri host languages failures w).1 =
        failures + tried.countP (fun t => !t.2.isIndexed) := by
  -- Induction on the languages; each contributes its end, its events and one failure at most.
  induction languages generalizing failures w with
  | nil => exact ⟨[], rfl, .nil _, by simp [indexLanguages], by simp [indexLanguages]⟩
  | cons language rest ih =>
    obtain ⟨e, db', hpass, hrun⟩ := indexLanguages_cons H adapters rootUri host language
      (hadapters language List.mem_cons_self) rest failures w
    obtain ⟨tried, hmap, hpasses, hevents, hfailures⟩ := ih
      (failures + if e.isIndexed then 0 else 1) ⟨db', w.events ++ e.events language⟩
      (fun l hl => hadapters l (List.mem_cons_of_mem _ hl))
    rw [hrun]
    refine ⟨(language, e) :: tried, by simp [hmap], .cons hpass hpasses, ?_, ?_⟩
    · rw [hevents, List.flatMap_cons, List.append_assoc]
    · rw [hfailures, List.countP_cons]
      cases e.isIndexed with
      | false =>
        simp only [Bool.false_eq_true, if_false, Bool.not_false, if_true]
        omega
      | true => simp

/-- Every file's symbols have its module root's fqn among them, so no uri is indexed twice. -/
private theorem RepoDistinct.uris_nodup_of_root (rootUri : String) {files : List IndexedFile}
    (h : RepoDistinct files)
    (hroot : ∀ f ∈ files, modulePathFromUri f.args.uri rootUri ∈ f.flat.map (·.fqn)) :
    (files.map (·.args.uri)).Nodup := by
  refine List.pairwise_map.mpr ((List.nodup_flatMap.mp h.fqns).2.imp_of_mem ?_)
  intro f g hf hg hdisjoint heq
  exact hdisjoint (hroot f hf) (by rw [heq]; exact hroot g hg)

/-- The files of a pass have their module roots. -/
private theorem IndexHost.files_root {language : String} {f : IndexedFile}
    (hf : f ∈ host.files adapters rootUri language) :
    modulePathFromUri f.args.uri rootUri ∈ f.flat.map (·.fqn) := by
  rw [IndexHost.files] at hf
  split at hf
  · split at hf
    · cases hf
    · obtain ⟨uri, -, hmade⟩ := List.mem_filterMap.mp hf
      obtain ⟨huri, symbols, hsymbols⟩ := indexedFile?_eq_some hmade
      rw [hsymbols, huri]
      exact List.mem_map.mpr ⟨.moduleRoot (modulePathFromUri uri rootUri),
        List.mem_append_right _ (List.mem_singleton_self _), rfl⟩
  · cases hf

end Languages

/-! ## The command -/

/-- How the command has gone over the languages when the passes have ended as in `tried`. -/
structure RunTried (adapters : List LanguageAdapter) (host : IndexHost) (w : RunnerWorld)
    (tried : List (String × PassEnd)) (code : ExitCode) (w' : RunnerWorld) : Prop where
  /-- Every language is tried once, in order. -/
  languages : tried.map Prod.fst = adapters.map (·.languageName)
  /-- A server that was acquired is shut down before the next language. -/
  events : w'.events = w.events ++ tried.flatMap fun t => t.2.events t.1
  code : code = .failure ↔ ∀ t ∈ tried, t.2.isIndexed = false
  refused : ∀ t ∈ tried, t.2 = .notAcquired ↔ host.acquires t.1 = false

/-- What it has made of the rows of `w`. -/
structure RunIndexed (H : Hasher) (adapters : List LanguageAdapter) (rootUri : String)
    (host : IndexHost) (w : RunnerWorld) (tried : List (String × PassEnd)) (w' : RunnerWorld) :
    Prop where
  /-- A file of a language that got through has its symbols' rows, and else such old rows only that
      none of its symbols hits. -/
  rows : ∀ t ∈ tried, t.2.isIndexed = true → ∀ f ∈ host.files adapters rootUri t.1,
    ∃ ids : List RowId, (∀ i < f.flat.length, ∃ x ∈ w'.db.nodes, RowOfFile H f ids i x) ∧
      ∀ x ∈ w'.db.nodes, x.uri = f.args.uri →
        (∃ i, RowOfFile H f ids i x) ∨ (x ∈ w.db.nodes ∧ ¬ f.Hits x)
  /-- What no file of a language writes over stays. -/
  kept : ∀ x ∈ w.db.nodes,
    (∀ t ∈ tried, ∀ f ∈ host.files adapters rootUri t.1, ¬ f.Hits x) → x ∈ w'.db.nodes
  /-- And there are no rows of other files than those. -/
  new : ∀ x ∈ w'.db.nodes,
    x ∈ w.db.nodes ∨ ∃ t ∈ tried, ∃ f ∈ host.files adapters rootUri t.1, x.uri = f.args.uri

/-- The files are those of the languages chosen. -/
private theorem mem_filesWhere {files : String → List IndexedFile} {p : PassEnd → Bool}
    {tried : List (String × PassEnd)} {f : IndexedFile} :
    f ∈ filesWhere files p tried ↔ ∃ t ∈ tried, p t.2 = true ∧ f ∈ files t.1 := by
  simp only [filesWhere, List.mem_flatMap]
  refine exists_congr fun t => and_congr_right fun _ => ?_
  cases p t.2 <;> simp

/-- The rows after the passes of all languages. -/
private theorem Passes.runIndexed {H : Hasher} {adapters : List LanguageAdapter} {rootUri : String}
    {host : IndexHost} {w w' : RunnerWorld} {tried : List (String × PassEnd)}
    (hpasses : Passes H adapters rootUri host w.db tried w'.db) (h : w.db.Stored)
    (hdistinct : RepoDistinct ((tried.map Prod.fst).flatMap (host.files adapters rootUri))) :
    RunIndexed H adapters rootUri host w tried w' := by
  -- At the start nothing is done.
  have hinit : LanguagesIndexed H adapters rootUri host w.db [] w.db :=
    ⟨[], ⟨h, by simp, fun x hx => .inr (.inl ⟨hx, by simp⟩), fun x hx _ _ => hx⟩, rfl⟩
  obtain ⟨done, hdone, hfiles⟩ := hpasses.indexed hinit hdistinct
  rw [List.nil_append] at hdone hfiles
  -- Files done and files partly done are all of distinct languages and names.
  have hboth := hdistinct.perm (filesWhere_perm _ PassEnd.isIndexed tried)
  have huris := hboth.uris_nodup_of_root rootUri fun f hf => by
    rcases List.mem_append.mp hf with hf | hf
    · obtain ⟨t, -, -, hf⟩ := mem_filesWhere.mp hf
      exact IndexHost.files_root hf
    · obtain ⟨t, -, -, hf⟩ := mem_filesWhere.mp hf
      exact IndexHost.files_root hf
  rw [← hfiles, List.map_append, List.nodup_append] at huris
  exact {
    rows := by
      intro t ht hindexed f hf
      have hmem : f ∈ done.map (·.1) := hfiles ▸ mem_filesWhere.mpr ⟨t, ht, hindexed, hf⟩
      obtain ⟨d, hd, rfl⟩ := List.mem_map.mp hmem
      refine ⟨d.2, hdone.row d hd, fun x hx hu => ?_⟩
      rcases hdone.rest x hx with ⟨g, hg, i, hrow⟩ | ⟨hx₀, hfree⟩ | ⟨g, hg, hgu⟩
      · -- The row of a symbol of this uri is the row of a symbol of this file.
        have hnodup := huris.1
        rw [List.map_map] at hnodup
        obtain rfl : g = d := List.inj_on_of_nodup_map hnodup hg hd (hrow.uri.symm.trans hu)
        exact .inl ⟨i, hrow⟩
      · exact .inr ⟨hx₀, hfree d hd⟩
      · -- A pass that failed had other uris.
        exact absurd (hu.symm.trans hgu) (huris.2.2 _ (List.mem_map_of_mem hmem) _
          (List.mem_map_of_mem hg))
    kept := by
      intro x hx hfree
      refine hdone.kept x hx (fun d hd => ?_) fun f hf => ?_
      · obtain ⟨t, ht, -, hf⟩ := mem_filesWhere.mp (hfiles ▸ List.mem_map_of_mem hd)
        exact hfree t ht _ hf
      · obtain ⟨t, ht, -, hf⟩ := mem_filesWhere.mp hf
        exact hfree t ht f hf
    new := by
      intro x hx
      rcases hdone.rest x hx with ⟨d, hd, i, hrow⟩ | ⟨hx₀, -⟩ | ⟨f, hf, hu⟩
      · obtain ⟨t, ht, -, hf⟩ := mem_filesWhere.mp (hfiles ▸ List.mem_map_of_mem hd)
        exact .inr ⟨t, ht, d.1, hf, hrow.uri⟩
      · exact .inl hx₀
      · obtain ⟨t, ht, -, hf⟩ := mem_filesWhere.mp hf
        exact .inr ⟨t, ht, f, hf, hu⟩ }

/-- Where the directory of the servers or the database is missing, `semnav index` fails and does
    nothing.  Else it tries every language once, whatever became of those before, with the server
    shut down in between, and it fails only if no pass got through; and as long as the symbols of
    all files are distinct, the files of each language whose pass got through have the rows of their
    symbols at the end, whatever the other passes did, and no row is lost that no symbol hits. -/
theorem run_index_exact (H : Hasher) (adapters : List LanguageAdapter) (rootUri : String)
    (host : IndexHost) (w : RunnerWorld) :
    ((host.createsServersDir && host.opensDb) = false →
      runIndex H adapters rootUri host w = (.failure, w)) ∧
    ((host.createsServersDir && host.opensDb) = true →
      ∃ tried, RunTried adapters host w tried (runIndex H adapters rootUri host w).1
          (runIndex H adapters rootUri host w).2 ∧
        (w.db.Stored → RepoDistinct
            ((adapters.map (·.languageName)).flatMap (host.files adapters rootUri)) →
          RunIndexed H adapters rootUri host w tried (runIndex H adapters rootUri host w).2)) := by
  constructor
  · -- Without the directory or the database no language is tried.
    intro hmissing
    unfold runIndex
    cases hcreates : host.createsServersDir with
    | false => rfl
    | true =>
      have hopens : host.opensDb = false := by rwa [hcreates, Bool.true_and] at hmissing
      rw [hopens]
      rfl
  · -- With both, the languages are tried in order,
    intro hthere
    obtain ⟨hcreates, hopens⟩ := Bool.and_eq_true_iff.mp hthere
    obtain ⟨tried, hmap, hpasses, hevents, hfailures⟩ :=
      indexLanguages_passes H adapters rootUri host (adapters.map (·.languageName)) 0 w
        fun l hl => List.mem_map.mp hl
    refine ⟨tried, ?_⟩
    simp only [runIndex, hcreates, hopens, Bool.not_true, Bool.false_eq_true, if_false]
    refine ⟨⟨hmap, hevents, ?_, hpasses.refused⟩, fun hstored hdistinct => ?_⟩
    · -- and the exit code says whether every one of them failed.
      have hlength : (adapters.map (·.languageName)).length = tried.length := by
        rw [← hmap, List.length_map]
      have hall : tried.countP (fun t => !t.2.isIndexed) = tried.length ↔
          ∀ t ∈ tried, t.2.isIndexed = false := by simp [List.countP_eq_length]
      rw [hfailures, hlength, Nat.zero_add, ← hall]
      split
      · exact iff_of_true rfl ‹_›
      · exact iff_of_false (by decide) ‹_›
    · -- The rows need the graph before to be a stored one, and the files to be distinct.
      exact hpasses.runIndexed hstored (hmap ▸ hdistinct)

/-- A machine with a server for Python alone. -/
def pythonHost : IndexHost where
  createsServersDir := true
  opensDb := true
  acquires language := language == "python"
  discovers _ := some ["file:///app.py"]
  fetch _ := appFetch classTree

/-- `run_index_exact` where the other servers do not start. -/
theorem run_index_exact_python : ∃ tried,
    RunTried (builtinAdapters []) pythonHost ⟨.empty, []⟩ tried
      (runIndex lengthHasher (builtinAdapters []) "file:///" pythonHost ⟨.empty, []⟩).1
      (runIndex lengthHasher (builtinAdapters []) "file:///" pythonHost ⟨.empty, []⟩).2 ∧
    RunIndexed lengthHasher (builtinAdapters []) "file:///" pythonHost ⟨.empty, []⟩ tried
      (runIndex lengthHasher (builtinAdapters []) "file:///" pythonHost ⟨.empty, []⟩).2 := by
  obtain ⟨tried, htried, hindexed⟩ := (run_index_exact lengthHasher (builtinAdapters []) "file:///"
    pythonHost ⟨.empty, []⟩).2 rfl
  exact ⟨tried, htried, hindexed ⟨Db.empty_wf, by decide⟩ ⟨by decide, by decide⟩⟩

end Semnav.Indexer
