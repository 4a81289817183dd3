import Semnav.Indexer.Watcher
import Semnav.Spec.DeletedFiles
import Semnav.Spec.ReconcilePost

/-!
# Which files the watcher adds

The watcher tests the one path that it is told of against the root's `.gitignore`, where discovery
walks down to it.  The two differ for a file that discovery does not come to: what the watcher lets
through is committed, with the module root at least.

## Key results

- `Workspace.lists_iff`: discovery lists the files that it reaches
- `watcher_adds_listed_iff`: when handling events adds rows for listed uris only
- `watcher_adds_hidden_file`: a file in a hidden directory
-/

namespace Semnav.Indexer

open Semnav.ForStd Semnav.Graph Semnav.Adapters

/-! ## Uris of paths -/

/-- A path as it is written below the root directory. -/
private def slashed (path : Path) : List Char := path.flatMap fun name => '/' :: name.text.toList

/-- A path is written name after name, a slash before each. -/
private theorem slashed_cons (name : FileName) (path : Path) :
    slashed (name :: path) = '/' :: (name.text.toList ++ slashed path) := by
  simp [slashed]

/-- The first name is what stands before the next slash. -/
private theorem takeWhile_slashed (name : FileName) (path : Path) :
    (name.text.toList ++ slashed path).takeWhile (· ≠ '/') = name.text.toList := by
  have hname : ∀ c ∈ name.text.toList, decide (c ≠ '/') = true := by
    intro c hc
    apply decide_eq_true
    intro heq
    exact name.no_slash (heq ▸ hc)
  have hrest : (slashed path).takeWhile (· ≠ '/') = [] := by
    cases path with
    | nil => rfl
    | cons next path => rw [slashed_cons]; rfl
  rw [List.takeWhile_append_of_pos hname, hrest, List.append_nil]

/-- Two paths are written differently. -/
private theorem slashed_injective {p q : Path} (h : slashed p = slashed q) : p = q := by
  induction p generalizing q with
  | nil =>
    cases q with
    | nil => rfl
    | cons name q => rw [slashed_cons] at h; exact nomatch h
  | cons name p ih =>
    cases q with
    | nil => rw [slashed_cons] at h; exact nomatch h
    | cons name' q =>
      rw [slashed_cons, slashed_cons, List.cons.injEq] at h
      have hname : name.text.toList = name'.text.toList := by
        -- The name ends where the next slash is, so the front of the text gives it back.
        rw [← takeWhile_slashed name p, h.2, takeWhile_slashed]
      have hpath : p = q := by
        rw [hname] at h
        exact ih (List.append_cancel_left h.2)
      have hsame : name = name' := by
        cases name
        cases name'
        simpa using String.toList_injective hname
      rw [hsame, hpath]

/-- The text of a path, also with the root alone. -/
private theorem toStringLossy_toList (path : Path) :
    (Path.toStringLossy path).toList = if path = [] then ['/'] else slashed path := by
  unfold Path.toStringLossy
  split
  · rfl
  · exact String.toList_ofList

/-- No name is empty, so that only the root directory is written as one slash. -/
private theorem slashed_ne_slash (path : Path) : slashed path ≠ ['/'] := by
  intro h
  cases path with
  | nil => exact nomatch h
  | cons name path =>
    rw [slashed_cons, List.cons.injEq] at h
    have hempty := (List.append_eq_nil_iff.mp h.2).1
    exact name.ne_empty (String.toList_eq_nil_iff.mp hempty)

/-- Two paths are different as strings. -/
private theorem toStringLossy_injective {p q : Path}
    (h : Path.toStringLossy p = Path.toStringLossy q) :
    p = q := by
  have hchars := congrArg String.toList h
  rw [toStringLossy_toList, toStringLossy_toList] at hchars
  by_cases hp : p = [] <;> by_cases hq : q = []
  · rw [hp, hq]
  · rw [if_pos hp, if_neg hq] at hchars
    exact absurd hchars.symm (slashed_ne_slash q)
  · rw [if_neg hp, if_pos hq] at hchars
    exact absurd hchars (slashed_ne_slash p)
  · rw [if_neg hp, if_neg hq] at hchars
    exact slashed_injective hchars

/-- An absolute path starts with a slash. -/
private theorem pathToUri_eq (path : Path) :
    pathToUri path = "file://" ++ Path.toStringLossy path := by
  have hhead : (Path.toStringLossy path).toList.head? = some '/' := by
    rw [toStringLossy_toList]
    cases path with
    | nil => rfl
    | cons name path => rw [if_neg (List.cons_ne_nil _ _), slashed_cons]; rfl
  simp [pathToUri, hhead]

/-- Two paths are different as URIs. -/
private theorem pathToUri_injective {p q : Path} (h : pathToUri p = pathToUri q) : p = q := by
  rw [pathToUri_eq, pathToUri_eq] at h
  have hchars := congrArg String.toList h
  rw [String.toList_append, String.toList_append] at hchars
  exact toStringLossy_injective (String.toList_injective (List.append_cancel_left hchars))

/-! ## What discovery lists -/

namespace Workspace

variable (ws : Workspace)

/-- `discover_files` succeeds, and the uri is one of its results. -/
def Lists (adapters : List LanguageAdapter) (uri : String) : Prop :=
  ∃ uris, ws.discoverFiles adapters = .ok uris ∧ uri ∈ uris

/-- What the walk comes to below the root. -/
def reach (rel : Path) : Option SourceTree :=
  (ignorePruning ws.globalIgnore).reach ws.above ws.root ws.tree rel

/-- The walk comes to no directory that it cannot read, and to the file at the path: neither the
    file nor a directory on the way to it is a link, ruled out or hidden. -/
def Discovers (path : Path) : Prop :=
  (∀ rel, ws.reach rel ≠ some .locked) ∧
    ∃ rel content, path = ws.root ++ rel ∧ ws.reach rel = some (.file content)

variable {ws} {adapters : List LanguageAdapter}

/-- The walk meets a directory it may not read where there is one. -/
private theorem denied_mem_walk {path : Path} :
    .denied path ∈ ws.walk ↔ ∃ rel, ws.reach rel = some .locked ∧ path = ws.root ++ rel := by
  rw [walk, Pruning.mem_walk_iff _ _ _ ws.tree ws.distinct]
  constructor
  · intro h
    obtain ⟨rel, t, hreach, hv⟩ := h
    cases t with
    | locked =>
      simp only [FileTree.visits, List.mem_cons, reduceCtorEq, Visit.denied.injEq, false_or,
        List.not_mem_nil, or_false] at hv
      exact ⟨rel, hreach, hv⟩
    | _ => simp [FileTree.visits] at hv
  · intro h
    obtain ⟨rel, hreach, rfl⟩ := h
    exact ⟨rel, .locked, hreach, by simp [FileTree.visits]⟩

/-- The walk meets every file it can reach. -/
private theorem file_mem_walk {path : Path} :
    .entry path .file ∈ ws.walk ↔
      ∃ rel content, path = ws.root ++ rel ∧ ws.reach rel = some (.file content) := by
  rw [walk, Pruning.mem_walk_iff _ _ _ ws.tree ws.distinct]
  constructor
  · intro h
    obtain ⟨rel, t, hreach, hv⟩ := h
    cases t with
    | file content =>
      simp only [FileTree.visits, FileTree.fileType, List.mem_singleton, Visit.entry.injEq,
        and_true] at hv
      exact ⟨rel, content, hv, hreach⟩
    | _ => simp [FileTree.visits, FileTree.fileType] at hv
  · intro h
    obtain ⟨rel, content, rfl, hreach⟩ := h
    exact ⟨rel, .file content, hreach, by simp [FileTree.visits, FileTree.fileType]⟩

/-- An entry adds the uri of a file that an adapter owns. -/
private theorem collect_entry (adapters : List LanguageAdapter) (uris : List String) (path : Path)
    (type : FileType) :
    ∃ uris', collect adapters uris (.entry path type) = .ok uris' ∧
      ∀ uri, uri ∈ uris' ↔ uri ∈ uris ∨
        (type = .file ∧ pathToUri path = uri ∧ (selectForUri adapters uri).isSome = true) := by
  simp only [collect]
  -- A file with an adapter is added; all else is passed over.
  by_cases hfile : type = .file
  · cases howned : (selectForUri adapters (pathToUri path)).isSome with
    | true =>
      refine ⟨uris ++ [pathToUri path], by simp [hfile], fun uri => ?_⟩
      rw [List.mem_append, List.mem_singleton]
      apply or_congr_right
      constructor
      · intro heq
        exact ⟨hfile, heq.symm, heq ▸ howned⟩
      · intro h
        exact h.2.1.symm
    | false =>
      refine ⟨uris, by simp [hfile], fun uri => ?_⟩
      constructor
      · exact Or.inl
      · intro h
        apply h.resolve_right
        intro hnew
        rw [← hnew.2.1, howned] at hnew
        exact nomatch hnew.2.2
  · refine ⟨uris, by simp [hfile], fun uri => ?_⟩
    simp [hfile]

/-- The loop over any visits ends well if none is a directory that cannot be read. -/
private theorem foldlM_collect_iff (visits : List (Visit FileName)) (start : List String)
    (uri : String) :
    (∃ uris, visits.foldlM (collect adapters) start = .ok uris ∧ uri ∈ uris) ↔
      (∀ path, .denied path ∉ visits) ∧ (uri ∈ start ∨ ∃ path, .entry path .file ∈ visits ∧
        pathToUri path = uri ∧ (selectForUri adapters uri).isSome = true) := by
  -- Induction on the visits: a directory that may not be read ends the walk with an error.
  induction visits generalizing start with
  | nil => simp [pure, Except.pure]
  | cons v visits ih =>
    cases v with
    | denied path =>
      constructor
      · intro h
        obtain ⟨uris, hrun, -⟩ := h
        exact nomatch hrun
      · intro h
        exact absurd (List.mem_cons_self ..) (h.1 path)
    | entry path type =>
      obtain ⟨next, hnext, hmem⟩ := collect_entry adapters start path type
      have hstep : (Visit.entry path type :: visits).foldlM (collect adapters) start =
          visits.foldlM (collect adapters) next := by
        rw [List.foldlM_cons, hnext]
        rfl
      rw [hstep, ih next, hmem uri]
      simp only [List.mem_cons, reduceCtorEq, false_or, Visit.entry.injEq]
      apply and_congr_right
      intro _
      constructor
      · -- The URI is of this visit, of an earlier or of a later one.
        intro h
        cases h with
        | inl h =>
          cases h with
          | inl hold => exact .inl hold
          | inr hnew => exact .inr ⟨path, .inl ⟨rfl, hnew.1.symm⟩, hnew.2⟩
        | inr h =>
          obtain ⟨p, hp, h⟩ := h
          exact .inr ⟨p, .inr hp, h⟩
      · intro h
        cases h with
        | inl hold => exact .inl (.inl hold)
        | inr h =>
          obtain ⟨p, hp, h⟩ := h
          cases hp with
          | inl hp => exact .inl (.inr ⟨hp.2.symm, hp.1 ▸ h⟩)
          | inr hp => exact .inr ⟨p, hp, h⟩

/-- Discovery lists the files that it comes to and that an adapter owns. -/
private theorem lists_iff (path : Path) : ws.Lists adapters (pathToUri path) ↔
    ws.Discovers path ∧ (selectForUri adapters (pathToUri path)).isSome = true := by
  rw [Lists, discoverFiles, foldlM_collect_iff]
  have hreadable : (∀ p, Visit.denied p ∉ ws.walk) ↔ ∀ rel, ws.reach rel ≠ some .locked := by
    constructor
    · intro h rel hrel
      exact h _ (denied_mem_walk.mpr ⟨rel, hrel, rfl⟩)
    · intro h p hp
      obtain ⟨rel, hrel, -⟩ := denied_mem_walk.mp hp
      exact h rel hrel
  -- The walk lists the file once, under the uri its path gives.
  rw [hreadable, Discovers]
  constructor
  · intro h
    obtain ⟨hread, hnew⟩ := h
    obtain ⟨p, hp, hsame, howned⟩ := hnew.resolve_left List.not_mem_nil
    obtain rfl := pathToUri_injective hsame
    exact ⟨⟨hread, file_mem_walk.mp hp⟩, howned⟩
  · intro h
    obtain ⟨⟨hread, hfile⟩, howned⟩ := h
    exact ⟨hread, .inr ⟨path, file_mem_walk.mpr hfile, rfl, howned⟩⟩

end Workspace

/-! ## What is pending -/

section Pending

variable {actor : WatcherActor} {adapters : List LanguageAdapter} {isDir : Path → Bool}

/-- An event adds the URI that passes the filter. -/
private theorem mem_receive {pending : List String} {path : Path} {uri : String} :
    uri ∈ actor.receive adapters isDir pending path ↔
      uri ∈ pending ∨ actor.filter adapters isDir path = some uri := by
  unfold WatcherActor.receive
  cases hfilter : actor.filter adapters isDir path with
  | none => simp
  | some passed => rw [List.mem_insert_iff, Option.some.injEq, or_comm, eq_comm]

/-- Pending are the uris of the paths that pass the filter. -/
private theorem mem_pendingAfter {paths : List Path} {uri : String} :
    uri ∈ actor.pendingAfter adapters isDir paths ↔
      ∃ path ∈ paths, actor.filter adapters isDir path = some uri := by
  have hfold : ∀ pending, uri ∈ paths.foldl (actor.receive adapters isDir) pending ↔
      uri ∈ pending ∨ ∃ path ∈ paths, actor.filter adapters isDir path = some uri := by
    induction paths with
    | nil => simp
    | cons path paths ih =>
      intro pending
      rw [List.foldl_cons, ih, mem_receive, or_assoc, List.exists_mem_cons_iff]
  rw [WatcherActor.pendingAfter, hfold]
  simp

/-- Each of them once. -/
private theorem pendingAfter_nodup (paths : List Path) :
    (actor.pendingAfter adapters isDir paths).Nodup := by
  have hfold : ∀ pending : List String, pending.Nodup →
      (paths.foldl (actor.receive adapters isDir) pending).Nodup := by
    induction paths with
    | nil => exact fun pending h => h
    | cons path paths ih =>
      intro pending h
      apply ih
      unfold WatcherActor.receive
      split
      · exact h.insert
      · exact h
  exact hfold [] List.nodup_nil

end Pending

/-! ## What a reconcile does to the rows -/

/-- A row of the uri that was no row of it before. -/
def AddsRow (uri : String) (db db' : Db) : Prop :=
  ∃ x ∈ db'.nodes, x.uri = uri ∧ ∀ y ∈ db.nodes, y.uri = uri → y.id ≠ x.id

/-- An empty text, which is what a file that cannot be read is opened with, has no symbols. -/
def TaskServer.QuietOnEmpty (S : TaskServer) : Prop :=
  ∀ w uri symbols, w.openDocs uri = some "" → S.documentSymbols w uri = .ok symbols → symbols = []

section Reconcile

variable {env : TaskEnv} {S : TaskServer} {uri : String} {w : TaskWorld}

/-- The text that a file is read as. -/
def TaskWorld.textOf (w : TaskWorld) (uri : String) : Option String :=
  (w.files uri).bind decodeUtf8

/-- What a reconcile leaves, step by step: without a server nothing has changed; a reply that
    fails leaves the document open; and what is reported is committed if the tables take it. -/
theorem reconcileUri_world (env : TaskEnv) (S : TaskServer) (uri : String) (w : TaskWorld) :
    ((env.reconcileUri uri).run (TaskCmd.handle env.hasher S) w).2 =
      match selectForUri env.adapters uri with
      | none => w
      | some adapter =>
        if S.acquires w adapter.languageName then
          let w₁ := w.openDoc uri ((w.textOf uri).getD "")
          match S.documentSymbols w₁ uri with
          | .error _ => w₁
          | .ok symbols =>
            let f := env.fetchedOf adapter uri (w.textOf uri).isSome symbols
            match reconcileFileSymbols env.hasher w₁.db f.args f.reconcileSymbols with
            | .error _ => w₁
            | .ok (db, _) => w₁.setDb db
        else w := by
  -- Each stage of the fetch may end the task; only the last one changes the graph.
  unfold TaskEnv.reconcileUri TaskEnv.fetchUriSymbols
  cases selectForUri env.adapters uri with
  | none => rfl
  | some adapter =>
    simp only [bind_assoc, Prog.run_perform_bind, TaskCmd.handle]
    cases S.acquires w adapter.languageName with
    | false => rfl
    | true =>
      simp only [if_true, bind_assoc, Prog.run_perform_bind, TaskCmd.handle, TaskWorld.textOf]
      cases S.documentSymbols (w.openDoc uri (((w.files uri).bind decodeUtf8).getD "")) uri with
      | error e => rfl
      | ok symbols =>
        simp only [pure_bind, Prog.run_perform_bind, TaskCmd.handle]
        cases reconcileFileSymbols env.hasher _ _ _ with
        | error e => rfl
        | ok result => rfl

/-- Opening a document leaves the graph. -/
@[simp] theorem openDoc_db (w : TaskWorld) (uri text : String) : (w.openDoc uri text).db = w.db := by
  unfold TaskWorld.openDoc
  split <;> rfl

/-- Opening a document leaves the files. -/
@[simp] theorem openDoc_files (w : TaskWorld) (uri text : String) :
    (w.openDoc uri text).files = w.files := by
  unfold TaskWorld.openDoc
  split <;> rfl

/-- A reconcile leaves the files as they are, and the tables too unless it commits. -/
theorem reconcileUri_cases (env : TaskEnv) (S : TaskServer) (uri : String) (w : TaskWorld) :
    ∃ w', ((env.reconcileUri uri).run (TaskCmd.handle env.hasher S) w).2 = w' ∧
      w'.files = w.files ∧ (w'.db = w.db ∨
        ∃ adapter symbols o,
          S.documentSymbols (w.openDoc uri ((w.textOf uri).getD "")) uri = .ok symbols ∧
          reconcileFileSymbols env.hasher w.db (fileArgs adapter uri env.rootUri)
            (env.fetchedOf adapter uri (w.textOf uri).isSome symbols).reconcileSymbols =
            .ok (w'.db, o)) := by
  have hworld := reconcileUri_world env S uri w
  generalize ((env.reconcileUri uri).run (TaskCmd.handle env.hasher S) w).2 = w' at hworld
  -- The cases of the lemma above: no adapter, no server, no symbols, no commit, and the commit.
  refine ⟨w', rfl, ?_⟩
  split at hworld
  · rw [hworld]
    exact ⟨rfl, .inl rfl⟩
  next adapter _ =>
    split at hworld
    · dsimp only at hworld
      rw [openDoc_db] at hworld
      split at hworld
      · rw [hworld]
        exact ⟨openDoc_files .., .inl (openDoc_db ..)⟩
      next symbols hsymbols =>
        split at hworld
        · rw [hworld]
          exact ⟨openDoc_files .., .inl (openDoc_db ..)⟩
        next db o hok =>
          rw [hworld]
          exact ⟨openDoc_files .., .inr ⟨adapter, symbols, o, hsymbols, hok⟩⟩
    · rw [hworld]
      exact ⟨rfl, .inl rfl⟩

/-! ### Rows are added by the reconcile of a file that can be read -/

/-- A graph adds no row to itself. -/
theorem AddsRow.irrefl {db : Db} : ¬ AddsRow uri db db := by
  intro h
  obtain ⟨x, hx, hu, hnew⟩ := h
  exact hnew x hx hu rfl

/-- What is added by way of other tables is added on the way there or on the way back. -/
private theorem AddsRow.via {db db' : Db} (h : AddsRow uri db db') (mid : Db) :
    AddsRow uri db mid ∨ AddsRow uri mid db' := by
  obtain ⟨x, hx, hu, hnew⟩ := h
  by_cases hmid : ∃ y ∈ mid.nodes, y.uri = uri ∧ y.id = x.id
  · obtain ⟨y, hy, hyu, hyid⟩ := hmid
    exact .inl ⟨y, hy, hyu, fun z hz hzu => hyid ▸ hnew z hz hzu⟩
  · apply Or.inr
    refine ⟨x, hx, hu, fun y hy hyu hyid => ?_⟩
    exact hmid ⟨y, hy, hyu, hyid⟩

/-- One reconcile: the tables stay in order, and rows are added for its own uri only, if the file
    can be read. -/
private theorem reconcileUri_adds (env : TaskEnv) (uri : String) (hS : S.QuietOnEmpty)
    (h : w.db.Stored) :
    (((env.reconcileUri uri).run (TaskCmd.handle env.hasher S) w).2).db.Stored ∧
      ∀ u, AddsRow u w.db ((env.reconcileUri uri).run (TaskCmd.handle env.hasher S) w).2.db →
        u = uri ∧ w.textOf u ≠ none := by
  obtain ⟨w', hrun, -, hdb⟩ := reconcileUri_cases env S uri w
  rw [hrun]
  cases hdb with
  | inl hsame =>
    rw [hsame]
    exact ⟨h, fun u hadds => absurd hadds AddsRow.irrefl⟩
  | inr hcommit =>
    obtain ⟨adapter, symbols, o, hsymbols, hok⟩ := hcommit
    have hline := fetchedOf_line_nonneg env adapter uri (w.textOf uri).isSome symbols
    refine ⟨reconcile_stored env.hasher h hline hok, fun u hadds => ?_⟩
    obtain ⟨x, hx, hu, hnew⟩ := hadds
    by_cases hself : u = uri
    · subst hself
      refine ⟨rfl, fun hnone => ?_⟩
      -- The document was opened empty, so that there is nothing to write.
      rw [hnone] at hsymbols hok
      obtain rfl : symbols = [] := hS _ u symbols (openDoc_openDocs ..) hsymbols
      obtain ⟨gone, hrows⟩ := reconcile_nil_rows h hok
      obtain ⟨y, hy, -, rfl⟩ := (hrows x hu).mp hx
      exact hnew y hy hu rfl
    · have hne : (fileArgs adapter uri env.rootUri).uri ≠ u := fun heq => hself heq.symm
      obtain ⟨gone, hrows⟩ := reconcile_other_rows h hline hok hne
      obtain ⟨y, hy, -, rfl⟩ := (hrows x hu).mp hx
      exact absurd rfl (hnew y hy hu)

/-- All of them. -/
private theorem reconcileAll_adds (hS : S.QuietOnEmpty) (h : w.db.Stored) {uris : List String}
    {u : String}
    (hadds : AddsRow u w.db (reconcileAll env S uris w).db) : u ∈ uris ∧ w.textOf u ≠ none := by
  induction uris generalizing w with
  | nil => exact absurd hadds AddsRow.irrefl
  | cons uri uris ih =>
    obtain ⟨w', hrun, hfiles, -⟩ := reconcileUri_cases env S uri w
    have hstep := reconcileUri_adds env uri hS h
    have hall : reconcileAll env S (uri :: uris) w = reconcileAll env S uris w' := by
      rw [← hrun]
      rfl
    rw [hrun] at hstep
    rw [hall] at hadds
    -- The row came with the first file or with one of the rest.
    cases hadds.via w'.db with
    | inl hfirst =>
      obtain ⟨rfl, htext⟩ := hstep.2 u hfirst
      exact ⟨List.mem_cons_self, htext⟩
    | inr hrest =>
      obtain ⟨hmem, htext⟩ := ih hstep.1 hrest
      refine ⟨List.mem_cons_of_mem _ hmem, ?_⟩
      rwa [TaskWorld.textOf, hfiles] at htext

/-- A reconcile whose request fails leaves the tables. -/
private theorem reconcileAll_of_error (env : TaskEnv) (w : TaskWorld) {uris : List String}
    (hfails : ∀ u ∈ uris, ∀ w, ∃ e, S.documentSymbols w u = .error e) :
    (reconcileAll env S uris w).db = w.db ∧ (reconcileAll env S uris w).files = w.files := by
  induction uris generalizing w with
  | nil => exact ⟨rfl, rfl⟩
  | cons uri uris ih =>
    obtain ⟨w', hrun, hfiles, hdb⟩ := reconcileUri_cases env S uri w
    have hrest := ih w' fun u hu => hfails u (List.mem_cons_of_mem _ hu)
    have hall : reconcileAll env S (uri :: uris) w = reconcileAll env S uris w' := by
      rw [← hrun]
      rfl
    have hsame : w'.db = w.db := by
      -- Without an answer for the symbols there is nothing to commit.
      apply hdb.resolve_right
      intro hcommit
      obtain ⟨adapter, symbols, o, hsymbols, -⟩ := hcommit
      obtain ⟨e, he⟩ := hfails uri List.mem_cons_self
        (w.openDoc uri ((w.textOf uri).getD ""))
      exact nomatch he.symm.trans hsymbols
    rw [hall]
    exact ⟨hrest.1.trans hsame, hrest.2.trans hfiles⟩

end Reconcile

/-! ## A file that is reconciled without symbols -/

/-- A server that answers for one file, with no symbols. -/
def emptyFileServer (uri : String) : TaskServer where
  acquires _ _ := true
  documentSymbols _ u := if u = uri then .ok [] else .error .lsp

/-- The server of the example answers nothing for an empty file. -/
private theorem emptyFileServer_quiet (uri : String) : (emptyFileServer uri).QuietOnEmpty := by
  intro w u symbols _ hreply
  simp only [emptyFileServer] at hreply
  split at hreply
  · exact (Except.ok.inj hreply).symm
  · exact nomatch hreply

section EmptyFile

variable {env : TaskEnv} {adapter : LanguageAdapter} {uri : String} {w : TaskWorld}

/-- The module root is all that is written of it. -/
private theorem reconcile_moduleRoot (env : TaskEnv) (adapter : LanguageAdapter) (uri : String) :
    ∃ db o, reconcileFileSymbols env.hasher .empty (fileArgs adapter uri env.rootUri)
        (env.fetchedOf adapter uri true []).reconcileSymbols = .ok (db, o) ∧
      ∃ x ∈ db.nodes, x.uri = uri := by
  -- For an empty file the symbols are the module's root alone,
  obtain ⟨root, hroot⟩ : ∃ root : ReconcileSymbol, root.parent = none ∧
      0 ≤ root.range.startLine ∧ (env.fetchedOf adapter uri true []).reconcileSymbols = [root] :=
    ⟨_, rfl, Int.le_refl 0, rfl⟩
  obtain ⟨hparent, hline, hsyms⟩ := hroot
  -- which is a batch with no conflict in an empty graph,
  have hbatch : SymbolBatch [root] := {
    line_nonneg := fun s hs => List.mem_singleton.mp hs ▸ hline
    fqns_nodup := List.nodup_singleton _
    keys_nodup := List.nodup_singleton _
    parent_lt := fun i s p hs hp => by
      have hs : s = root := List.mem_singleton.mp (List.mem_of_getElem? hs)
      rw [hs, hparent] at hp
      exact nomatch hp }
  have hfree : FqnsFree .empty (fileArgs adapter uri env.rootUri).uri [root] :=
    fun n hn => absurd hn List.not_mem_nil
  obtain ⟨db, o, hok⟩ := (reconcile_commits_iff env.hasher Db.empty_stored
    (fileArgs adapter uri env.rootUri) hbatch hfree).mpr fun j old hold => nomatch hold
  -- so its row is in the file afterwards.
  obtain ⟨row, hpost⟩ := reconcile_post env.hasher Db.empty_stored hbatch hfree hok
  obtain ⟨x, hx, -, hu, -⟩ := hpost.carries 0 root rfl
  rw [hsyms]
  exact ⟨db, o, hok, x, hx, hu⟩

/-- Among uris whose requests fail, it adds a row. -/
private theorem emptyFileServer_adds (hadapter : selectForUri env.adapters uri = some adapter)
    (hdb : w.db = .empty) (htext : w.textOf uri ≠ none) {uris : List String} (hmem : uri ∈ uris)
    (hnodup : uris.Nodup) : AddsRow uri w.db (reconcileAll env (emptyFileServer uri) uris w).db := by
  obtain ⟨before, after, rfl⟩ := List.append_of_mem hmem
  obtain ⟨-, hafter, hbefore⟩ := List.nodup_append.mp hnodup
  have hfails : ∀ us : List String, uri ∉ us → ∀ u ∈ us, ∀ w,
      ∃ e, (emptyFileServer uri).documentSymbols w u = .error e := by
    intro us hus u hu w
    have hne : u ≠ uri := fun heq => hus (heq ▸ hu)
    exact ⟨.lsp, if_neg hne⟩
  -- The tables are still empty when its turn comes, and what is written then stays.
  obtain ⟨w₁, hw₁⟩ : ∃ w₁, w₁ = reconcileAll env (emptyFileServer uri) before w := ⟨_, rfl⟩
  obtain ⟨w₂, hw₂⟩ : ∃ w₂, w₂ = ((env.reconcileUri uri).run
    (TaskCmd.handle env.hasher (emptyFileServer uri)) w₁).2 := ⟨_, rfl⟩
  have hall : reconcileAll env (emptyFileServer uri) (before ++ uri :: after) w =
      reconcileAll env (emptyFileServer uri) after w₂ := by
    rw [hw₂, hw₁]
    exact List.foldl_append
  have hfirst : w₁.db = .empty ∧ w₁.textOf uri = w.textOf uri := by
    have hkept := reconcileAll_of_error env w (hfails before fun hin =>
      hbefore uri hin uri List.mem_cons_self rfl)
    rw [hw₁, TaskWorld.textOf, hkept.2]
    exact ⟨hkept.1.trans hdb, rfl⟩
  have hlast := reconcileAll_of_error env w₂
    (hfails after (List.nodup_cons.mp hafter).1)
  obtain ⟨db, o, hok, x, hx, hu⟩ := reconcile_moduleRoot env adapter uri
  have hsecond : w₂.db = db := by
    have hread : (w₁.textOf uri).isSome = true := by
      rw [hfirst.2]
      exact Option.isSome_iff_ne_none.mpr htext
    rw [hw₂, reconcileUri_world, hadapter]
    simp only [emptyFileServer, if_true, openDoc_db, hfirst.1, hread]
    have hcommit : reconcileFileSymbols env.hasher .empty (env.fetchedOf adapter uri true []).args
      (env.fetchedOf adapter uri true []).reconcileSymbols = .ok (db, o) := hok
    rw [hcommit]
    rfl
  rw [hall, hlast.1, hsecond, hdb]
  exact ⟨x, hx, hu, fun y hy => absurd hy List.not_mem_nil⟩

end EmptyFile

/-! ## Handling events -/

namespace Workspace

/-- The files that are read are those of the tree. -/
def Backs (ws : Workspace) (w : TaskWorld) : Prop :=
  ∀ path, w.files (pathToUri path) = ws.bytesAt path

/-- Whatever the server and the tables are and in whatever order the pending uris are drained,
    handling the events adds rows only for uris that `discover_files` lists. -/
def AddsListedOnly (ws : Workspace) (env : TaskEnv) (paths : List Path) : Prop :=
  ∀ (S : TaskServer) (w : TaskWorld) (uris : List String), S.QuietOnEmpty → w.db.Stored →
    ws.Backs w →
    uris.Perm ((FsWatcher.spawn ws).pendingAfter env.adapters ws.isDirAt paths) →
    ∀ uri, AddsRow uri w.db (reconcileAll env S uris w).db → ws.Lists env.adapters uri

/-- Whether the watcher is right about a path: the root's `.gitignore` rules out the path itself,
    no adapter owns it, it cannot be read as text, or the walk comes to it. -/
def FiltersRight (ws : Workspace) (adapters : List LanguageAdapter) (path : Path) : Prop :=
  let path := (FsWatcher.spawn ws).rebaseOntoLiteralRoot path
  ws.rules.gitignore path (ws.isDirAt path) = .ignore ∨
    selectForUri adapters (pathToUri path) = none ∨
    (ws.bytesAt path).bind decodeUtf8 = none ∨ ws.Discovers path

end Workspace

/-- What passes the filter, spelled out. -/
private theorem filter_eq_some_iff {ws : Workspace} {adapters : List LanguageAdapter} {path : Path}
    {uri : String} :
    (FsWatcher.spawn ws).filter adapters ws.isDirAt path = some uri ↔
      let path := (FsWatcher.spawn ws).rebaseOntoLiteralRoot path
      ws.rules.gitignore path (ws.isDirAt path) ≠ .ignore ∧
        (selectForUri adapters (pathToUri path)).isSome = true ∧ pathToUri path = uri := by
  unfold WatcherActor.filter
  generalize (FsWatcher.spawn ws).rebaseOntoLiteralRoot path = p
  show (if ws.rules.gitignore p (ws.isDirAt p) = .ignore then none
    else (selectForUri adapters (pathToUri p)).map fun _ => pathToUri p) = some uri ↔ _
  by_cases hignored : ws.rules.gitignore p (ws.isDirAt p) = .ignore
  · simp [hignored]
  · cases howned : selectForUri adapters (pathToUri p) with
    | none => simp [howned]
    | some adapter => simp [hignored, howned]

/-- The files of the tree, with tables that have no row yet. -/
private theorem exists_backed (ws : Workspace) : ∃ w : TaskWorld, ws.Backs w ∧ w.db = .empty := by
  classical
  let files (uri : String) : Option FileBytes :=
    if h : ∃ path, pathToUri path = uri then ws.bytesAt h.choose else none
  refine ⟨{ db := .empty, files := files, openDocs := fun _ => none }, fun path => ?_, rfl⟩
  have h : ∃ p, pathToUri p = pathToUri path := ⟨path, rfl⟩
  show files (pathToUri path) = ws.bytesAt path
  rw [show files (pathToUri path) = ws.bytesAt h.choose from dif_pos h,
    pathToUri_injective h.choose_spec]

/-- A file that passes the filter and can be read must be listed: its server may be there, and
    then its module root is written. -/
private theorem Workspace.AddsListedOnly.lists {ws : Workspace} {env : TaskEnv} {paths : List Path}
    (h : ws.AddsListedOnly env paths) {path p : Path} (hpath : path ∈ paths)
    (hfilter : (FsWatcher.spawn ws).filter env.adapters ws.isDirAt path = some (pathToUri p))
    (htext : (ws.bytesAt p).bind decodeUtf8 ≠ none) : ws.Lists env.adapters (pathToUri p) := by
  have hpending : pathToUri p ∈
      (FsWatcher.spawn ws).pendingAfter env.adapters ws.isDirAt paths :=
    mem_pendingAfter.mpr ⟨path, hpath, hfilter⟩
  obtain ⟨adapter, hadapter⟩ : ∃ adapter, selectForUri env.adapters (pathToUri p) = some adapter := by
    have howned := (filter_eq_some_iff.mp hfilter).2
    rw [howned.2] at howned
    exact Option.isSome_iff_exists.mp howned.1
  obtain ⟨w, hbacks, hdb⟩ := exists_backed ws
  have hread : w.textOf (pathToUri p) ≠ none := by
    rw [TaskWorld.textOf, hbacks p]
    exact htext
  have hadds := emptyFileServer_adds hadapter hdb hread hpending (pendingAfter_nodup paths)
  exact h _ w _ (emptyFileServer_quiet _) (hdb ▸ Db.empty_stored) hbacks (List.Perm.refl _) _ hadds

/-- Handling events adds rows for listed uris only exactly when the watcher is right about each
    event's path. -/
theorem watcher_adds_listed_iff (ws : Workspace) (env : TaskEnv) (paths : List Path) :
    ws.AddsListedOnly env paths ↔ ∀ path ∈ paths, ws.FiltersRight env.adapters path := by
  constructor
  · intro honly path hpath
    by_contra hwrong
    simp only [Workspace.FiltersRight, not_or] at hwrong
    obtain ⟨hpasses, howned, htext, hlost⟩ := hwrong
    have hfilter : (FsWatcher.spawn ws).filter env.adapters ws.isDirAt path =
        some (pathToUri ((FsWatcher.spawn ws).rebaseOntoLiteralRoot path)) :=
      filter_eq_some_iff.mpr ⟨hpasses, Option.isSome_iff_ne_none.mpr howned, rfl⟩
    exact hlost ((Workspace.lists_iff _).mp (honly.lists hpath hfilter htext)).1
  · intro hright S w uris hS hstored hbacks hperm uri hadds
    obtain ⟨hmem, hread⟩ := reconcileAll_adds hS hstored hadds
    obtain ⟨path, hpath, hfilter⟩ := mem_pendingAfter.mp (hperm.mem_iff.mp hmem)
    have hpasses := filter_eq_some_iff.mp hfilter
    have hagrees := hright path hpath
    unfold Workspace.FiltersRight at hagrees
    generalize (FsWatcher.spawn ws).rebaseOntoLiteralRoot path = p at hpasses hagrees
    obtain ⟨hpasses, howned, rfl⟩ := hpasses
    rw [TaskWorld.textOf, hbacks p] at hread
    -- Of the four ways to be right, only the last is left.
    have hreached := ((hagrees.resolve_left hpasses).resolve_left
      (Option.isSome_iff_ne_none.mp howned)).resolve_left hread
    exact (Workspace.lists_iff p).mpr ⟨hreached, howned⟩

/-! ## A file in a hidden directory -/

/-- `/repo/.venv/a.py`. -/
def venvFile : Path :=
  [⟨"repo", by decide, by decide⟩, ⟨".venv", by decide, by decide⟩, ⟨"a.py", by decide, by decide⟩]

/-- A workspace at `/repo`, without ignore rules, with nothing but that file. -/
def venvWorkspace : Workspace where
  root := venvFile.take 1
  canonicalRoot := venvFile.take 1
  above := []
  globalIgnore := fun _ _ => .none
  rules := .empty
  children := [(⟨".venv", by decide, by decide⟩,
    .dir .empty [(⟨"a.py", by decide, by decide⟩, .file (some []))])]
  distinct := ⟨by decide, ⟨by decide, trivial, trivial⟩, trivial⟩

/-- Discovery finds nothing there; an event on the file adds a row. -/
theorem watcher_adds_hidden_file :
    venvWorkspace.discoverFiles rootEnv.adapters = .ok [] ∧
      ¬ venvWorkspace.AddsListedOnly rootEnv [venvFile] := by
  have hnothing : venvWorkspace.discoverFiles rootEnv.adapters = .ok [] := by decide
  refine ⟨hnothing, fun honly => ?_⟩
  obtain ⟨uris, hrun, hmem⟩ := honly.lists List.mem_cons_self (p := venvFile) (by decide) (by decide)
  rw [hnothing] at hrun
  cases hrun
  exact absurd hmem List.not_mem_nil

end Semnav.Indexer
