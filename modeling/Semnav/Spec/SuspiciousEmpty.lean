import Semnav.Spec.DeletedFiles

/-!
# The suspicious-empty guard of the startup-drift pass

An attempt of the drift pass is not to take an empty reply for a file that exists as the
truth.  Whether the file exists it tells from its second read of it, which fails for a file
that is there but holds no UTF-8 or cannot be read at that moment.

## Key results

- `attempt_fetches`: what an attempt whose server reports no symbols comes down to
- `empty_fetch_iff`: when such an attempt leaves the file's rows and its noted hash
- `empty_fetch_wipes`: a file of one byte that is no UTF-8
-/

namespace Semnav.Indexer

open Semnav.ForStd Semnav.Graph Semnav.Adapters

/-! ## Reads that fail -/

/-- The tasks' world with a disk on which the read of a file that is there may fail. -/
structure DiskWorld extends TaskWorld where
  /-- Do the next reads succeed?  The reads after these do. -/
  readable : List Bool

namespace DiskWorld

/-- Does the next read succeed on a file that is there? -/
def nextReadable (w : DiskWorld) : Bool := w.readable.headD true

/-- The bytes that a read gives. -/
def read (w : DiskWorld) (uri : String) : Option FileBytes :=
  if w.nextReadable then w.files uri else none

/-- The world after a read. -/
def next (w : DiskWorld) : DiskWorld := { w with readable := w.readable.tail }

end DiskWorld

/-- What a command does when nobody else is at work. -/
def TaskCmd.handleDisk (H : Hasher) (S : TaskServer) {β : Type} :
    TaskCmd β → DiskWorld → Except TaskError β × DiskWorld
  | .readToString uri, w => (.ok ((w.read uri).bind decodeUtf8), w.next)
  | .readBytes uri, w => (.ok (w.read uri), w.next)
  | c, w =>
    let (r, w') := c.handle H S w.toTaskWorld
    (r, { w with toTaskWorld := w' })

/-! ## What is said of an attempt -/

/-- The attempt leaves the rows of the file and the hash noted for it. -/
structure LeavesFile (uri : String) (db db' : Db) : Prop where
  rows : db'.nodesByUri uri = db.nodesByUri uri
  hash : db'.indexMeta (TaskEnv.contentHashMetaKey uri) =
    db.indexMeta (TaskEnv.contentHashMetaKey uri)

/-- An attempt, undisturbed. -/
def attemptOn (env : TaskEnv) (S : TaskServer) (uri : String) (w : DiskWorld) :
    Except TaskError DriftAttempt × DiskWorld :=
  (env.reconcileUriForStartupDrift uri).run (TaskCmd.handleDisk env.hasher S) w

/-- Is it a reply without symbols? -/
def repliesEmpty (uri : String) : Exchange TaskCmd → Bool
  | ⟨.documentSymbols u, symbols⟩ => u == uri && symbols.isEmpty
  | _ => false

/-- The fetch of the attempt yields no symbols. -/
def FetchesNothing (env : TaskEnv) (S : TaskServer) (uri : String) (w : DiskWorld) : Prop :=
  (Prog.exchanges (TaskCmd.handleDisk env.hasher S) (env.reconcileUriForStartupDrift uri)
    w).any (repliesEmpty uri) = true

/-! ## What such an attempt comes down to -/

section Attempt

variable (env : TaskEnv) (S : TaskServer) (uri : String)

/-- The part of the attempt after its fetch: the guard, the commit and the note. -/
def TaskEnv.settle (hash : Option String) (f : FetchedSymbols) : TaskM DriftAttempt := do
  let suspicious ←
    if f.fileExists && f.realSymbolCount == 0 then do
      let count ← Prog.perform (.countRealNodes uri f.moduleFqn)
      pure (decide (count > 0))
    else pure false
  if suspicious then pure .suspiciousEmpty
  else
    let _ ← Prog.perform (.reconcileFileSymbols f.args f.reconcileSymbols)
    Prog.perform (.setMeta (TaskEnv.contentHashMetaKey uri) (hash.getD ""))
    pure .committed

private theorem settle_issues (hash : Option String) (f : FetchedSymbols) :
    Prog.Issues (fun _ c => TaskCmd.fetches c = false) (TaskEnv.settle uri hash f) := by
  have hcommit : Prog.Issues (fun _ c => TaskCmd.fetches c = false)
      (do
        let _ ← Prog.perform (.reconcileFileSymbols f.args f.reconcileSymbols)
        Prog.perform (.setMeta (TaskEnv.contentHashMetaKey uri) (hash.getD ""))
        pure DriftAttempt.committed : TaskM DriftAttempt) :=
    ⟨rfl, fun _ => ⟨rfl, fun _ => trivial⟩⟩
  rw [TaskEnv.settle]
  split
  · refine ⟨rfl, fun count => ?_⟩
    show Prog.Issues _ (if decide (count > 0) = true then _ else _)
    split
    · trivial
    · exact hcommit
  · exact hcommit

/-- A reply without symbols is the fetch's. -/
private theorem repliesEmpty_of_not_fetches {e : Exchange TaskCmd} (h : e.cmd.fetches = false) :
    repliesEmpty uri e = false := by
  obtain ⟨cmd, reply⟩ := e
  cases cmd with
  | documentSymbols u => exact nomatch h
  | _ => rfl

/-- A fetch that yields no symbols: it changes no table, and tells from its read whether the
    file exists. -/
theorem fetch_of_empty {w : DiskWorld}
    (hempty : (Prog.exchanges (TaskCmd.handleDisk env.hasher S) (env.fetchUriSymbols uri)
      w).any (repliesEmpty uri) = true) :
    ∃ adapter w', w'.db = w.db ∧
      (env.fetchUriSymbols uri).run (TaskCmd.handleDisk env.hasher S) w =
        (.ok (.fetched (env.fetchedOf adapter uri ((w.read uri).bind decodeUtf8).isSome [])),
          w') := by
  rw [TaskEnv.fetchUriSymbols] at hempty ⊢
  cases hadapter : selectForUri env.adapters uri with
  | none =>
    rw [hadapter] at hempty
    cases hempty
  | some adapter =>
    rw [hadapter] at hempty
    dsimp only at hempty ⊢
    cases hup : S.acquires w.toTaskWorld adapter.languageName with
    | false =>
      have hacquire : (TaskCmd.acquire adapter.languageName).handleDisk env.hasher S w =
          (.ok false, w) := by
        show (Except.ok (S.acquires w.toTaskWorld adapter.languageName), w) = _
        rw [hup]
      rw [Prog.exchanges_perform_ok _ hacquire] at hempty
      cases hempty
    | true =>
      have hacquire : (TaskCmd.acquire adapter.languageName).handleDisk env.hasher S w =
          (.ok true, w) := by
        show (Except.ok (S.acquires w.toTaskWorld adapter.languageName), w) = _
        rw [hup]
      -- A client is there: the file is read and opened, and the server is asked.
      let text := ((w.read uri).bind decodeUtf8).getD ""
      let opened : DiskWorld := { w.next with toTaskWorld := w.next.toTaskWorld.openDoc uri text }
      have hread : (TaskCmd.readToString uri).handleDisk env.hasher S w =
          (.ok ((w.read uri).bind decodeUtf8), w.next) := rfl
      have hopen : (TaskCmd.ensureDocument uri adapter.languageName text).handleDisk env.hasher S
          w.next = (.ok (), opened) := rfl
      have hdb : opened.db = w.db := by
        show (w.next.toTaskWorld.openDoc uri text).db = w.db
        unfold TaskWorld.openDoc
        split
        · rfl
        · rfl
      have hask : (TaskCmd.documentSymbols uri).handleDisk env.hasher S opened =
          (S.documentSymbols opened.toTaskWorld uri, opened) := rfl
      rw [Prog.exchanges_perform_ok _ hacquire, if_pos rfl, Prog.exchanges_perform_ok _ hread,
        Prog.exchanges_perform_ok _ hopen] at hempty
      rw [Prog.run_perform_bind, hacquire]
      dsimp only
      rw [if_pos rfl, Prog.run_perform_bind, hread]
      dsimp only
      rw [Prog.run_perform_bind, hopen]
      dsimp only
      rw [Prog.run_perform_bind, hask]
      cases hreply : S.documentSymbols opened.toTaskWorld uri with
      | error e =>
        rw [hreply] at hask
        rw [Prog.exchanges_perform_error _ hask] at hempty
        cases hempty
      | ok symbols =>
        rw [hreply] at hask
        rw [Prog.exchanges_perform_ok _ hask] at hempty
        -- The reply has no symbols, or none was empty.
        cases symbols with
        | nil => exact ⟨adapter, opened, hdb, rfl⟩
        | cons symbol symbols =>
          simp only [List.any_cons, repliesEmpty, List.isEmpty_cons, Bool.and_false,
            Bool.false_or] at hempty
          cases hempty

/-- The rest of an attempt for a file that counts as missing: the empty reply is committed, and
    no row of the file stays as it was. -/
private theorem settle_missing {w : DiskWorld} (hstored : w.db.Stored)
    (hrows : w.db.nodesByUri uri ≠ []) (hash : Option String) (adapter : LanguageAdapter) :
    ((TaskEnv.settle uri hash (env.fetchedOf adapter uri false [])).run
      (TaskCmd.handleDisk env.hasher S) w).2.db.nodesByUri uri ≠ w.db.nodesByUri uri := by
  obtain ⟨db', o, hok⟩ := reconcile_nil_ok env.hasher hstored (fileArgs adapter uri env.rootUri)
  obtain ⟨gone, hnodes⟩ := reconcile_nil_rows hstored hok
  have hcommit : (TaskCmd.reconcileFileSymbols (fileArgs adapter uri env.rootUri) []).handleDisk
      env.hasher S w = (.ok o, { w with toTaskWorld := w.setDb db' }) := by
    simp only [TaskCmd.handleDisk, TaskCmd.handle, hok]
  have hrun : ((TaskEnv.settle uri hash (env.fetchedOf adapter uri false [])).run
      (TaskCmd.handleDisk env.hasher S) w).2.db.nodes = db'.nodes := by
    show ((Prog.perform (.reconcileFileSymbols (fileArgs adapter uri env.rootUri) []) >>=
      fun _ => _).run (TaskCmd.handleDisk env.hasher S) w).2.db.nodes = _
    rw [Prog.run_perform_bind, hcommit]
    rfl
  intro hsame
  rw [Db.nodesByUri, hrun] at hsame
  -- A row that stayed would be an orphan that had been none.
  obtain ⟨row, hrow⟩ := List.exists_mem_of_ne_nil _ hrows
  have hafter : row ∈ db'.nodesByUri uri := by
    rw [Db.nodesByUri, hsame]
    exact hrow
  obtain ⟨hmem, huri⟩ := Db.mem_nodesByUri.mp hafter
  obtain ⟨y, hy, horphan, heq⟩ := (hnodes row huri).mp hmem
  obtain ⟨hbefore, -⟩ := Db.mem_nodesByUri.mp hrow
  have hid : row.id = y.id := by
    rw [heq]
    rfl
  have hsame' : row = y := hstored.toWF.node_ext hbefore hy hid
  have hmarked : row.orphan = true := by
    rw [heq]
    rfl
  rw [hsame', horphan] at hmarked
  cases hmarked

/-- The rest of an attempt for a file that is known to exist: the guard stops it. -/
private theorem settle_suspicious {w : DiskWorld} (hash : Option String) (adapter : LanguageAdapter)
    (hreal : 0 < w.db.countRealNodes uri (modulePathFromUri uri env.rootUri)) :
    (TaskEnv.settle uri hash (env.fetchedOf adapter uri true [])).run
      (TaskCmd.handleDisk env.hasher S) w = (.ok .suspiciousEmpty, w) := by
  show (Prog.perform (.countRealNodes uri (modulePathFromUri uri env.rootUri)) >>=
    fun count => _ : TaskM DriftAttempt).run (TaskCmd.handleDisk env.hasher S) w = _
  rw [Prog.run_perform_bind]
  show (if decide (w.db.countRealNodes uri (modulePathFromUri uri env.rootUri) > 0) = true then
    _ else _ : TaskM DriftAttempt).run (TaskCmd.handleDisk env.hasher S) w = _
  rw [if_pos (decide_eq_true hreal)]
  rfl

/-- Fetch and commit with an empty reply: its outcome hangs on the read of the file. -/
theorem fetchAndCommit_of_empty {w : DiskWorld} (hstored : w.db.Stored)
    (hreal : 0 < w.db.countRealNodes uri (modulePathFromUri uri env.rootUri))
    (hash : Option String)
    (hempty : (Prog.exchanges (TaskCmd.handleDisk env.hasher S) (env.fetchAndCommit uri hash)
      w).any (repliesEmpty uri) = true) :
    LeavesFile uri w.db
        ((env.fetchAndCommit uri hash).run (TaskCmd.handleDisk env.hasher S) w).2.db ↔
      ((w.read uri).bind decodeUtf8).isSome = true := by
  -- The empty reply was given to the fetch, since the commit asks for no symbols.
  have hfetch : (Prog.exchanges (TaskCmd.handleDisk env.hasher S) (env.fetchUriSymbols uri)
      w).any (repliesEmpty uri) = true := by
    rw [TaskEnv.fetchAndCommit, Prog.exchanges_bind, List.any_append, Bool.or_eq_true] at hempty
    cases hempty with
    | inl h => exact h
    | inr h =>
      cases hfetched : (env.fetchUriSymbols uri).run (TaskCmd.handleDisk env.hasher S) w with
      | mk result w' =>
        rw [hfetched] at h
        obtain ⟨e, he, hreply⟩ := List.any_eq_true.mp h
        cases result with
        | error err => exact absurd he List.not_mem_nil
        | ok outcome =>
          cases outcome with
          | unsupported => exact absurd he List.not_mem_nil
          | lspUnavailable => exact absurd he List.not_mem_nil
          | fetched f =>
            have hnot := (settle_issues uri hash f).exchanges _ w' e he
            rw [repliesEmpty_of_not_fetches uri hnot] at hreply
            -- So the run ends with what `settle` does with an empty list.
            cases hreply
  obtain ⟨adapter, w', hdb, hrun⟩ := fetch_of_empty env S uri hfetch
  have hrest : (env.fetchAndCommit uri hash).run (TaskCmd.handleDisk env.hasher S) w =
      (TaskEnv.settle uri hash
        (env.fetchedOf adapter uri ((w.read uri).bind decodeUtf8).isSome [])).run
        (TaskCmd.handleDisk env.hasher S) w' := by
    rw [TaskEnv.fetchAndCommit, Prog.run_bind_of_ok _ hrun]
    rfl
  rw [hrest]
  -- By whether the file can be read: with rows and a file the list is suspicious.
  cases hread : ((w.read uri).bind decodeUtf8).isSome with
  | true =>
    rw [settle_suspicious env S uri hash adapter (hdb ▸ hreal)]
    simp only [iff_true]
    constructor
    · rw [hdb]
    · rw [hdb]
  -- The file is gone, so the rows that are counted are not left as they are.
  | false =>
    simp only [Bool.false_eq_true, iff_false]
    intro hleaves
    have hrows : w'.db.nodesByUri uri ≠ [] := by
      obtain ⟨row, hrow⟩ := List.exists_mem_of_length_pos hreal
      obtain ⟨hmem, hcounted⟩ := List.mem_filter.mp hrow
      rw [Bool.and_eq_true, beq_iff_eq] at hcounted
      rw [hdb]
      exact List.ne_nil_of_mem (Db.mem_nodesByUri.mpr ⟨hmem, hcounted.1⟩)
    exact settle_missing env S uri (hdb ▸ hstored) hrows hash adapter (hdb ▸ hleaves.rows)

end Attempt

/-- With a real node of the file in the graph, an attempt whose fetch yields no symbols leaves
    the rows of the file and its noted hash exactly when its second read of the file gives a
    text. -/
theorem empty_fetch_iff (env : TaskEnv) (S : TaskServer) (uri : String) {w : DiskWorld}
    (hstored : w.db.Stored) {bytes : FileBytes} (hfile : w.files uri = some bytes)
    (hreal : 0 < w.db.countRealNodes uri (modulePathFromUri uri env.rootUri))
    (hempty : FetchesNothing env S uri w) :
    LeavesFile uri w.db (attemptOn env S uri w).2.db ↔
      w.next.nextReadable = true ∧ (decodeUtf8 bytes).isSome = true := by
  have htext : ((w.next.read uri).bind decodeUtf8).isSome = true ↔
      w.next.nextReadable = true ∧ (decodeUtf8 bytes).isSome = true := by
    rw [DiskWorld.read]
    cases w.next.nextReadable with
    | true =>
      show ((w.files uri).bind decodeUtf8).isSome = true ↔ _
      rw [hfile]
      simp
    | false => simp
  rw [← htext]
  have hfirst : (TaskCmd.readBytes uri).handleDisk env.hasher S w = (.ok (w.read uri), w.next) :=
    rfl
  rw [FetchesNothing, TaskEnv.reconcileUriForStartupDrift] at hempty
  rw [attemptOn, TaskEnv.reconcileUriForStartupDrift]
  cases hadapter : selectForUri env.adapters uri with
  | none =>
    rw [hadapter] at hempty
    cases hempty
  | some adapter =>
    rw [hadapter] at hempty
    dsimp only at hempty ⊢
    rw [Prog.exchanges_perform_ok _ hfirst, List.any_cons, Bool.or_eq_true] at hempty
    replace hempty := hempty.resolve_left (by simp [repliesEmpty])
    rw [Prog.run_perform_bind, hfirst]
    dsimp only
    cases hbytes : w.read uri with
    | none =>
      rw [hbytes] at hempty
      rw [Option.map_none] at hempty ⊢
      exact fetchAndCommit_of_empty (w := w.next) env S uri hstored hreal none hempty
    | some read =>
      rw [hbytes] at hempty
      have hnote : (TaskCmd.getMeta (TaskEnv.contentHashMetaKey uri)).handleDisk env.hasher S
          w.next = (.ok (w.next.db.indexMeta (TaskEnv.contentHashMetaKey uri)), w.next) := rfl
      rw [Option.map_some] at hempty ⊢
      dsimp only at hempty ⊢
      rw [Prog.exchanges_perform_ok _ hnote, List.any_cons, Bool.or_eq_true] at hempty
      replace hempty := hempty.resolve_left (by simp [repliesEmpty])
      rw [Prog.run_perform_bind, hnote]
      dsimp only
      split at hempty
      · -- The hash is the noted one: nothing is fetched.
        cases hempty
      · rename_i hdiffers
        rw [if_neg hdiffers]
        exact fetchAndCommit_of_empty (w := w.next) env S uri hstored hreal _ hempty

/-! ## A file of one byte -/

/-- The graph of `app.py`, whose file now holds `text`. -/
def rewrittenWorld (bytes : FileBytes) : DiskWorld where
  db := fooDb
  files uri := if uri = appPy.uri then some bytes else none
  openDocs _ := none
  readable := []

/-- An emptied file keeps its rows while the server reports nothing. -/
theorem empty_fetch_iff_emptied :
    LeavesFile appPy.uri fooDb
        (attemptOn rootEnv quietServer appPy.uri (rewrittenWorld [])).2.db ↔
      (rewrittenWorld []).next.nextReadable = true ∧ (decodeUtf8 []).isSome = true :=
  empty_fetch_iff (w := rewrittenWorld []) rootEnv quietServer appPy.uri fooDb_stored rfl
    (by decide) rfl

/-- The byte `0xff` is no UTF-8: the file exists, and its class and method are orphaned. -/
theorem empty_fetch_wipes :
    (rewrittenWorld [0xff]).files appPy.uri = some [0xff] ∧
      FetchesNothing rootEnv quietServer appPy.uri (rewrittenWorld [0xff]) ∧
      ((rewrittenWorld [0xff]).db.nodesByUri appPy.uri).map (fun n => (n.fqn, n.orphan)) =
        [("app.Foo", false), ("app.Foo.new", false)] ∧
      ((attemptOn rootEnv quietServer appPy.uri (rewrittenWorld [0xff])).2.db.nodesByUri
        appPy.uri).map (fun n => (n.fqn, n.orphan)) =
        [("app.Foo", true), ("app.Foo.new", true)] ∧
      ¬ LeavesFile appPy.uri (rewrittenWorld [0xff]).db
        (attemptOn rootEnv quietServer appPy.uri (rewrittenWorld [0xff])).2.db := by
  refine ⟨rfl, rfl, rfl, rfl, fun hleaves => ?_⟩
  have hrows := congrArg (List.map fun n : Node => n.orphan) hleaves.rows
  exact nomatch hrows

end Semnav.Indexer
