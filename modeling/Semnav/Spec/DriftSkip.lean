import Semnav.Spec.StaleOverwrite

/-!
# The content-hash skip of the startup-drift pass

The drift pass skips a file whose bytes hash to what it noted when it last committed the file.
The watcher and the index passes write the file's rows too, but note nothing: what the noted hash
belongs to need not be what was committed last.

## Key results

- `Skips.run`: a skipping task ends as committed and changes nothing
- `skip_after_commit`: no file is skipped that no task has committed
- `drift_skip_iff`: when the rows of a skipped file are those of its bytes
- `skip_after_return`: a file that went back to a content that the drift pass had committed
-/

namespace Semnav.Indexer

open Semnav.ForStd Semnav.Graph Semnav.Adapters

/-! ## Whoever else is at work -/

/-- What happens to the files and the graph besides the tasks for the file `uri`. -/
inductive Daemon (H : Hasher) (uri : String) : TaskWorld → TaskWorld → Prop where
  | edit {w w' : TaskWorld} (h : Edit w w') : Daemon H uri w w'
  /-- The daemon stops and starts again, with new servers. -/
  | restart (w : TaskWorld) : Daemon H uri w { w with openDocs := fun _ => none }
  /-- A node of an index pass, of any file. -/
  | upsertNode {w : TaskWorld} (args : FileArgs) (containerId : Option RowId) {sym : FlatSymbol}
      (hline : 0 ≤ sym.range.startLine) {db' : Db} {id : RowId}
      (hok : w.db.upsertNode (sym.toNode H args containerId) = .ok (db', id)) :
      Daemon H uri w (w.setDb db')
  /-- An edge of an index pass. -/
  | upsertEdge {w : TaskWorld} {e : Edge} {db' : Db} {id : RowId}
      (hok : w.db.upsertEdge e = .ok (db', id)) : Daemon H uri w (w.setDb db')
  /-- A reconcile of another file. -/
  | reconcileOther {w : TaskWorld} {args : FileArgs} {syms : List ReconcileSymbol}
      (hother : args.uri ≠ uri) (hline : ∀ s ∈ syms, 0 ≤ s.range.startLine) {db' : Db}
      {o : ReconcileOutcome} (hok : Graph.reconcileFileSymbols H w.db args syms = .ok (db', o)) :
      Daemon H uri w (w.setDb db')
  /-- A note about something else. -/
  | setMeta (w : TaskWorld) {key : String} (hkey : key ≠ TaskEnv.contentHashMetaKey uri)
      (value : String) : Daemon H uri w (w.setDb (w.db.setMeta key value))

/-- A step of the daemon that keeps the valid rows of the file. -/
def Keeps (H : Hasher) (uri : String) (w w' : TaskWorld) : Prop :=
  Daemon H uri w w' ∧ SameView uri w.db w'.db

section Env

variable {H : Hasher} {uri : String} {w w' : TaskWorld}

/-- Other tasks keep the tables' invariants. -/
private theorem Daemon.stored (hs : Daemon H uri w w') (h : w.db.Stored) : w'.db.Stored := by
  cases hs with
  | edit hedit =>
    cases hedit with
    | mk => exact h
  | restart => exact h
  | upsertNode args containerId hline hok => exact upsertNode_stored h hline hok
  | upsertEdge hok =>
    refine ⟨Db.upsertEdge_wf h.toWF hok, fun n hn => h.line_nonneg n ?_⟩
    rw [← (Db.upsertEdge_frame hok).1]
    exact hn
  | reconcileOther hother hline hok => exact reconcile_stored H h hline hok
  | setMeta hkey value => exact { h with }

/-- Nobody else notes a hash for the file. -/
private theorem Daemon.indexMeta (hs : Daemon H uri w w') (h : w.db.Stored) :
    w'.db.indexMeta (TaskEnv.contentHashMetaKey uri) =
      w.db.indexMeta (TaskEnv.contentHashMetaKey uri) := by
  cases hs with
  | edit hedit =>
    cases hedit with
    | mk => rfl
  | restart => rfl
  | upsertNode args containerId hline hok =>
    exact congrFun (upsertNode_frame h.toWF hok).2.2.2 _
  | upsertEdge hok => exact congrFun (Db.upsertEdge_frame hok).2.2.2.2 _
  | reconcileOther hother hline hok =>
    obtain ⟨ids, hr⟩ := reconcile_reconciled H h hline hok
    exact congrFun hr.indexMeta _
  | setMeta hkey value => simp [TaskWorld.setDb, Db.setMeta, Ne.symm hkey]

end Env

/-! ## The note comes after the commit -/

/-- Does the command note a hash? -/
def TaskCmd.notes {β : Type} : TaskCmd β → Bool
  | .setMeta .. => true
  | _ => false

/-- A command that fetches notes no hash. -/
private theorem TaskCmd.not_notes_of_fetches {β : Type} {c : TaskCmd β} (h : c.fetches = true) :
    c.notes = false := by
  cases c with
  | setMeta key value => exact nomatch h
  | _ => rfl

/-- A task notes nothing before it has committed. -/
abbrev NotesLast {α : Type} (q : TaskM α) : Prop :=
  Prog.Precedes (fun _ c => TaskCmd.commits c) (fun _ c => TaskCmd.notes c) q

section Notes

variable (env : TaskEnv) (uri : String)

/-- A command that notes nothing may come first. -/
private theorem notesLast_perform {β α : Type} {c : TaskCmd β} (hc : c.notes = false)
    {k : β → TaskM α} (hk : ∀ b, NotesLast (k b)) : NotesLast (Prog.perform c >>= k) :=
  ⟨hc, .inr hk⟩

/-- A fetch has no note after which a command would come. -/
private theorem notesLast_fetch : NotesLast (env.fetchUriSymbols uri) := by
  exact .of_issues ((fetch_issues env uri).mono fun _ _ h => TaskCmd.not_notes_of_fetches h)

/-- The note is the last command of an attempt. -/
private theorem notesLast_fetchAndCommit (hash : Option String) :
    NotesLast (env.fetchAndCommit uri hash) := by
  refine .bind (notesLast_fetch env uri) fun outcome => ?_
  cases outcome with
  | unsupported => trivial
  | lspUnavailable => trivial
  | fetched f =>
    dsimp only
    -- Whether or not the empty answer is suspicious, the hash is noted last of all.
    have htail : ∀ suspicious : Bool, NotesLast (if suspicious = true then
        pure DriftAttempt.suspiciousEmpty
      else do
        let _ ← Prog.perform (.reconcileFileSymbols f.args f.reconcileSymbols)
        Prog.perform (.setMeta (TaskEnv.contentHashMetaKey uri) (hash.getD ""))
        pure .committed : TaskM DriftAttempt) := by
      intro suspicious
      split
      · trivial
      · exact .perform_bind rfl rfl
    split
    · exact notesLast_perform rfl fun count => htail _
    · exact htail false

/-- The note is the last command of every task. -/
private theorem ReconcileTask.notesLast (task : ReconcileTask) :
    NotesLast (task.program env uri) := by
  cases task with
  | watcher =>
    -- The watcher notes no hash at all.
    refine .bind (.bind (notesLast_fetch env uri) fun outcome => ?_) fun _ => .pure
    cases outcome with
    | fetched f => exact .perform_bind rfl rfl
    | _ => trivial
  | startupDrift =>
    refine .bind ?_ fun _ => .pure
    -- The drift task reads the bytes and the noted hash first, and then works as above.
    unfold TaskEnv.reconcileUriForStartupDrift
    split
    · trivial
    · refine notesLast_perform rfl fun bytes => ?_
      split
      · exact notesLast_fetchAndCommit env uri none
      · rename_i hash _
        refine notesLast_perform rfl fun noted => ?_
        split
        · trivial
        · exact notesLast_fetchAndCommit env uri (some hash)

end Notes

/-! ## Skipping -/

/-- The drift task `i` has hashed `bytes`, and that is the hash noted for the file. -/
structure Skips (env : TaskEnv) (uri : String) (tasks : List ReconcileTask)
    (history : List (Nat × Exchange TaskCmd)) (w : TaskWorld) (i : Nat) (bytes : FileBytes) :
    Prop where
  task : tasks[i]? = some .startupDrift
  hashed : System.exchangesOf history i = [⟨.readBytes uri, some bytes⟩]
  noted : w.db.indexMeta (TaskEnv.contentHashMetaKey uri) = some (env.currentContentHash bytes)

/-- A run in which others have left the file's valid rows, since a task last committed it. -/
inductive QuietRun (env : TaskEnv) (S : TaskServer) (uri : String)
    (launched : System TaskCmd TaskWorld (Option DriftAttempt)) :
    List (Nat × Exchange TaskCmd) → System TaskCmd TaskWorld (Option DriftAttempt) → Prop where
  /-- No task has committed. -/
  | fresh {history : List (Nat × Exchange TaskCmd)}
      {sys : System TaskCmd TaskWorld (Option DriftAttempt)}
      (hrun : System.Ran (TaskCmd.handle env.hasher S) (Daemon env.hasher uri) launched history sys)
      (hnone : ∀ x ∈ history, x.2.cmd.commits = false) : QuietRun env S uri launched history sys
  | since {before after : List (Nat × Exchange TaskCmd)} {x : Nat × Exchange TaskCmd}
      {mid sys : System TaskCmd TaskWorld (Option DriftAttempt)}
      (hbefore : System.Ran (TaskCmd.handle env.hasher S) (Daemon env.hasher uri) launched before mid)
      (hcommit : x.2.cmd.commits = true) (hnone : ∀ y ∈ after, y.2.cmd.commits = false)
      (hafter : System.Ran (TaskCmd.handle env.hasher S) (Keeps env.hasher uri) mid (x :: after) sys) :
      QuietRun env S uri launched (before ++ x :: after) sys

section Run

variable {env : TaskEnv} {S : TaskServer} {uri : String} {start : TaskWorld}
  {tasks : List ReconcileTask} {history : List (Nat × Exchange TaskCmd)}
  {sys : System TaskCmd TaskWorld (Option DriftAttempt)}

/-- A quiet run is a run beside the daemon. -/
private theorem QuietRun.ran {launched : System TaskCmd TaskWorld (Option DriftAttempt)}
    (h : QuietRun env S uri launched history sys) :
    System.Ran (TaskCmd.handle env.hasher S) (Daemon env.hasher uri) launched history sys := by
  cases h with
  | fresh hrun hnone => exact hrun
  | since hbefore hcommit hnone hafter => exact hbefore.trans (hafter.mono fun _ _ hs => hs.1)

/-- A skipping task ends as committed, and changes nothing. -/
theorem Skips.run {adapter : LanguageAdapter}
    (hadapter : selectForUri env.adapters uri = some adapter)
    (hrun : System.Ran (TaskCmd.handle env.hasher S) (Daemon env.hasher uri)
      (.launch start (tasks.map (·.program env uri))) history sys)
    {i : Nat} {bytes : FileBytes} (h : Skips env uri tasks history sys.state i bytes) :
    ∃ t, sys.tasks[i]? = some t ∧ ∀ x ∈ t.rest,
      x.run (TaskCmd.handle env.hasher S) sys.state = (.ok (some .committed), sys.state) := by
  have hmem : (⟨.readBytes uri, some bytes⟩ : Exchange TaskCmd) ∈ System.exchangesOf history i := by
    rw [h.hashed]
    exact List.mem_singleton_self _
  obtain ⟨t, ht⟩ := hrun.exists_task (System.mem_exchangesOf.mp hmem)
  obtain ⟨hstart, htrace, y, hpath, hy⟩ := hrun.progress ht
  rw [List.getElem?_map, h.task] at hstart
  rw [← Option.some.inj hstart, htrace, h.hashed] at hpath
  simp only [ReconcileTask.program, TaskEnv.reconcileUriForStartupDrift, hadapter] at hpath
  refine ⟨t, ht, fun x hx => ?_⟩
  obtain rfl := hy x hx
  cases hpath with
  | cons _ hrest =>
    cases hrest
    -- What is left looks up the note.
    show Prog.run (TaskCmd.handle env.hasher S)
      ((if sys.state.db.indexMeta (TaskEnv.contentHashMetaKey uri) =
          some (env.currentContentHash bytes) then pure .committed
        else env.fetchAndCommit uri (some (env.currentContentHash bytes))) >>=
        fun attempt => pure (some attempt)) sys.state = _
    rw [if_pos h.noted]
    rfl

/-- Without a note by a task, what is noted for a file stays. -/
private theorem TaskCmd.handle_indexMeta {H : Hasher} {β : Type} {c : TaskCmd β} {w : TaskWorld}
    (hsound : c.Sound) (h : w.db.Stored) (hc : c.notes = false) :
    (c.handle H S w).2.db.indexMeta = w.db.indexMeta := by
  cases c with
  | setMeta key value => exact nomatch hc
  | ensureDocument u language text =>
    simp only [TaskCmd.handle, TaskWorld.openDoc]
    split <;> rfl
  | reconcileFileSymbols args syms =>
    simp only [TaskCmd.handle]
    split
    · rename_i tables o hok
      obtain ⟨ids, hr⟩ := reconcile_reconciled H h hsound hok
      exact hr.indexMeta
    · rfl
  | _ => rfl

/-- What holds at each point of a run: nothing is noted for the file that no task has noted. -/
structure NoteInv (uri : String) (history : List (Nat × Exchange TaskCmd)) (w : TaskWorld) :
    Prop where
  stored : w.db.Stored
  noted : w.db.indexMeta (TaskEnv.contentHashMetaKey uri) ≠ none →
    ∃ x ∈ history, x.2.cmd.notes = true

/-- One exchange. -/
private theorem NoteInv.step {H : Hasher} {β : Type} {w w' : TaskWorld} {i : Nat} {c : TaskCmd β}
    {reply : β} (h : NoteInv uri history w) (hsound : c.Sound)
    (hc : c.handle H S w = (.ok reply, w')) :
    NoteInv uri (history ++ [(i, ⟨c, reply⟩)]) w' := by
  have hw' : (c.handle H S w).2 = w' := congrArg Prod.snd hc
  refine ⟨hw' ▸ TaskCmd.handle_stored hsound h.stored, fun hsome => ?_⟩
  by_cases hnotes : c.notes = true
  · exact ⟨(i, ⟨c, reply⟩), by simp, hnotes⟩
  · have hkept := TaskCmd.handle_indexMeta (S := S) (H := H) hsound h.stored
      (Bool.eq_false_iff.mpr hnotes)
    rw [← hw', hkept] at hsome
    obtain ⟨x, hx, hxnotes⟩ := h.noted hsome
    exact ⟨x, List.mem_append_left _ hx, hxnotes⟩

/-- A hash noted is the hash of what the task committed. -/
private theorem noteInv_of_ran (hstored : start.db.Stored)
    (hfresh : start.db.indexMeta (TaskEnv.contentHashMetaKey uri) = none)
    (hrun : System.Ran (TaskCmd.handle env.hasher S) (Daemon env.hasher uri)
      (.launch start (tasks.map (·.program env uri))) history sys) :
    NoteInv uri history sys.state ∧ ∀ t ∈ sys.tasks, ∀ x ∈ t.rest, Sound x fun _ => True := by
  refine hrun.invariant (I := NoteInv uri) (Q := fun _ => True) (R := fun _ => True)
    (P := fun _ c => c.Sound) ?_ ?_ ?_ ⟨hstored, absurd hfresh⟩ ?_
  · intro γ history i c s s' b hinv hsound hc
    exact ⟨trivial, hinv.step hsound hc⟩
  · intro γ history c s s' e hinv _ hc
    exact TaskCmd.handle_error hc ▸ hinv
  · intro history s s' hinv hs
    refine ⟨hs.stored hinv.stored, ?_⟩
    rw [hs.indexMeta hinv.stored]
    exact hinv.noted
  · intro t ht x hx
    exact launch_sound ht hx

/-- A file is only skipped after some task has committed it. -/
private theorem skip_after_commit (hstored : start.db.Stored)
    (hfresh : start.db.indexMeta (TaskEnv.contentHashMetaKey uri) = none)
    (hrun : System.Ran (TaskCmd.handle env.hasher S) (Daemon env.hasher uri)
      (.launch start (tasks.map (·.program env uri))) history sys)
    {i : Nat} {bytes : FileBytes} (h : Skips env uri tasks history sys.state i bytes) :
    ∃ x ∈ history, x.2.cmd.commits = true := by
  have hinv := (noteInv_of_ran hstored hfresh hrun).1
  have hsome : sys.state.db.indexMeta (TaskEnv.contentHashMetaKey uri) ≠ none := by
    rw [h.noted]
    exact fun h => nomatch h
  obtain ⟨⟨j, e⟩, hmem, hnotes⟩ := hinv.noted hsome
  -- The task that noted the hash had committed before.
  obtain ⟨t, ht⟩ := hrun.exists_task hmem
  obtain ⟨hstart, htrace, y, hpath, -⟩ := hrun.progress ht
  rw [List.getElem?_map] at hstart
  obtain ⟨task, -, hprogram⟩ := Option.map_eq_some_iff.mp hstart
  rw [← hprogram, htrace] at hpath
  obtain ⟨e', he', hcommits⟩ := (task.notesLast env uri).path hpath
    ⟨e, System.mem_exchangesOf.mpr hmem, hnotes⟩
  exact ⟨(j, e'), System.mem_exchangesOf.mp he', hcommits⟩

/-- After a quiet run the file's rows are those of the last commit. -/
private theorem QuietRun.holds (hstored : start.db.Stored)
    (hfresh : start.db.indexMeta (TaskEnv.contentHashMetaKey uri) = none)
    (h : QuietRun env S uri (.launch start (tasks.map (·.program env uri))) history sys)
    (hcommitted : ∃ x ∈ history, x.2.cmd.commits = true) :
    ∃ i args syms, LastCommit history i args syms ∧
      (args.uri = uri → HoldsSymbols env.hasher args syms sys.state.db) := by
  cases h with
  | fresh hrun hnone =>
    obtain ⟨x, hx, hcommits⟩ := hcommitted
    exact absurd (hcommits.symm.trans (hnone x hx)) (by decide)
  | @since before after x mid sys hbefore hcommit hnone hafter =>
    obtain ⟨i, ⟨cmd, o⟩⟩ := x
    cases cmd with
    | reconcileFileSymbols args syms =>
      obtain ⟨hinv, hsound⟩ := noteInv_of_ran hstored hfresh hbefore
      refine ⟨i, args, syms, ⟨before, o, after, rfl, hnone⟩, ?_⟩
      -- From the commit on, everybody else leaves the rows.
      have hlater : CommitInv env.hasher uri _ sys.state := (hafter.invariant
        (I := CommitInv env.hasher uri) (Q := fun _ => True) (R := fun _ => True)
        (P := fun _ c => c.Sound) (fun history i c s s' b hinv hsound hc =>
          ⟨trivial, hinv.step hsound hc⟩)
        (fun history c s s' e hinv _ hc => TaskCmd.handle_error hc ▸ hinv)
        (fun history s s' hinv hs => hinv.other (hs.1.stored hinv.stored) hs.2)
        (.init hinv.stored) hsound).1
      exact hlater.holds i args syms ⟨[], o, after, rfl, hnone⟩
    | _ => exact nomatch hcommit

end Run

/-- In every run of edits, restarts, index passes, reconciles of other files and tasks for a file,
    as long as its rows are left alone after the last commit: some task has committed a file that
    is skipped, and the valid rows are those of the bytes that the skipping task has hashed if and
    only if what the server reported to the last committer leaves the same rows as these bytes. -/
theorem drift_skip_iff (env : TaskEnv) (S : TaskServer)
    (symbolsOf : String → String → List DocumentSymbol) (uri : String) (adapter : LanguageAdapter)
    (hadapter : selectForUri env.adapters uri = some adapter) (start : TaskWorld)
    (hstored : start.db.Stored)
    (hfresh : start.db.indexMeta (TaskEnv.contentHashMetaKey uri) = none)
    (tasks : List ReconcileTask) (history : List (Nat × Exchange TaskCmd))
    (sys : System TaskCmd TaskWorld (Option DriftAttempt))
    (hrun : QuietRun env S uri (.launch start (tasks.map (·.program env uri))) history sys)
    (i : Nat) (bytes : FileBytes) (hskip : Skips env uri tasks history sys.state i bytes) :
    ∃ j own symbols, CommitsLast history j ∧ ReadBy history uri j own ∧
      (j, ⟨.documentSymbols uri, symbols⟩) ∈ history ∧
      (HoldsSymbols env.hasher (fileArgs adapter uri env.rootUri)
          (readSymbols env symbolsOf adapter uri (decodeUtf8 bytes)) sys.state.db ↔
        LeaveSame env.hasher (fileArgs adapter uri env.rootUri)
          (env.fetchedOf adapter uri own.isSome symbols).reconcileSymbols
          (readSymbols env symbolsOf adapter uri (decodeUtf8 bytes))) ∧
      (own = decodeUtf8 bytes → symbols = symbolsOf uri (own.getD "") →
        HoldsSymbols env.hasher (fileArgs adapter uri env.rootUri)
          (readSymbols env symbolsOf adapter uri (decodeUtf8 bytes)) sys.state.db) := by
  obtain ⟨j, args, syms, hlast, hholds⟩ :=
    hrun.holds hstored hfresh (skip_after_commit hstored hfresh hrun.ran hskip)
  have hmem : ∃ o, (j, (⟨.reconcileFileSymbols args syms, o⟩ : Exchange TaskCmd)) ∈ history := by
    obtain ⟨before, o, after, hsplit, -⟩ := hlast
    exact ⟨o, by rw [hsplit]; simp⟩
  obtain ⟨o, hmem⟩ := hmem
  -- What the last committer was told.
  obtain ⟨before, own, symbols, after, hgot⟩ := task_gotThrough hadapter hrun.ran hmem rfl
  obtain ⟨rfl, rfl⟩ := hgot.committed (System.mem_exchangesOf.mpr hmem)
  have hholds := hholds rfl
  have hfetch : ∀ e ∈ fetchTrace adapter uri own symbols, (j, e) ∈ history := by
    intro e he
    refine System.mem_exchangesOf.mp ?_
    rw [hgot.split]
    exact List.mem_append_left _ (List.mem_append_right _ he)
  refine ⟨j, own, symbols, ⟨_, _, hlast⟩, hfetch _ (by simp [fetchTrace]),
    hfetch _ (by simp [fetchTrace]), ?_, fun hown hsymbols => ?_⟩
  · exact hholds.iff_leaveSame (fetchedOf_line_nonneg env adapter uri own.isSome symbols)
  · rw [readSymbols, declaredSymbols, ← hown, ← hsymbols]
    exact hholds

/-! ## Back to an earlier content -/

/-- Two drift tasks for `app.py` and the watcher's between them, before their first step. -/
def driftWatcherDrift : System TaskCmd TaskWorld (Option DriftAttempt) :=
  .launch textWorld (List.map (ReconcileTask.program rootEnv appPy.uri)
    [.startupDrift, .watcher, .startupDrift])

/-- The first drift task, to its end. -/
def firstDrift : List (Exchange TaskCmd) × TaskM (Option DriftAttempt) × TaskWorld :=
  (ReconcileTask.startupDrift.program rootEnv appPy.uri).advance
    (TaskCmd.handle rootEnv.hasher textServer) 8 textWorld

/-- The second one's read of the bytes, after a restart. -/
def secondDrift : List (Exchange TaskCmd) × TaskM (Option DriftAttempt) × TaskWorld :=
  (ReconcileTask.startupDrift.program rootEnv appPy.uri).advance
    (TaskCmd.handle rootEnv.hasher textServer) 1 { firstDrift.2.2 with openDocs := fun _ => none }

/-- Both tasks and the watcher's when the first one is about to commit. -/
def aboutToCommit : System TaskCmd TaskWorld (Option DriftAttempt) :=
  ⟨driftAsked.2.2,
    [⟨ReconcileTask.startupDrift.program rootEnv appPy.uri, driftAsked.1, some driftAsked.2.1⟩,
      ⟨ReconcileTask.watcher.program rootEnv appPy.uri, [],
        some (ReconcileTask.watcher.program rootEnv appPy.uri)⟩,
      ⟨ReconcileTask.startupDrift.program rootEnv appPy.uri, [],
        some (ReconcileTask.startupDrift.program rootEnv appPy.uri)⟩]⟩

/-- The two in a row, the first one's commit being its seventh command. -/
def untouchedHistory : List (Nat × Exchange TaskCmd) :=
  (firstDrift.1.take 6).map (fun e => (0, e)) ++
    ((0, firstDrift.1.get ⟨6, by decide⟩) ::
      ((firstDrift.1.drop 7).map (fun e => (0, e)) ++ secondDrift.1.map fun e => (2, e)))

/-- A file that nobody touches in between is skipped, and rightly so. -/
theorem drift_skip_untouched :
    ∃ sys : System TaskCmd TaskWorld (Option DriftAttempt),
      QuietRun rootEnv textServer appPy.uri driftWatcherDrift untouchedHistory sys ∧
      Skips rootEnv appPy.uri [.startupDrift, .watcher, .startupDrift] untouchedHistory sys.state 2
        [97] ∧
      HoldsSymbols lengthHasher appPy
        (readSymbols rootEnv classOfA pythonAdapter appPy.uri (some "a")) sys.state.db := by
  have hstart : System.Ran (TaskCmd.handle rootEnv.hasher textServer)
    (Daemon rootEnv.hasher appPy.uri) driftWatcherDrift [] driftWatcherDrift := .refl
  have hbefore : System.Ran (TaskCmd.handle rootEnv.hasher textServer)
      (Daemon rootEnv.hasher appPy.uri) driftWatcherDrift _ aboutToCommit :=
    System.Ran.advance [] [_, _] hstart 6
  have hcommitting : System.Ran (TaskCmd.handle rootEnv.hasher textServer)
    (Keeps rootEnv.hasher appPy.uri) aboutToCommit [] aboutToCommit := .refl
  have hcommitted := System.Ran.advance [] [_, _] hcommitting 2
  have hrestart := hcommitted.env ⟨.restart _, .of_nodes rfl⟩
  have hafter := System.Ran.advance [_, _] [] hrestart 1
  have hquiet : QuietRun rootEnv textServer appPy.uri driftWatcherDrift untouchedHistory _ :=
    .since hbefore rfl (by decide) hafter
  have hskip : Skips rootEnv appPy.uri [.startupDrift, .watcher, .startupDrift] untouchedHistory
    secondDrift.2.2 2 [97] := ⟨rfl, rfl, rfl⟩
  have hmain := drift_skip_iff rootEnv textServer classOfA appPy.uri pythonAdapter (by decide)
    textWorld Db.empty_stored rfl [.startupDrift, .watcher, .startupDrift] _ _ hquiet 2 [97] hskip
  obtain ⟨j, own, symbols, -, hown, hsymbols, -, hholds⟩ := hmain
  -- Nothing else was read or reported.
  have htext : untouchedHistory.filterMap (fun x => textRead x.2) = [some "a"] := rfl
  have htree : untouchedHistory.filterMap (fun x => symbolsRead x.2) = [classTree] := rfl
  have hown : own ∈ untouchedHistory.filterMap (fun x => textRead x.2) :=
    List.mem_filterMap.mpr ⟨_, hown, rfl⟩
  have hsymbols : symbols ∈ untouchedHistory.filterMap (fun x => symbolsRead x.2) :=
    List.mem_filterMap.mpr ⟨_, hsymbols, rfl⟩
  rw [htext, List.mem_singleton] at hown
  rw [htree, List.mem_singleton] at hsymbols
  exact ⟨_, hquiet, hskip, hholds (hown.trans rfl) (by rw [hown, hsymbols]; rfl)⟩

/-- The watcher's task after the first drift task, once the file has become `b`. -/
def watcherOfB : List (Exchange TaskCmd) × TaskM (Option DriftAttempt) × TaskWorld :=
  (ReconcileTask.watcher.program rootEnv appPy.uri).advance
    (TaskCmd.handle rootEnv.hasher textServer) 5
    { firstDrift.2.2 with files := fun u =>
        if u = appPy.uri then some [98] else firstDrift.2.2.files u }

/-- The second drift task's read of the bytes, when the file is `a` again and the daemon has
    been restarted. -/
def driftOfA : List (Exchange TaskCmd) × TaskM (Option DriftAttempt) × TaskWorld :=
  (ReconcileTask.startupDrift.program rootEnv appPy.uri).advance
    (TaskCmd.handle rootEnv.hasher textServer) 1
    { watcherOfB.2.2 with
      files := fun u => if u = appPy.uri then some [97] else watcherOfB.2.2.files u
      openDocs := fun _ => none }

/-- The three in a row. -/
def returnHistory : List (Nat × Exchange TaskCmd) :=
  firstDrift.1.map (fun e => (0, e)) ++ watcherOfB.1.map (fun e => (1, e)) ++
    driftOfA.1.map fun e => (2, e)

/-- The class that `a` declares is shown. -/
private theorem classOfA_shows {db : Db}
    (h : HoldsSymbols lengthHasher appPy
      (readSymbols rootEnv classOfA pythonAdapter appPy.uri (some "a")) db) :
    ∃ v, db.Shows appPy.uri v ∧ v.fqn = "app.Foo" := by
  have hclass : ∀ x : Db × ReconcileOutcome, reconcileFileSymbols lengthHasher .empty appPy
      (readSymbols rootEnv classOfA pythonAdapter appPy.uri (some "a")) = .ok x →
      ∃ n ∈ x.1.nodes, n.uri = appPy.uri ∧ n.valid = true ∧ n.fqn = "app.Foo" := by
    intro x hx
    cases hx
    decide
  have hempty : HoldsSymbols lengthHasher appPy
      (readSymbols rootEnv classOfA pythonAdapter appPy.uri (some "a")) _ :=
    .of_reconcile Db.empty_stored rfl
  obtain ⟨n, hn, hu, hvalid, hfqn⟩ := hclass _ rfl
  exact ⟨_, (h.sameView (by decide) hempty _).mpr ⟨n, hn, hu, hvalid, rfl⟩, hfqn⟩

/-- The drift pass commits `a` and notes its hash; the watcher commits `b`; and after a stop, an
    edit back to `a` and a start the file is skipped, though its class has no valid row. -/
theorem skip_after_return : ∃ sys,
    System.Ran (TaskCmd.handle rootEnv.hasher textServer) (Daemon rootEnv.hasher appPy.uri)
      driftWatcherDrift returnHistory sys ∧
    Skips rootEnv appPy.uri [.startupDrift, .watcher, .startupDrift] returnHistory sys.state 2
      [97] ∧
    sys.state.files appPy.uri = some [97] ∧
    ¬ HoldsSymbols lengthHasher appPy
      (readSymbols rootEnv classOfA pythonAdapter appPy.uri (decodeUtf8 [97])) sys.state.db := by
  have hstart : System.Ran (TaskCmd.handle rootEnv.hasher textServer)
    (Daemon rootEnv.hasher appPy.uri) driftWatcherDrift [] driftWatcherDrift := .refl
  have hdrift := System.Ran.advance [] [_, _] hstart 8
  have hedit := hdrift.env (.edit (.mk _ appPy.uri (some [98])))
  have hwatcher := System.Ran.advance [_] [_] hedit 5
  have hback := hwatcher.env (.edit (.mk _ appPy.uri (some [97])))
  have hrestart := hback.env (.restart _)
  have hrun := System.Ran.advance [_, _] [] hrestart 1
  have hskip : Skips rootEnv appPy.uri [.startupDrift, .watcher, .startupDrift] returnHistory
    driftOfA.2.2 2 [97] := ⟨rfl, rfl, rfl⟩
  refine ⟨_, hrun, hskip, rfl, fun h => ?_⟩
  -- All that is valid is the module root.
  have hroot : ∀ n ∈ driftOfA.2.2.db.nodes, n.valid = true → n.fqn = "app" := by decide
  obtain ⟨v, ⟨n, hn, hu, hvalid, rfl⟩, hfqn⟩ := classOfA_shows (show HoldsSymbols lengthHasher appPy
    (readSymbols rootEnv classOfA pythonAdapter appPy.uri (some "a")) driftOfA.2.2.db from h)
  exact absurd ((hroot n hn hvalid).symm.trans hfqn) (by decide)

end Semnav.Indexer
