import Semnav.Spec.IndexAgrees
import Semnav.Spec.TaskRuns

/-!
# Concurrent reconciles of one file

The watcher and the startup-drift pass may reconcile one file at the same time, and nothing
orders their steps: each commits what the server reported to it, however old that is by then.
After the last commit the file's rows are those of the text that the server held when that task
asked, be it the newest one or not.

## Key results

- `OverwriteInv.step`: the rows are those of the last commit
- `no_stale_overwrite_iff`: when they are those of the newest content that a task has read
- `stale_commit_wins`: an older content that is committed last
-/

namespace Semnav.Indexer

open Semnav.ForStd Semnav.Graph Semnav.Adapters

/-- A file is edited, created or deleted. -/
inductive Edit : TaskWorld → TaskWorld → Prop where
  | mk (w : TaskWorld) (uri : String) (content : Option FileBytes) :
      Edit w { w with files := fun u => if u = uri then content else w.files u }

/-! ## What a history tells -/

/-- The text the command sends for the document, if any. -/
def TaskCmd.sends (uri : String) {β : Type} : TaskCmd β → Option String
  | .ensureDocument u _ text => if u = uri then some text else none
  | _ => none

/-- The text the document was last sent with. -/
def lastSent (start : Option String) (uri : String) (history : List (Nat × Exchange TaskCmd)) :
    Option String :=
  history.foldl (fun sent x => (x.2.cmd.sends uri).or sent) start

/-- Is the command a read of a file's text? -/
def TaskCmd.readsText {β : Type} : TaskCmd β → Bool
  | .readToString _ => true
  | _ => false

/-- A task has read the file, with this result. -/
def ReadBy (history : List (Nat × Exchange TaskCmd)) (uri : String) (i : Nat)
    (text : Option String) : Prop :=
  (i, ⟨.readToString uri, text⟩) ∈ history

/-- The last read of the file by any task gave this. -/
def NewestRead (history : List (Nat × Exchange TaskCmd)) (uri : String)
    (text : Option String) : Prop :=
  ∃ before i after, history = before ++ (i, ⟨.readToString uri, text⟩) :: after ∧
    ∀ x ∈ after, x.2.cmd.readsText = false

/-- When the task asked for the file's symbols, the document had been sent with `text` last. -/
def AskedFor (start : TaskWorld) (history : List (Nat × Exchange TaskCmd)) (uri : String) (i : Nat)
    (text : String) : Prop :=
  ∃ before symbols after, history = before ++ (i, ⟨.documentSymbols uri, symbols⟩) :: after ∧
    lastSent (start.openDocs uri) uri before = some text

/-- The task `i` has committed, and no task after it. -/
def CommitsLast (history : List (Nat × Exchange TaskCmd)) (i : Nat) : Prop :=
  ∃ args syms, LastCommit history i args syms

/-- The text last sent is the last command's or the one before. -/
private theorem lastSent_snoc (start : Option String) (uri : String)
    (history : List (Nat × Exchange TaskCmd)) (x : Nat × Exchange TaskCmd) :
    lastSent start uri (history ++ [x]) = (x.2.cmd.sends uri).or (lastSent start uri history) := by
  simp [lastSent]

/-! ## The invariant -/

/-- What holds at each point of a run, besides: the server holds the text sent last. -/
structure OverwriteInv (H : Hasher) (start : TaskWorld) (uri : String)
    (history : List (Nat × Exchange TaskCmd)) (w : TaskWorld) : Prop
    extends CommitInv H uri history w where
  sent : w.openDocs uri = lastSent (start.openDocs uri) uri history

section Run

variable {env : TaskEnv} {H : Hasher} {S : TaskServer} {uri : String} {start w w' : TaskWorld}
  {history : List (Nat × Exchange TaskCmd)}

/-- Nothing has been committed at first. -/
theorem OverwriteInv.init (hstored : start.db.Stored) : OverwriteInv H start uri [] start where
  toCommitInv := .init hstored
  sent := rfl

/-- A command sends its text to the server. -/
private theorem handle_openDocs {β : Type} (c : TaskCmd β) (w : TaskWorld) :
    (c.handle H S w).2.openDocs uri = (c.sends uri).or (w.openDocs uri) := by
  cases c with
  | ensureDocument u language text =>
    simp only [TaskCmd.handle, TaskWorld.openDoc, TaskCmd.sends]
    -- Only opening a document sends, and only to its own uri.
    by_cases hu : u = uri
    · subst hu
      -- The same text is not sent again, but it is what the server holds.
      split
      · rename_i hsame
        simp [hsame]
      · simp
    · split
      · simp
      · simp [Ne.symm hu]
  | reconcileFileSymbols args syms =>
    simp only [TaskCmd.handle, TaskCmd.sends]
    split <;> rfl
  | _ => rfl

/-- One exchange. -/
private theorem OverwriteInv.step {β : Type} {i : Nat} {c : TaskCmd β} {reply : β}
    (h : OverwriteInv H start uri history w) (hsound : c.Sound)
    (hc : c.handle H S w = (.ok reply, w')) :
    OverwriteInv H start uri (history ++ [(i, ⟨c, reply⟩)]) w' where
  toCommitInv := h.toCommitInv.step hsound hc
  sent := by
    have hw' : (c.handle H S w).2 = w' := congrArg Prod.snd hc
    rw [lastSent_snoc, ← hw', handle_openDocs, h.sent]

/-- Every run beside edits keeps the invariant. -/
private theorem overwriteInv_of_ran (hstored : start.db.Stored) {tasks : List ReconcileTask}
    {sys : System TaskCmd TaskWorld (Option DriftAttempt)}
    (hrun : System.Ran (TaskCmd.handle env.hasher S) Edit
      (.launch start (tasks.map (·.program env uri))) history sys) :
    OverwriteInv env.hasher start uri history sys.state := by
  refine (hrun.invariant (I := OverwriteInv env.hasher start uri) (Q := fun _ => True)
    (R := fun _ => True) (P := fun _ c => c.Sound) ?_ ?_ ?_ (.init hstored) ?_).1
  · intro γ history i c s s' b hinv hsound hc
    exact ⟨trivial, hinv.step hsound hc⟩
  · intro γ history c s s' e hinv _ hc
    exact TaskCmd.handle_error hc ▸ hinv
  · intro history s s' hinv hs
    cases hs with
    | mk uri' content => exact { hinv with }
  · intro t ht x hx
    exact launch_sound ht hx

end Run

/-- In every interleaving of reconciles of a file with each other and with edits, once a task has
    committed: the valid rows of the file are those of the newest content that a task has read if
    and only if the text that the server held when the last committer asked, with that task's
    own view of whether the file exists, leaves the same rows as that content. -/
theorem no_stale_overwrite_iff (env : TaskEnv) (S : TaskServer)
    (symbolsOf : String → String → List DocumentSymbol) (hS : S.Reports symbolsOf) (uri : String)
    (adapter : LanguageAdapter) (hadapter : selectForUri env.adapters uri = some adapter)
    (start : TaskWorld) (hstored : start.db.Stored) (tasks : List ReconcileTask)
    (history : List (Nat × Exchange TaskCmd))
    (sys : System TaskCmd TaskWorld (Option DriftAttempt))
    (hrun : System.Ran (TaskCmd.handle env.hasher S) Edit
      (.launch start (tasks.map (·.program env uri))) history sys)
    (i : Nat) (hlast : CommitsLast history i)
    (own : Option String) (hown : ReadBy history uri i own)
    (text : String) (hasked : AskedFor start history uri i text) :
    ∀ newest, NewestRead history uri newest →
      (HoldsSymbols env.hasher (fileArgs adapter uri env.rootUri)
          (readSymbols env symbolsOf adapter uri newest) sys.state.db ↔
        LeaveSame env.hasher (fileArgs adapter uri env.rootUri)
          (declaredSymbols env symbolsOf adapter uri text own.isSome)
          (readSymbols env symbolsOf adapter uri newest)) ∧
      (text = newest.getD "" → own.isSome = newest.isSome →
        HoldsSymbols env.hasher (fileArgs adapter uri env.rootUri)
          (readSymbols env symbolsOf adapter uri newest) sys.state.db) := by
  obtain ⟨args, syms, hcommit⟩ := hlast
  have hinv := overwriteInv_of_ran hstored hrun
  have hmem : ∃ o, (i, (⟨.reconcileFileSymbols args syms, o⟩ : Exchange TaskCmd)) ∈ history := by
    obtain ⟨before, o, after, hsplit, -⟩ := hcommit
    exact ⟨o, by rw [hsplit]; simp⟩
  obtain ⟨o, hmem⟩ := hmem
  obtain ⟨before, read, symbols, after, hgot⟩ := task_gotThrough hadapter hrun hmem rfl
  obtain ⟨rfl, rfl⟩ := hgot.committed (System.mem_exchangesOf.mpr hmem)
  have hholds := hinv.holds i _ _ hcommit rfl
  -- The task's own read, and what the server answered to it.
  have hread : own = read :=
    read_of_mem_fetchTrace (hgot.mem_fetch (System.mem_exchangesOf.mpr hown) rfl) rfl
  have hsymbols : symbols = symbolsOf uri text := by
    obtain ⟨pre, answer, post, hsplit, hsent⟩ := hasked
    have he := hgot.mem_fetch (e := ⟨.documentSymbols uri, answer⟩)
      (System.mem_exchangesOf.mpr (by rw [hsplit]; simp)) rfl
    obtain rfl := symbols_of_mem_fetchTrace he rfl
    obtain ⟨mid, w', hmid, hhandle⟩ := hrun.split hsplit
    have hopen := (overwriteInv_of_ran hstored hmid).sent
    exact hS mid.state uri text answer (hopen.trans hsent) (congrArg Prod.fst hhandle)
  subst hread hsymbols
  intro newest _
  have hiff : HoldsSymbols env.hasher (fileArgs adapter uri env.rootUri)
      (readSymbols env symbolsOf adapter uri newest) sys.state.db ↔ _ :=
    hholds.iff_leaveSame (fetchedOf_line_nonneg env adapter uri own.isSome _)
  refine ⟨hiff, fun htext hexists => ?_⟩
  rw [readSymbols, ← htext, ← hexists]
  exact hholds

/-! ## An edit between two fetches -/

/-- The text `a` declares a class with a method, any other text nothing. -/
def classOfA (_ text : String) : List DocumentSymbol := if text = "a" then classTree else []

/-- A server that reports so for the text it was sent. -/
def textServer : TaskServer where
  acquires := fun _ _ => true
  documentSymbols := fun w uri =>
    match w.openDocs uri with
    | some text => .ok (classOfA uri text)
    | none => .error .lsp

/-- The server of the example reports its class for every text. -/
private theorem textServer_reports : textServer.Reports classOfA := by
  intro w uri text symbols hopen hreply
  simp only [textServer, hopen, Except.ok.injEq] at hreply
  exact hreply.symm

/-- `app.py` with the text `a`, not yet indexed. -/
def textWorld : TaskWorld where
  db := .empty
  files := fun uri => if uri = appPy.uri then some [97] else none
  openDocs := fun _ => none

/-- The drift task and the watcher's for `app.py`, before their first step. -/
def driftAndWatcher : System TaskCmd TaskWorld (Option DriftAttempt) :=
  .launch textWorld (List.map (ReconcileTask.program rootEnv appPy.uri) [.startupDrift, .watcher])

/-- The drift task's eight commands, with nobody else around. -/
def driftAlone : List (Nat × Exchange TaskCmd) :=
  ((ReconcileTask.startupDrift.program rootEnv appPy.uri).advance
    (TaskCmd.handle rootEnv.hasher textServer) 8 textWorld).1.map fun e => (0, e)

/-- A drift task that no watcher's task overlaps. -/
theorem no_stale_overwrite_alone : ∃ sys,
    System.Ran (TaskCmd.handle rootEnv.hasher textServer) Edit driftAndWatcher driftAlone sys ∧
    HoldsSymbols lengthHasher appPy (readSymbols rootEnv classOfA pythonAdapter appPy.uri (some "a"))
      sys.state.db := by
  have hstart : System.Ran (TaskCmd.handle rootEnv.hasher textServer) Edit driftAndWatcher []
    driftAndWatcher := .refl
  have hrun := System.Ran.advance [] [_] hstart 8
  have hmain := no_stale_overwrite_iff rootEnv textServer classOfA textServer_reports appPy.uri
    pythonAdapter (by decide) textWorld Db.empty_stored [.startupDrift, .watcher] driftAlone _ hrun 0
    ⟨_, _, driftAlone.take 6, _, driftAlone.drop 7, rfl, by decide⟩ (some "a")
    (List.mem_of_getElem? (i := 3) rfl) "a"
    ⟨driftAlone.take 5, _, driftAlone.drop 6, rfl, by decide⟩ (some "a")
    ⟨driftAlone.take 3, 0, driftAlone.drop 4, rfl, by decide⟩
  exact ⟨_, hrun, hmain.2 rfl rfl⟩

/-- The drift task up to the reply of the server. -/
def driftAsked : List (Exchange TaskCmd) × TaskM (Option DriftAttempt) × TaskWorld :=
  (ReconcileTask.startupDrift.program rootEnv appPy.uri).advance
    (TaskCmd.handle rootEnv.hasher textServer) 6 textWorld

/-- The watcher's task, once the file has become `b`. -/
def watcherDone : List (Exchange TaskCmd) × TaskM (Option DriftAttempt) × TaskWorld :=
  (ReconcileTask.watcher.program rootEnv appPy.uri).advance
    (TaskCmd.handle rootEnv.hasher textServer) 5
    { driftAsked.2.2 with files := fun u =>
        if u = appPy.uri then some [98] else driftAsked.2.2.files u }

/-- The rest of the drift task. -/
def driftDone : List (Exchange TaskCmd) × TaskM (Option DriftAttempt) × TaskWorld :=
  driftAsked.2.1.advance (TaskCmd.handle rootEnv.hasher textServer) 2 watcherDone.2.2

/-- The three in a row. -/
def staleHistory : List (Nat × Exchange TaskCmd) :=
  driftAsked.1.map (fun e => (0, e)) ++ watcherDone.1.map (fun e => (1, e)) ++
    driftDone.1.map fun e => (0, e)

/-- The module root, which is all that `b` declares. -/
private theorem rootOnly_shows {db : Db} {v : RowView}
    (h : HoldsSymbols lengthHasher appPy
      (readSymbols rootEnv classOfA pythonAdapter appPy.uri (some "b")) db)
    (hv : db.Shows appPy.uri v) : v.fqn = "app" := by
  have hroot : ∀ x : Db × ReconcileOutcome, reconcileFileSymbols lengthHasher .empty appPy
      (readSymbols rootEnv classOfA pythonAdapter appPy.uri (some "b")) = .ok x →
      ∀ n ∈ x.1.nodes, n.fqn = "app" := by
    intro x hx
    cases hx
    decide
  have hempty : HoldsSymbols lengthHasher appPy
      (readSymbols rootEnv classOfA pythonAdapter appPy.uri (some "b")) _ :=
    .of_reconcile Db.empty_stored rfl
  obtain ⟨n, hn, -, -, rfl⟩ := (h.sameView (by decide) hempty v).mp hv
  exact hroot _ rfl n hn

/-- The drift task has been told the symbols of `a`; then the file becomes `b`, the watcher's
    task runs to its end, and the drift task commits. -/
theorem stale_commit_wins : ∃ sys,
    System.Ran (TaskCmd.handle rootEnv.hasher textServer) Edit driftAndWatcher staleHistory sys ∧
    (∀ i < 2, ∃ e, (i, e) ∈ staleHistory ∧ e.cmd.commits = true) ∧
    NewestRead staleHistory appPy.uri (some "b") ∧
    ¬ HoldsSymbols lengthHasher appPy
      (readSymbols rootEnv classOfA pythonAdapter appPy.uri (some "b")) sys.state.db := by
  have hstart : System.Ran (TaskCmd.handle rootEnv.hasher textServer) Edit driftAndWatcher []
    driftAndWatcher := .refl
  have hdrift := System.Ran.advance [] [_] hstart 6
  have hedit := hdrift.env (.mk _ appPy.uri (some [98]))
  have hwatcher := System.Ran.advance [_] [] hedit 5
  have hrun := System.Ran.advance [] [_] hwatcher 2
  refine ⟨_, hrun, fun i hi => ?_, ?_, fun h => ?_⟩
  · by_cases hdriftCommit : i = 0
    · subst hdriftCommit
      exact ⟨_, List.mem_of_getElem? (i := 11) rfl, rfl⟩
    · obtain rfl : i = 1 := by omega
      exact ⟨_, List.mem_of_getElem? (i := 10) rfl, rfl⟩
  · exact ⟨staleHistory.take 7, 1, staleHistory.drop 8, rfl, by decide⟩
  · -- The class is shown, though `b` does not declare it.
    have hclass : ∃ n ∈ driftDone.2.2.db.nodes, n.uri = appPy.uri ∧ n.valid = true ∧
        n.fqn = "app.Foo" := by decide
    obtain ⟨n, hn, hu, hvalid, hfqn⟩ := hclass
    have hroot : n.fqn = "app" := rootOnly_shows h ⟨n, hn, hu, hvalid, rfl⟩
    exact absurd (hfqn.symm.trans hroot) (by decide)

end Semnav.Indexer
