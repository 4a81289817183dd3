import Semnav.ForStd.Interleaving
import Semnav.Spec.FileView
import Semnav.Spec.FilesIndependent

/-!
# Reconciling tasks in a run

What the watcher's task and the startup-drift task do to a file, command by command, while
others do the same and the files are edited.  A task commits the symbols that the server
reported, and the server reported those of the text it was last sent, which need not be the text
that the task has read.

## Key results

- `commit_fetched`: what a task commits, from its own exchanges
- `HoldsSymbols.iff_leaveSame`: two lists of symbols for which a file can be up to date at once
-/

namespace Semnav.Indexer

open Semnav.ForStd Semnav.Graph Semnav.Adapters

/-! ## Up-to-date files -/

/-- The valid rows of the file are those that a reconcile with these symbols leaves. -/
def HoldsSymbols (H : Hasher) (args : FileArgs) (syms : List ReconcileSymbol) (db : Db) : Prop :=
  ∃ d d' o, d.Stored ∧ reconcileFileSymbols H d args syms = .ok (d', o) ∧ SameView args.uri d' db

/-- Reconciles with the one and with the other leave the same valid rows. -/
def LeaveSame (H : Hasher) (args : FileArgs) (syms syms' : List ReconcileSymbol) : Prop :=
  ∃ db, HoldsSymbols H args syms db ∧ HoldsSymbols H args syms' db

section Holds

variable {H : Hasher} {args : FileArgs} {syms syms' : List ReconcileSymbol} {db db' : Db}

/-- What a file's rows hold depends on its view only. -/
theorem HoldsSymbols.congr (h : HoldsSymbols H args syms db) (hview : SameView args.uri db db') :
    HoldsSymbols H args syms db' := by
  obtain ⟨d, d', o, hd, hok, hsame⟩ := h
  exact ⟨d, d', o, hd, hok, hsame.trans hview⟩

/-- After a reconcile they hold the symbols reconciled. -/
theorem HoldsSymbols.of_reconcile {o : ReconcileOutcome} (h : db.Stored)
    (hok : reconcileFileSymbols H db args syms = .ok (db', o)) : HoldsSymbols H args syms db' :=
  ⟨db, db', o, h, hok, fun _ => Iff.rfl⟩

/-- The symbols determine the view. -/
theorem HoldsSymbols.sameView (hnn : ∀ s ∈ syms, 0 ≤ s.range.startLine)
    (h : HoldsSymbols H args syms db) (h' : HoldsSymbols H args syms db') :
    SameView args.uri db db' := by
  obtain ⟨d₁, d₁', o₁, hd₁, hok₁, hsame₁⟩ := h
  obtain ⟨d₂, d₂', o₂, hd₂, hok₂, hsame₂⟩ := h'
  exact hsame₁.symm.trans ((reconcile_sameView H hd₁ hd₂ hnn hok₁ hok₂).trans hsame₂)

/-- A file that is up to date for some symbols is so for others that leave the same rows. -/
theorem HoldsSymbols.iff_leaveSame (hnn : ∀ s ∈ syms, 0 ≤ s.range.startLine)
    (h : HoldsSymbols H args syms db) :
    HoldsSymbols H args syms' db ↔ LeaveSame H args syms syms' := by
  constructor
  · exact fun h' => ⟨db, h, h'⟩
  · intro hsame
    obtain ⟨d, hd, hd'⟩ := hsame
    exact hd'.congr (hd.sameView hnn h)

end Holds

/-! ## Servers that answer for the text they were sent -/

/-- The server reports the symbols of the text that the document was last sent with. -/
def TaskServer.Reports (S : TaskServer) (symbolsOf : String → String → List DocumentSymbol) : Prop :=
  ∀ w uri text symbols, w.openDocs uri = some text → S.documentSymbols w uri = .ok symbols →
    symbols = symbolsOf uri text

/-- What a reconcile of a file is asked to store, given its text and whether the file exists. -/
def declaredSymbols (env : TaskEnv) (symbolsOf : String → String → List DocumentSymbol)
    (adapter : LanguageAdapter) (uri text : String) (fileExists : Bool) : List ReconcileSymbol :=
  (env.fetchedOf adapter uri fileExists (symbolsOf uri text)).reconcileSymbols

/-- What a reconcile of a file stores that was read so, with nothing else going on. -/
def readSymbols (env : TaskEnv) (symbolsOf : String → String → List DocumentSymbol)
    (adapter : LanguageAdapter) (uri : String) (read : Option String) : List ReconcileSymbol :=
  declaredSymbols env symbolsOf adapter uri (read.getD "") read.isSome

/-- A fetched symbol starts on a line of the file. -/
theorem fetchedOf_line_nonneg (env : TaskEnv) (adapter : LanguageAdapter) (uri : String)
    (fileExists : Bool) (symbols : List DocumentSymbol) :
    ∀ s ∈ (env.fetchedOf adapter uri fileExists symbols).reconcileSymbols,
      0 ≤ s.range.startLine := by
  intro s hs
  obtain ⟨sym, hsym, rfl⟩ := List.mem_map.mp hs
  exact fetchedSymbols_line_nonneg symbols _ fileExists sym hsym

/-! ## The two tasks -/

/-- The two tasks for a file. -/
inductive ReconcileTask where
  /-- `reconcile_uri`. -/
  | watcher
  /-- `reconcile_uri_for_startup_drift`. -/
  | startupDrift
deriving DecidableEq

/-- The program of a task. -/
def ReconcileTask.program (env : TaskEnv) (uri : String) :
    ReconcileTask → TaskM (Option DriftAttempt)
  | .watcher => do
    env.reconcileUri uri
    pure none
  | .startupDrift => do
    let attempt ← env.reconcileUriForStartupDrift uri
    pure (some attempt)

/-- Is the command part of `fetch_uri_symbols`? -/
def TaskCmd.fetches {β : Type} : TaskCmd β → Bool
  | .acquire _ | .readToString _ | .ensureDocument .. | .documentSymbols _ => true
  | _ => false

/-- Is the command a commit? -/
def TaskCmd.commits {β : Type} : TaskCmd β → Bool
  | .reconcileFileSymbols .. => true
  | _ => false

/-- The command commits nothing but what was fetched. -/
def TaskCmd.CommitsOnly (f : FetchedSymbols) {β : Type} : TaskCmd β → Prop
  | .reconcileFileSymbols args syms => args = f.args ∧ syms = f.reconcileSymbols
  | _ => True

/-- The exchanges of a fetch. -/
def fetchTrace (adapter : LanguageAdapter) (uri : String) (read : Option String)
    (symbols : List DocumentSymbol) : List (Exchange TaskCmd) :=
  [⟨.acquire adapter.languageName, true⟩, ⟨.readToString uri, read⟩,
    ⟨.ensureDocument uri adapter.languageName (read.getD ""), ()⟩, ⟨.documentSymbols uri, symbols⟩]

/-- The trace of a task that got through its fetch: commands outside the fetch that commit
    nothing, the fetch, and commands outside that commit what was fetched. -/
structure GotThrough (env : TaskEnv) (adapter : LanguageAdapter) (uri : String)
    (trace : List (Exchange TaskCmd)) (before : List (Exchange TaskCmd)) (read : Option String)
    (symbols : List DocumentSymbol) (after : List (Exchange TaskCmd)) : Prop where
  split : trace = before ++ fetchTrace adapter uri read symbols ++ after
  quiet : ∀ e ∈ before, e.cmd.fetches = false ∧ e.cmd.commits = false
  rest : ∀ e ∈ after, e.cmd.fetches = false ∧
    e.cmd.CommitsOnly (env.fetchedOf adapter uri read.isSome symbols)

section Paths

variable {env : TaskEnv} {adapter : LanguageAdapter} {uri : String}

/-- A path through the fetch, if it got to its end with symbols. -/
private theorem fetch_path (hadapter : selectForUri env.adapters uri = some adapter)
    {trace : List (Exchange TaskCmd)} {outcome : FetchOutcome}
    (h : Prog.Path (env.fetchUriSymbols uri) trace (pure outcome)) :
    outcome = .lspUnavailable ∨ ∃ read symbols,
      trace = fetchTrace adapter uri read symbols ∧
      outcome = .fetched (env.fetchedOf adapter uri read.isSome symbols) := by
  unfold TaskEnv.fetchUriSymbols at h
  rw [hadapter] at h
  obtain ⟨first, rest, up, rfl, hfirst, hrest⟩ := h.of_bind_pure
  obtain rfl := hfirst.of_perform
  -- The server is up or not; if it is, the file is read, opened and asked for in this order.
  cases up with
  | false =>
    obtain ⟨-, hend⟩ := hrest.of_pure
    cases hend
    exact .inl rfl
  | true =>
    obtain ⟨_, _, read, rfl, hread, hopen⟩ := hrest.of_bind_pure
    obtain rfl := hread.of_perform
    obtain ⟨_, _, _, rfl, hopened, hask⟩ := hopen.of_bind_pure
    obtain rfl := hopened.of_perform
    obtain ⟨_, _, symbols, rfl, hasked, hend⟩ := hask.of_bind_pure
    obtain rfl := hasked.of_perform
    obtain ⟨rfl, hend⟩ := hend.of_pure
    cases hend
    exact .inr ⟨read, symbols, rfl, rfl⟩

/-- A command that fetches commits nothing. -/
private theorem TaskCmd.not_commits_of_fetches {β : Type} {c : TaskCmd β} (h : c.fetches = true) :
    c.commits = false := by
  cases c with
  | reconcileFileSymbols args syms => exact nomatch h
  | _ => rfl

/-- Fetching issues fetches only. -/
theorem fetch_issues (env : TaskEnv) (uri : String) :
    Prog.Issues (fun _ c => TaskCmd.fetches c = true) (env.fetchUriSymbols uri) := by
  unfold TaskEnv.fetchUriSymbols
  split
  · trivial
  · refine Prog.Issues.bind (.perform rfl) fun up => ?_
    split
    · refine Prog.Issues.bind (.perform rfl) fun read => ?_
      refine Prog.Issues.bind (.perform rfl) fun _ => ?_
      exact Prog.Issues.bind (.perform rfl) fun symbols => trivial
    · trivial

/-- A command outside the fetch that commits nothing. -/
abbrev Idle {β : Type} (c : TaskCmd β) : Prop := c.fetches = false ∧ c.commits = false

/-- A program that fetches first, and commits nothing but what it fetched. -/
private theorem fetch_first {α : Type} (hadapter : selectForUri env.adapters uri = some adapter)
    {k : FetchOutcome → TaskM α}
    (hfetched : ∀ f, Prog.Issues (fun _ c => TaskCmd.fetches c = false ∧ TaskCmd.CommitsOnly f c)
      (k (.fetched f)))
    (hdown : Prog.Issues (fun _ c => Idle c) (k .lspUnavailable))
    {trace : List (Exchange TaskCmd)} {y : TaskM α}
    (h : Prog.Path (env.fetchUriSymbols uri >>= k) trace y)
    (hcommit : ∃ e ∈ trace, e.cmd.commits = true) :
    ∃ read symbols after, GotThrough env adapter uri trace [] read symbols after := by
  obtain ⟨e, he, hcommits⟩ := hcommit
  cases h.bind_cases with
  | inl hin =>
    -- Still fetching: nothing is committed.
    obtain ⟨z, hpath, -⟩ := hin
    have hfetches := (hpath.issued (fetch_issues env uri)).1 e he
    exact absurd (hcommits.symm.trans (TaskCmd.not_commits_of_fetches hfetches)) (by decide)
  | inr hout =>
    obtain ⟨first, rest, outcome, rfl, hfirst, hrest⟩ := hout
    cases fetch_path hadapter hfirst with
    | inl hdown' =>
      subst hdown'
      exfalso
      cases List.mem_append.mp he with
      | inl he =>
        have hfetches := (hfirst.issued (fetch_issues env uri)).1 e he
        exact absurd (hcommits.symm.trans (TaskCmd.not_commits_of_fetches hfetches)) (by decide)
      | inr he =>
        have hnot := ((hrest.issued hdown).1 e he).2
        exact absurd (hcommits.symm.trans hnot) (by decide)
    | inr hfetched' =>
      obtain ⟨read, symbols, rfl, rfl⟩ := hfetched'
      exact ⟨read, symbols, rest, rfl, by simp, (hrest.issued (hfetched _)).1⟩

/-- Commands before the fetch that commit nothing. -/
private theorem GotThrough.cons {trace before after : List (Exchange TaskCmd)}
    {read : Option String}
    {symbols : List DocumentSymbol} {e : Exchange TaskCmd}
    (h : GotThrough env adapter uri trace before read symbols after) (he : Idle e.cmd) :
    GotThrough env adapter uri (e :: trace) (e :: before) read symbols after where
  split := by rw [h.split]; rfl
  quiet := by
    intro e' he'
    cases List.mem_cons.mp he' with
    | inl heq => exact heq ▸ he
    | inr hold => exact h.quiet e' hold
  rest := h.rest

/-- What follows in a watcher's task commits what was fetched. -/
private theorem reconcileUri_commits (f : FetchedSymbols) :
    Prog.Issues (fun _ c => TaskCmd.fetches c = false ∧ TaskCmd.CommitsOnly f c)
      (do
        let _ ← Prog.perform (.reconcileFileSymbols f.args f.reconcileSymbols)
        pure () : TaskM Unit) :=
  Prog.Issues.bind (.perform ⟨rfl, rfl, rfl⟩) fun _ => trivial

/-- A first command outside the fetch that commits nothing, then the rest. -/
private theorem perform_first {α β : Type} {c : TaskCmd β} (hc : Idle c) {k : β → TaskM α}
    {trace : List (Exchange TaskCmd)} {y : TaskM α} (h : Prog.Path (Prog.perform c >>= k) trace y)
    (hcommit : ∃ e ∈ trace, e.cmd.commits = true) :
    ∃ b rest, trace = ⟨c, b⟩ :: rest ∧ Prog.Path (k b) rest y ∧ ∃ e ∈ rest, e.cmd.commits = true := by
  obtain ⟨e, he, hcommits⟩ := hcommit
  cases h with
  | nil => exact absurd he List.not_mem_nil
  | cons b hrest =>
    refine ⟨b, _, rfl, hrest, ?_⟩
    cases List.mem_cons.mp he with
    | inl heq =>
      subst heq
      exact absurd (hcommits.symm.trans hc.2) (by decide)
    | inr hold => exact ⟨e, hold, hcommits⟩

/-- What follows in a drift task commits what was fetched. -/
private theorem commitUnless_issues (uri : String) (hash : Option String) (f : FetchedSymbols)
    (suspicious : Bool) :
    Prog.Issues (fun _ c => TaskCmd.fetches c = false ∧ TaskCmd.CommitsOnly f c)
      (if suspicious = true then pure DriftAttempt.suspiciousEmpty
        else do
          let _ ← Prog.perform (.reconcileFileSymbols f.args f.reconcileSymbols)
          Prog.perform (.setMeta (TaskEnv.contentHashMetaKey uri) (hash.getD ""))
          pure .committed : TaskM DriftAttempt) := by
  split
  · trivial
  · refine Prog.Issues.bind (.perform ⟨rfl, rfl, rfl⟩) fun _ => ?_
    exact Prog.Issues.bind (.perform ⟨rfl, trivial⟩) fun _ => trivial

/-- A drift attempt from the fetch on. -/
private theorem fetchAndCommit_fetched (hadapter : selectForUri env.adapters uri = some adapter)
    {hash : Option String} {trace : List (Exchange TaskCmd)} {y : TaskM (Option DriftAttempt)}
    (h : Prog.Path (env.fetchAndCommit uri hash >>= fun attempt => pure (some attempt)) trace y)
    (hcommit : ∃ e ∈ trace, e.cmd.commits = true) :
    ∃ read symbols after, GotThrough env adapter uri trace [] read symbols after := by
  rw [TaskEnv.fetchAndCommit, bind_assoc] at h
  refine fetch_first hadapter (fun f => ?_) ?_ h hcommit
  · refine Prog.Issues.bind ?_ fun _ => trivial
    dsimp only
    split
    · exact Prog.Issues.bind (.perform ⟨rfl, trivial⟩) fun count =>
        commitUnless_issues uri hash f (decide (count > 0))
    · exact commitUnless_issues uri hash f false
  · trivial

/-- What a task with a commit in its trace has done. -/
private theorem commit_fetched (hadapter : selectForUri env.adapters uri = some adapter)
    {task : ReconcileTask} {trace : List (Exchange TaskCmd)} {y : TaskM (Option DriftAttempt)}
    (h : Prog.Path (task.program env uri) trace y) (hcommit : ∃ e ∈ trace, e.cmd.commits = true) :
    ∃ before read symbols after,
      GotThrough env adapter uri trace before read symbols after := by
  cases task with
  | watcher =>
    rw [ReconcileTask.program, TaskEnv.reconcileUri, bind_assoc] at h
    refine ⟨[], fetch_first hadapter (fun f => ?_) ?_ h hcommit⟩
    · exact Prog.Issues.bind (reconcileUri_commits f) fun _ => trivial
    · trivial
  | startupDrift =>
    rw [ReconcileTask.program, TaskEnv.reconcileUriForStartupDrift, hadapter] at h
    dsimp only at h
    rw [bind_assoc] at h
    obtain ⟨bytes, rest, rfl, hrest, hcommit⟩ := perform_first ⟨rfl, rfl⟩ h hcommit
    cases hhash : bytes.map env.currentContentHash with
    | none =>
      rw [hhash] at hrest
      obtain ⟨read, symbols, after, hgot⟩ := fetchAndCommit_fetched hadapter hrest hcommit
      exact ⟨_, read, symbols, after, hgot.cons ⟨rfl, rfl⟩⟩
    | some hash =>
      rw [hhash] at hrest
      dsimp only at hrest
      rw [bind_assoc] at hrest
      obtain ⟨noted, rest', rfl, hrest', hcommit⟩ := perform_first ⟨rfl, rfl⟩ hrest hcommit
      split at hrest'
      · -- Skipped: nothing is committed.
        obtain ⟨rfl, -⟩ := hrest'.of_pure
        obtain ⟨e, he, -⟩ := hcommit
        exact absurd he List.not_mem_nil
      · obtain ⟨read, symbols, after, hgot⟩ := fetchAndCommit_fetched hadapter hrest' hcommit
        exact ⟨_, read, symbols, after, (hgot.cons ⟨rfl, rfl⟩).cons ⟨rfl, rfl⟩⟩

end Paths

/-! ## One command -/

/-- The command commits symbols on real lines only. -/
def TaskCmd.Sound {β : Type} : TaskCmd β → Prop
  | .reconcileFileSymbols _ syms => ∀ s ∈ syms, 0 ≤ s.range.startLine
  | _ => True

section Command

variable {env : TaskEnv} {H : Hasher} {S : TaskServer} {β : Type} {c : TaskCmd β}
  {w w' : TaskWorld} {reply : β}

/-- A program whose commands are sound, whatever the replies. -/
abbrev Sound {α : Type} (x : TaskM α) (Q : α → Prop) : Prop :=
  Prog.Under (fun _ => True) (fun _ c => c.Sound) Q x

/-- A fetch issues no commit, and what it fetched is of an adapter of the uri. -/
private theorem fetch_under {P : ∀ β : Type, TaskCmd β → Prop}
    (hidle : ∀ (β : Type) (c : TaskCmd β), c.commits = false → P β c) {K : FetchedSymbols → Prop}
    (env : TaskEnv) (uri : String)
    (hK : ∀ adapter, selectForUri env.adapters uri = some adapter → ∀ fileExists symbols,
      K (env.fetchedOf adapter uri fileExists symbols)) :
    Prog.Under (fun _ => True) P (fun outcome => ∀ f, outcome = .fetched f → K f)
      (env.fetchUriSymbols uri) := by
  -- No command of the fetch commits, and what it fetches is made from the adapter.
  unfold TaskEnv.fetchUriSymbols
  split
  · exact .pure fun f hf => nomatch hf
  · rename_i adapter hadapter
    refine Prog.Under.bind (Q := fun _ => True) (.perform (hidle _ _ rfl) fun _ _ => trivial)
      fun up _ => ?_
    split
    · refine Prog.Under.bind (Q := fun _ => True) (.perform (hidle _ _ rfl) fun _ _ => trivial)
        fun read _ => ?_
      refine Prog.Under.bind (Q := fun _ => True) (.perform (hidle _ _ rfl) fun _ _ => trivial)
        fun _ _ => ?_
      refine Prog.Under.bind (Q := fun _ => True) (.perform (hidle _ _ rfl) fun _ _ => trivial)
        fun symbols _ => .pure fun f hf => ?_
      cases hf
      exact hK adapter hadapter read.isSome symbols
    · exact .pure fun f hf => nomatch hf

section Under

variable {P : ∀ β : Type, TaskCmd β → Prop}
  (hidle : ∀ (β : Type) (c : TaskCmd β), c.commits = false → P β c)
  (hcommit : ∀ adapter, selectForUri env.adapters uri = some adapter → ∀ fileExists symbols,
    P _ (.reconcileFileSymbols (env.fetchedOf adapter uri fileExists symbols).args
      (env.fetchedOf adapter uri fileExists symbols).reconcileSymbols))

include hidle hcommit

/-- The trace of one attempt, under any replies. -/
private theorem fetchAndCommit_under (hash : Option String) :
    Prog.Under (fun _ => True) P (fun _ => True) (env.fetchAndCommit uri hash) := by
  refine (fetch_under hidle
    (K := fun f => P _ (.reconcileFileSymbols f.args f.reconcileSymbols)) env uri hcommit).bind
      fun outcome houtcome => ?_
  -- Only what was fetched is committed, and an empty list may be refused.
  cases outcome with
  | unsupported => exact .pure trivial
  | lspUnavailable => exact .pure trivial
  | fetched f =>
    have hrest : ∀ suspicious : Bool, Prog.Under (fun _ => True) P (fun _ => True)
        (if suspicious = true then pure DriftAttempt.suspiciousEmpty
          else do
            let _ ← Prog.perform (.reconcileFileSymbols f.args f.reconcileSymbols)
            Prog.perform (.setMeta (TaskEnv.contentHashMetaKey uri) (hash.getD ""))
            pure .committed : TaskM DriftAttempt) := by
      intro suspicious
      split
      · exact .pure trivial
      · refine Prog.Under.bind (Q := fun _ => True) (.perform (houtcome f rfl) fun _ _ => trivial)
          fun _ _ => ?_
        exact Prog.Under.bind (Q := fun _ => True) (.perform (hidle _ _ rfl) fun _ _ => trivial)
          fun _ _ => .pure trivial
    -- The rows are counted for an empty list alone.
    dsimp only
    split
    · exact Prog.Under.bind (Q := fun _ => True) (.perform (hidle _ _ rfl) fun _ _ => trivial)
        fun count _ => hrest (decide (count > 0))
    · exact hrest false

/-- A drift attempt commits nothing but what it fetched. -/
theorem driftAttempt_under :
    Prog.Under (fun _ => True) P (fun _ => True) (env.reconcileUriForStartupDrift uri) := by
  unfold TaskEnv.reconcileUriForStartupDrift
  split
  · exact .pure trivial
  · refine Prog.Under.bind (Q := fun _ => True) (.perform (hidle _ _ rfl) fun _ _ => trivial)
      fun bytes _ => ?_
    split
    · exact fetchAndCommit_under hidle hcommit none
    · rename_i hash _
      refine Prog.Under.bind (Q := fun _ => True) (.perform (hidle _ _ rfl) fun _ _ => trivial)
        fun noted _ => ?_
      split
      · exact .pure trivial
      · exact fetchAndCommit_under hidle hcommit (some hash)

/-- Each of the two tasks issues only what is allowed. -/
private theorem ReconcileTask.program_under (task : ReconcileTask) :
    Prog.Under (fun _ => True) P (fun _ => True) (task.program env uri) := by
  cases task with
  | watcher =>
    refine Prog.Under.bind (Q := fun _ => True) ?_ fun _ _ => .pure trivial
    refine (fetch_under hidle
      (K := fun f => P _ (.reconcileFileSymbols f.args f.reconcileSymbols)) env uri hcommit).bind
        fun outcome houtcome => ?_
    cases outcome with
    | unsupported => exact .pure trivial
    | lspUnavailable => exact .pure trivial
    | fetched f =>
      exact Prog.Under.bind (Q := fun _ => True) (.perform (houtcome f rfl) fun _ _ => trivial)
        fun _ _ => .pure trivial
  | startupDrift =>
    exact Prog.Under.bind (Q := fun _ => True) (driftAttempt_under hidle hcommit)
      fun _ _ => .pure trivial

end Under

/-- A command that commits nothing is sound. -/
private theorem TaskCmd.sound_of_idle {β : Type} {c : TaskCmd β} (h : c.commits = false) :
    c.Sound := by
  cases c with
  | reconcileFileSymbols args syms => exact nomatch h
  | _ => trivial

/-- A task only commits what it read and fetched. -/
private theorem ReconcileTask.program_sound (env : TaskEnv) (uri : String) (task : ReconcileTask) :
    Sound (task.program env uri) fun _ => True := by
  refine ReconcileTask.program_under (fun _ _ h => TaskCmd.sound_of_idle h) ?_ task
  intro adapter _ fileExists symbols
  exact fetchedOf_line_nonneg env adapter uri fileExists symbols

/-- Sound commands leave a stored graph. -/
theorem TaskCmd.handle_stored (hsound : c.Sound) (h : w.db.Stored) :
    (c.handle H S w).2.db.Stored := by
  cases c with
  | setMeta key value => exact { h with }
  | ensureDocument uri language text =>
    simp only [TaskCmd.handle, TaskWorld.openDoc]
    split <;> exact h
  | reconcileFileSymbols args syms =>
    simp only [TaskCmd.handle]
    split
    · rename_i tables o hok
      exact reconcile_stored H h hsound hok
    · exact h
  | _ => exact h

/-- Without a commit, the rows stay. -/
theorem TaskCmd.handle_nodes (hc : c.commits = false) :
    (c.handle H S w).2.db.nodes = w.db.nodes := by
  cases c with
  | reconcileFileSymbols args syms => exact nomatch hc
  | ensureDocument uri language text =>
    simp only [TaskCmd.handle, TaskWorld.openDoc]
    split <;> rfl
  | _ => rfl

end Command

/-! ## The rows are those of the last commit -/

/-- The last commit of the history is that of the task `i`, of these symbols. -/
def LastCommit (history : List (Nat × Exchange TaskCmd)) (i : Nat) (args : FileArgs)
    (syms : List ReconcileSymbol) : Prop :=
  ∃ before o after, history = before ++ (i, ⟨.reconcileFileSymbols args syms, o⟩) :: after ∧
    ∀ x ∈ after, x.2.cmd.commits = false

/-- The last commit of a longer history is its last exchange or the one before. -/
private theorem LastCommit.snoc {history : List (Nat × Exchange TaskCmd)}
    {x : Nat × Exchange TaskCmd}
    {i : Nat} {args : FileArgs} {syms : List ReconcileSymbol}
    (h : LastCommit (history ++ [x]) i args syms) :
    (∃ o, x = (i, ⟨.reconcileFileSymbols args syms, o⟩)) ∨
      (x.2.cmd.commits = false ∧ LastCommit history i args syms) := by
  obtain ⟨before, o, after, hsplit, hafter⟩ := h
  -- Either nothing came after the last commit, which is then the entry added, or something did.
  cases List.eq_nil_or_concat after with
  | inl hnil =>
    subst hnil
    obtain ⟨-, hlast⟩ := List.append_inj' hsplit rfl
    exact .inl ⟨o, List.singleton_inj.mp hlast⟩
  | inr hconcat =>
    obtain ⟨after', last, rfl⟩ := hconcat
    rw [List.concat_eq_append] at hsplit hafter
    -- The entry added is behind the commit and therefore no commit itself.
    rw [← List.cons_append, ← List.append_assoc] at hsplit
    obtain ⟨hpre, hlast⟩ := List.append_inj' hsplit rfl
    obtain rfl := List.singleton_inj.mp hlast
    refine .inr ⟨hafter x (by simp), before, o, after', hpre, fun y hy => ?_⟩
    exact hafter y (List.mem_append_left _ hy)

/-- What holds at each point of a run for a file whose rows only the tasks change: they are those
    of the last commit. -/
structure CommitInv (H : Hasher) (uri : String) (history : List (Nat × Exchange TaskCmd))
    (w : TaskWorld) : Prop where
  stored : w.db.Stored
  holds : ∀ i args syms, LastCommit history i args syms → args.uri = uri →
    HoldsSymbols H args syms w.db

section Run

variable {env : TaskEnv} {H : Hasher} {S : TaskServer} {uri : String} {w w' : TaskWorld}
  {history : List (Nat × Exchange TaskCmd)}

/-- Nothing has been committed at first. -/
theorem CommitInv.init (hstored : w.db.Stored) : CommitInv H uri [] w where
  stored := hstored
  holds := by
    intro i args syms h
    obtain ⟨before, o, after, hsplit, -⟩ := h
    exact absurd hsplit (by simp)

/-- One exchange. -/
theorem CommitInv.step {β : Type} {i : Nat} {c : TaskCmd β} {reply : β}
    (h : CommitInv H uri history w) (hsound : c.Sound)
    (hc : c.handle H S w = (.ok reply, w')) :
    CommitInv H uri (history ++ [(i, ⟨c, reply⟩)]) w' := by
  have hw' : (c.handle H S w).2 = w' := congrArg Prod.snd hc
  refine ⟨hw' ▸ TaskCmd.handle_stored hsound h.stored, ?_⟩
  intro j args syms hlast hu
  cases hlast.snoc with
  | inl hcommit =>
    -- The exchange is the commit.
    obtain ⟨o, hx⟩ := hcommit
    cases hx
    simp only [TaskCmd.handle] at hc
    split at hc
    · rename_i tables o' hok
      cases hc
      exact .of_reconcile h.stored hok
    · exact nomatch hc
  | inr hold =>
    refine (h.holds j args syms hold.2 hu).congr (SameView.of_nodes ?_)
    rw [← hw']
    exact TaskCmd.handle_nodes hold.1

/-- Another writer that leaves the valid rows of the file. -/
theorem CommitInv.other (h : CommitInv H uri history w) (hstored : w'.db.Stored)
    (hview : SameView uri w.db w'.db) : CommitInv H uri history w' where
  stored := hstored
  holds := by
    intro i args syms hlast hu
    exact (h.holds i args syms hlast hu).congr (hu ▸ hview)

/-- A command that fails leaves the world as it was. -/
theorem TaskCmd.handle_error {β : Type} {c : TaskCmd β} {e : TaskError}
    (hc : c.handle H S w = (.error e, w')) : w' = w := by
  cases c with
  | reconcileFileSymbols args syms =>
    simp only [TaskCmd.handle] at hc
    split at hc
    · exact nomatch hc
    · cases hc
      rfl
  | documentSymbols u => exact (congrArg Prod.snd hc).symm
  | _ => exact nomatch hc

/-- Every task launched is sound. -/
theorem launch_sound {start : TaskWorld} {tasks : List ReconcileTask}
    {t : Task TaskCmd (Option DriftAttempt)}
    (ht : t ∈ (System.launch start (tasks.map (·.program env uri))).tasks)
    {x : TaskM (Option DriftAttempt)} (hx : x ∈ t.rest) : Sound x fun _ => True := by
  obtain ⟨program, hprogram, rfl⟩ := System.mem_launch ht
  obtain ⟨task, -, rfl⟩ := List.mem_map.mp hprogram
  cases hx
  exact task.program_sound env uri

end Run

/-- A task that has committed got through its fetch, in any run of tasks for the file. -/
theorem task_gotThrough {env : TaskEnv} {S : TaskServer} {uri : String} {adapter : LanguageAdapter}
    (hadapter : selectForUri env.adapters uri = some adapter) {start : TaskWorld}
    {tasks : List ReconcileTask} {history : List (Nat × Exchange TaskCmd)}
    {sys : System TaskCmd TaskWorld (Option DriftAttempt)} {others : TaskWorld → TaskWorld → Prop}
    (hrun : System.Ran (TaskCmd.handle env.hasher S) others
      (.launch start (tasks.map (·.program env uri))) history sys) {i : Nat} {e : Exchange TaskCmd}
    (he : (i, e) ∈ history) (hcommits : e.cmd.commits = true) :
    ∃ before read symbols after, GotThrough env adapter uri (System.exchangesOf history i) before
      read symbols after := by
  obtain ⟨t, ht⟩ := hrun.exists_task he
  obtain ⟨hstart, htrace, y, hpath, -⟩ := hrun.progress ht
  rw [List.getElem?_map] at hstart
  obtain ⟨task, -, hprogram⟩ := Option.map_eq_some_iff.mp hstart
  rw [← hprogram, htrace] at hpath
  exact commit_fetched hadapter hpath ⟨e, System.mem_exchangesOf.mpr he, hcommits⟩

/-- The exchanges of the fetch are the only ones of their kinds. -/
theorem GotThrough.mem_fetch {env : TaskEnv} {uri : String} {adapter : LanguageAdapter}
    {trace before after : List (Exchange TaskCmd)} {read : Option String}
    {symbols : List DocumentSymbol}
    (h : GotThrough env adapter uri trace before read symbols after) {e : Exchange TaskCmd}
    (he : e ∈ trace) (hfetches : e.cmd.fetches = true) : e ∈ fetchTrace adapter uri read symbols := by
  rw [h.split, List.mem_append, List.mem_append] at he
  rcases he with (he | he) | he
  · exact absurd (hfetches.symm.trans (h.quiet e he).1) (by decide)
  · exact he
  · exact absurd (hfetches.symm.trans (h.rest e he).1) (by decide)

/-- The text that an exchange has read. -/
def textRead : Exchange TaskCmd → Option (Option String)
  | ⟨.readToString _, text⟩ => some text
  | _ => none

/-- The symbols that an exchange was answered. -/
def symbolsRead : Exchange TaskCmd → Option (List DocumentSymbol)
  | ⟨.documentSymbols _, symbols⟩ => some symbols
  | _ => none

/-- A fetch reads one text. -/
theorem read_of_mem_fetchTrace {adapter : LanguageAdapter} {uri : String} {read text : Option String}
    {symbols : List DocumentSymbol} {e : Exchange TaskCmd}
    (he : e ∈ fetchTrace adapter uri read symbols) (htext : textRead e = some text) : text = read := by
  simp only [fetchTrace, List.mem_cons, List.not_mem_nil, or_false] at he
  rcases he with rfl | rfl | rfl | rfl
  · exact nomatch htext
  · exact (Option.some.inj htext).symm
  · exact nomatch htext
  · exact nomatch htext

/-- A fetch is answered one list of symbols. -/
theorem symbols_of_mem_fetchTrace {adapter : LanguageAdapter} {uri : String} {read : Option String}
    {symbols answer : List DocumentSymbol} {e : Exchange TaskCmd}
    (he : e ∈ fetchTrace adapter uri read symbols) (hanswer : symbolsRead e = some answer) :
    answer = symbols := by
  simp only [fetchTrace, List.mem_cons, List.not_mem_nil, or_false] at he
  rcases he with rfl | rfl | rfl | rfl
  · exact nomatch hanswer
  · exact nomatch hanswer
  · exact nomatch hanswer
  · exact (Option.some.inj hanswer).symm

/-- What was committed is what was fetched. -/
theorem GotThrough.committed {env : TaskEnv} {uri : String} {adapter : LanguageAdapter}
    {trace before after : List (Exchange TaskCmd)} {read : Option String}
    {symbols : List DocumentSymbol}
    (h : GotThrough env adapter uri trace before read symbols after) {args : FileArgs}
    {syms : List ReconcileSymbol} {o : ReconcileOutcome}
    (he : (⟨.reconcileFileSymbols args syms, o⟩ : Exchange TaskCmd) ∈ trace) :
    args = fileArgs adapter uri env.rootUri ∧
      syms = (env.fetchedOf adapter uri read.isSome symbols).reconcileSymbols := by
  rw [h.split, List.mem_append, List.mem_append] at he
  rcases he with (he | he) | he
  · exact nomatch (h.quiet _ he).2
  · have hfetches : ∀ e ∈ fetchTrace adapter uri read symbols, e.cmd.commits = false := by
      simp [fetchTrace, TaskCmd.commits]
    exact nomatch hfetches _ he
  · exact (h.rest _ he).2

end Semnav.Indexer
