import Mathlib.Data.List.Dedup
import Semnav.Indexer.StartupDrift
import Semnav.Spec.StaleOverwrite

/-!
# Reclaiming the rows of a deleted file

A row is deleted at its second strike, and a strike needs a visit.  A startup-drift pass visits
the files on disk and the uris with a row that is no orphan: once its first visit has orphaned all
the rows of a deleted file, no pass comes back to it.

## Key results

- `deleted_file_reclaimed`: what two passes leave of a deleted file
- `deleted_file_keeps_rows`: a file with one class, after two passes
-/

namespace Semnav.Graph

open Semnav.ForStd

section

variable {H : Hasher} {db db' : Db} {args : FileArgs} {syms : List ReconcileSymbol}
  {o : ReconcileOutcome}

/-- The rows of another file after a reconcile: those whose fqn no symbol has. -/
theorem reconcile_other_rows (h : db.Stored) (hline : ∀ s ∈ syms, 0 ≤ s.range.startLine)
    (hok : reconcileFileSymbols H db args syms = .ok (db', o)) {uri : String}
    (hne : args.uri ≠ uri) :
    ∃ gone : RowId → Bool, ∀ x, x.uri = uri → (x ∈ db'.nodes ↔
      ∃ y ∈ db.nodes, (∀ s ∈ syms, s.fqn ≠ y.fqn) ∧ x = y.forget gone) := by
  -- What pass by pass is left in the file that was reconciled says what is left elsewhere:
  obtain ⟨ids, hr⟩ := reconcile_reconciled H h hline hok
  have hm := matched_of_stored H h args hline
  refine ⟨deletedIds (db.nodesByUri args.uri)
    (matchSymbols H (db.nodesByUri args.uri) syms), fun x hu => ?_⟩
  rw [hr.nodes]
  -- a row of another file stays unless a symbol took its name over, and forgets deleted containers.
  constructor
  · intro hx
    rcases hx with ⟨i, s, -, -, -, hcols⟩ | ⟨old, hold, -, -, rfl⟩ | ⟨y, hy, hyu, hfree, rfl⟩
    · -- A row that a symbol was written to is one of the reconciled file.
      have hwritten : x.uri = args.uri := by
        rw [hcols]
        exact congrArg Prod.fst (hm.writtenCols_phys ids i s)
      exact absurd (hwritten.symm.trans hu) hne
    · exact absurd ((hm.old_uri hold).symm.trans hu) hne
    · -- A row that was there is in the new graph when no symbol has its name.
      refine ⟨y, hy, fun s hs heq => ?_, rfl⟩
      obtain ⟨i, hi⟩ := hr.stolen s hs y hy hyu heq.symm
      exact hfree i hi
  · intro hx
    obtain ⟨y, hy, hfree, rfl⟩ := hx
    have hyu : y.uri ≠ args.uri := fun heq => hne (heq.symm.trans hu)
    refine .inr (.inr ⟨y, hy, hyu, fun i => ?_, rfl⟩)
    exact hr.ids_ne_of_fqn hm hy hyu (fun s hs heq => hfree s hs heq.symm) i

/-- A reconcile without symbols commits. -/
theorem reconcile_nil_ok (H : Hasher) (h : db.Stored) (args : FileArgs) :
    ∃ db' o, reconcileFileSymbols H db args [] = .ok (db', o) := by
  have hbatch : SymbolBatch [] := by decide
  have hfree : FqnsFree db args.uri [] := fun n _ _ s hs => absurd hs List.not_mem_nil
  rw [reconcile_ok_iff_clear H h args hbatch hfree]
  intro j old _ _ _ s hs
  exact absurd hs List.not_mem_nil

/-- After a reconcile without symbols the rows of the file are the orphans that were none before. -/
theorem reconcile_nil_rows (h : db.Stored)
    (hok : reconcileFileSymbols H db args [] = .ok (db', o)) :
    ∃ gone : RowId → Bool, ∀ x, x.uri = args.uri → (x ∈ db'.nodes ↔
      ∃ y ∈ db.nodes, y.orphan = false ∧ x = y.orphaned.forget gone) := by
  have hline : ∀ s ∈ ([] : List ReconcileSymbol), 0 ≤ s.range.startLine := by simp
  obtain ⟨ids, hr⟩ := reconcile_reconciled H h hline hok
  have hm := matched_of_stored H h args hline
  refine ⟨deletedIds (db.nodesByUri args.uri)
    (matchSymbols H (db.nodesByUri args.uri) []), fun x hu => ?_⟩
  rw [hr.nodes]
  constructor
  · intro hx
    -- With no symbols nothing is claimed, so the file's rows are the old ones, orphaned.
    rcases hx with ⟨i, s, hs, -⟩ | ⟨old, hold, -, horphan, rfl⟩ | ⟨y, -, hyu, -, rfl⟩
    · exact nomatch hs
    · exact ⟨old, hm.old_mem_base hold, horphan, rfl⟩
    · exact absurd hu hyu
  · intro hx
    obtain ⟨y, hy, horphan, rfl⟩ := hx
    refine .inr (.inl ⟨y, Db.mem_nodesByUri.mpr ⟨hy, hu⟩, fun i hclaim => ?_, horphan, rfl⟩)
    exact Nat.not_lt_zero i (hm.claimedRow_lt hclaim)

end

end Semnav.Graph

namespace Semnav.Indexer

open Semnav.ForStd Semnav.Graph Semnav.Adapters

/-! ## What is said of a deleted file -/

/-- Nothing is left of the file: no row, and no reference to one. -/
structure Gone (uri : String) (db : Db) : Prop where
  rows : ∀ x ∈ db.nodes, x.uri ≠ uri
  edges : ∀ e ∈ db.edges, (∃ x ∈ db.nodes, x.id = e.srcId ∧ x.uri ≠ uri) ∧
    ∃ x ∈ db.nodes, x.id = e.dstId ∧ x.uri ≠ uri
  calleesCache : ∀ id, db.calleesCache id ≠ none → ∃ x ∈ db.nodes, x.id = id ∧ x.uri ≠ uri
  materialized : ∀ id t, db.materialized id t = true → ∃ x ∈ db.nodes, x.id = id ∧ x.uri ≠ uri

/-- Another file was committed with a symbol of the row's fqn: the row is that file's. -/
def TakenOver (uri : String) (history : List (Exchange TaskCmd)) (row : Node) : Prop :=
  ∃ args syms o, (⟨.reconcileFileSymbols args syms, o⟩ : Exchange TaskCmd) ∈ history ∧
    args.uri ≠ uri ∧ ∃ s ∈ syms, s.fqn = row.fqn

/-- What goes on between two commands of a pass: nobody else writes to the graph, and the file
    does not return. -/
structure Quiet (uri : String) (w w' : TaskWorld) : Prop where
  db : w'.db = w.db
  missing : w.files uri = none → w'.files uri = none
  openDocs : w'.openDocs uri = w.openDocs uri

/-- What goes on between two passes: the daemon is restarted, so that the documents are new. -/
structure Between (uri : String) (w w' : TaskWorld) : Prop where
  db : w'.db = w.db
  missing : w.files uri = none → w'.files uri = none

/-- The file's server is there, and it reports no symbols of an empty text. -/
structure TaskServer.Up (S : TaskServer) (env : TaskEnv) (uri : String) : Prop where
  acquires : ∀ w adapter, selectForUri env.adapters uri = some adapter →
    S.acquires w adapter.languageName = true
  emptyText : ∀ w, w.openDocs uri = some "" → S.documentSymbols w uri = .ok []

/-- The file is visited by a pass that starts with these rows of it. -/
def Visited (env : TaskEnv) (uri : String) (rows : List Node) : Prop :=
  (∃ adapter, selectForUri env.adapters uri = some adapter) ∧ ∃ row ∈ rows, row.orphan = false

/-- A file is gone when no row is in it. -/
theorem gone_iff {uri : String} {db : Db} (h : db.Stored) :
    Gone uri db ↔ ∀ x ∈ db.nodes, x.uri ≠ uri := by
  constructor
  · exact Gone.rows
  · intro hrows
    have hrow : ∀ id, db.hasNode id = true → ∃ x ∈ db.nodes, x.id = id ∧ x.uri ≠ uri := by
      intro id hid
      obtain ⟨x, hx, hxid⟩ := (db.hasNode_iff id).mp hid
      exact ⟨x, hx, hxid, hrows x hx⟩
    exact ⟨hrows, fun e he => ⟨hrow _ (h.edge_ok e he).1, hrow _ (h.edge_ok e he).2⟩,
      fun id hid => hrow id (h.cache_ok id hid),
      fun id t hid => hrow id (h.materialized_ok id t hid)⟩

/-- A row taken over stays so in a longer history. -/
theorem TakenOver.append {uri : String} {history later : List (Exchange TaskCmd)} {row : Node}
    (h : TakenOver uri history row) : TakenOver uri (history ++ later) row := by
  obtain ⟨args, syms, o, hmem, hrest⟩ := h
  exact ⟨args, syms, o, List.mem_append_left _ hmem, hrest⟩

/-! ## The invariant -/

/-- What the passes have made of the rows of the file that they began with; `struck` tells
    whether one of them has visited it. -/
structure Struck (uri : String) (rows : List Node) (struck : Bool) (s : DriftState) : Prop where
  stored : s.world.db.Stored
  missing : s.world.files uri = none
  /-- A row that is there has not been taken over, and has had no strike before. -/
  row : ∀ x ∈ s.world.db.nodes, x.uri = uri → ∃ r ∈ rows, r.fqn = x.fqn ∧
    ¬ TakenOver uri s.history r ∧ x.orphan = (r.orphan || struck) ∧
    (struck = true → r.orphan = false)
  kept : ∀ r ∈ rows, ¬ TakenOver uri s.history r → (struck = true → r.orphan = false) →
    ∃ x ∈ s.world.db.nodes, x.uri = uri ∧ x.fqn = r.fqn ∧ x.orphan = (r.orphan || struck)

section Steps

variable {env : TaskEnv} {S : TaskServer} {uri : String} {rows : List Node} {struck : Bool}
  {s s' : DriftState}

/-- Before a pass the rows of a missing file stand. -/
theorem Struck.init {w : TaskWorld} (hstored : w.db.Stored) (hmissing : w.files uri = none) :
    Struck uri (w.db.nodesByUri uri) false ⟨w, []⟩ where
  stored := hstored
  missing := hmissing
  row := by
    intro x hx hu
    have hnot : ¬ TakenOver uri [] x := by
      intro htaken
      obtain ⟨args, syms, o, hmem, -⟩ := htaken
      exact absurd hmem List.not_mem_nil
    exact ⟨x, Db.mem_nodesByUri.mpr ⟨hx, hu⟩, rfl, hnot, (Bool.or_false _).symm,
      fun h => nomatch h⟩
  kept := by
    intro r hr _ _
    obtain ⟨hmem, hu⟩ := Db.mem_nodesByUri.mp hr
    exact ⟨r, hmem, hu, rfl, (Bool.or_false _).symm⟩

/-- The rows stay and no other file is committed. -/
theorem Struck.congr (h : Struck uri rows struck s) (hstored : s'.world.db.Stored)
    (hmissing : s'.world.files uri = none) (hnodes : s'.world.db.nodes = s.world.db.nodes)
    (htaken : ∀ r, TakenOver uri s'.history r ↔ TakenOver uri s.history r) :
    Struck uri rows struck s' where
  stored := hstored
  missing := hmissing
  row := by
    intro x hx hu
    rw [hnodes] at hx
    obtain ⟨r, hr, hfqn, hnot, hrest⟩ := h.row x hx hu
    exact ⟨r, hr, hfqn, fun hr' => hnot ((htaken r).mp hr'), hrest⟩
  kept := by
    intro r hr hnot hstruck
    rw [hnodes]
    exact h.kept r hr (fun hr' => hnot ((htaken r).mpr hr')) hstruck

/-- Another file is committed. -/
private theorem Struck.commitOther (h : Struck uri rows struck s) {args : FileArgs}
    {syms : List ReconcileSymbol} {o : ReconcileOutcome} (hne : args.uri ≠ uri)
    (hline : ∀ s ∈ syms, 0 ≤ s.range.startLine) {H : Hasher}
    (hok : reconcileFileSymbols H s.world.db args syms = .ok (s'.world.db, o))
    (hmissing : s'.world.files uri = none)
    (hhistory : s'.history = s.history ++ [⟨.reconcileFileSymbols args syms, o⟩]) :
    Struck uri rows struck s' := by
  obtain ⟨gone, hrows⟩ := reconcile_other_rows h.stored hline hok hne
  -- The rows taken over are those of before and those named by this commit.
  have htaken : ∀ r, TakenOver uri s'.history r ↔
      TakenOver uri s.history r ∨ ∃ t ∈ syms, t.fqn = r.fqn := by
    intro r
    rw [hhistory]
    constructor
    · intro hr
      obtain ⟨args', syms', o', hmem, hne', t, ht, hfqn⟩ := hr
      cases List.mem_append.mp hmem with
      | inl hold => exact .inl ⟨args', syms', o', hold, hne', t, ht, hfqn⟩
      | inr hnew =>
        cases List.mem_singleton.mp hnew
        exact .inr ⟨t, ht, hfqn⟩
    · intro hr
      cases hr with
      | inl hold => exact hold.append
      | inr hnew =>
        obtain ⟨t, ht, hfqn⟩ := hnew
        exact ⟨args, syms, o, by simp, hne, t, ht, hfqn⟩
  refine ⟨reconcile_stored H h.stored hline hok, hmissing, ?_, ?_⟩
  · -- A row of the file that is left was one before, and this commit did not take it.
    intro x hx hu
    obtain ⟨y, hy, hfree, rfl⟩ := (hrows x hu).mp hx
    obtain ⟨r, hr, hfqn, hnot, hrest⟩ := h.row y hy hu
    refine ⟨r, hr, hfqn, fun hr' => ?_, hrest⟩
    cases (htaken r).mp hr' with
    | inl hold => exact hnot hold
    | inr hnew =>
      obtain ⟨t, ht, heq⟩ := hnew
      exact hfree t ht (heq.trans hfqn)
  · -- A row that nothing has taken is still there, with the flag it had.
    intro r hr hnot hstruck
    rw [htaken, not_or] at hnot
    obtain ⟨x, hx, hu, hfqn, horphan⟩ := h.kept r hr hnot.1 hstruck
    refine ⟨x.forget gone, ?_, hu, hfqn, horphan⟩
    refine (hrows (x.forget gone) hu).mpr ⟨x, hx, fun t ht heq => ?_, rfl⟩
    exact hnot.2 ⟨t, ht, heq.trans hfqn⟩

/-- The file itself is committed, without symbols. -/
private theorem Struck.commitOwn (h : Struck uri rows false s) {args : FileArgs}
    (huri : args.uri = uri)
    {H : Hasher} {o : ReconcileOutcome}
    (hok : reconcileFileSymbols H s.world.db args [] = .ok (s'.world.db, o))
    (hmissing : s'.world.files uri = none)
    (htaken : ∀ r, TakenOver uri s'.history r ↔ TakenOver uri s.history r) :
    Struck uri rows true s' := by
  -- A commit of no symbols orphans the live rows of the file, and deletes its orphans.
  obtain ⟨gone, hrows⟩ := reconcile_nil_rows h.stored hok
  refine ⟨reconcile_stored H h.stored (by simp) hok, hmissing, ?_, ?_⟩
  · -- Each row left was live, and is an orphan now.
    intro x hx hu
    obtain ⟨y, hy, horphan, rfl⟩ := (hrows x (hu.trans huri.symm)).mp hx
    obtain ⟨r, hr, hfqn, hnot, hflag, -⟩ := h.row y hy hu
    rw [Bool.or_false] at hflag
    refine ⟨r, hr, hfqn, fun hr' => hnot ((htaken r).mp hr'), ?_, fun _ => ?_⟩
    · exact (Bool.or_true _).symm
    · exact hflag.symm.trans horphan
  · -- Each row not taken over was live, so the commit left it as an orphan.
    intro r hr hnot hstruck
    obtain ⟨x, hx, hu, hfqn, hflag⟩ := h.kept r hr (fun hr' => hnot ((htaken r).mpr hr'))
      fun h => nomatch h
    rw [Bool.or_false] at hflag
    refine ⟨x.orphaned.forget gone, ?_, hu, hfqn, (Bool.or_true _).symm⟩
    refine (hrows (x.orphaned.forget gone) (hu.trans huri.symm)).mpr ⟨x, hx, ?_, rfl⟩
    exact hflag.trans (hstruck rfl)

/-- Time passes. -/
private theorem Struck.quiet (h : Struck uri rows struck s) (hq : Quiet uri s.world s'.world)
    (hhistory : s'.history = s.history) : Struck uri rows struck s' := by
  refine h.congr ?_ (hq.missing h.missing) (by rw [hq.db]) fun r => by rw [hhistory]
  rw [hq.db]
  exact h.stored

/-! ## One command of an attempt -/

/-- The command commits another file than `uri`, if any, on real lines. -/
def TaskCmd.Elsewhere (uri : String) {β : Type} : TaskCmd β → Prop
  | .reconcileFileSymbols args syms => args.uri ≠ uri ∧ ∀ s ∈ syms, 0 ≤ s.range.startLine
  | _ => True

/-- No command of a task changes a file. -/
private theorem handle_files {β : Type} (H : Hasher) (c : TaskCmd β) (w : TaskWorld) :
    (c.handle H S w).2.files = w.files := by
  cases c with
  | ensureDocument u language text =>
    simp only [TaskCmd.handle, TaskWorld.openDoc]
    split <;> rfl
  | reconcileFileSymbols args syms =>
    simp only [TaskCmd.handle]
    split <;> rfl
  | _ => rfl

/-- Only a commit of another file takes over rows. -/
private theorem takenOver_append_iff {history later : List (Exchange TaskCmd)} {r : Node}
    (hlater : ∀ args syms o, (⟨.reconcileFileSymbols args syms, o⟩ : Exchange TaskCmd) ∈ later →
      args.uri = uri) : TakenOver uri (history ++ later) r ↔ TakenOver uri history r := by
  constructor
  · intro hr
    obtain ⟨args, syms, o, hmem, hne, ht⟩ := hr
    cases List.mem_append.mp hmem with
    | inl hold => exact ⟨args, syms, o, hold, hne, ht⟩
    | inr hnew => exact absurd (hlater args syms o hnew) hne
  · exact TakenOver.append

/-- A command on another file is sound. -/
private theorem Elsewhere.sound {β : Type} {c : TaskCmd β} (h : c.Elsewhere uri) : c.Sound := by
  cases c with
  | reconcileFileSymbols args syms => exact h.2
  | _ => trivial

/-- A command for another file. -/
private theorem Struck.elsewhere (h : Struck uri rows struck s) {β : Type} {c : TaskCmd β}
    (hc : c.Elsewhere uri) {r : Except TaskError β}
    (hmay : TaskCmd.May env.hasher S (Quiet uri) β c s r s') : Struck uri rows struck s' := by
  -- Before the command others may have moved, without touching the file.
  obtain ⟨w, hq, hhandle, hhistory⟩ := hmay
  have hw : Struck uri rows struck ⟨w, s.history⟩ := h.quiet hq rfl
  have hworld : (c.handle env.hasher S w).2 = s'.world := congrArg Prod.snd hhandle
  have hmissing : s'.world.files uri = none := by
    rw [← hworld, handle_files]
    exact hw.missing
  -- Only a commit changes rows; it commits another file.
  by_cases hcommits : c.commits = true
  · cases c with
    | reconcileFileSymbols args syms =>
      simp only [TaskCmd.handle] at hhandle
      split at hhandle
      · rename_i tables o hok
        obtain ⟨rfl, htables⟩ := Prod.mk.inj hhandle
        have hdb : tables = s'.world.db := congrArg TaskWorld.db htables
        subst hdb
        exact hw.commitOther hc.1 hc.2 hok hmissing hhistory
      · -- The transaction failed: nothing has changed.
        obtain ⟨rfl, hsame⟩ := Prod.mk.inj hhandle
        rw [TaskCmd.answered, List.append_nil] at hhistory
        exact hw.congr (hsame ▸ hw.stored) hmissing (by rw [← hsame]) fun r => by rw [hhistory]
    | _ => cases hcommits
  · -- Any other command leaves rows and history as they matter here.
    have hidle : c.commits = false := Bool.eq_false_iff.mpr hcommits
    refine hw.congr ?_ hmissing ?_ fun row => ?_
    · rw [← hworld]
      exact TaskCmd.handle_stored (Elsewhere.sound hc) hw.stored
    · rw [← hworld]
      exact TaskCmd.handle_nodes hidle
    · rw [hhistory]
      apply takenOver_append_iff
      intro args syms o hmem
      cases r with
      | error e => exact absurd hmem List.not_mem_nil
      | ok b =>
        cases List.mem_singleton.mp hmem
        cases hidle

/-- A command that commits nothing. -/
private theorem Struck.idle (h : Struck uri rows struck s) {β : Type} {c : TaskCmd β}
    {r : Except TaskError β} (hmay : TaskCmd.May env.hasher S (Quiet uri) β c s r s')
    (hc : c.commits = false) : Struck uri rows struck s' := by
  apply h.elsewhere (c := c) ?_ hmay
  cases c with
  | reconcileFileSymbols args syms => exact nomatch hc
  | _ => trivial

/-- An opened document has the text given. -/
theorem openDoc_openDocs (w : TaskWorld) (uri text : String) :
    (w.openDoc uri text).openDocs uri = some text := by
  unfold TaskWorld.openDoc
  split
  · rename_i hsame
    exact hsame
  · exact if_pos rfl

/-! ## Attempts -/

/-- An attempt for another file. -/
private theorem Struck.attemptOther (h : Struck uri rows struck s) {other : String}
    (hne : other ≠ uri)
    {r : Except TaskError DriftAttempt}
    (hrun : Prog.Outcome (TaskCmd.May env.hasher S (Quiet uri))
      (env.reconcileUriForStartupDrift other) s r s') : Struck uri rows struck s' := by
  -- An attempt at another file commits that file's rows only.
  have hunder : Prog.Under (fun _ => True) (fun _ c => TaskCmd.Elsewhere uri c) (fun _ => True)
      (env.reconcileUriForStartupDrift other) := by
    refine driftAttempt_under ?_ ?_
    · intro β c hidle
      cases c with
      | reconcileFileSymbols args syms => exact nomatch hidle
      | _ => trivial
    · intro adapter _ fileExists symbols
      exact ⟨hne, fetchedOf_line_nonneg env adapter other fileExists symbols⟩
  refine (hrun.keeps hunder (I := Struck uri rows struck) ?_ ?_ h).1
  · intro γ c s s' b hc hinv hmay
    exact ⟨trivial, hinv.elsewhere hc hmay⟩
  · intro γ c s s' e hc hinv hmay
    exact hinv.elsewhere hc hmay

/-- A command that is answered the same whatever the others have done. -/
private theorem answered_bind {others : TaskWorld → TaskWorld → Prop} {H : Hasher} {α β : Type}
    {c : TaskCmd β} {f : β → TaskM α} {r : Except TaskError α} {b : β}
    {g : TaskWorld → TaskWorld}
    (hrun : Prog.Outcome (TaskCmd.May H S others) (Prog.perform c >>= f) s r s')
    (hc : ∀ w, others s.world w → c.handle H S w = (.ok b, g w)) :
    ∃ w s₁, others s.world w ∧ s₁.world = g w ∧ TaskCmd.May H S others β c s (.ok b) s₁ ∧
      Prog.Outcome (TaskCmd.May H S others) (f b) s₁ r s' := by
  -- The command cannot fail in any world the others may leave.
  cases hrun.of_perform_bind with
  | inl hfail =>
    obtain ⟨e, -, w, hw, hhandle, -⟩ := hfail
    exact nomatch (hc w hw).symm.trans hhandle
  | inr hreply =>
    obtain ⟨b', s₁, hmay, hrest⟩ := hreply
    have hstep := hmay
    obtain ⟨w, hw, hhandle, -⟩ := hstep
    obtain ⟨hb, hworld⟩ := Prod.mk.inj ((hc w hw).symm.trans hhandle)
    cases hb
    exact ⟨w, s₁, hw, hworld.symm, hmay, hrest⟩

/-- A commit of the file, without symbols. -/
private theorem Struck.commitBind (h : Struck uri rows false s) {args : FileArgs}
    (huri : args.uri = uri)
    {α : Type} {f : ReconcileOutcome → TaskM α} {r : Except TaskError α}
    (hrun : Prog.Outcome (TaskCmd.May env.hasher S (Quiet uri))
      (Prog.perform (.reconcileFileSymbols args []) >>= f) s r s') :
    ∃ o s₁, Struck uri rows true s₁ ∧
      Prog.Outcome (TaskCmd.May env.hasher S (Quiet uri)) (f o) s₁ r s' := by
  -- A reconcile of no symbols cannot fail,
  obtain ⟨tables, o, hok⟩ := reconcile_nil_ok env.hasher h.stored args
  -- and what others do before it leaves the graph as it is.
  have hhandle : ∀ w, Quiet uri s.world w →
      (TaskCmd.reconcileFileSymbols args []).handle env.hasher S w = (.ok o, w.setDb tables) := by
    intro w hq
    simp only [TaskCmd.handle, hq.db, hok]
  obtain ⟨w, s₁, hq, hworld, ⟨-, -, -, hhistory⟩, hrest⟩ := answered_bind hrun hhandle
  have hcommitted : reconcileFileSymbols env.hasher s.world.db args [] = .ok (s₁.world.db, o) := by
    rw [hworld]
    exact hok
  -- A commit of the file itself takes none of its rows over.
  refine ⟨o, s₁, h.commitOwn huri hcommitted ?_ ?_, hrest⟩
  · rw [hworld]
    exact hq.missing h.missing
  · intro r
    rw [hhistory]
    apply takenOver_append_iff
    intro args' syms' o' hmem
    cases List.mem_singleton.mp hmem
    exact huri

/-- An attempt for the file: it is found missing, and its rows have their strike. -/
private theorem Struck.attemptOwn (h : Struck uri rows false s) (hS : S.Up env uri)
    {adapter : LanguageAdapter} (hadapter : selectForUri env.adapters uri = some adapter)
    {r : Except TaskError DriftAttempt}
    (hrun : Prog.Outcome (TaskCmd.May env.hasher S (Quiet uri))
      (env.reconcileUriForStartupDrift uri) s r s') :
    r = .ok .committed ∧ Struck uri rows true s' := by
  rw [TaskEnv.reconcileUriForStartupDrift, hadapter] at hrun
  -- There are no bytes to hash, and so no note to look up.
  obtain ⟨-, s₁, -, -, hmay₁, hrun⟩ := answered_bind (b := none) (g := id) hrun fun w hq => by
    show (Except.ok (w.files uri), w) = _
    rw [hq.missing h.missing, id]
  have h₁ := h.idle hmay₁ rfl
  rw [Option.map_none] at hrun
  dsimp only at hrun
  rw [TaskEnv.fetchAndCommit, TaskEnv.fetchUriSymbols, hadapter] at hrun
  dsimp only at hrun
  rw [bind_assoc] at hrun
  obtain ⟨-, s₂, -, -, hmay₂, hrun⟩ := answered_bind (b := true) (g := id) hrun fun w _ => by
    show (Except.ok (S.acquires w adapter.languageName), w) = _
    rw [hS.acquires w adapter hadapter, id]
  have h₂ := h₁.idle hmay₂ rfl
  rw [if_pos rfl, bind_assoc] at hrun
  obtain ⟨-, s₃, -, -, hmay₃, hrun⟩ := answered_bind (b := none) (g := id) hrun fun w hq => by
    show (Except.ok ((w.files uri).bind decodeUtf8), w) = _
    rw [hq.missing h₂.missing, Option.bind_none, id]
  have h₃ := h₂.idle hmay₃ rfl
  rw [bind_assoc] at hrun
  obtain ⟨w₄, s₄, -, hworld₄, hmay₄, hrun⟩ := answered_bind (b := ())
    (g := fun w => w.openDoc uri "") hrun fun w _ => rfl
  have h₄ := h₃.idle hmay₄ rfl
  rw [bind_assoc] at hrun
  -- The server has the empty text.
  obtain ⟨-, s₅, -, -, hmay₅, hrun⟩ := answered_bind (b := []) (g := id) hrun fun w hq => by
    show (S.documentSymbols w uri, w) = _
    rw [hS.emptyText w ?_, id]
    rw [hq.openDocs, hworld₄, openDoc_openDocs]
  have h₅ := h₄.idle hmay₅ rfl
  obtain ⟨o, s₆, h₆, hrun⟩ := h₅.commitBind rfl hrun
  obtain ⟨-, s₇, -, -, hmay₇, hrun⟩ := answered_bind (b := ())
    (g := fun w => w.setDb (w.db.setMeta (TaskEnv.contentHashMetaKey uri) "")) hrun
    fun w _ => rfl
  have h₇ := h₆.idle hmay₇ rfl
  obtain ⟨rfl, rfl⟩ := hrun.of_pure
  exact ⟨rfl, h₇⟩

/-- What an attempt for the file makes of its rows, the first one. -/
def strikes (env : TaskEnv) (uri : String) : Bool := (selectForUri env.adapters uri).isSome

/-- An attempt on the missing file commits, and strikes its rows when the language does. -/
private theorem Struck.attempt (h : Struck uri rows false s) (hS : S.Up env uri)
    {r : Except TaskError DriftAttempt}
    (hrun : Prog.Outcome (TaskCmd.May env.hasher S (Quiet uri))
      (env.reconcileUriForStartupDrift uri) s r s') :
    r = .ok .committed ∧ Struck uri rows (strikes env uri) s' := by
  cases hadapter : selectForUri env.adapters uri with
  | none =>
    rw [TaskEnv.reconcileUriForStartupDrift, hadapter] at hrun
    obtain ⟨rfl, rfl⟩ := hrun.of_pure
    exact ⟨rfl, by rwa [strikes, hadapter]⟩
  | some adapter =>
    rw [strikes, hadapter]
    exact h.attemptOwn hS hadapter hrun

/-! ## Passes -/

/-- Waiting leaves the rows. -/
private theorem Struck.wait (h : Struck uri rows struck s) {r : Except TaskError Unit}
    {c : DriftCmd Unit} (hc : c = .waitUntilQueryIdle ∨ c = .sleep)
    (hmay : DriftCmd.May env S (Quiet uri) Unit c s r s') :
    Struck uri rows struck s' ∧ r = .ok () := by
  cases hc with
  | inl hwait =>
    subst hwait
    exact ⟨h.quiet hmay.1 hmay.2.1, hmay.2.2⟩
  | inr hsleep =>
    subst hsleep
    exact ⟨h.quiet hmay.1 hmay.2.1, hmay.2.2⟩

/-- The first round visits each of its uris once. -/
private theorem Struck.checkUris {uris : List String} (hnodup : uris.Nodup) (hS : S.Up env uri)
    (h : Struck uri rows struck s) (hfirst : uri ∈ uris → struck = false)
    {failures failures' : Nat} {suspicious suspicious' : List String}
    (hsuspicious : uri ∉ suspicious)
    (hrun : Prog.Outcome (DriftCmd.May env S (Quiet uri))
      (Indexer.checkUris uris failures suspicious) s (.ok (failures', suspicious')) s') :
    Struck uri rows (struck || (decide (uri ∈ uris) && strikes env uri)) s' ∧
      uri ∉ suspicious' := by
  -- Induction on the list: the file is visited at most once, as the list has no repeats.
  induction uris generalizing struck s failures suspicious with
  | nil =>
    obtain ⟨hr, rfl⟩ := hrun.of_pure
    cases hr
    simpa using ⟨h, hsuspicious⟩
  | cons other rest ih =>
    obtain ⟨hnot, hrest⟩ := List.nodup_cons.mp hnodup
    obtain ⟨_, s₁, hwait, hrun⟩ := hrun.of_bind_ok
    -- Waiting for the queries to end lets others move, but not on this file;
    have h₁ := (h.wait (.inl rfl) hwait.of_perform).1
    obtain ⟨result, s₂, hattempt, hrun⟩ := hrun.of_bind_ok
    obtain ⟨result, hr, hattempt⟩ := hattempt.of_perform
    cases hr
    by_cases hown : other = uri
    · -- The visit of the file.
      subst hown
      obtain rfl := hfirst List.mem_cons_self
      obtain ⟨rfl, h₂⟩ := h₁.attempt hS hattempt
      have htail := ih hrest h₂ (fun hmem => absurd hmem hnot) hsuspicious hrun
      simpa [hnot] using htail
    · -- a visit of another file changes nothing of this one, however it ends.
      have h₂ := h₁.attemptOther hown hattempt
      have hmem : decide (uri ∈ other :: rest) = decide (uri ∈ rest) := by
        simp [Ne.symm hown]
      have hmore : uri ∉ suspicious ++ [other] := by
        simp [hsuspicious, Ne.symm hown]
      have hfirst' : uri ∈ rest → struck = false := fun h => hfirst (List.mem_cons_of_mem _ h)
      rw [hmem]
      cases result with
      | error e => exact ih hrest h₂ hfirst' hsuspicious hrun
      | ok attempt =>
        cases attempt with
        | committed => exact ih hrest h₂ hfirst' hsuspicious hrun
        | suspiciousEmpty => exact ih hrest h₂ hfirst' hmore hrun
        | lspUnavailable => exact ih hrest h₂ hfirst' hmore hrun

/-- The retries of another file. -/
private theorem Struck.retryUri {other : String} (hne : other ≠ uri) (n : Nat)
    (h : Struck uri rows struck s) {r : Bool × Nat}
    (hrun : Prog.Outcome (DriftCmd.May env S (Quiet uri)) (Indexer.retryUri other n) s (.ok r) s') :
    Struck uri rows struck s' := by
  -- Induction on the attempts left; each waits twice before it tries.
  induction n generalizing s with
  | zero =>
    obtain ⟨-, rfl⟩ := hrun.of_pure
    exact h
  | succ n ih =>
    obtain ⟨_, s₁, hsleep, hrun⟩ := hrun.of_bind_ok
    have h₁ := (h.wait (.inr rfl) hsleep.of_perform).1
    obtain ⟨_, s₂, hwait, hrun⟩ := hrun.of_bind_ok
    have h₂ := (h₁.wait (.inl rfl) hwait.of_perform).1
    obtain ⟨result, s₃, hattempt, hrun⟩ := hrun.of_bind_ok
    obtain ⟨result, hr, hattempt⟩ := hattempt.of_perform
    cases hr
    -- The attempt is of another file, however it ends.
    have h₃ := h₂.attemptOther hne hattempt
    cases result with
    | error e =>
      obtain ⟨-, rfl⟩ := hrun.of_pure
      exact h₃
    | ok attempt =>
      cases attempt with
      | committed =>
        obtain ⟨-, rfl⟩ := hrun.of_pure
        exact h₃
      | suspiciousEmpty => exact ih h₃ hrun
      | lspUnavailable => exact ih h₃ hrun

/-- A round without the file changes nothing of it. -/
private theorem Struck.retryUris {uris : List String} (hnot : uri ∉ uris)
    (h : Struck uri rows struck s)
    {failures : Nat} {skipped : List String} {r : Nat × List String}
    (hrun : Prog.Outcome (DriftCmd.May env S (Quiet uri))
      (Indexer.retryUris uris failures skipped) s (.ok r) s') : Struck uri rows struck s' := by
  induction uris generalizing s failures skipped with
  | nil =>
    obtain ⟨-, rfl⟩ := hrun.of_pure
    exact h
  | cons other rest ih =>
    rw [List.mem_cons, not_or] at hnot
    obtain ⟨hne, hrest⟩ := hnot
    obtain ⟨result, s₁, hretry, hrun⟩ := hrun.of_bind_ok
    exact ih hrest (h.retryUri (Ne.symm hne) _ hretry) hrun

/-- The files known are those of live rows. -/
private theorem mem_knownUris {db : Db} : uri ∈ db.knownUris ↔
    ∃ x ∈ db.nodes, x.uri = uri ∧ x.orphan = false := by
  simp only [Db.knownUris, List.mem_dedup, List.mem_map, List.mem_filter, Bool.not_eq_true']
  constructor
  · intro h
    obtain ⟨x, ⟨hx, horphan⟩, hu⟩ := h
    exact ⟨x, hx, hu, horphan⟩
  · intro h
    obtain ⟨x, hx, hu, horphan⟩ := h
    exact ⟨x, ⟨hx, horphan⟩, hu⟩

/-- A pass strikes the rows if the graph knows the file; then no pass has before. -/
private theorem Struck.pass (h : Struck uri rows struck s) (hS : S.Up env uri)
    {report : DriftReport}
    (hrun : PassRan env S (Quiet uri) s report s') :
    Struck uri rows (struck || (decide (uri ∈ s.world.db.knownUris) && strikes env uri)) s' := by
  obtain ⟨discovered, s₁, hwalk, hrest₁⟩ := Prog.Outcome.of_bind_ok hrun
  obtain ⟨hq₁, hl₁, hfound⟩ := hwalk.of_perform
  have h₁ := h.quiet hq₁ hl₁
  obtain ⟨known, s₂, hknown, hrest₂⟩ := hrest₁.of_bind_ok
  obtain ⟨hq₂, hl₂, hr₂⟩ := hknown.of_perform
  obtain rfl := Except.ok.inj hr₂
  have h₂ := h₁.quiet hq₂ hl₂
  obtain ⟨uris, s₃, horder, hrest₃⟩ := hrest₂.of_bind_ok
  obtain ⟨rfl, order, hr₃, hperm⟩ := horder.of_perform
  obtain rfl := Except.ok.inj hr₃
  obtain ⟨⟨failures, suspicious⟩, s₄, hcheck, hrest₄⟩ := hrest₃.of_bind_ok
  obtain ⟨⟨failures', skipped⟩, s₅, hretry, hend⟩ := hrest₄.of_bind_ok
  obtain ⟨-, rfl⟩ := hend.of_pure
  have hnodes : s₃.world.db = s.world.db := hq₂.db.trans hq₁.db
  -- A walk does not find the file: it is visited if the graph knows it.
  have hmem : uri ∈ uris ↔ uri ∈ s.world.db.knownUris := by
    rw [hperm.mem_iff, List.mem_dedup, List.mem_append, hnodes]
    constructor
    · intro hor
      cases hor with
      | inl hdisk => exact absurd h₁.missing (hfound discovered rfl uri hdisk)
      | inr hgraph => exact hgraph
    · exact .inr
  have hfirst : uri ∈ uris → struck = false := by
    intro hvisit
    obtain ⟨x, hx, hu, horphan⟩ := mem_knownUris.mp (hmem.mp hvisit)
    obtain ⟨r, -, -, -, hflag, -⟩ := h.row x hx hu
    rw [horphan] at hflag
    exact (Bool.or_eq_false_iff.mp hflag.symm).2
  have hnodup : uris.Nodup := hperm.nodup_iff.mpr (List.nodup_dedup _)
  obtain ⟨h₄, hnot⟩ := h₂.checkUris hnodup hS hfirst List.not_mem_nil hcheck
  have h₅ := h₄.retryUris hnot hretry
  simpa only [hmem] using h₅

end Steps

/-! ## Two passes -/

section Passes

variable {env : TaskEnv} {S : TaskServer} {uri : String} {rows : List Node}
  {s : DriftState}

/-- What is left of the rows. -/
private theorem Struck.gone_iff {struck : Bool} (h : Struck uri rows struck s) :
    Gone uri s.world.db ↔
      ∀ r ∈ rows, TakenOver uri s.history r ∨ (r.orphan = true ∧ struck = true) := by
  rw [Indexer.gone_iff h.stored]
  constructor
  · intro hnone r hr
    by_contra hcontra
    rw [not_or, not_and] at hcontra
    have hstruck : struck = true → r.orphan = false := by
      intro hstruck
      by_contra horphan
      exact hcontra.2 (by simpa using horphan) hstruck
    -- A row neither taken over nor struck is kept, and is then a row of the file now.
    obtain ⟨x, hx, hu, -, -⟩ := h.kept r hr hcontra.1 hstruck
    exact hnone x hx hu
  · -- Conversely a row of the file now would have a root that is neither taken over nor struck.
    intro hall x hx hu
    obtain ⟨r, hr, -, hnot, -, hstruck⟩ := h.row x hx hu
    cases hall r hr with
    | inl htaken => exact hnot htaken
    | inr hgone =>
      obtain ⟨horphan, htrue⟩ := hgone
      exact absurd ((hstruck htrue).symm.trans horphan) (by decide)

/-- The pass visits the file when a live row names it. -/
private theorem visited_iff {w : TaskWorld} : Visited env uri (w.db.nodesByUri uri) ↔
    (decide (uri ∈ w.db.knownUris) && strikes env uri) = true := by
  rw [Bool.and_eq_true, decide_eq_true_iff, mem_knownUris, strikes, Option.isSome_iff_exists,
    Visited, and_comm]
  simp only [Db.mem_nodesByUri, and_assoc]

end Passes

/-- After two passes that complete once the file was deleted, with its server there and nobody
    else writing, the rows left of the file are orphans, if it is one that a pass can visit.  There
    are none, and no reference to one, if and only if each row was taken over by another file in
    the passes, or was an orphan when the first pass began, and another row was not. -/
theorem deleted_file_reclaimed (env : TaskEnv) (S : TaskServer) (uri : String)
    (hS : S.Up env uri) {w : TaskWorld} (hstored : w.db.Stored) (hmissing : w.files uri = none)
    {first second : DriftReport} {s s' : DriftState} {w' : TaskWorld}
    (hfirst : PassRan env S (Quiet uri) ⟨w, []⟩ first s) (hbetween : Between uri s.world w')
    (hsecond : PassRan env S (Quiet uri) ⟨w', s.history⟩ second s') :
    ((∃ adapter, selectForUri env.adapters uri = some adapter) →
        ∀ x ∈ s'.world.db.nodes, x.uri = uri → x.orphan = true) ∧
      (Gone uri s'.world.db ↔ ∀ row ∈ w.db.nodesByUri uri,
        TakenOver uri s'.history row ∨
          (row.orphan = true ∧ Visited env uri (w.db.nodesByUri uri))) := by
  have h₁ := (Struck.init hstored hmissing).pass hS hfirst
  rw [Bool.false_or] at h₁
  have hvisited : Visited env uri (w.db.nodesByUri uri) ↔
      (decide (uri ∈ w.db.knownUris) && strikes env uri) = true := visited_iff
  generalize hstruck : (decide (uri ∈ w.db.knownUris) && strikes env uri) = struck at h₁ hvisited
  have hw' : Struck uri (w.db.nodesByUri uri) struck ⟨w', s.history⟩ := by
    refine h₁.congr ?_ (hbetween.missing h₁.missing) (by rw [hbetween.db]) fun _ => Iff.rfl
    rw [hbetween.db]
    exact h₁.stored
  have h₂ := hw'.pass hS hsecond
  -- A row of a file that can be visited, and was not, has been an orphan from the start.
  have horphans : strikes env uri = true → struck = false →
      ∀ row ∈ w.db.nodesByUri uri, row.orphan = true := by
    intro hstrikes hnot row hrow
    rw [hnot, hstrikes, Bool.and_true, decide_eq_false_iff_not] at hstruck
    by_contra horphan
    obtain ⟨hmem, hu⟩ := Db.mem_nodesByUri.mp hrow
    exact hstruck (mem_knownUris.mpr ⟨row, hmem, hu, by simpa using horphan⟩)
  -- So the second pass does not visit the file.
  have hagain : (struck || (decide (uri ∈ w'.db.knownUris) && strikes env uri)) = struck := by
    cases hcase : struck with
    | true => rfl
    | false =>
      by_contra hvisit
      rw [Bool.false_or, Bool.not_eq_false, Bool.and_eq_true, decide_eq_true_iff,
        mem_knownUris] at hvisit
      obtain ⟨⟨x, hx, hu, horphan⟩, hstrikes⟩ := hvisit
      obtain ⟨r, hr, -, -, hflag, -⟩ := hw'.row x hx hu
      rw [horphan, hcase, Bool.or_false, horphans hstrikes hcase r hr] at hflag
      exact Bool.noConfusion hflag
  rw [hagain] at h₂
  constructor
  · intro hadapter x hx hu
    obtain ⟨r, hr, -, -, hflag, -⟩ := h₂.row x hx hu
    cases hcase : struck with
    | true => rw [hflag, hcase, Bool.or_true]
    | false =>
      rw [hflag, hcase, Bool.or_false]
      exact horphans (Option.isSome_iff_exists.mpr hadapter) hcase r hr
  · rw [h₂.gone_iff, hvisited]

/-! ## Passes with nobody else at work -/

/-- A command of an attempt that nobody disturbs. -/
def TaskCmd.handleAlone (H : Hasher) (S : TaskServer) : Handler TaskCmd DriftState TaskError :=
  fun c s =>
    let (r, w) := c.handle H S s.world
    (r, ⟨w, s.history ++ c.answered r⟩)

/-- A command of a pass that nobody disturbs and whose walk finds `found`. -/
def DriftCmd.handleAlone (env : TaskEnv) (S : TaskServer) (found : List String) {β : Type} :
    DriftCmd β → DriftState → Except TaskError β × DriftState
  | .discoverFiles, s => (.ok found, s)
  | .knownUris, s => (.ok s.world.db.knownUris, s)
  | .iterate set, s => (.ok set, s)
  | .waitUntilQueryIdle, s => (.ok (), s)
  | .sleep, s => (.ok (), s)
  | .attempt uri, s =>
    let (r, s') := (env.reconcileUriForStartupDrift uri).run
      (TaskCmd.handleAlone env.hasher S) s
    (.ok r, s')

/-- The pass that nobody disturbs. -/
def passAlone (env : TaskEnv) (S : TaskServer) (found : List String) (s : DriftState) :
    Except TaskError DriftReport × DriftState :=
  reconcileStartupDrift.run (DriftCmd.handleAlone env S found) s

/-- Nothing changes when nothing happens. -/
theorem Quiet.refl (uri : String) (w : TaskWorld) : Quiet uri w w := ⟨rfl, id, rfl⟩

/-- Undisturbed attempts leave the files. -/
private theorem attemptAlone_files (env : TaskEnv) (S : TaskServer) (uri : String)
    (s : DriftState) :
    ((env.reconcileUriForStartupDrift uri).run (TaskCmd.handleAlone env.hasher S)
      s).2.world.files = s.world.files := by
  have hissues : Prog.Issues (fun (β : Type) (_ : TaskCmd β) => True)
      (env.reconcileUriForStartupDrift uri) := .of_forall (fun _ _ => trivial) _
  refine (hissues.run_rel (TaskCmd.handleAlone env.hasher S)
    (fun s s' => s'.world.files = s.world.files) (fun _ => rfl) (fun h h' => h'.trans h) ?_ s)
  intro β c s _
  exact handle_files env.hasher c s.world

/-- The drift pass of one file is a pass, if what it finds is there. -/
private theorem passAlone_ran {env : TaskEnv} {S : TaskServer} {uri : String} (found : List String)
    {s s' : DriftState} {report : DriftReport} (hfound : ∀ u ∈ found, s.world.files u ≠ none)
    (hrun : passAlone env S found s = (.ok report, s')) : PassRan env S (Quiet uri) s report s' := by
  -- Every command of the drift pass keeps the files found where they are.
  have houtcome : Prog.Outcome (DriftCmd.May env S (Quiet uri)) reconcileStartupDrift s
      (passAlone env S found s).1 (passAlone env S found s).2 := by
    apply Prog.Outcome.of_run (I := fun s => ∀ u ∈ found, s.world.files u ≠ none) ?_ _ hfound
    intro γ c s hs
    cases c with
    | discoverFiles =>
      exact ⟨⟨.refl uri s.world, rfl, fun uris hr => Except.ok.inj hr ▸ hs⟩, hs⟩
    | knownUris => exact ⟨⟨.refl uri s.world, rfl, rfl⟩, hs⟩
    | iterate set => exact ⟨⟨rfl, set, rfl, .refl set⟩, hs⟩
    | waitUntilQueryIdle => exact ⟨⟨.refl uri s.world, rfl, rfl⟩, hs⟩
    | sleep => exact ⟨⟨.refl uri s.world, rfl, rfl⟩, hs⟩
    -- An attempt is a task's program, run with nobody beside it.
    | attempt other =>
      refine ⟨⟨_, rfl, ?_⟩, fun u hu => ?_⟩
      · apply Prog.Outcome.of_run (I := fun _ => True) ?_ _ trivial
        intro β c s _
        exact ⟨⟨s.world, .refl uri s.world, rfl, rfl⟩, trivial⟩
      · show ((env.reconcileUriForStartupDrift other).run _ s).2.world.files u ≠ none
        rw [attemptAlone_files]
        exact hs u hu
  rwa [hrun] at houtcome

/-! ## A file with one class, and a file whose row moves -/

/-- A server that reports no symbols of any document. -/
def quietServer : TaskServer := ⟨fun _ _ => true, fun _ _ => .ok []⟩

/-- The server of the example is up. -/
private theorem quietServer_up (env : TaskEnv) (uri : String) : quietServer.Up env uri :=
  ⟨fun _ _ _ => rfl, fun _ _ => rfl⟩

/-- The graph of `app.py`, which is gone. -/
def deletedWorld : TaskWorld := ⟨fooDb, fun _ => none, fun _ => none⟩

/-- Two passes over it. -/
def deletedPasses : DriftState × DriftState :=
  let s := (passAlone rootEnv quietServer [] ⟨deletedWorld, []⟩).2
  (s, (passAlone rootEnv quietServer [] s).2)

/-- Two passes after `app.py` was deleted, with its server there, have its class and method still
    in the graph. -/
theorem deleted_file_keeps_rows :
    quietServer.Up rootEnv appPy.uri ∧
      reconcileFileSymbols lengthHasher .empty appPy (classSymbols "Foo") =
        .ok (deletedWorld.db, { inserted := 2 }) ∧
      deletedWorld.files appPy.uri = none ∧
      (∃ report, PassRan rootEnv quietServer (Quiet appPy.uri) ⟨deletedWorld, []⟩ report
        deletedPasses.1) ∧
      (∃ report, PassRan rootEnv quietServer (Quiet appPy.uri) deletedPasses.1 report
        deletedPasses.2) ∧
      deletedPasses.2.world.db.nodes.map (fun x => (x.fqn, x.uri, x.orphan)) =
        [("app.Foo", appPy.uri, true), ("app.Foo.new", appPy.uri, true)] ∧
      ¬ Gone appPy.uri deletedPasses.2.world.db :=
  ⟨quietServer_up rootEnv appPy.uri, fooDb_eq, rfl, ⟨⟨1, 0, 0⟩, passAlone_ran [] (by simp) rfl⟩,
    ⟨⟨0, 0, 0⟩, passAlone_ran [] (by simp) rfl⟩, rfl, fun h => by
      have hrows := h.rows
      revert hrows
      decide⟩

/-- The graph of `lib.py`, which has become `lib.ts`. -/
def renamedWorld : TaskWorld :=
  ⟨libDb, fun uri => if uri = "file:///lib.ts" then some [] else none, fun _ => none⟩

/-- Two passes over it. -/
def renamedPasses : DriftState × DriftState :=
  let s := (passAlone rootEnv quietServer ["file:///lib.ts"] ⟨renamedWorld, []⟩).2
  (s, (passAlone rootEnv quietServer ["file:///lib.ts"] s).2)

/-- The rows of the renamed file were taken over. -/
private theorem lib_taken : ∀ row ∈ libDb.nodesByUri "file:///lib.py",
    TakenOver "file:///lib.py" renamedPasses.2.history row := by
  have hfqn : ∀ row ∈ libDb.nodesByUri "file:///lib.py", "lib" = row.fqn := by decide
  have hcommit : ∃ o, renamedPasses.2.history[7]? = some ⟨.reconcileFileSymbols
      (rootEnv.fetchedOf typeScriptAdapter "file:///lib.ts" true []).args
      (rootEnv.fetchedOf typeScriptAdapter "file:///lib.ts" true []).reconcileSymbols, o⟩ :=
    ⟨_, rfl⟩
  obtain ⟨o, hcommit⟩ := hcommit
  intro row hrow
  refine ⟨_, _, o, List.mem_of_getElem? hcommit, by decide, _, List.mem_singleton_self _, ?_⟩
  exact hfqn row hrow

/-- Nothing is left of `lib.py`: its row is that of `lib.ts`. -/
theorem deleted_file_reclaimed_lib : Gone "file:///lib.py" renamedPasses.2.world.db := by
  have hfound : ∀ uri ∈ ["file:///lib.ts"], renamedWorld.files uri ≠ none := by decide
  have hstill : ∀ uri ∈ ["file:///lib.ts"], renamedPasses.1.world.files uri ≠ none := by decide
  refine (deleted_file_reclaimed rootEnv quietServer "file:///lib.py"
    (quietServer_up rootEnv _) (w := renamedWorld) libDb_stored rfl (s := renamedPasses.1)
    (passAlone_ran ["file:///lib.ts"] hfound rfl) ⟨rfl, id⟩
    (passAlone_ran ["file:///lib.ts"] hstill rfl)).2.mpr fun row hrow => ?_
  exact .inl (lib_taken row hrow)

end Semnav.Indexer
