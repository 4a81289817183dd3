import Semnav.Spec.FlattenTree
import Semnav.Spec.History
import Semnav.Spec.IndexCorrect
import Semnav.Spec.ReconcilePost

/-!
# Reachable graphs

The worlds that a daemon gets into from an empty graph, one database command or one query at
a time: reconciles, the upserts of index passes, queries and background refreshes against
any servers, and edits of files.

## Key results

- `Reachable.stored`: a reachable graph is stored
- `Reachable.live_iff`: its rows are valid exactly when they are no orphans
- `Reachable.indexRepository`: a whole index pass is such a run
-/

namespace Semnav.Query

open Semnav.ForStd Semnav.Graph Semnav.Indexer Semnav.Adapters

/-- What happens between the commands of queries. -/
inductive EnvStep (H : Hasher) : World → World → Prop where
  | edit (w : World) (text : String → Option String) : EnvStep H w { w with text := text }
  /-- `ReconcileFileSymbols`, of symbols on real lines. -/
  | reconcile {w : World} {args : FileArgs} {syms : List ReconcileSymbol}
      (hline : ∀ s ∈ syms, 0 ≤ s.range.startLine) {db' : Db} {o : ReconcileOutcome}
      (hok : reconcileFileSymbols H w.db args syms = .ok (db', o)) : EnvStep H w (w.setDb db')
  /-- `UpsertNode` of an index pass, of a symbol on a real line. -/
  | upsertNode {w : World} (args : FileArgs) (containerId : Option RowId) {sym : FlatSymbol}
      (hline : 0 ≤ sym.range.startLine) {db' : Db} {id : RowId}
      (hok : w.db.upsertNode (sym.toNode H args containerId) = .ok (db', id)) :
      EnvStep H w (w.setDb db')
  /-- `SetMeta`. -/
  | setMeta (w : World) (key value : String) : EnvStep H w (w.setDb (w.db.setMeta key value))
  /-- Refreshes that are done leave the in-flight table. -/
  | settle (w : World) (refreshes : List Refresh) : EnvStep H w { w with refreshes := refreshes }

/-- The worlds reachable from an empty graph. -/
inductive Reachable (H : Hasher) : World → Prop where
  | start {w : World} (hdb : w.db = .empty) : Reachable H w
  | env {w w' : World} (h : Reachable H w) (hs : EnvStep H w w') : Reachable H w'
  /-- A query, a refresh, or a single command of one. -/
  | query {w : World} (h : Reachable H w) {α : Type} (S : Servers) (q : QueryM α) :
      Reachable H (q.run S w).2

variable {H : Hasher}

/-- The environment keeps the tables' invariants. -/
theorem EnvStep.stored {w w' : World} (hs : EnvStep H w w') (h : w.db.Stored) : w'.db.Stored := by
  cases hs with
  | edit => exact h
  | reconcile hline hok => exact reconcile_stored H h hline hok
  | upsertNode args containerId hline hok => exact upsertNode_stored h hline hok
  | setMeta key value => exact { h with }
  | settle => exact h

/-- Every reachable graph has the tables' invariants. -/
theorem Reachable.stored {w : World} (h : Reachable H w) : w.db.Stored := by
  induction h with
  | start hdb => exact hdb ▸ Db.empty_stored
  | env _ hs ih => exact hs.stored ih
  | query _ S q ih => exact run_stored q ih

/-! ## The flags of a row -/

/-- Every row is valid exactly when it is no orphan. -/
def LiveFlags (d : Db) : Prop := ∀ n ∈ d.nodes, n.valid = !n.orphan

/-- A reconcile sets both flags of a row together. -/
private theorem reconcile_liveFlags {d d' : Db} (h : d.Stored) (hlive : LiveFlags d)
    {args : FileArgs}
    {syms : List ReconcileSymbol} (hline : ∀ s ∈ syms, 0 ≤ s.range.startLine)
    {o : ReconcileOutcome} (hok : reconcileFileSymbols H d args syms = .ok (d', o)) :
    LiveFlags d' := by
  obtain ⟨ids, hr⟩ := reconcile_reconciled H h hline hok
  intro x hx
  rcases (hr.nodes x).mp hx with ⟨i, s, -, -, -, hcols⟩ | ⟨old, -, -, -, rfl⟩ | ⟨y, hy, -, -, rfl⟩
  · -- A symbol's row.
    have hcarries := writtenCols_carries args (d.nodesByUri args.uri)
      (matchSymbols H (d.nodesByUri args.uri) syms) ids i s x.id
    have hx : x = ⟨writtenCols args (d.nodesByUri args.uri)
        (matchSymbols H (d.nodesByUri args.uri) syms) ids i s, x.id⟩ := by
      rw [← hcols]
    rw [hx, hcarries.valid, hcarries.orphan]
    rfl
  · -- A row at its first strike.
    rfl
  · exact hlive y hy

/-- No statement of a query changes the flags. -/
private theorem exec_liveFlags {β : Type} {c : DbCmd β} {d d' : Db} {b : β} (hlive : LiveFlags d)
    (hexec : c.exec d = .ok (b, d')) : LiveFlags d' := by
  by_cases hc : c.kind = .storeHover
  · cases c with
    | updateNodeConstruct | updateNodeSignature | updateNodeSignatureByFqn =>
      cases hexec
      intro x hx
      obtain ⟨n, hn, rfl⟩ := List.mem_map.mp hx
      split
      · exact hlive n hn
      · exact hlive n hn
    | _ => exact nomatch hc
  · intro x hx
    rw [exec_nodes hc hexec] at hx
    exact hlive x hx

/-- No command changes the flags. -/
private theorem handle_liveFlags {β : Type} {S : Servers} (c : Cmd β) {w : World}
    (h : LiveFlags w.db) :
    LiveFlags (c.handle S w).2.db := by
  cases c with
  | db c =>
    simp only [Cmd.handle]
    split
    · rename_i b d hexec
      exact exec_liveFlags h hexec
    · exact h
  | spawnRefresh r =>
    simp only [Cmd.handle]
    split
    · exact h
    · exact h
  | _ => exact h

/-- In a reachable graph a row is valid exactly when it is no orphan. -/
theorem Reachable.live_iff {w : World} (h : Reachable H w) : LiveFlags w.db := by
  induction h with
  | start hdb =>
    rw [hdb]
    exact fun n hn => absurd hn List.not_mem_nil
  | env hw hs ih =>
    cases hs with
    -- Of the environment's steps only a reconcile and an upsert write rows.
    | reconcile hline hok => exact reconcile_liveFlags hw.stored ih hline hok
    | upsertNode args containerId hline hok =>
      intro x hx
      cases (upsertNode_rows hw.stored.toWF hok).1 x |>.mp hx with
      | inl h => rw [h]; rfl
      | inr h => exact ih x h.1
    | _ => exact ih
  | query _ S q ih =>
    exact Prog.Issues.run_rel (Cmd.handle S) (fun a b => LiveFlags a.db → LiveFlags b.db)
      -- A query's commands keep the flags, one after the other.
      (fun _ h => h) (fun hab hbc ha => hbc (hab ha)) (fun _ c _ _ hs => handle_liveFlags c hs)
      (onlyKinds_true q) _ ih

/-! ## Index passes -/

/-- The commands of an index pass: every node it upserts is a symbol on a real line. -/
def IndexWrites (H : Hasher) (β : Type) : IndexCmd β → Prop
  | .upsertNode n => ∃ (sym : FlatSymbol) (args : FileArgs) (containerId : Option RowId),
      0 ≤ sym.range.startLine ∧ n = sym.toNode H args containerId
  | _ => True

/-- Writing the symbols of a file issues writes of the index only. -/
private theorem upsertSymbolTree_issues (args : FileArgs) {flat : List FlatSymbol}
    (hline : ∀ sym ∈ flat, 0 ≤ sym.range.startLine) :
    Prog.Issues (IndexWrites H) (upsertSymbolTree H args flat) := by
  -- Induction on the symbols: each is upserted under the ids given so far.
  have hnodes : ∀ (rest : List FlatSymbol) (ids : List RowId),
      (∀ sym ∈ rest, 0 ≤ sym.range.startLine) →
      Prog.Issues (IndexWrites H) (upsertNodes H args rest ids) := by
    intro rest
    induction rest with
    | nil => exact fun _ _ => trivial
    | cons sym rest ih =>
      intro ids hline
      have hsym : IndexWrites H _ (.upsertNode (sym.toNode H args (sym.parent.bind (ids[·]?)))) :=
        ⟨sym, args, _, hline sym List.mem_cons_self, rfl⟩
      exact (Prog.Issues.perform hsym).bind fun id =>
        ih (ids ++ [id]) fun s hs => hline s (List.mem_cons_of_mem _ hs)
  -- The edges are upserts of edges, which the index may always write.
  have hedges : ∀ (ids : List RowId) (l : List (FlatSymbol × Nat)),
      Prog.Issues (IndexWrites H) (addContains ids l) := by
    intro ids l
    induction l with
    | nil => trivial
    | cons x rest ih =>
      obtain ⟨sym, i⟩ := x
      unfold addContains
      split
      · refine Prog.Issues.bind (Prog.Issues.perform ?_) fun _ => ih
        trivial
      · exact ih
  exact (hnodes flat [] hline).bind fun ids => hedges ids _

/-- Indexing all files issues writes of the index only. -/
private theorem indexRepository_issues (adapters : List LanguageAdapter) (rootUri language : String)
    (files : List String) :
    Prog.Issues (IndexWrites H) (indexRepository H adapters rootUri language files) := by
  unfold indexRepository
  generalize ({} : IndexStats) = stats
  -- Induction on the files; a file without an adapter or without symbols writes nothing.
  induction files generalizing stats with
  | nil => trivial
  | cons uri files ih =>
    unfold indexFiles
    split
    · exact ih stats
    · split
      · exact ih stats
      · refine Prog.Issues.bind (Prog.Issues.perform (c := IndexCmd.documentSymbols uri) trivial)
          fun reply => ?_
        cases reply with
        | none => exact ih _
        | some symbols =>
          refine (upsertSymbolTree_issues _ fun sym hsym => ?_).bind fun _ => ih _
          -- The symbols are the flattened ones and the module's root, all on lines of the file.
          rcases List.mem_append.mp hsym with hsym | hsym
          · exact (flattenDocumentSymbols_flattened symbols _).line_nonneg sym hsym
          · rw [List.mem_singleton.mp hsym]
            exact Int.le_refl 0

/-- A whole index pass, also one that ends with an error, is a run of reachable worlds. -/
theorem Reachable.indexRepository {w : World} (h : Reachable H w)
    (fetch : String → Option (List DocumentSymbol)) (adapters : List LanguageAdapter)
    (rootUri language : String) (files : List String) :
    Reachable H (w.setDb
      ((Indexer.indexRepository H adapters rootUri language files).run fetch w.db).2) := by
  have hrun := Prog.Issues.run_rel (IndexCmd.handle fetch)
    (fun d d' => ∀ w : World, Reachable H w → w.db = d → Reachable H (w.setDb d'))
    (fun d w h hd => hd ▸ h)
    (fun {a b c} hab hbc w h hd => hbc (w.setDb b) (hab w h hd) rfl)
    (fun β c d hc w h hd => ?_) (indexRepository_issues (H := H) adapters rootUri language files)
    w.db
  · exact hrun w h rfl
  · -- A statement of the pass is one step.
    subst hd
    cases c with
    | documentSymbols uri => exact h
    | upsertNode n =>
      obtain ⟨sym, args, containerId, hline, rfl⟩ := hc
      simp only [IndexCmd.handle]
      rcases hok : w.db.upsertNode (sym.toNode H args containerId) with e | ⟨d', id⟩
      · exact h
      · exact h.env (.upsertNode args containerId hline hok)
    | upsertEdge e =>
      have hquery := h.query ⟨fun _ _ _ => .error .other, fun _ _ _ _ => .ok (),
        fun _ _ => .ok ()⟩ (db (.upsertEdge e))
      simp only [run_db, DbCmd.exec, bind, Except.bind] at hquery
      simp only [IndexCmd.handle]
      rcases hok : w.db.upsertEdge e with err | ⟨d', id⟩
      · exact h
      · rw [hok] at hquery
        simpa [runStatement, World.setDb, DbCmd.event?] using hquery

end Semnav.Query
