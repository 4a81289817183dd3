import Semnav.Indexer.Pipeline
import Semnav.Spec.ReconcileCorrect

/-!
# What an index pass leaves

An upsert writes its row over the one row it hits, by fqn or by physical key, and touches no
other.  From this the node loop of `upsert_symbol_tree`: every symbol of the batch ends with
a row of its own, and a row that was there before survives exactly when no symbol hits it.

## Key results

- `upsertNode_rows`: the rows after an upsert
- `upsertNodes_indexed`: the rows after the node loop
- `upsertSymbolTree_indexed`: the `contains` edges change no row
-/

namespace Semnav.Graph

open Semnav.ForStd

/-- Would an upsert of `n` be written over the row `x`? -/
def NodeCols.Hits (n : NodeCols) (x : Node) : Prop := x.fqn = n.fqn ∨ x.phys = n.phys

instance (n : NodeCols) (x : Node) : Decidable (n.Hits x) :=
  inferInstanceAs (Decidable (_ ∨ _))

/-- The rows after an upsert: the written one, and the ones it did not hit. -/
theorem upsertNode_rows {db db' : Db} (hwf : db.WF) {n : NodeCols} {id : RowId}
    (h : db.upsertNode n = .ok (db', id)) :
    (∀ x, x ∈ db'.nodes ↔ x = ⟨n, id⟩ ∨ (x ∈ db.nodes ∧ ¬ n.Hits x)) ∧
      ∀ x ∈ db.nodes, x.id = id ↔ n.Hits x := by
  -- However the target was found, the constraints make it the only row that is hit.
  have hreplace : ∀ m ∈ db.nodes, n.Hits m → db.checkRow ⟨n, m.id⟩ = .ok () →
      (∀ x, x ∈ (db.replaceNode ⟨n, m.id⟩).nodes ↔
        x = ⟨n, m.id⟩ ∨ (x ∈ db.nodes ∧ ¬ n.Hits x)) ∧
      ∀ x ∈ db.nodes, x.id = m.id ↔ n.Hits x := by
    intro m hm hhit hcheck
    obtain ⟨hfqn, hphys, -⟩ := (db.checkRow_eq_ok_iff _).mp hcheck
    have hid : ∀ x ∈ db.nodes, x.id = m.id ↔ n.Hits x := by
      intro x hx
      constructor
      · intro heq
        rw [hwf.node_ext hx hm heq]
        exact hhit
      · intro hx'
        cases hx' with
        | inl h => exact hfqn x hx h
        | inr h => exact hphys x hx h
    refine ⟨fun x => ?_, hid⟩
    rw [Db.mem_replaceNode]
    constructor
    · intro hx
      cases hx with
      | inl h => exact .inl h.1
      | inr h => exact .inr ⟨h.1, fun hhits => h.2 ((hid x h.1).mpr hhits)⟩
    · intro hx
      cases hx with
      | inl h => exact .inl ⟨h, m, hm, rfl⟩
      | inr h => exact .inr ⟨h.1, fun heq => h.2 ((hid x h.1).mp heq)⟩
  rcases Db.upsertNode_ok hwf h with ⟨m, hm, hfqn, rfl, hcheck, rfl⟩ |
    ⟨-, m, hm, hphys, rfl, hcheck, rfl⟩ | ⟨hfqn, hphys, rfl, -, rfl⟩
  · exact hreplace m hm (.inl hfqn) hcheck
  · exact hreplace m hm (.inr hphys) hcheck
  · -- An insert hits nothing.
    have hnone : ∀ x ∈ db.nodes, ¬ n.Hits x := fun x hx hhit => by
      cases hhit with
      | inl h => exact hfqn x hx h
      | inr h => exact hphys x hx h
    refine ⟨fun x => ?_, fun x hx => ?_⟩
    · rw [Db.mem_appendNode]
      constructor
      · intro hx
        cases hx with
        | inl h => exact .inr ⟨h, hnone x h⟩
        | inr h => exact .inl h
      · intro hx
        cases hx with
        | inl h => exact .inr h
        | inr h => exact .inl h.1
    · exact iff_of_false (hwf.fresh_id hx) (hnone x hx)

/-- An upsert touches no other table. -/
theorem upsertNode_frame {db db' : Db} (hwf : db.WF) {n : NodeCols} {id : RowId}
    (h : db.upsertNode n = .ok (db', id)) : db'.edges = db.edges ∧
      db'.calleesCache = db.calleesCache ∧ db'.materialized = db.materialized ∧
      db'.indexMeta = db.indexMeta := by
  rcases Db.upsertNode_ok hwf h with ⟨m, -, -, -, -, rfl⟩ | ⟨-, m, -, -, -, -, rfl⟩ |
    ⟨-, -, -, -, rfl⟩ <;> exact ⟨rfl, rfl, rfl, rfl⟩

/-- An upserted row keeps the tables' invariants. -/
theorem upsertNode_stored {db db' : Db} (h : db.Stored) {n : NodeCols} {id : RowId}
    (hline : 0 ≤ n.range.startLine) (hok : db.upsertNode n = .ok (db', id)) : db'.Stored where
  toWF := Db.upsertNode_wf h.toWF hok
  line_nonneg := fun x hx => by
    rcases ((upsertNode_rows h.toWF hok).1 x).mp hx with rfl | ⟨hx, -⟩
    · exact hline
    · exact h.line_nonneg x hx

end Semnav.Graph

namespace Semnav.Indexer

open Semnav.ForStd Semnav.Graph Semnav.Adapters

variable (fetch : String → Option (List DocumentSymbol))

/-! ## Statements as commands -/

/-- A statement succeeds when its effect is defined. -/
theorem runStatement_eq_ok {β : Type} {db db' : Db} {r : Except DbError (Db × β)} {b : β} :
    runStatement db r = (.ok b, db') ↔ r = .ok (db', b) := by
  cases r with
  | ok r =>
    obtain ⟨d, b'⟩ := r
    simp only [runStatement, Prod.mk.injEq, Except.ok.injEq]
    exact and_comm
  | error e => simp [runStatement]

/-- An upsert, then the rest. -/
theorem run_upsertNode_bind {α : Type} {n : NodeCols} {f : RowId → IndexM α} {db db'' : Db}
    {a : α} : (upsertNode n >>= f).run fetch db = (.ok a, db'') ↔
      ∃ id db', db.upsertNode n = .ok (db', id) ∧ (f id).run fetch db' = (.ok a, db'') := by
  rw [IndexM.run, Prog.run_bind_eq_ok]
  refine exists_congr fun id => exists_congr fun db' => and_congr_left fun _ => ?_
  rw [upsertNode, Prog.run_perform, IndexCmd.handle, runStatement_eq_ok]

/-- An upsert of an edge succeeds when it is defined. -/
theorem run_upsertEdge_bind {α : Type} {e : Edge} {f : RowId → IndexM α} {db db'' : Db}
    {a : α} : (upsertEdge e >>= f).run fetch db = (.ok a, db'') ↔
      ∃ id db', db.upsertEdge e = .ok (db', id) ∧ (f id).run fetch db' = (.ok a, db'') := by
  rw [IndexM.run, Prog.run_bind_eq_ok]
  refine exists_congr fun id => exists_congr fun db' => and_congr_left fun _ => ?_
  rw [upsertEdge, Prog.run_perform, IndexCmd.handle, runStatement_eq_ok]

/-- Every pass leaves the schema's invariant, also one that ends with an error. -/
theorem IndexM.run_wf {α : Type} (q : IndexM α) {db : Db} (hwf : db.WF) :
    (q.run fetch db).2.WF := by
  refine Prog.Issues.run_rel (IndexCmd.handle fetch) (fun a b => a.WF → b.WF) (fun _ h => h)
    (fun hab hbc h => hbc (hab h)) (fun β c s _ hs => ?_)
    (Prog.Issues.of_forall (P := fun _ _ => True) (fun _ _ => trivial) q) db hwf
  cases c with
  | documentSymbols uri => exact hs
  | upsertNode n =>
    simp only [IndexCmd.handle]
    cases hok : s.upsertNode n with
    | error e => exact hs
    | ok r => exact Db.upsertNode_wf hs hok
  | upsertEdge e =>
    simp only [IndexCmd.handle]
    cases hok : s.upsertEdge e with
    | error e => exact hs
    | ok r => exact Db.upsertEdge_wf hs hok

/-! ## The node loop -/

/-- A flattened symbol tree without collisions. -/
abbrev FlatBatch (H : Hasher) (flat : List FlatSymbol) : Prop :=
  SymbolBatch (flat.map (FlatSymbol.toReconcile H))

/-- The row of a symbol whose parent rows are listed in `ids`. -/
abbrev rowOf (H : Hasher) (args : FileArgs) (ids : List RowId) (sym : FlatSymbol) (id : RowId) :
    Node := ⟨sym.toNode H args (sym.parent.bind (ids[·]?)), id⟩

/-- What the node loop has made of `db₀` once the symbols of `done` have their rows `ids`. -/
structure Indexed (H : Hasher) (args : FileArgs) (db₀ : Db) (done : List FlatSymbol)
    (ids : List RowId) (db : Db) : Prop where
  stored : db.Stored
  length : ids.length = done.length
  /-- Every symbol has its row. -/
  row : ∀ (i : Nat) (sym : FlatSymbol), done[i]? = some sym →
    ∃ id, ids[i]? = some id ∧ rowOf H args ids sym id ∈ db.nodes
  /-- Any other row was there before and is hit by no symbol. -/
  rest : ∀ x ∈ db.nodes, (∃ (i : Nat) (sym : FlatSymbol) (id : RowId), done[i]? = some sym ∧
    ids[i]? = some id ∧ x = rowOf H args ids sym id) ∨
    (x ∈ db₀.nodes ∧ ∀ sym ∈ done, ¬ (sym.toNode H args none).Hits x)
  kept : ∀ x ∈ db₀.nodes, (∀ sym ∈ done, ¬ (sym.toNode H args none).Hits x) → x ∈ db.nodes

section Loop

variable {H : Hasher} {args : FileArgs} {db₀ : Db}

/-- Before the first symbol nothing is indexed. -/
theorem indexed_nil (h : db₀.Stored) : Indexed H args db₀ [] [] db₀ where
  stored := h
  length := rfl
  row := by simp
  rest := fun x hx => .inr ⟨hx, by simp⟩
  kept := fun x hx _ => hx

/-- More rows at the end are no other parents. -/
private theorem rowOf_append {ids : List RowId} {sym : FlatSymbol} {k : Nat}
    (hk : k ≤ ids.length) (hp : ∀ p, sym.parent = some p → p < k) (id id' : RowId) :
    rowOf H args (ids ++ [id]) sym id' = rowOf H args ids sym id' := by
  have hparent : sym.parent.bind ((ids ++ [id])[·]?) = sym.parent.bind (ids[·]?) := by
    cases h : sym.parent with
    | none => rfl
    | some p =>
      have hlt : p < ids.length := by have := hp p h; omega
      simp [List.getElem?_append_left hlt]
  rw [rowOf, hparent]

/-- One round: the written row is new, or was hit by no earlier symbol. -/
private theorem Indexed.step {done : List FlatSymbol} {ids : List RowId} {db db' : Db}
    (h : Indexed H args db₀ done ids db) {sym : FlatSymbol} {id : RowId}
    (hS : FlatBatch H (done ++ [sym]))
    (hok : db.upsertNode (sym.toNode H args (sym.parent.bind (ids[·]?))) = .ok (db', id)) :
    Indexed H args db₀ (done ++ [sym]) (ids ++ [id]) db' := by
  have hlen := h.length
  -- The new symbol hits the row of no earlier one.
  have hmiss : ∀ (i : Nat) (s : FlatSymbol) (id' : RowId), done[i]? = some s →
      ¬ (sym.toNode H args none).Hits (rowOf H args ids s id') := by
    intro i s id' hs hhit
    have hi := (List.getElem?_eq_some_iff.mp hs).1
    have hs' : ((done ++ [sym]).map (FlatSymbol.toReconcile H))[i]? = some (s.toReconcile H) := by
      rw [List.getElem?_map, List.getElem?_append_left hi, hs, Option.map_some]
    have hsym : ((done ++ [sym]).map (FlatSymbol.toReconcile H))[done.length]? =
        some (sym.toReconcile H) := by simp
    have heq : i = done.length := by
      cases hhit with
      | inl hfqn => exact hS.fqn_inj hs' hsym hfqn
      | inr hphys => exact hS.key_inj hs' hsym (congrArg Prod.snd hphys)
    omega
  have hparents : ∀ (i : Nat) (s : FlatSymbol), (done ++ [sym])[i]? = some s →
      ∀ p, s.parent = some p → p < i := by
    intro i s hs p hp
    exact hS.parent_lt i (s.toReconcile H) p (by rw [List.getElem?_map, hs]; rfl) hp
  have hrowOf : ∀ (i : Nat) (s : FlatSymbol) (id' : RowId), (done ++ [sym])[i]? = some s →
      i ≤ ids.length → rowOf H args (ids ++ [id]) s id' = rowOf H args ids s id' :=
    fun i s id' hs hi => rowOf_append hi (hparents i s hs) id id'
  have hlast : (done ++ [sym])[done.length]? = some sym := by simp
  have hnew : rowOf H args (ids ++ [id]) sym id = rowOf H args ids sym id :=
    hrowOf done.length sym id hlast (by omega)
  obtain ⟨hrows, -⟩ := upsertNode_rows h.stored.toWF hok
  constructor
  · refine upsertNode_stored h.stored ?_ hok
    exact hS.line_nonneg (sym.toReconcile H) (List.mem_map_of_mem (by simp))
  · simp [hlen]
  · intro i s hs
    by_cases hi : i < done.length
    · rw [List.getElem?_append_left hi] at hs
      obtain ⟨id', hid', hmem⟩ := h.row i s hs
      refine ⟨id', by rw [List.getElem?_append_left (by omega)]; exact hid', ?_⟩
      rw [hrowOf i s id' (by rw [List.getElem?_append_left hi]; exact hs) (by omega)]
      exact (hrows _).mpr (.inr ⟨hmem, hmiss i s id' hs⟩)
    · have hi' : i = done.length := by
        have := (List.getElem?_eq_some_iff.mp hs).1
        simp only [List.length_append, List.length_singleton] at this
        omega
      subst hi'
      obtain rfl : sym = s := Option.some.inj (hlast.symm.trans hs)
      refine ⟨id, by simp [← hlen], ?_⟩
      rw [hnew]
      exact (hrows _).mpr (.inl rfl)
  · intro x hx
    rcases (hrows x).mp hx with rfl | ⟨hx, hnot⟩
    · exact .inl ⟨done.length, sym, id, hlast, by simp [← hlen], hnew.symm⟩
    rcases h.rest x hx with ⟨i, s, id', hs, hid', rfl⟩ | ⟨hx₀, hfree⟩
    · have hi := (List.getElem?_eq_some_iff.mp hs).1
      have hs' : (done ++ [sym])[i]? = some s := by rw [List.getElem?_append_left hi]; exact hs
      refine .inl ⟨i, s, id', hs', ?_, (hrowOf i s id' hs' (by omega)).symm⟩
      rw [List.getElem?_append_left (by omega)]
      exact hid'
    · refine .inr ⟨hx₀, fun s hs => ?_⟩
      rcases List.mem_append.mp hs with hs | hs
      · exact hfree s hs
      · rw [List.mem_singleton.mp hs]
        exact hnot
  · intro x hx hfree
    refine (hrows x).mpr (.inr ⟨h.kept x hx fun s hs => hfree s (by simp [hs]), ?_⟩)
    exact hfree sym (by simp)

/-- The loop, from any point on. -/
private theorem upsertNodes_indexed_from {fetch : String → Option (List DocumentSymbol)}
    {ids' : List RowId} {db' : Db} (rest : List FlatSymbol) :
    ∀ {done : List FlatSymbol} {ids : List RowId} {db : Db}, Indexed H args db₀ done ids db →
      FlatBatch H (done ++ rest) →
      (upsertNodes H args rest ids).run fetch db = (.ok ids', db') →
      Indexed H args db₀ (done ++ rest) ids' db' := by
  -- Induction on the symbols that are left; `done` are the ones with a row.
  induction rest with
  | nil =>
    intro done ids db h _ hrun
    obtain ⟨hids, rfl⟩ := Prod.mk.inj hrun
    cases hids
    rwa [List.append_nil]
  | cons sym rest ih =>
    intro done ids db h hS hrun
    obtain ⟨id, db₁, hok, hrest⟩ := (run_upsertNode_bind fetch).mp hrun
    -- What is done so far is a batch too, being the front of one.
    have hprefix : FlatBatch H (done ++ [sym]) := by
      rw [List.append_cons] at hS
      exact {
        line_nonneg := fun s hs => hS.line_nonneg s (by
          rw [List.map_append]; exact List.mem_append_left _ hs)
        fqns_nodup := by
          have := hS.fqns_nodup
          rw [List.map_append, List.map_append] at this
          exact this.of_append_left
        keys_nodup := by
          have := hS.keys_nodup
          rw [List.map_append, List.map_append] at this
          exact this.of_append_left
        parent_lt := fun i s p hs hp => hS.parent_lt i s p (by
          rw [List.map_append, List.getElem?_append_left (List.getElem?_eq_some_iff.mp hs).1]
          exact hs) hp }
    rw [List.append_cons] at hS ⊢
    exact ih (h.step hprefix hok) hS hrest

/-- The node loop of a batch, over any stored graph. -/
private theorem upsertNodes_indexed {fetch : String → Option (List DocumentSymbol)} (h : db₀.Stored)
    {flat : List FlatSymbol} (hS : FlatBatch H flat) {ids : List RowId} {db : Db}
    (hrun : (upsertNodes H args flat []).run fetch db₀ = (.ok ids, db)) :
    Indexed H args db₀ flat ids db :=
  upsertNodes_indexed_from flat (indexed_nil h) hS hrun

end Loop

/-! ## The `contains` edges -/

/-- The edge loop changes no row and leaves a stored graph, also when it fails. -/
theorem addContains_frame (ids : List RowId) (l : List (FlatSymbol × Nat)) (db : Db) :
    ((addContains ids l).run fetch db).2.nodes = db.nodes ∧
      (db.Stored → ((addContains ids l).run fetch db).2.Stored) := by
  induction l generalizing db with
  | nil => exact ⟨rfl, id⟩
  | cons x rest ih =>
    obtain ⟨sym, i⟩ := x
    simp only [addContains]
    cases sym.parent with
    -- A symbol at the top has no container, so no edge is added.
    | none => exact ih db
    | some parent =>
      simp only [IndexM.run, upsertEdge, Prog.run_perform_bind, IndexCmd.handle]
      cases hok : db.upsertEdge (containsEdge (ids.getD parent 0) (ids.getD i 0)) with
      | error e => exact ⟨rfl, id⟩
      | ok r =>
        obtain ⟨db', id⟩ := r
        have hframe := Db.upsertEdge_frame hok
        obtain ⟨hnodes, hstored⟩ := ih db'
        -- A containment edge touches no row, so the rest sees the rows of before.
        refine ⟨hnodes.trans hframe.1, fun h => hstored ⟨Db.upsertEdge_wf h.toWF hok, ?_⟩⟩
        rw [hframe.1]
        exact h.line_nonneg

/-- However far the node loop gets, the graph is stored and any new row is one of the file. -/
private theorem upsertNodes_frame (H : Hasher) (args : FileArgs) (flat : List FlatSymbol)
    (ids : List RowId) {db : Db} (h : db.Stored) (hline : ∀ s ∈ flat, 0 ≤ s.range.startLine) :
    ((upsertNodes H args flat ids).run fetch db).2.Stored ∧
      ∀ x ∈ ((upsertNodes H args flat ids).run fetch db).2.nodes, x ∈ db.nodes ∨ x.uri = args.uri := by
  induction flat generalizing ids db with
  | nil => exact ⟨h, fun x hx => .inl hx⟩
  | cons sym rest ih =>
    simp only [upsertNodes, IndexM.run, upsertNode, Prog.run_perform_bind, IndexCmd.handle]
    cases hok : db.upsertNode (sym.toNode H args (sym.parent.bind (ids[·]?))) with
    | error e => exact ⟨h, fun x hx => .inl hx⟩
    | ok r =>
      obtain ⟨db₁, id⟩ := r
      have h₁ := upsertNode_stored h (hline sym List.mem_cons_self) hok
      obtain ⟨hstored, hnew⟩ := ih (ids ++ [id]) h₁ fun s hs =>
        hline s (List.mem_cons_of_mem _ hs)
      refine ⟨hstored, fun x hx => ?_⟩
      -- A row the rest left in place was there before this upsert or is what it wrote, a row of the
      -- file.
      rcases hnew x hx with hx | hu
      · rcases ((upsertNode_rows h.toWF hok).1 x).mp hx with rfl | ⟨hx, -⟩
        · exact .inr rfl
        · exact .inl hx
      · exact .inr hu

/-- The whole of `upsert_symbol_tree` keeps the constraints and brings rows of its own file only. -/
theorem upsertSymbolTree_frame (H : Hasher) (args : FileArgs) (flat : List FlatSymbol) {db : Db}
    (h : db.Stored) (hline : ∀ s ∈ flat, 0 ≤ s.range.startLine) :
    ((upsertSymbolTree H args flat).run fetch db).2.Stored ∧
      ∀ x ∈ ((upsertSymbolTree H args flat).run fetch db).2.nodes,
        x ∈ db.nodes ∨ x.uri = args.uri := by
  have hframe := upsertNodes_frame fetch H args flat [] h hline
  rw [upsertSymbolTree, IndexM.run, Prog.run_bind]
  rcases hrun : Prog.run (IndexCmd.handle fetch) (upsertNodes H args flat []) db with ⟨e | ids, db₁⟩
  · simp only [IndexM.run, hrun] at hframe
    exact hframe
  · simp only [IndexM.run, hrun] at hframe
    obtain ⟨hnodes, hstored⟩ := addContains_frame fetch ids flat.zipIdx db₁
    refine ⟨hstored hframe.1, fun x hx => hframe.2 x ?_⟩
    rw [← hnodes]
    exact hx

/-- What a successful `upsert_symbol_tree` leaves. -/
theorem upsertSymbolTree_indexed {H : Hasher} {args : FileArgs} {db db' : Db} (h : db.Stored)
    {flat : List FlatSymbol} (hS : FlatBatch H flat)
    (hrun : (upsertSymbolTree H args flat).run fetch db = (.ok (), db')) :
    ∃ ids, Indexed H args db flat ids db' := by
  obtain ⟨ids, db₁, hnodes, hedges⟩ := (Prog.run_bind_eq_ok _).mp hrun
  have hindexed := upsertNodes_indexed h hS hnodes
  obtain ⟨hframe, hstored⟩ := addContains_frame fetch ids flat.zipIdx db₁
  rw [IndexM.run, hedges] at hframe hstored
  refine ⟨ids, { hindexed with stored := hstored hindexed.stored, row := ?_, rest := ?_, kept := ?_ }⟩
  · rw [hframe]
    exact hindexed.row
  · rw [hframe]
    exact hindexed.rest
  · rw [hframe]
    exact hindexed.kept

end Semnav.Indexer
