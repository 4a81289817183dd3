import Semnav.ForStd.Protocol
import Semnav.Spec.IndexAgrees

/-!
# Containers in an index pass

The container of a symbol is stored twice, as `container_id` of its row and as a `contains` edge.
An index pass writes the column while it upserts the nodes and adds the edges afterwards; it takes
no edge away.  So column and edges agree after the pass if no upsert gives a row that has a
container another one.

## Key results

- `Placed.step`: one upsert of the node loop
- `upsertSymbolTree_contained`: the two loops
- `indexRepository_contained`: a pass over a repository gets through and keeps the invariant
-/

namespace Semnav.Graph

/-! ## The invariant -/

/-- There is a valid `contains` edge from `p` to `c`. -/
def Db.Contains (db : Db) (p c : RowId) : Prop :=
  ∃ e ∈ db.edges, e.edgeType = .contains ∧ e.srcId = p ∧ e.dstId = c ∧ e.valid = true

instance (db : Db) (p c : RowId) : Decidable (db.Contains p c) :=
  inferInstanceAs (Decidable (∃ e ∈ db.edges, _))

/-- Between valid rows, the `contains` edges are those that the column says. -/
def Db.ContainersAgree (db : Db) : Prop :=
  ∀ p ∈ db.nodes, p.valid = true → ∀ c ∈ db.nodes, c.valid = true →
    (db.Contains p.id c.id ↔ c.containerId = some p.id)

instance (db : Db) : Decidable db.ContainersAgree :=
  inferInstanceAs (Decidable (∀ p ∈ db.nodes, p.valid = true → ∀ c ∈ db.nodes, c.valid = true → _))

/-- A stored graph in which every valid `contains` edge is that of the column, orphans included,
    and every valid row with a container has its edge. -/
structure Db.Contained (db : Db) : Prop extends db.Stored where
  column : ∀ p, ∀ x ∈ db.nodes, db.Contains p x.id → x.containerId = some p
  edge : ∀ p, ∀ x ∈ db.nodes, x.valid = true → x.containerId = some p → db.Contains p x.id

/-- Contained rows and containment edges agree. -/
theorem Db.Contained.agree {db : Db} (h : db.Contained) : db.ContainersAgree :=
  fun p _ _ c hc hvalid => ⟨h.column p.id c hc, h.edge p.id c hc hvalid⟩

/-- The empty graph is contained. -/
theorem Db.empty_contained : Db.empty.Contained where
  toStored := Db.empty_stored
  column := fun _ _ hx => nomatch hx
  edge := fun _ _ hx => nomatch hx

/-- The ends of a `contains` edge are rows. -/
theorem Db.Contains.rows {db : Db} (hwf : db.WF) {p c : RowId} (h : db.Contains p c) :
    (∃ x ∈ db.nodes, x.id = p) ∧ ∃ x ∈ db.nodes, x.id = c := by
  obtain ⟨e, he, -, rfl, rfl, -⟩ := h
  obtain ⟨hsrc, hdst⟩ := hwf.edge_ok e he
  exact ⟨(db.hasNode_iff _).mp hsrc, (db.hasNode_iff _).mp hdst⟩

/-- An upsert of `n` finds at most one row, and the container of a row that is valid, or has its
    edge, is that of `n`. -/
structure Db.KeepsContainer (db : Db) (n : NodeCols) : Prop where
  one : ∀ x ∈ db.nodes, ∀ y ∈ db.nodes, n.Hits x → n.Hits y → x.id = y.id
  container : ∀ x ∈ db.nodes, n.Hits x → ∀ p, x.containerId = some p →
    x.valid = true ∨ db.Contains p x.id → n.containerId = some p

instance (db : Db) (n : NodeCols) : Decidable (db.KeepsContainer n) :=
  decidable_of_iff ((∀ x ∈ db.nodes, ∀ y ∈ db.nodes, n.Hits x → n.Hits y → x.id = y.id) ∧
      ∀ x ∈ db.nodes, n.Hits x → ∀ p ∈ x.containerId,
        x.valid = true ∨ db.Contains p x.id → n.containerId = some p)
    ⟨fun h => ⟨h.1, h.2⟩, fun h => ⟨h.one, h.container⟩⟩

/-- An upsert that finds at most one row, into a container that is a row, gets through. -/
theorem Db.upsertNode_total {db : Db} (hwf : db.WF) {n : NodeCols}
    (hone : ∀ x ∈ db.nodes, ∀ y ∈ db.nodes, n.Hits x → n.Hits y → x.id = y.id)
    (hcontainer : ∀ c, n.containerId = some c → db.hasNode c = true) :
    ∃ db' id, db.upsertNode n = .ok (db', id) := by
  -- Any row it hits may be given these columns, as it hits no other.
  have hupdate : ∀ m ∈ db.nodes, n.Hits m →
      db.updateNode m.id (fun _ => n) = .ok (db.replaceNode ⟨n, m.id⟩) := by
    intro m hm hhit
    refine (Db.updateNode_ok hwf hm).mpr ⟨(db.checkRow_eq_ok_iff _).mpr ⟨?_, ?_, ?_⟩, rfl⟩
    · intro x hx hfqn
      exact hone x hx m hm (.inl hfqn) hhit
    · intro x hx hphys
      exact hone x hx m hm (.inr hphys) hhit
    · intro c hc
      exact .inr (hcontainer c hc)
  -- The name is looked for first, then the key; an update succeeds on either.
  by_cases hfqn : ∀ m ∈ db.nodes, m.fqn ≠ n.fqn
  · by_cases hphys : ∀ m ∈ db.nodes, m.phys ≠ n.phys
    · exact ⟨_, _, Db.upsertNode_insert hfqn hphys hcontainer⟩
    · have hnone : db.nodes.find? (·.fqn == n.fqn) = none := by simpa using hfqn
      cases hfind : db.nodes.find? (·.phys == n.phys) with
      | none =>
        refine absurd (fun m hm => ?_) hphys
        simpa using List.find?_eq_none.mp hfind m hm
      | some m =>
        have hhit : m.phys = n.phys := by simpa using List.find?_some hfind
        simp only [Db.upsertNode, hnone, hfind,
          hupdate m (List.mem_of_find?_eq_some hfind) (.inr hhit)]
        exact ⟨_, _, rfl⟩
  · cases hfind : db.nodes.find? (·.fqn == n.fqn) with
    | none =>
      refine absurd (fun m hm => ?_) hfqn
      simpa using List.find?_eq_none.mp hfind m hm
    | some m =>
      have hhit : m.fqn = n.fqn := by simpa using List.find?_some hfind
      simp only [Db.upsertNode, hfind, hupdate m (List.mem_of_find?_eq_some hfind) (.inl hhit)]
      exact ⟨_, _, rfl⟩

end Semnav.Graph

namespace Semnav.Indexer

open Semnav.ForStd Semnav.Graph Semnav.Adapters

/-! ## What is asked of a pass -/

/-- A command of the pass leaves every row that it writes in its container. -/
def IndexCmd.Keeps {β : Type} : IndexCmd β → Db → Prop
  | .upsertNode n, db => db.KeepsContainer n
  | _, _ => True

instance {β : Type} (c : IndexCmd β) (db : Db) : Decidable (c.Keeps db) := by
  cases c with
  | upsertNode n => exact inferInstanceAs (Decidable (db.KeepsContainer n))
  | documentSymbols | upsertEdge => exact inferInstanceAs (Decidable True)

/-- Every command of a pass meets `IndexCmd.Keeps` in the state that it is issued in. -/
def keepingProtocol (fetch : String → Option (List DocumentSymbol)) : Prog.Protocol IndexCmd Db :=
  .ofHandler (IndexCmd.handle fetch) fun db c => c.Keeps db

/-- A list of symbols in which parents stand before their children. -/
def ParentsFirst (flat : List FlatSymbol) : Prop :=
  ∀ (i : Nat) (sym : FlatSymbol), flat[i]? = some sym → ∀ p, sym.parent = some p → p < i

/-- The row of a symbol's parent. -/
abbrev parentRow (ids : List RowId) (sym : FlatSymbol) : Option RowId := sym.parent.bind (ids[·]?)

/-- Indexed symbols come after their parents. -/
private theorem indexedSymbols_parentsFirst (symbols : List DocumentSymbol) (modulePath : String) :
    ParentsFirst (indexedSymbols symbols modulePath) := by
  intro i sym hsym p hp
  have hflat := flattenDocumentSymbols_flattened symbols modulePath
  by_cases hi : i < (flattenDocumentSymbols symbols modulePath).length
  · rw [indexedSymbols, List.getElem?_append_left hi] at hsym
    exact hflat.parent_lt i sym hsym p hp
  · -- The module root has no parent.
    rw [indexedSymbols, List.getElem?_append_right (by omega)] at hsym
    obtain rfl := List.mem_singleton.mp (List.mem_of_getElem? hsym)
    cases hp

/-! ## The node loop -/

/-- What the node loop has made of `db₀` once the symbols of `done` have their rows `ids`: no edge
    has changed, and every container that a valid row has by now comes with its edge or is that of
    a symbol written to the row. -/
structure Placed (db₀ : Db) (done : List FlatSymbol) (ids : List RowId) (db : Db) : Prop where
  stored : db.Stored
  edges : db.edges = db₀.edges
  length : ids.length = done.length
  placed : ∀ (i : Nat) (sym : FlatSymbol), done[i]? = some sym →
    ∃ x ∈ db.nodes, ids[i]? = some x.id ∧ x.valid = true ∧
      ∀ p, parentRow ids sym = some p → x.containerId = some p
  column : ∀ p, ∀ x ∈ db.nodes, db₀.Contains p x.id → x.containerId = some p
  edge : ∀ p, ∀ x ∈ db.nodes, x.valid = true → x.containerId = some p → db₀.Contains p x.id ∨
    ∃ (i : Nat) (sym : FlatSymbol), done[i]? = some sym ∧ ids[i]? = some x.id ∧
      parentRow ids sym = some p

/-- Before the first symbol nothing is placed. -/
theorem placed_nil {db₀ : Db} (h : db₀.Contained) : Placed db₀ [] [] db₀ where
  stored := h.toStored
  edges := rfl
  length := rfl
  placed := by simp
  column := h.column
  edge := fun p x hx hvalid hp => .inl (h.edge p x hx hvalid hp)

section Loops

variable {H : Hasher} {args : FileArgs} {db₀ db : Db} {done : List FlatSymbol} {ids : List RowId}

/-- A later row is the parent of no earlier symbol. -/
private theorem parentRow_append (hlen : ids.length = done.length) {flat : List FlatSymbol}
    (hparents : ParentsFirst flat) {i : Nat} {sym : FlatSymbol} (hsym : flat[i]? = some sym)
    (hi : i ≤ done.length) (id : RowId) : parentRow (ids ++ [id]) sym = parentRow ids sym := by
  unfold parentRow
  cases hp : sym.parent with
  | none => rfl
  | some p =>
    have hlt : p < ids.length := by
      have := hparents i sym hsym p hp
      omega
    simp only [Option.bind_some, List.getElem?_append_left hlt]

/-- The row of the parent of a symbol is there. -/
private theorem Placed.parentRow_mem (h : Placed db₀ done ids db) {sym : FlatSymbol} {c : RowId}
    (hc : parentRow ids sym = some c) : ∃ x ∈ db.nodes, x.id = c := by
  obtain ⟨p, -, hp⟩ := Option.bind_eq_some_iff.mp hc
  have hlt : p < done.length := by
    have := (List.getElem?_eq_some_iff.mp hp).1
    have := h.length
    omega
  obtain ⟨x, hx, hid, -⟩ := h.placed p done[p] (List.getElem?_eq_getElem hlt)
  exact ⟨x, hx, Option.some.inj (hid.symm.trans hp)⟩

/-- One round of the node loop gets through and keeps the invariant. -/
private theorem Placed.step (h : Placed db₀ done ids db) {sym : FlatSymbol}
    (hparents : ParentsFirst (done ++ [sym])) (hline : 0 ≤ sym.range.startLine)
    (hkeep : db.KeepsContainer (sym.toNode H args (parentRow ids sym))) :
    ∃ db' id, db.upsertNode (sym.toNode H args (parentRow ids sym)) = .ok (db', id) ∧
      Placed db₀ (done ++ [sym]) (ids ++ [id]) db' := by
  obtain ⟨db', id, hok⟩ := Db.upsertNode_total h.stored.toWF hkeep.one fun c hc =>
    (db.hasNode_iff c).mpr (h.parentRow_mem hc)
  refine ⟨db', id, hok, ?_⟩
  obtain ⟨hrows, hid⟩ := upsertNode_rows h.stored.toWF hok
  have hlen := h.length
  have hlast : (done ++ [sym])[done.length]? = some sym := by simp
  have hself : parentRow (ids ++ [id]) sym = parentRow ids sym :=
    parentRow_append hlen hparents hlast (by omega) id
  have hearlier : ∀ {i : Nat} {s : FlatSymbol}, done[i]? = some s →
      (done ++ [sym])[i]? = some s ∧ parentRow (ids ++ [id]) s = parentRow ids s := by
    intro i s hs
    have hi := (List.getElem?_eq_some_iff.mp hs).1
    have hs' : (done ++ [sym])[i]? = some s := by rw [List.getElem?_append_left hi]; exact hs
    exact ⟨hs', parentRow_append hlen hparents hs' (by omega) id⟩
  have hids : ∀ {i : Nat} {r : RowId}, ids[i]? = some r → (ids ++ [id])[i]? = some r := by
    intro i r hr
    rw [List.getElem?_append_left (List.getElem?_eq_some_iff.mp hr).1]
    exact hr
  -- A container that the row found has to keep.
  have hsame : ∀ x ∈ db.nodes, x.id = id → ∀ p, x.containerId = some p →
      x.valid = true ∨ db.Contains p x.id → parentRow ids sym = some p :=
    fun x hx heq p hp hor => hkeep.container x hx ((hid x hx).mp heq) p hp hor
  constructor
  · exact upsertNode_stored h.stored hline hok
  · exact (upsertNode_frame h.stored.toWF hok).1.trans h.edges
  · simp [hlen]
  · intro i s hs
    by_cases hi : i < done.length
    · rw [List.getElem?_append_left hi] at hs
      obtain ⟨x, hx, hrow, hvalid, hparent⟩ := h.placed i s hs
      by_cases heq : x.id = id
      · -- The earlier symbol's row is written once more.
        refine ⟨_, (hrows _).mpr (.inl rfl), hids (heq ▸ hrow), rfl, fun p hp => ?_⟩
        rw [(hearlier hs).2] at hp
        exact hsame x hx heq p (hparent p hp) (.inl hvalid)
      · refine ⟨x, (hrows x).mpr (.inr ⟨hx, fun hhit => heq ((hid x hx).mpr hhit)⟩), hids hrow,
          hvalid, fun p hp => ?_⟩
        rw [(hearlier hs).2] at hp
        exact hparent p hp
    · have hi' : i = done.length := by
        have := (List.getElem?_eq_some_iff.mp hs).1
        simp only [List.length_append, List.length_singleton] at this
        omega
      subst hi'
      obtain rfl : sym = s := Option.some.inj (hlast.symm.trans hs)
      refine ⟨_, (hrows _).mpr (.inl rfl), by simp [← hlen], rfl, fun p hp => ?_⟩
      rw [hself] at hp
      exact hp
  · intro p x hx hedge
    rcases (hrows x).mp hx with rfl | ⟨hx, -⟩
    · -- The edge was there before, so the upsert has found its row.
      have hedge' : db.Contains p id := by rw [Db.Contains, h.edges]; exact hedge
      obtain ⟨-, m, hm, rfl⟩ := hedge'.rows h.stored.toWF
      exact hsame m hm rfl p (h.column p m hm hedge) (.inr hedge')
    · exact h.column p x hx hedge
  · intro p x hx hvalid hp
    rcases (hrows x).mp hx with rfl | ⟨hx, -⟩
    · exact .inr ⟨done.length, sym, hlast, by simp [← hlen], hself.trans hp⟩
    · cases h.edge p x hx hvalid hp with
      | inl hedge => exact .inl hedge
      | inr hsym =>
        obtain ⟨i, s, hs, hrow, hparent⟩ := hsym
        exact .inr ⟨i, s, (hearlier hs).1, hids hrow, (hearlier hs).2.trans hparent⟩

/-- The node loop of a pass that keeps containers gets through. -/
private theorem upsertNodes_placed {fetch : String → Option (List DocumentSymbol)}
    {Q : List RowId → Db → Prop} (rest : List FlatSymbol) :
    ∀ {done : List FlatSymbol} {ids : List RowId} {db : Db}, Placed db₀ done ids db →
      ParentsFirst (done ++ rest) → (∀ s ∈ rest, 0 ≤ s.range.startLine) →
      Prog.Obeys (keepingProtocol fetch) Q (upsertNodes H args rest ids) db →
      ∃ ids' db', (upsertNodes H args rest ids).run fetch db = (.ok ids', db') ∧
        Placed db₀ (done ++ rest) ids' db' := by
  -- Induction on the symbols still to come; those done stay placed.
  induction rest with
  | nil =>
    intro done ids db h _ _ _
    rw [List.append_nil]
    exact ⟨ids, db, rfl, h⟩
  | cons sym rest ih =>
    intro done ids db h hparents hline hobeys
    -- Parents come first among the symbols done as well.
    have hfirst : ParentsFirst (done ++ [sym]) := by
      intro i s hs p hp
      refine hparents i s ?_ p hp
      rw [List.append_cons, List.getElem?_append_left (List.getElem?_eq_some_iff.mp hs).1]
      exact hs
    obtain ⟨hallowed, hrest⟩ := Prog.obeys_perform_bind.mp hobeys
    -- This symbol is upserted, as the step is allowed in the run.
    obtain ⟨db₁, id, hok, hstep⟩ := h.step hfirst (hline sym List.mem_cons_self) hallowed
    rw [List.append_cons] at hparents ⊢
    obtain ⟨ids', db', hrun, hplaced⟩ := ih hstep hparents
      (fun s hs => hline s (List.mem_cons_of_mem sym hs))
      (hrest id db₁ (runStatement_eq_ok.mpr hok))
    exact ⟨ids', db', (run_upsertNode_bind fetch).mpr ⟨id, db₁, hok, hrun⟩, hplaced⟩

/-! ## The edge loop -/

/-- The edge loop gets through over rows that are there and adds the edges of its symbols. -/
private theorem addContains_contains (fetch : String → Option (List DocumentSymbol))
    (ids : List RowId)
    (l : List (FlatSymbol × Nat)) {db : Db} (h : db.Stored)
    (hrow : ∀ x ∈ l, ∀ p, x.1.parent = some p → db.hasNode (ids.getD p 0) = true ∧
      db.hasNode (ids.getD x.2 0) = true) :
    ∃ db', (addContains ids l).run fetch db = (.ok (), db') ∧ db'.Stored ∧
      db'.nodes = db.nodes ∧ ∀ src dst, db'.Contains src dst ↔ db.Contains src dst ∨
        ∃ x ∈ l, ∃ p, x.1.parent = some p ∧ src = ids.getD p 0 ∧ dst = ids.getD x.2 0 := by
  -- Induction on the symbols; one without a parent adds no edge.
  induction l generalizing db with
  | nil => exact ⟨db, rfl, h, rfl, by simp⟩
  | cons x rest ih =>
    obtain ⟨sym, i⟩ := x
    cases hp : sym.parent with
    | none =>
      obtain ⟨db', hrun, hstored, hnodes, hiff⟩ := ih h fun x hx => hrow x (List.mem_cons_of_mem _ hx)
      refine ⟨db', ?_, hstored, hnodes, fun src dst => ?_⟩
      · simp only [addContains, hp]
        exact hrun
      · rw [hiff]
        simp [hp]
    | some p =>
      obtain ⟨hsrc, hdst⟩ := hrow (sym, i) List.mem_cons_self p hp
      obtain ⟨db₁, id, hok⟩ :=
        db.upsertEdge_total (containsEdge (ids.getD p 0) (ids.getD i 0)) hsrc hdst
      -- The edge changes no row, so the ends of the later ones still exist.
      have hnodes₁ := (Db.upsertEdge_frame hok).1
      have hstored₁ : db₁.Stored := ⟨Db.upsertEdge_wf h.toWF hok, hnodes₁ ▸ h.line_nonneg⟩
      obtain ⟨db', hrun, hstored, hnodes, hiff⟩ := ih hstored₁ fun x hx q hq => by
        have hhas := hrow x (List.mem_cons_of_mem _ hx) q hq
        simp only [Db.hasNode, hnodes₁] at hhas ⊢
        exact hhas
      refine ⟨db', ?_, hstored, hnodes.trans hnodes₁, fun src dst => ?_⟩
      · simp only [addContains, hp]
        exact (run_upsertEdge_bind fetch).mpr ⟨id, db₁, hok, hrun⟩
      · have hone : db₁.Contains src dst ↔ db.Contains src dst ∨
            (src = ids.getD p 0 ∧ dst = ids.getD i 0) := upsertEdge_contains h.toWF hok src dst
        rw [hiff, hone, or_assoc]
        simp [hp]

/-- What an `upsert_symbol_tree` that keeps containers does: it gets through and keeps the
    invariant. -/
private theorem upsertSymbolTree_contained {fetch : String → Option (List DocumentSymbol)}
    (h : db₀.Contained)
    {flat : List FlatSymbol} (hparents : ParentsFirst flat)
    (hline : ∀ s ∈ flat, 0 ≤ s.range.startLine) {Q : Unit → Db → Prop}
    (hobeys : Prog.Obeys (keepingProtocol fetch) Q (upsertSymbolTree H args flat) db₀) :
    ∃ db', (upsertSymbolTree H args flat).run fetch db₀ = (.ok (), db') ∧ db'.Contained := by
  obtain ⟨ids, db₁, hrun, hplaced⟩ := upsertNodes_placed flat (placed_nil h) hparents hline
    (Prog.Obeys.of_bind hobeys)
  rw [List.nil_append] at hplaced
  have hlen := hplaced.length
  have hrowOf : ∀ {i : Nat}, i < flat.length → ∃ x ∈ db₁.nodes, ids.getD i 0 = x.id := by
    intro i hi
    obtain ⟨x, hx, hid, -⟩ := hplaced.placed i flat[i] (List.getElem?_eq_getElem hi)
    refine ⟨x, hx, ?_⟩
    simp [List.getD, hid]
  have hmem : ∀ {x : FlatSymbol × Nat}, x ∈ flat.zipIdx → flat[x.2]? = some x.1 :=
    fun hx => List.mk_mem_zipIdx_iff_getElem?.mp hx
  obtain ⟨db', hedges, hstored, hnodes, hiff⟩ := addContains_contains fetch ids flat.zipIdx
    hplaced.stored fun x hx p hp => by
      have hi := (List.getElem?_eq_some_iff.mp (hmem hx)).1
      have hlt := hparents x.2 x.1 (hmem hx) p hp
      obtain ⟨y, hy, hyid⟩ := hrowOf (i := p) (by omega)
      obtain ⟨z, hz, hzid⟩ := hrowOf hi
      rw [hyid, hzid]
      exact ⟨Db.hasNode_of_mem hy, Db.hasNode_of_mem hz⟩
  have hold : ∀ p c, db₁.Contains p c ↔ db₀.Contains p c := fun p c => by
    rw [Db.Contains, hplaced.edges, Db.Contains]
  refine ⟨db', (Prog.run_bind_eq_ok _).mpr ⟨ids, db₁, hrun, hedges⟩, hstored, ?_, ?_⟩
  · intro p x hx hedge
    rw [hnodes] at hx
    rcases (hiff p x.id).mp hedge with hedge | ⟨y, hy, q, hq, rfl, hdst⟩
    · exact hplaced.column p x hx ((hold p x.id).mp hedge)
    · -- A new edge goes to the row of its symbol, in the container the loop has written there.
      have hi := (List.getElem?_eq_some_iff.mp (hmem hy)).1
      have hlt := hparents y.2 y.1 (hmem hy) q hq
      obtain ⟨z, hz, hzid, -, hparent⟩ := hplaced.placed y.2 y.1 (hmem hy)
      have hxz : x.id = z.id := by rw [hdst]; simp [List.getD, hzid]
      obtain rfl := hplaced.stored.node_ext hx hz hxz
      apply hparent
      have hqlt : q < ids.length := by omega
      simp [parentRow, hq, List.getD, List.getElem?_eq_getElem hqlt]
  · intro p x hx hvalid hp
    rw [hnodes] at hx
    rw [hiff, hold]
    cases hplaced.edge p x hx hvalid hp with
    | inl hedge => exact .inl hedge
    | inr hsym =>
      obtain ⟨i, sym, hs, hrow, hparent⟩ := hsym
      obtain ⟨q, hq, hqid⟩ := Option.bind_eq_some_iff.mp hparent
      refine .inr ⟨(sym, i), List.mk_mem_zipIdx_iff_getElem?.mpr hs, q, hq, ?_, ?_⟩
      · simp [List.getD, hqid]
      · simp [List.getD, hrow]

/-! ## A pass over the repository -/

/-- An index pass that keeps containers gets through and keeps the invariant. -/
theorem indexRepository_contained {fetch : String → Option (List DocumentSymbol)}
    (adapters : List LanguageAdapter) (rootUri language : String) (files : List String)
    (h : db.Contained) {Q : IndexStats → Db → Prop}
    (hobeys : Prog.Obeys (keepingProtocol fetch) Q
      (indexRepository H adapters rootUri language files) db) :
    ∃ stats db', (indexRepository H adapters rootUri language files).run fetch db =
      (.ok stats, db') ∧ db'.Contained := by
  unfold indexRepository at hobeys ⊢
  generalize ({} : IndexStats) = stats at hobeys ⊢
  induction files generalizing db stats with
  | nil => exact ⟨stats, db, rfl, h⟩
  | cons uri files ih =>
    unfold indexFiles at hobeys ⊢
    cases hselect : selectForUri adapters uri with
    | none =>
      simp only [hselect] at hobeys ⊢
      exact ih h stats hobeys
    | some adapter =>
      simp only [hselect] at hobeys ⊢
      by_cases hlang : adapter.languageName ≠ language
      · rw [if_pos hlang] at hobeys ⊢
        exact ih h stats hobeys
      · rw [if_neg hlang] at hobeys ⊢
        have hreply := (Prog.obeys_perform_bind.mp hobeys).2 (fetch uri) db rfl
        rw [IndexM.run, Prog.run_perform_bind]
        simp only [IndexCmd.handle]
        cases hfetch : fetch uri with
        | none =>
          simp only [hfetch] at hreply ⊢
          exact ih h _ hreply
        | some symbols =>
          simp only [hfetch] at hreply ⊢
          -- The file's symbols, then the other files.
          obtain ⟨db₁, hrun, hcontained⟩ := upsertSymbolTree_contained h
            (indexedSymbols_parentsFirst symbols _) (fetchedSymbols_line_nonneg symbols _ true)
            hreply.of_bind
          obtain ⟨stats', db', hrest, hdone⟩ := ih hcontained _
            (hreply.of_bind.of_run (fun _ _ _ _ hc => hc) hrun)
          refine ⟨stats', db', ?_, hdone⟩
          exact (Prog.run_bind_of_ok _ hrun).trans hrest

end Loops

end Semnav.Indexer
