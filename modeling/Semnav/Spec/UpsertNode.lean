import Semnav.Spec.ContainedIndex

/-!
# When `upsert_node` succeeds

`UPSERT_SQL` resolves a conflict with the one unique key or with the other, by rewriting the row
it finds.  The rewritten row is subject to both keys again: an upsert whose fqn is that of one row
and whose position is that of another one fails.

## Key results

- `upsertNode_correct_iff`: an upsert does what it should if and only if it conflicts with at
  most one row
- `swapped_methods_conflict`: two methods that change places are enough for an error
-/

namespace Semnav.Graph

open Semnav.ForStd

/-- What an upsert of `n` should make of `db`; `id` is the row of `n`. -/
structure Upserted (db : Db) (n : NodeCols) (db' : Db) (id : RowId) : Prop where
  /-- Both unique indexes hold. -/
  fqn_unique : ∀ x ∈ db'.nodes, ∀ y ∈ db'.nodes, x.fqn = y.fqn → x = y
  phys_unique : ∀ x ∈ db'.nodes, ∀ y ∈ db'.nodes, x.phys = y.phys → x = y
  /-- One row has the fqn, and it carries the data. -/
  row : ∀ x, x ∈ db'.nodes ∧ x.fqn = n.fqn ↔ x = ⟨n, id⟩
  /-- A row that shares neither key is unchanged, and there are no others. -/
  others : ∀ x, x.id ≠ id → (x ∈ db'.nodes ↔ x ∈ db.nodes ∧ ¬ n.Hits x)
  kept : ∀ x ∈ db.nodes, x.fqn ≠ n.fqn → x.phys ≠ n.phys → x ∈ db'.nodes

/-- The conflicts of `n` are with one row, and its container is a row, or the new one. -/
structure Db.Upsertable (db : Db) (n : NodeCols) : Prop where
  one : ∀ x ∈ db.nodes, ∀ y ∈ db.nodes, x.fqn = n.fqn → y.phys = n.phys → x.id = y.id
  container : ∀ c, n.containerId = some c →
    db.hasNode c = true ∨ ((∀ x ∈ db.nodes, ¬ n.Hits x) ∧ c = db.nodesSeq + 1)

section

variable {db db' : Db} {n : NodeCols} {id : RowId}

/-- All rows that an upsert hits are one row. -/
private theorem Db.Upsertable.hits_eq (hwf : db.WF) (h : db.Upsertable n) :
    ∀ x ∈ db.nodes, ∀ y ∈ db.nodes, n.Hits x → n.Hits y → x.id = y.id := by
  intro x hx y hy hhit hhit'
  cases hhit with
  | inl hfqn =>
    cases hhit' with
    | inl hfqn' => exact hwf.fqn_unique x hx y hy (hfqn.trans hfqn'.symm)
    | inr hphys' => exact h.one x hx y hy hfqn hphys'
  | inr hphys =>
    cases hhit' with
    | inl hfqn' => exact (h.one y hy x hx hfqn' hphys).symm
    | inr hphys' => exact hwf.phys_unique x hx y hy (hphys.trans hphys'.symm)

/-- An insert of a row that is its own container. -/
private theorem Db.upsertNode_own_container (hfree : ∀ x ∈ db.nodes, ¬ n.Hits x)
    (hown : n.containerId = some (db.nodesSeq + 1)) :
    ∃ db' id, db.upsertNode n = .ok (db', id) := by
  have hfqn : db.nodes.find? (·.fqn == n.fqn) = none := by
    simpa using fun x hx h => hfree x hx (.inl h)
  have hphys : db.nodes.find? (·.phys == n.phys) = none := by
    simpa using fun x hx h => hfree x hx (.inr h)
  unfold Db.upsertNode
  rw [hfqn, hphys]
  refine ⟨_, _, Db.insertNode_ok.mpr ⟨(db.checkRow_eq_ok_iff _).mpr ⟨?_, ?_, ?_⟩, rfl, rfl⟩⟩
  · intro x hx h
    exact absurd (.inl h) (hfree x hx)
  · intro x hx h
    exact absurd (.inr h) (hfree x hx)
  · intro c hc
    exact .inl (Option.some.inj (hc.symm.trans hown))

private theorem Db.Upsertable.total (hwf : db.WF) (h : db.Upsertable n) :
    ∃ db' id, db.upsertNode n = .ok (db', id) := by
  by_cases hrow : ∀ c, n.containerId = some c → db.hasNode c = true
  · exact Db.upsertNode_total hwf (h.hits_eq hwf) hrow
  · simp only [not_forall] at hrow
    obtain ⟨c, hc, hmissing⟩ := hrow
    cases h.container c hc with
    | inl hfound => exact absurd hfound hmissing
    | inr hown => exact Db.upsertNode_own_container hown.1 (hown.2 ▸ hc)

/-- A container of the written row is a row, or the row itself if it is new. -/
private theorem upsertNode_container (hwf : db.WF) (h : db.upsertNode n = .ok (db', id)) :
    ∀ c, n.containerId = some c →
      db.hasNode c = true ∨ ((∀ x ∈ db.nodes, ¬ n.Hits x) ∧ c = db.nodesSeq + 1) := by
  -- A row that was found is a row, whether it is its own container or not.
  have hfound : ∀ m ∈ db.nodes, db.checkRow ⟨n, m.id⟩ = .ok () →
      ∀ c, n.containerId = some c → db.hasNode c = true := by
    intro m hm hcheck c hc
    cases ((db.checkRow_eq_ok_iff _).mp hcheck).2.2 c hc with
    | inl hself => exact (db.hasNode_iff c).mpr ⟨m, hm, hself.symm⟩
    | inr hrow => exact hrow
  intro c hc
  rcases Db.upsertNode_ok hwf h with ⟨m, hm, -, -, hcheck, -⟩ | ⟨-, m, hm, -, -, hcheck, -⟩ |
    ⟨hfqn, hphys, -, hcheck, -⟩
  · exact .inl (hfound m hm hcheck c hc)
  · exact .inl (hfound m hm hcheck c hc)
  · cases ((db.checkRow_eq_ok_iff _).mp hcheck).2.2 c hc with
    | inl hself =>
      refine .inr ⟨fun x hx hhit => ?_, hself⟩
      cases hhit with
      | inl h => exact hfqn x hx h
      | inr h => exact hphys x hx h
    | inr hrow => exact .inl hrow

/-- What a successful upsert has done. -/
private theorem upsertNode_upserted (hwf : db.WF) (h : db.upsertNode n = .ok (db', id)) :
    Upserted db n db' id := by
  obtain ⟨hrows, hid⟩ := upsertNode_rows hwf h
  have hwf' := Db.upsertNode_wf hwf h
  -- The row as written is there, so the uniqueness of names and places says which it is.
  have hwritten : ⟨n, id⟩ ∈ db'.nodes := (hrows _).mpr (.inl rfl)
  constructor
  case fqn_unique =>
    intro x hx y hy hfqn
    exact hwf'.node_ext hx hy (hwf'.fqn_unique x hx y hy hfqn)
  case phys_unique =>
    intro x hx y hy hphys
    exact hwf'.node_ext hx hy (hwf'.phys_unique x hx y hy hphys)
  case row =>
    intro x
    constructor
    · intro hx
      exact hwf'.node_ext hx.1 hwritten (hwf'.fqn_unique x hx.1 _ hwritten hx.2)
    · intro hx
      rw [hx]
      exact ⟨hwritten, rfl⟩
  -- A row under another id was there before.
  case others =>
    intro x hne
    rw [hrows]
    constructor
    · intro hx
      cases hx with
      | inl heq => exact absurd (congrArg Node.id heq) hne
      | inr hold => exact hold
    · exact .inr
  case kept =>
    intro x hx hfqn hphys
    refine (hrows x).mpr (.inr ⟨hx, fun hhit => ?_⟩)
    cases hhit with
    | inl h => exact hfqn h
    | inr h => exact hphys h

/-- An upsert succeeds, and does what it should, if and only if it conflicts with at most one
    row (and names a container that is there). -/
theorem upsertNode_correct_iff (hwf : db.WF) (n : NodeCols) :
    (∃ db' id, db.upsertNode n = .ok (db', id) ∧ Upserted db n db' id) ↔ db.Upsertable n := by
  constructor
  · intro h
    obtain ⟨db', id, hok, -⟩ := h
    obtain ⟨-, hid⟩ := upsertNode_rows hwf hok
    refine ⟨fun x hx y hy hfqn hphys => ?_, upsertNode_container hwf hok⟩
    have hx' := (hid x hx).mpr (.inl hfqn)
    have hy' := (hid y hy).mpr (.inr hphys)
    exact hx'.trans hy'.symm
  · intro h
    obtain ⟨db', id, hok⟩ := h.total hwf
    exact ⟨db', id, hok, upsertNode_upserted hwf hok⟩

end

/-! ## Two methods change places -/

/-- A method `run` of a class. -/
def runMethod (cls : String) (line : Int) : NodeCols :=
  ReconcileSymbol.toNode
    { fqn := "app." ++ cls ++ ".run", name := "run", kind := 6, nodeKind := "method",
      range := ⟨line, 4, line + 1, 0⟩, sel := ⟨line, 8, line, 11⟩, detail := none,
      signatureHash := "6", parent := none } appPy.uri appPy.language appPy.isExternal none

/-- The methods of the classes `A` and `B`, in this order. -/
def runDb : Db :=
  match Db.empty.upsertNode (runMethod "A" 1) with
  | .ok (db, _) => match db.upsertNode (runMethod "B" 4) with
    | .ok (db, _) => db
    | .error _ => .empty
  | .error _ => .empty

private theorem runDb_wf : runDb.WF := by
  obtain ⟨db, hA⟩ : ∃ db, Db.empty.upsertNode (runMethod "A" 1) = .ok (db, 1) := ⟨_, rfl⟩
  have hB : db.upsertNode (runMethod "B" 4) = .ok (runDb, 2) := by
    cases hA
    rfl
  exact Db.upsertNode_wf (Db.upsertNode_wf Db.empty_wf hA) hB

/-- A renamed class: the row of the method is found by its position. -/
theorem upsertNode_correct_renamed : ∃ db' id,
    runDb.upsertNode (runMethod "C" 1) = .ok (db', id) ∧ Upserted runDb (runMethod "C" 1) db' id :=
  (upsertNode_correct_iff runDb_wf (runMethod "C" 1)).mpr ⟨by decide, (fun _ h => nomatch h)⟩

/-- The classes have changed places: the method of `B` has the fqn of one row and the position of
    the other one. -/
theorem swapped_methods_conflict :
    runDb.WF ∧ runDb.upsertNode (runMethod "B" 1) = .error .uniquePhys :=
  ⟨runDb_wf, rfl⟩

end Semnav.Graph
