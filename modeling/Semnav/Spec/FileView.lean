import Semnav.Spec.ReconcilePost

/-!
# What a file's rows show

The columns of a valid row that come from the content of its file, with the container by name.
A reconcile that commits determines them whatever the graph held before: two graphs that were
reconciled with the same symbols show the same rows for the file, though under different ids.

## Key results

- `Collapses.pattern`: which symbols share a row depends on the symbols only
- `reconcile_sameView`: what a reconcile leaves depends on the symbols only
-/

namespace Semnav.Graph

open Semnav.ForStd

/-! ## Views -/

/-- The columns of a row that come from the content of its file. -/
structure RowView where
  fqn : String
  name : String
  kind : Int
  nodeKind : String
  range : Range
  sel : Range
  detail : Option String
  signatureHash : Option String
  /-- The fqn of the container. -/
  container : Option String
deriving DecidableEq

/-- The view of a row. -/
def Db.viewOf (db : Db) (n : Node) : RowView where
  fqn := n.fqn
  name := n.name
  kind := n.kind
  nodeKind := n.nodeKind
  range := n.range
  sel := n.sel
  detail := n.detail
  signatureHash := n.signatureHash
  container := n.containerId.bind fun id => (db.getNode id).map (·.fqn)

/-- Some valid row of the file has this view. -/
def Db.Shows (db : Db) (uri : String) (v : RowView) : Prop :=
  ∃ n ∈ db.nodes, n.uri = uri ∧ n.valid = true ∧ db.viewOf n = v

instance (db : Db) (uri : String) (v : RowView) : Decidable (db.Shows uri v) :=
  inferInstanceAs (Decidable (∃ n ∈ db.nodes, _ ∧ _ ∧ _))

/-- The valid rows of the file are the same in both graphs. -/
def SameView (uri : String) (db db' : Db) : Prop := ∀ v, db.Shows uri v ↔ db'.Shows uri v

/-- Having the same view is symmetric. -/
theorem SameView.symm {uri : String} {db db' : Db} (h : SameView uri db db') :
    SameView uri db' db := fun v => (h v).symm

/-- Having the same view is transitive. -/
theorem SameView.trans {uri : String} {a b c : Db} (hab : SameView uri a b)
    (hbc : SameView uri b c) : SameView uri a c := fun v => (hab v).trans (hbc v)

/-- The view depends on the rows only. -/
theorem SameView.of_nodes {uri : String} {db db' : Db} (h : db'.nodes = db.nodes) :
    SameView uri db db' := by
  intro v
  have hview : ∀ n, db'.viewOf n = db.viewOf n := fun n => by
    simp only [Db.viewOf, Db.getNode, h]
  simp only [Db.Shows, h, hview]

/-! ## The rows of a batch -/

section Pattern

variable {syms : List ReconcileSymbol} {ids₁ ids₂ : Nat → Option RowId}

/-- Which symbols share a row decides who wrote it last. -/
theorem LastWriter.congr {k i : Nat} (h : LastWriter ids₁ k i)
    (hsame : ∀ x < k, ∀ y < k, ids₁ x = ids₁ y ↔ ids₂ x = ids₂ y) : LastWriter ids₂ k i := by
  refine ⟨h.1, fun j hij hjk heq => ?_⟩
  exact h.2 j hij hjk ((hsame j hjk i h.1).mpr heq)

/-- Which symbols share a row is the same in every run. -/
private theorem Collapses.pattern (h₁ : Collapses syms ids₁ syms.length)
    (h₂ : Collapses syms ids₂ syms.length) {k : Nat} (hk : k ≤ syms.length) :
    ∀ i < k, ∀ j < k, ids₁ i = ids₁ j ↔ ids₂ i = ids₂ j := by
  induction k with
  | zero => exact fun i hi => absurd hi (Nat.not_lt_zero i)
  | succ k ih =>
    have ih := ih (by omega)
    have hlt : k < syms.length := by omega
    -- Symbol `k` joins the row of `j` when it collides with the symbol that holds it.
    have hlast : ∀ j < k, ids₁ k = ids₁ j ↔ ids₂ k = ids₂ j := by
      intro j hj
      obtain ⟨x, hx, hxj⟩ := exists_lastWriter ids₁ hj
      have hxj' : ids₂ x = ids₂ j := (ih x hx.1 j hj).mp hxj
      have hsk := List.getElem?_eq_getElem hlt
      have hsx := List.getElem?_eq_getElem (Nat.lt_trans hx.1 hlt)
      have hjoin₁ := h₁ k hlt _ hsk x _ hsx hx
      have hjoin₂ := h₂ k hlt _ hsk x _ hsx (hx.congr ih)
      rw [← hxj, ← hxj']
      exact hjoin₁.trans hjoin₂.symm
    intro i hi j hj
    rcases Nat.lt_succ_iff_lt_or_eq.mp hi with hi | rfl
    · rcases Nat.lt_succ_iff_lt_or_eq.mp hj with hj | rfl
      · exact ih i hi j hj
      · rw [eq_comm, hlast i hi, eq_comm]
    · rcases Nat.lt_succ_iff_lt_or_eq.mp hj with hj | rfl
      · exact hlast j hj
      · simp

end Pattern

/-- The view of the row that the symbol `s` was the last to write: its columns, and for the
    container the symbol that holds the row of its parent. -/
structure LeavesView (syms : List ReconcileSymbol) (ids : Nat → Option RowId)
    (s : ReconcileSymbol) (v : RowView) : Prop where
  fqn : v.fqn = s.fqn
  name : v.name = s.name
  kind : v.kind = s.kind
  nodeKind : v.nodeKind = s.nodeKind
  range : v.range = s.range
  sel : v.sel = s.sel
  detail : v.detail = s.detail
  signatureHash : v.signatureHash = some s.signatureHash
  container : match s.parent with
    | none => v.container = none
    | some p => ∃ i t, syms[i]? = some t ∧ LastWriter ids syms.length i ∧ ids i = ids p ∧
        v.container = some t.fqn

/-- A symbol leaves one view. -/
private theorem LeavesView.unique {syms : List ReconcileSymbol} {ids : Nat → Option RowId}
    {s : ReconcileSymbol} {v v' : RowView} (h : LeavesView syms ids s v)
    (h' : LeavesView syms ids s v') : v = v' := by
  -- The container is the parent's row as last written, which the id determines.
  have hcontainer : v.container = v'.container := by
    have hc := h.container
    have hc' := h'.container
    cases hp : s.parent with
    | none =>
      rw [hp] at hc hc'
      exact hc.trans hc'.symm
    | some p =>
      rw [hp] at hc hc'
      obtain ⟨i, t, ht, hlast, hid, hv⟩ := hc
      obtain ⟨i', t', ht', hlast', hid', hv'⟩ := hc'
      obtain rfl := hlast.eq hlast' (hid.trans hid'.symm)
      cases ht.symm.trans ht'
      exact hv.trans hv'.symm
  cases v
  cases v'
  simp only [RowView.mk.injEq]
  exact ⟨h.fqn.trans h'.fqn.symm, h.name.trans h'.name.symm, h.kind.trans h'.kind.symm,
    h.nodeKind.trans h'.nodeKind.symm, h.range.trans h'.range.symm, h.sel.trans h'.sel.symm,
    h.detail.trans h'.detail.symm, h.signatureHash.trans h'.signatureHash.symm, hcontainer⟩

/-- Which symbols share a row decides the view that a symbol leaves. -/
theorem LeavesView.congr {syms : List ReconcileSymbol} {ids₁ ids₂ : Nat → Option RowId}
    (hsame : ∀ x < syms.length, ∀ y < syms.length, ids₁ x = ids₁ y ↔ ids₂ x = ids₂ y) {i : Nat}
    {s : ReconcileSymbol} {v : RowView} (h : LeavesView syms ids₁ s v) (hi : i < syms.length)
    (hparent : ∀ p, s.parent = some p → p < i) : LeavesView syms ids₂ s v := by
  refine { h with container := ?_ }
  have hc := h.container
  cases hp : s.parent with
  | none =>
    rw [hp] at hc
    exact hc
  | some p =>
    rw [hp] at hc
    obtain ⟨q, t, ht, hlast, hid, hv⟩ := hc
    have hplt : p < syms.length := Nat.lt_trans (hparent p hp) hi
    exact ⟨q, t, ht, hlast.congr hsame, (hsame q hlast.1 p hplt).mp hid, hv⟩

section Reconciled

variable {db : Db} {args : FileArgs} {olds : List Node} {syms : List ReconcileSymbol}
  {a : Assignment} {ids : Nat → Option RowId} {db' : Db} {o : ReconcileOutcome}

/-- The row that a symbol was the last to write has its view. -/
private theorem Reconciled.leavesView (hr : Reconciled db args olds syms a ids db' o) {i : Nat}
    {s : ReconcileSymbol} (hs : syms[i]? = some s) {x : Node}
    (hcols : x.toNodeCols = writtenCols args olds a ids i s) :
    LeavesView syms ids s (db'.viewOf x) := by
  have hcarries := writtenCols_carries args olds a ids i s x.id
  rw [show (⟨writtenCols args olds a ids i s, x.id⟩ : Node) = x by rw [← hcols]] at hcarries
  refine ⟨hcarries.fqn, hcarries.name, hcarries.kind, hcarries.nodeKind, hcarries.range,
    hcarries.sel, hcarries.detail, hcarries.signatureHash, ?_⟩
  cases hp : s.parent with
  | none => simp [Db.viewOf, hcarries.container, hp]
  | some p =>
    have hi := (List.getElem?_eq_some_iff.mp hs).1
    have hplt : p < syms.length := Nat.lt_trans (hr.parent_lt i s p hs hp) hi
    obtain ⟨r, hpid⟩ := (hr.ids_iff p).mpr hplt
    obtain ⟨q, hlast, hq⟩ := exists_lastWriter ids hplt
    have ht := List.getElem?_eq_getElem hlast.1
    refine ⟨q, _, ht, hlast, hq, ?_⟩
    -- The row of the parent, as its last writer left it.
    have hmem : (⟨writtenCols args olds a ids q (syms.get ⟨q, hlast.1⟩), r⟩ : Node) ∈ db'.nodes :=
      (hr.nodes _).mpr (.inl ⟨q, _, ht, hlast, hq.trans hpid, rfl⟩)
    have hget := (hr.stored.getNode_eq_some_iff r _).mpr ⟨hmem, rfl⟩
    simp [Db.viewOf, hcarries.container, hp, hpid, hget]

/-- The file shows the symbols that hold a row. -/
private theorem Reconciled.shows_iff (hm : Matched (db.clearCalleesCache args.uri) args olds syms a)
    (hr : Reconciled db args olds syms a ids db' o) (v : RowView) :
    db'.Shows args.uri v ↔ ∃ i s, syms[i]? = some s ∧ LastWriter ids syms.length i ∧
      LeavesView syms ids s v := by
  constructor
  · intro h
    obtain ⟨x, hx, hu, hvalid, rfl⟩ := h
    rcases (hr.nodes x).mp hx with ⟨i, s, hs, hlast, -, hcols⟩ | ⟨old, -, -, -, rfl⟩ |
      ⟨y, -, hyu, -, rfl⟩
    · -- Of the three kinds of rows after the reconcile only the one a symbol wrote is a valid row
      -- of the file.
      exact ⟨i, s, hs, hlast, hr.leavesView hs hcols⟩
    · exact nomatch hvalid
    · exact absurd hu hyu
  · intro h
    obtain ⟨i, s, hs, hlast, hv⟩ := h
    -- Conversely the last writer of an id leaves its columns standing under it.
    obtain ⟨r, hid⟩ := (hr.ids_iff i).mpr hlast.1
    have hmem : (⟨writtenCols args olds a ids i s, r⟩ : Node) ∈ db'.nodes :=
      (hr.nodes _).mpr (.inl ⟨i, s, hs, hlast, hid, rfl⟩)
    refine ⟨_, hmem, congrArg Prod.fst (hm.writtenCols_phys ids i s), ?_, ?_⟩
    · exact (writtenCols_carries args olds a ids i s r).valid
    · exact (hr.leavesView hs rfl).unique hv

end Reconciled

/-- Two reconciles with the same symbols leave the same view, whatever the graphs were. -/
theorem reconcile_sameView (H : Hasher) {d₁ d₂ : Db} (h₁ : d₁.Stored) (h₂ : d₂.Stored)
    {args : FileArgs} {syms : List ReconcileSymbol} (hnn : ∀ s ∈ syms, 0 ≤ s.range.startLine)
    {d₁' d₂' : Db} {o₁ o₂ : ReconcileOutcome}
    (hok₁ : reconcileFileSymbols H d₁ args syms = .ok (d₁', o₁))
    (hok₂ : reconcileFileSymbols H d₂ args syms = .ok (d₂', o₂)) :
    SameView args.uri d₁' d₂' := by
  obtain ⟨ids₁, hr₁⟩ := reconcile_reconciled H h₁ hnn hok₁
  obtain ⟨ids₂, hr₂⟩ := reconcile_reconciled H h₂ hnn hok₂
  -- Which symbols share an id is read off their keys alone, so the two graphs agree on it.
  have hsame := hr₁.collapse.pattern hr₂.collapse (Nat.le_refl _)
  have hsame' := hr₂.collapse.pattern hr₁.collapse (Nat.le_refl _)
  intro v
  rw [hr₁.shows_iff (matched_of_stored H h₁ args hnn), hr₂.shows_iff (matched_of_stored H h₂ args hnn)]
  constructor
  · intro h
    obtain ⟨i, s, hs, hlast, hv⟩ := h
    exact ⟨i, s, hs, hlast.congr hsame, hv.congr hsame hlast.1 fun p hp => hr₁.parent_lt i s p hs hp⟩
  · intro h
    obtain ⟨i, s, hs, hlast, hv⟩ := h
    exact ⟨i, s, hs, hlast.congr hsame', hv.congr hsame' hlast.1 fun p hp => hr₂.parent_lt i s p hs hp⟩

end Semnav.Graph
