import Mathlib.Data.List.Find
import Semnav.Spec.DbInvariant
import Semnav.Graph.Reconcile

/-!
# The `contains` edges (Pass 5)

Pass 5 upserts one edge from the row of each symbol's parent to the symbol's own row.  It
touches nothing but `contains` edges, never fails once every symbol has its row, and
leaves an already valid edge as it is.

## Key results

- `pass5_linked`: what a run of Pass 5 has done
- `pass5_total`: it gets through
- `pass5_eq_self`: over edges that are there and valid it does nothing
-/

namespace Semnav.Graph

/-! ## One edge -/

/-- The first edge with the key of `e` is there and valid. -/
def Db.HasEdge (db : Db) (e : Edge) : Prop :=
  ∃ r, db.edges.find? (·.key == e.key) = some r ∧ r.valid = true

theorem key_refresh {r r' : EdgeRow} {e : Edge} (hkey : r.key = e.key) (hid : r' = r) :
    ({ r' with valid := e.valid, site := e.site } : EdgeRow).key = r'.key := by
  subst hid
  simp only [Edge.key, Prod.mk.injEq] at hkey ⊢
  exact ⟨trivial, trivial, trivial, hkey.2.2.2.symm⟩

/-- Refreshing one row keeps all keys, so lookups find the same rows. -/
private theorem find?_refresh {db : Db} (hwf : db.WF) {r : EdgeRow} {e : Edge} (hr : r ∈ db.edges)
    (hkey : r.key = e.key) (key : RowId × RowId × EdgeType × Option (String × Int × Int)) :
    (db.edges.map fun r' =>
      if r'.id = r.id then { r' with valid := e.valid, site := e.site } else r').find?
        (·.key == key) =
      (db.edges.find? (·.key == key)).map fun r' =>
        if r'.id = r.id then { r' with valid := e.valid, site := e.site } else r' := by
  rw [List.find?_map]
  congr 1
  refine List.find?_congr fun r' hr' => ?_
  simp only [Function.comp]
  split
  · rename_i hid
    rw [key_refresh hkey (List.inj_on_of_nodup_map hwf.edge_ids_nodup hr' hr hid)]
  · rfl

/-- An edge upsert leaves the edge there, as valid as it was asked for. -/
private theorem upsertEdge_hasEdge {db db' : Db} (hwf : db.WF) {e : Edge} {id : RowId}
    (h : db.upsertEdge e = .ok (db', id)) (hvalid : e.valid = true) : db'.HasEdge e := by
  rcases Db.upsertEdge_ok h with ⟨r, hr, hfind, hkey, -, rfl⟩ | ⟨hnone, -, -, -, rfl⟩
  · refine ⟨{ r with valid := e.valid, site := e.site }, ?_, hvalid⟩
    rw [find?_refresh hwf hr hkey, hfind, Option.map_some, if_pos rfl]
  · refine ⟨⟨e, db.edgesSeq + 1⟩, ?_, hvalid⟩
    have hfind : db.edges.find? (·.key == e.key) = none := by simpa using hnone
    simp [List.find?_append, hfind]

/-- An upsert of a valid edge takes no other valid edge away. -/
private theorem Db.HasEdge.upsertEdge {db db' : Db} (hwf : db.WF) {e f : Edge} {id : RowId}
    (hf : db.HasEdge f) (h : db.upsertEdge e = .ok (db', id)) (hvalid : e.valid = true) :
    db'.HasEdge f := by
  obtain ⟨r', hfind', hr'⟩ := hf
  rcases Db.upsertEdge_ok h with ⟨r, hr, -, hkey, -, rfl⟩ | ⟨-, -, -, -, rfl⟩
  · refine ⟨_, by rw [find?_refresh hwf hr hkey, hfind', Option.map_some], ?_⟩
    split
    · exact hvalid
    · exact hr'
  · exact ⟨r', by simp [List.find?_append, hfind'], hr'⟩

/-- Upserting a valid site-less edge that is there and valid changes nothing. -/
private theorem upsertEdge_eq_self {db : Db} (hwf : db.WF) {e : Edge} (hvalid : e.valid = true)
    (hsite : e.site = none) (h : db.HasEdge e) : ∃ id, db.upsertEdge e = .ok (db, id) := by
  obtain ⟨r, hfind, hr⟩ := h
  have hmem := List.mem_of_find?_eq_some hfind
  have hkey : r.key = e.key := by simpa using List.find?_some hfind
  -- An edge without a site has a key without one, so the row found has none either.
  have hrsite : r.site = none := by
    have := congrArg (fun k : RowId × RowId × EdgeType × Option (String × Int × Int) => k.2.2.2) hkey
    simpa [Edge.key, hsite] using this
  have hsame : (db.edges.map fun r' =>
      if r'.id = r.id then { r' with valid := e.valid, site := e.site } else r') = db.edges := by
    conv_rhs => rw [← List.map_id db.edges]
    -- The upsert writes onto the row found what it already holds; the other rows stay.
    refine List.map_congr_left fun r' hr' => ?_
    split
    · rename_i hid
      obtain rfl := List.inj_on_of_nodup_map hwf.edge_ids_nodup hr' hmem hid
      rw [hvalid, hsite, ← hr, ← hrsite, id]
    · rfl
  refine ⟨r.id, ?_⟩
  simp only [Db.upsertEdge, hfind, hsame]

/-! ## The loop -/

/-- Some symbol among the first `k` has its row at `dst` and its parent's at `src`. -/
def LinkPair (ids : Nat → Option RowId) (syms : List ReconcileSymbol) (k : Nat)
    (src dst : RowId) : Prop :=
  ∃ i < k, ∃ s p, syms[i]? = some s ∧ s.parent = some p ∧ ids p = some src ∧ ids i = some dst

/-- The invariant of the Pass 5 loop after `k` symbols, from the tables `db₄`. -/
structure Linked (ids : Nat → Option RowId) (syms : List ReconcileSymbol) (db₄ : Db) (k : Nat)
    (db : Db) : Prop where
  wf : db.WF
  nodes : db.nodes = db₄.nodes
  nodesSeq : db.nodesSeq = db₄.nodesSeq
  calleesCache : db.calleesCache = db₄.calleesCache
  materialized : db.materialized = db₄.materialized
  indexMeta : db.indexMeta = db₄.indexMeta
  /-- Edges of other types are untouched. -/
  other : ∀ e : EdgeRow, e.edgeType ≠ .contains → (e ∈ db.edges ↔ e ∈ db₄.edges)
  /-- Every linked pair has its edge. -/
  linked : ∀ src dst, LinkPair ids syms k src dst → db.HasEdge (containsEdge src dst)
  /-- And no other pair has gained or lost one. -/
  contains_iff : ∀ src dst,
    (∃ e ∈ db.edges, e.edgeType = .contains ∧ e.srcId = src ∧ e.dstId = dst ∧ e.valid = true) ↔
      (∃ e ∈ db₄.edges, e.edgeType = .contains ∧ e.srcId = src ∧ e.dstId = dst ∧
        e.valid = true) ∨ LinkPair ids syms k src dst

section Loop

variable {ids : Nat → Option RowId} {syms : List ReconcileSymbol} {db₄ : Db}

theorem LinkPair.mono {k : Nat} {src dst : RowId} (h : LinkPair ids syms k src dst) :
    LinkPair ids syms (k + 1) src dst := by
  obtain ⟨i, hi, rest⟩ := h
  exact ⟨i, Nat.lt_succ_of_lt hi, rest⟩

theorem linked_init (hwf : db₄.WF) : Linked ids syms db₄ 0 db₄ where
  wf := hwf
  nodes := rfl
  nodesSeq := rfl
  calleesCache := rfl
  materialized := rfl
  indexMeta := rfl
  other := fun _ _ => Iff.rfl
  linked := fun _ _ ⟨i, hi, _⟩ => absurd hi (Nat.not_lt_zero i)
  contains_iff := fun _ _ => ⟨.inl, fun h => h.elim id fun ⟨i, hi, _⟩ =>
    absurd hi (Nat.not_lt_zero i)⟩

/-- What the upsert of one `contains` edge does to the valid pairs. -/
theorem upsertEdge_contains {db db' : Db} (hwf : db.WF) {src dst id : RowId}
    (h : db.upsertEdge (containsEdge src dst) = .ok (db', id)) (x y : RowId) :
    (∃ e ∈ db'.edges, e.edgeType = .contains ∧ e.srcId = x ∧ e.dstId = y ∧ e.valid = true) ↔
      (∃ e ∈ db.edges, e.edgeType = .contains ∧ e.srcId = x ∧ e.dstId = y ∧ e.valid = true) ∨
        (x = src ∧ y = dst) := by
  -- The edge is stored and activated again, or it is added.
  rcases Db.upsertEdge_ok h with ⟨r, hr, -, hkey, -, rfl⟩ | ⟨-, -, -, -, rfl⟩
  · simp only [Edge.key, containsEdge, Prod.mk.injEq] at hkey
    obtain ⟨hsrc, hdst, htype, -⟩ := hkey
    constructor
    · -- The edge after is the one activated, or another one that was as it is.
      rintro ⟨e', he', ht, hs, hd, hv⟩
      obtain ⟨e, he, rfl⟩ := List.mem_map.mp he'
      split at ht <;> rename_i hid
      · rw [if_pos hid] at hs hd
        obtain rfl := List.inj_on_of_nodup_map hwf.edge_ids_nodup he hr hid
        exact .inr ⟨hs.symm.trans hsrc, hd.symm.trans hdst⟩
      · rw [if_neg hid] at hs hd hv
        exact .inl ⟨e, he, ht, hs, hd, hv⟩
    · rintro (⟨e, he, ht, hs, hd, hv⟩ | ⟨rfl, rfl⟩)
      · refine ⟨_, List.mem_map.mpr ⟨e, he, rfl⟩, ?_⟩
        split
        · exact ⟨ht, hs, hd, rfl⟩
        · exact ⟨ht, hs, hd, hv⟩
      · refine ⟨_, List.mem_map.mpr ⟨r, hr, rfl⟩, ?_⟩
        rw [if_pos rfl]
        exact ⟨htype, hsrc, hdst, rfl⟩
  · -- A new edge is the only one that is not in the graph before.
    simp only [List.mem_append, List.mem_singleton]
    constructor
    · rintro ⟨e, he | rfl, ht, hs, hd, hv⟩
      · exact .inl ⟨e, he, ht, hs, hd, hv⟩
      · exact .inr ⟨hs.symm, hd.symm⟩
    · rintro (⟨e, he, ht, hs, hd, hv⟩ | ⟨rfl, rfl⟩)
      · exact ⟨e, .inl he, ht, hs, hd, hv⟩
      · exact ⟨_, .inr rfl, rfl, rfl, rfl, rfl⟩

/-- Edges of other types are not touched by the upsert of a `contains` edge. -/
private theorem upsertEdge_other {db db' : Db} (hwf : db.WF) {src dst id : RowId}
    (h : db.upsertEdge (containsEdge src dst) = .ok (db', id)) (e : EdgeRow)
    (ht : e.edgeType ≠ .contains) : e ∈ db'.edges ↔ e ∈ db.edges := by
  -- The edge that changes is a `contains` edge, so `e` is another one.
  rcases Db.upsertEdge_ok h with ⟨r, hr, -, hkey, -, rfl⟩ | ⟨-, -, -, -, rfl⟩
  · have htype : r.edgeType = .contains := by
      simp only [Edge.key, containsEdge, Prod.mk.injEq] at hkey
      exact hkey.2.2.1
    simp only [List.mem_map]
    constructor
    · rintro ⟨e', he', rfl⟩
      split at ht <;> rename_i hid
      · obtain rfl := List.inj_on_of_nodup_map hwf.edge_ids_nodup he' hr hid
        exact absurd htype ht
      · rw [if_neg hid]
        exact he'
    · intro he
      refine ⟨e, he, if_neg fun hid => ?_⟩
      obtain rfl := List.inj_on_of_nodup_map hwf.edge_ids_nodup he hr hid
      exact ht htype
  · simp only [List.mem_append, List.mem_singleton]
    refine ⟨fun he => he.resolve_right ?_, .inl⟩
    rintro rfl
    exact ht rfl

/-- What `linkParent` does: nothing for a top-level symbol, else one upsert. -/
private theorem linkParent_ok {db db' : Db} {s : ReconcileSymbol} {i : Nat}
    (h : linkParent ids db s i = .ok db') :
    (s.parent = none ∧ db' = db) ∨ ∃ p src dst id, s.parent = some p ∧ ids p = some src ∧
      ids i = some dst ∧ db.upsertEdge (containsEdge src dst) = .ok (db', id) := by
  unfold linkParent at h
  split at h
  · rename_i hp
    exact .inl ⟨hp, (Except.ok.inj h).symm⟩
  · rename_i p hp
    split at h
    · rename_i src dst hsrc hdst
      obtain ⟨⟨db₁, id⟩, hup, h⟩ := Except.bind_eq_ok.mp h
      obtain rfl := Except.ok.inj h
      exact .inr ⟨p, src, dst, id, hp, hsrc, hdst, hup⟩
    · exact nomatch h

/-- One round of Pass 5 keeps the invariant. -/
private theorem Linked.step {k : Nat} {db db' : Db} {s : ReconcileSymbol}
    (hl : Linked ids syms db₄ k db) (hs : syms[k]? = some s)
    (h : linkParent ids db s k = .ok db') : Linked ids syms db₄ (k + 1) db' := by
  -- The pairs up to `k + 1` are those up to `k` and that of the symbol `k`.
  have hpair : ∀ x y, LinkPair ids syms (k + 1) x y ↔ LinkPair ids syms k x y ∨
      ∃ p, s.parent = some p ∧ ids p = some x ∧ ids k = some y := by
    intro x y
    constructor
    · rintro ⟨i, hi, t, p, ht, hp, hx, hy⟩
      rcases Nat.lt_succ_iff_lt_or_eq.mp hi with hlt | rfl
      · exact .inl ⟨i, hlt, t, p, ht, hp, hx, hy⟩
      · obtain rfl := Option.some.inj (hs.symm.trans ht)
        exact .inr ⟨p, hp, hx, hy⟩
    · rintro (hpair | ⟨p, hp, hx, hy⟩)
      · exact hpair.mono
      · exact ⟨k, Nat.lt_succ_self k, s, p, hs, hp, hx, hy⟩
  -- The symbol has no parent and nothing changes, or its edge is upserted.
  rcases linkParent_ok h with ⟨hp, rfl⟩ | ⟨p, src, dst, id, hp, hsrc, hdst, hup⟩
  · have hsame : ∀ x y, LinkPair ids syms (k + 1) x y ↔ LinkPair ids syms k x y := by
      intro x y
      rw [hpair, hp]
      simp
    refine ⟨hl.wf, hl.nodes, hl.nodesSeq, hl.calleesCache, hl.materialized, hl.indexMeta,
      hl.other, fun x y hxy => hl.linked x y ((hsame x y).mp hxy), fun x y => ?_⟩
    rw [hsame]
    exact hl.contains_iff x y
  · -- The pair that is new is the one of the edge.
    have hnew : ∀ x y, (∃ q, s.parent = some q ∧ ids q = some x ∧ ids k = some y) ↔
        x = src ∧ y = dst := by
      intro x y
      simp only [hp, Option.some.injEq, exists_eq_left', hsrc, hdst, eq_comm]
    obtain ⟨hnodes, hseq, hcache, hmat, hmeta⟩ := Db.upsertEdge_frame hup
    refine ⟨Db.upsertEdge_wf hl.wf hup, hnodes.trans hl.nodes, hseq.trans hl.nodesSeq,
      hcache.trans hl.calleesCache, hmat.trans hl.materialized, hmeta.trans hl.indexMeta,
      fun e ht => (upsertEdge_other hl.wf hup e ht).trans (hl.other e ht), fun x y hxy => ?_,
      fun x y => ?_⟩
    · rcases (hpair x y).mp hxy with hold | hxy
      · exact (hl.linked x y hold).upsertEdge hl.wf hup rfl
      · obtain ⟨rfl, rfl⟩ := (hnew x y).mp hxy
        exact upsertEdge_hasEdge hl.wf hup rfl
    · rw [upsertEdge_contains hl.wf hup, hl.contains_iff, hpair, hnew, or_assoc]

/-- What Pass 5 has done when it gets through. -/
theorem pass5_linked (hwf : db₄.WF) {db : Db} (h : pass5 ids syms db₄ = .ok db) :
    Linked ids syms db₄ syms.length db :=
  List.foldlM_zipIdx_induction (fun k db => Linked ids syms db₄ k db) (linked_init hwf)
    (fun _ _ _ _ hs hl hok => hl.step hs hok) h

/-- With a row for every symbol, Pass 5 gets through. -/
theorem pass5_total (hwf : db₄.WF) (hids : ∀ i < syms.length, ∃ id, ids i = some id)
    (hrow : ∀ i id, ids i = some id → db₄.hasNode id = true)
    (hparent : ∀ (i : Nat) (s : ReconcileSymbol) (p : Nat), syms[i]? = some s →
      s.parent = some p → p < i) : ∃ db, pass5 ids syms db₄ = .ok db := by
  refine (List.foldlM_zipIdx_ok_iff (fun k db => Linked ids syms db₄ k db) (fun _ => True)
    (linked_init hwf) (fun _ _ _ _ hs hl hok => hl.step hs hok)
    fun k s db hs hl => iff_of_true ?_ trivial).mpr fun _ _ => trivial
  -- Containment edges leave the rows alone, so both ends are rows of the state they began with.
  have hk : k < syms.length := (List.getElem?_eq_some_iff.mp hs).1
  have hhas : ∀ id, db.hasNode id = db₄.hasNode id := fun id => by
    simp only [Db.hasNode, hl.nodes]
  simp only [linkParent]
  cases hp : s.parent with
  | none => exact ⟨db, rfl⟩
  | some p =>
    obtain ⟨dst, hdst⟩ := hids k hk
    obtain ⟨src, hsrc⟩ := hids p (Nat.lt_trans (hparent k s p hs hp) hk)
    obtain ⟨db', id, hup⟩ := db.upsertEdge_total (containsEdge src dst)
      (by rw [hhas]; exact hrow p src hsrc) (by rw [hhas]; exact hrow k dst hdst)
    simp only [hsrc, hdst, hup]
    exact ⟨db', rfl⟩

/-- Where every linked pair has its edge already, Pass 5 does nothing. -/
theorem pass5_eq_self (hwf : db₄.WF) {db : Db} (h : pass5 ids syms db₄ = .ok db)
    (hedge : ∀ src dst, LinkPair ids syms syms.length src dst →
      db₄.HasEdge (containsEdge src dst)) : db = db₄ := by
  refine List.foldlM_zipIdx_induction (fun _ db => db = db₄) rfl (fun k s db db' hs hdb hok => ?_) h
  subst hdb
  rcases linkParent_ok hok with ⟨-, heq⟩ | ⟨p, src, dst, id, hp, hsrc, hdst, hup⟩
  · exact heq
  · obtain ⟨id', hsame⟩ := upsertEdge_eq_self hwf (e := containsEdge src dst) rfl rfl
      (hedge src dst ⟨k, (List.getElem?_eq_some_iff.mp hs).1, s, p, hs, hp, hsrc, hdst⟩)
    exact (congrArg Prod.fst (Except.ok.inj (hsame.symm.trans hup))).symm

end Loop

end Semnav.Graph
