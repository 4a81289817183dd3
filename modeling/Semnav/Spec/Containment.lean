import Semnav.Spec.ContainedIndex
import Semnav.Spec.ReconcilePost
import Semnav.Spec.Reindex

/-!
# Containers over a run

A reconcile writes the column of every row that it touches and upserts the edges of its symbols,
but takes old edges away only with a deleted row or with a row whose fqn or signature hash
changes.  So it keeps column and edges in step when the rows whose edges it keeps stay where they
are, and with it does every run of index passes and reconciles.

An index pass never takes an edge away.  A method that moves from one class to another between
two passes ends up with two of them.

## Key results

- `reconcile_contained`: one reconcile
- `containers_agree`: every run
- `moved_method_two_edges`: a method whose class was renamed between two index passes
-/

namespace Semnav.Graph

open Semnav.ForStd

/-! ## What is asked of a reconcile -/

/-- No symbol of another fqn stands where a symbol of this fqn stands under the same name. -/
def OneFqn (syms : List ReconcileSymbol) (fqn : String) : Prop :=
  ∀ s ∈ syms, ∀ t ∈ syms, s.fqn = fqn → t.key = s.key → t.fqn = fqn

instance (syms : List ReconcileSymbol) (fqn : String) : Decidable (OneFqn syms fqn) :=
  inferInstanceAs (Decidable (∀ s ∈ syms, ∀ t ∈ syms, _))

/-- The symbol has a parent, with this fqn. -/
def ParentFqn (syms : List ReconcileSymbol) (s : ReconcileSymbol) (fqn : String) : Prop :=
  ∃ p ∈ s.parent, ∃ u ∈ syms[p]?, u.fqn = fqn

instance (syms : List ReconcileSymbol) (s : ReconcileSymbol) (fqn : String) :
    Decidable (ParentFqn syms s fqn) :=
  inferInstanceAs (Decidable (∃ p ∈ s.parent, ∃ u ∈ syms[p]?, u.fqn = fqn))

/-- Two symbols have the same parent, or parents of one fqn. -/
def SameParent (syms : List ReconcileSymbol) (s t : ReconcileSymbol) : Prop :=
  s.parent = t.parent ∨
    ∃ p ∈ s.parent, ∃ u ∈ syms[p]?, ParentFqn syms t u.fqn ∧ OneFqn syms u.fqn

instance (syms : List ReconcileSymbol) (s t : ReconcileSymbol) : Decidable (SameParent syms s t) :=
  inferInstanceAs (Decidable (_ ∨ ∃ p ∈ s.parent, ∃ u ∈ syms[p]?, _))

/-- The row has the fqn of a symbol, and the signature hash of every such symbol. -/
def Unchanged (syms : List ReconcileSymbol) (x : Node) : Prop :=
  (∃ s ∈ syms, s.fqn = x.fqn) ∧ ∀ s ∈ syms, s.fqn = x.fqn → x.signatureHash = some s.signatureHash

instance (syms : List ReconcileSymbol) (x : Node) : Decidable (Unchanged syms x) :=
  inferInstanceAs (Decidable ((∃ s ∈ syms, _) ∧ ∀ s ∈ syms, _))

/-- A reconcile of the file leaves rows whose edges it keeps in their containers. -/
structure KeepsContainers (db : Db) (uri : String) (syms : List ReconcileSymbol) : Prop where
  /-- Symbols that share a row share their container. -/
  twins : ∀ s ∈ syms, ∀ t ∈ syms, s.fqn = t.fqn ∨ s.key = t.key → SameParent syms s t
  /-- A row that keeps its fqn and hash, or comes from another file, has the container that its
      symbol has. -/
  container : ∀ p ∈ db.nodes, ∀ c ∈ db.nodes, db.Contains p.id c.id → ∀ s ∈ syms,
    s.fqn = c.fqn → (c.uri = uri → c.signatureHash = some s.signatureHash) →
    ParentFqn syms s p.fqn ∧ OneFqn syms p.fqn
  /-- A row that contains a row of another file does not change. -/
  outside : ∀ p ∈ db.nodes, p.uri = uri → ∀ c ∈ db.nodes, c.valid = true → c.uri ≠ uri →
    c.containerId = some p.id → (∀ s ∈ syms, s.fqn ≠ c.fqn) → Unchanged syms p

instance (db : Db) (uri : String) (syms : List ReconcileSymbol) :
    Decidable (KeepsContainers db uri syms) :=
  have : Decidable (∀ s ∈ syms, ∀ t ∈ syms, s.fqn = t.fqn ∨ s.key = t.key →
      SameParent syms s t) := inferInstance
  have : Decidable (∀ p ∈ db.nodes, ∀ c ∈ db.nodes, db.Contains p.id c.id → ∀ s ∈ syms,
      s.fqn = c.fqn → (c.uri = uri → c.signatureHash = some s.signatureHash) →
      ParentFqn syms s p.fqn ∧ OneFqn syms p.fqn) := inferInstance
  have (p : Node) : Decidable (p.uri = uri → ∀ c ∈ db.nodes, c.valid = true → c.uri ≠ uri →
      c.containerId = some p.id → (∀ s ∈ syms, s.fqn ≠ c.fqn) → Unchanged syms p) :=
    instDecidableForall
  have : Decidable (∀ p ∈ db.nodes, p.uri = uri → ∀ c ∈ db.nodes, c.valid = true → c.uri ≠ uri →
      c.containerId = some p.id → (∀ s ∈ syms, s.fqn ≠ c.fqn) → Unchanged syms p) :=
    List.decidableBAll _ db.nodes
  decidable_of_iff (_ ∧ _ ∧ _)
    ⟨fun h => ⟨h.1, h.2.1, h.2.2⟩, fun h => ⟨h.twins, h.container, h.outside⟩⟩

/-! ## Which symbols share a row -/

section Rows

variable {syms : List ReconcileSymbol} {ids : Nat → Option RowId}

/-- Symbols of one fqn are written to one row. -/
private theorem Collapses.eq_of_oneFqn (h : Collapses syms ids syms.length) {fqn : String}
    (hone : OneFqn syms fqn) {i j : Nat} {s t : ReconcileSymbol} (hs : syms[i]? = some s)
    (ht : syms[j]? = some t) (hsf : s.fqn = fqn) (htf : t.fqn = fqn) : ids i = ids j := by
  -- Whatever is written to the row of `i` after `i` has the fqn too.
  have hwriters : ∀ (i : Nat) (s : ReconcileSymbol), syms[i]? = some s → s.fqn = fqn →
      ∀ k, i ≤ k → ∀ u, syms[k]? = some u → ids k = ids i → u.fqn = fqn := by
    intro i s hs hsf k
    induction k using Nat.strong_induction_on with
    | _ k ih =>
      intro hik u hu hid
      by_cases hlt : i < k
      · obtain ⟨l, hlast, hl⟩ := exists_lastWriter ids hlt
        have hk := (List.getElem?_eq_some_iff.mp hu).1
        have hll := List.getElem?_eq_getElem (Nat.lt_trans hlast.1 hk)
        have hil : i ≤ l := by
          by_contra hli
          exact hlast.2 i (Nat.lt_of_not_le hli) hlt hl.symm
        have hlf := ih l hlast.1 hil _ hll hl
        rcases (h k hk u hu l _ hll hlast).mp (hid.trans hl.symm) with heq | hkey
        · exact heq.symm.trans hlf
        · exact hone _ (List.mem_of_getElem? hll) u (List.mem_of_getElem? hu) hlf hkey.symm
      · obtain rfl : i = k := by omega
        obtain rfl := Option.some.inj (hs.symm.trans hu)
        exact hsf
  have hlt : ∀ (i j : Nat) (s t : ReconcileSymbol), syms[i]? = some s → syms[j]? = some t →
      s.fqn = fqn → t.fqn = fqn → i < j → ids i = ids j := by
    intro i j s t hs ht hsf htf hij
    obtain ⟨l, hlast, hl⟩ := exists_lastWriter ids hij
    have hj := (List.getElem?_eq_some_iff.mp ht).1
    have hll := List.getElem?_eq_getElem (Nat.lt_trans hlast.1 hj)
    have hil : i ≤ l := by
      by_contra hli
      exact hlast.2 i (Nat.lt_of_not_le hli) hij hl.symm
    have hlf := hwriters i s hs hsf l hil _ hll hl
    exact (((h j hj t ht l _ hll hlast).mpr (.inl (hlf.trans htf.symm))).trans hl).symm
  rcases Nat.lt_trichotomy i j with hij | rfl | hij
  · exact hlt i j s t hs ht hsf htf hij
  · rfl
  · exact (hlt j i t s ht hs htf hsf hij).symm

/-- The parents of symbols with the same parent are in one row. -/
private theorem SameParent.row (hcollapse : Collapses syms ids syms.length) {s t : ReconcileSymbol}
    (h : SameParent syms s t) : s.parent.bind ids = t.parent.bind ids := by
  cases h with
  | inl heq => rw [heq]
  | inr h =>
    obtain ⟨p, hp, u, hu, ⟨q, hq, v, hv, hvu⟩, hone⟩ := h
    rw [Option.mem_def.mp hp, Option.mem_def.mp hq]
    exact hcollapse.eq_of_oneFqn hone hu hv rfl hvu

/-- Symbols that share a row share the row of their parents. -/
private theorem Collapses.parent_eq (h : Collapses syms ids syms.length)
    (htwins : ∀ s ∈ syms, ∀ t ∈ syms, s.fqn = t.fqn ∨ s.key = t.key → SameParent syms s t)
    {i j : Nat} {s t : ReconcileSymbol} (hs : syms[i]? = some s) (ht : syms[j]? = some t)
    (hid : ids i = ids j) : s.parent.bind ids = t.parent.bind ids := by
  have hlt : ∀ (j i : Nat) (s t : ReconcileSymbol), syms[i]? = some s → syms[j]? = some t →
      ids i = ids j → i < j → s.parent.bind ids = t.parent.bind ids := by
    intro j
    induction j using Nat.strong_induction_on with
    | _ j ih =>
      intro i s t hs ht hid hij
      -- The symbol that held the row when `j` was written to it.
      obtain ⟨l, hlast, hl⟩ := exists_lastWriter ids hij
      have hj := (List.getElem?_eq_some_iff.mp ht).1
      have hll := List.getElem?_eq_getElem (Nat.lt_trans hlast.1 hj)
      have hsame := (h j hj t ht l _ hll hlast).mp (hid.symm.trans hl.symm)
      have hlj := (htwins _ (List.mem_of_getElem? hll) t (List.mem_of_getElem? ht) hsame).row h
      by_cases hil : i < l
      · exact (ih l hlast.1 i s _ hs hll hl.symm hil).trans hlj
      · have heq : i = l := by
          by_contra hne
          exact hlast.2 i (by omega) hij hl.symm
        subst heq
        obtain rfl := Option.some.inj (hll.symm.trans hs)
        exact hlj
  rcases Nat.lt_trichotomy i j with hij | rfl | hij
  · exact hlt j i s t hs ht hid hij
  · rw [Option.some.inj (hs.symm.trans ht)]
  · exact (hlt i j t s ht hs hid.symm hij).symm

end Rows

/-! ## The rows whose edges a reconcile drops -/

/-- The row a symbol makes stale is one it renames or re-hashes. -/
theorem staleRow_eq_some_iff {olds : List Node} {a : Assignment} {i : Nat} {s : ReconcileSymbol}
    {id : RowId} : staleRow olds a i s = some id ↔ ∃ old, claimedRow olds a i = some old ∧
      old.id = id ∧ (old.fqn ≠ s.fqn ∨ old.signatureHash ≠ some s.signatureHash) := by
  unfold staleRow fate
  cases hclaim : claimedRow olds a i with
  | none => simp
  | some old =>
    by_cases hfqn : old.fqn = s.fqn
    · by_cases hhash : old.signatureHash = some s.signatureHash
      · simp [hfqn, hhash]
      · simp [hfqn, hhash]
    · simp [hfqn]

/-- The stale rows are those of some symbol. -/
theorem staleIds_iff {olds : List Node} {a : Assignment} {syms : List ReconcileSymbol}
    {id : RowId} : staleIds olds syms a id = true ↔
      ∃ (i : Nat) (s : ReconcileSymbol), syms[i]? = some s ∧ staleRow olds a i s = some id := by
  simp only [staleIds, staleBefore, List.any_eq_true, List.mem_range, Option.any_eq_true,
    decide_eq_true_eq]
  constructor
  · rintro ⟨i, -, s, hs, hrow⟩
    exact ⟨i, s, hs, hrow⟩
  · rintro ⟨i, s, hs, hrow⟩
    exact ⟨i, (List.getElem?_eq_some_iff.mp hs).1, s, hs, hrow⟩

/-! ## One reconcile -/

section Reconcile

variable {H : Hasher} {db db' : Db} {args : FileArgs} {olds : List Node}
  {syms : List ReconcileSymbol} {a : Assignment} {ids : Nat → Option RowId} {o : ReconcileOutcome}

/-- A row goes to the first symbol that has its fqn. -/
private theorem Reconciled.first_row (hm : Matched (db.clearCalleesCache args.uri) args olds syms a)
    (hr : Reconciled db args olds syms a ids db' o)
    (htakes : TakesOver (db.clearCalleesCache args.uri) args syms ids syms.length) {x : Node}
    (hx : x ∈ db.nodes) {i : Nat} {s : ReconcileSymbol} (hs : syms[i]? = some s)
    (hfqn : s.fqn = x.fqn) :
    ∃ f t, syms[f]? = some t ∧ t.fqn = x.fqn ∧ ids f = some x.id ∧
      (x.uri = args.uri → claimedRow olds a f = some x) := by
  induction i using Nat.strong_induction_on generalizing s with
  | _ i ih =>
    -- The first symbol of the name is the one that gets the row; an earlier one is found by
    -- induction.
    by_cases hfirst : ∀ i' < i, ∀ s', syms[i']? = some s' → s'.fqn ≠ s.fqn
    · refine ⟨i, s, hs, hfqn, ?_⟩
      -- A row of this file is claimed by it, one of another file taken over.
      by_cases hu : x.uri = args.uri
      · have hclaim := hm.claimedRow_of_fqn ((hm.mem_olds x).mpr ⟨hx, hu⟩) hs hfqn.symm hfirst
        exact ⟨hr.claimed i x hclaim, fun _ => hclaim⟩
      · exact ⟨htakes i (List.getElem?_eq_some_iff.mp hs).1 s hs hfirst x hx hu hfqn.symm,
          fun h => absurd h hu⟩
    · push Not at hfirst
      obtain ⟨i', hi', s', hs', hsame⟩ := hfirst
      exact ih i' hi' hs' (hsame.trans hfqn)

/-- A symbol with the parent that a row has is written below that row. -/
private theorem Reconciled.parent_row
    (hm : Matched (db.clearCalleesCache args.uri) args olds syms a)
    (hr : Reconciled db args olds syms a ids db' o)
    (htakes : TakesOver (db.clearCalleesCache args.uri) args syms ids syms.length) {p : Node}
    (hp : p ∈ db.nodes) {s : ReconcileSymbol} (hparent : ParentFqn syms s p.fqn)
    (hone : OneFqn syms p.fqn) : s.parent.bind ids = some p.id := by
  obtain ⟨q, hq, u, hu, hfqn⟩ := hparent
  obtain ⟨f, t, ht, htf, hid, -⟩ := hr.first_row hm htakes hp hu hfqn
  rw [Option.mem_def.mp hq, Option.bind_some, ← hid]
  exact hr.collapse.eq_of_oneFqn hone hu ht hfqn htf

/-- A row that was there, is written to and keeps its edges is written to by a symbol of its
    fqn, and of its hash if it is one of the file. -/
private theorem Reconciled.kept_symbol
    (hm : Matched (db.clearCalleesCache args.uri) args olds syms a)
    (hr : Reconciled db args olds syms a ids db' o)
    (htakes : TakesOver (db.clearCalleesCache args.uri) args syms ids syms.length) {c : Node}
    (hc : c ∈ db.nodes) (hfresh : staleIds olds syms a c.id = false) {i : Nat}
    (hi : ids i = some c.id) : ∃ f s, syms[f]? = some s ∧ s.fqn = c.fqn ∧ ids f = some c.id ∧
      (c.uri = args.uri → c.signatureHash = some s.signatureHash) := by
  -- The id is of a row that was claimed, of another file's row taken over, or a new one.
  cases hr.origin i c.id hi with
  | claimed j hj old hclaim hid =>
    obtain rfl := hm.stored.node_ext hc (hm.old_mem_base (claimedRow_mem hclaim)) hid
    have hs := List.getElem?_eq_getElem hj
    -- A claimed row that is not stale kept its name and its hash.
    have hkept : ¬ (c.fqn ≠ syms[j].fqn ∨ c.signatureHash ≠ some syms[j].signatureHash) := by
      intro hne
      have := staleIds_iff.mpr ⟨j, _, hs, staleRow_eq_some_iff.mpr ⟨c, hclaim, rfl, hne⟩⟩
      rw [hfresh] at this
      exact nomatch this
    push Not at hkept
    exact ⟨j, _, hs, hkept.1.symm, hr.claimed j c hclaim, fun _ => hkept.2⟩
  | stolen x hx hu hid j hj s hs hfqn =>
    obtain rfl := hm.stored.node_ext hc hx hid
    obtain ⟨f, t, ht, htf, hidf, -⟩ := hr.first_row hm htakes hc hs hfqn.symm
    exact ⟨f, t, ht, htf, hidf, fun h => absurd h hu⟩
  -- A new id is above all that were stored, `c`'s included.
  | fresh hlt => exact absurd (hm.stored.id_le c hc) (Nat.not_le_of_lt hlt)

/-- A reconcile neither drops the edges of a row of another file nor deletes the row. -/
private theorem Matched.not_stale (hm : Matched (db.clearCalleesCache args.uri) args olds syms a)
    {y : Node}
    (hy : y ∈ db.nodes) (hu : y.uri ≠ args.uri) : staleIds olds syms a y.id = false ∧
      deletedIds olds a y.id = false := by
  -- The file's old rows are all of its own uri, so no other file's row is among them.
  have hnot : ∀ old ∈ olds, old.id ≠ y.id := by
    intro old hold hid
    obtain rfl := hm.stored.node_ext (hm.old_mem_base hold) hy hid
    exact hu (hm.old_uri hold)
  constructor
  · by_contra hstale
    rw [Bool.not_eq_false] at hstale
    obtain ⟨i, s, -, hrow⟩ := staleIds_iff.mp hstale
    obtain ⟨old, hclaim, hid, -⟩ := staleRow_eq_some_iff.mp hrow
    exact hnot old (claimedRow_mem hclaim) hid
  · by_contra hdel
    rw [Bool.not_eq_false, deletedBefore_iff] at hdel
    obtain ⟨j, -, old, hj, -, -, hid⟩ := hdel
    exact hnot old (List.mem_of_getElem? hj) hid

/-- The container of the row of a symbol, whichever of the symbols there it is. -/
private theorem Reconciled.written_container
    (hm : Matched (db.clearCalleesCache args.uri) args olds syms a)
    (hr : Reconciled db args olds syms a ids db' o)
    (htwins : ∀ s ∈ syms, ∀ t ∈ syms, s.fqn = t.fqn ∨ s.key = t.key → SameParent syms s t)
    {x : Node} (hx : x ∈ db'.nodes) {i : Nat} {s : ReconcileSymbol} (hs : syms[i]? = some s)
    (hi : ids i = some x.id) : x.containerId = s.parent.bind ids := by
  rcases (hr.nodes x).mp hx with ⟨j, t, ht, -, hj, hcols⟩ | ⟨old, hold, hfree, -, rfl⟩ |
    ⟨y, hy, -, hfree, rfl⟩
  · rw [hcols, writtenCols_containerId]
    exact hr.collapse.parent_eq htwins ht hs (hj.trans hi.symm)
  · -- A row left over was written to by nobody.
    obtain ⟨i', -, hclaim⟩ := (hr.origin i old.id hi).old_claimed hm hold
    exact absurd hclaim (hfree i')
  · exact absurd hi (hfree i)

/-- A reconcile that keeps containers keeps the invariant. -/
private theorem reconcile_contained (h : db.Contained) (hnn : ∀ s ∈ syms, 0 ≤ s.range.startLine)
    (hok : reconcileFileSymbols H db args syms = .ok (db', o))
    (hkeep : KeepsContainers db args.uri syms) : db'.Contained := by
  obtain ⟨ids, hr, htakes⟩ := reconcile_takesOver H h.toStored hnn hok
  have hm := matched_of_stored H h.toStored args hnn
  refine ⟨hr.stored, fun p x hx hedge => ?_, fun p x hx hvalid hp => ?_⟩
  · rcases (hr.contains_iff p x.id).mp hedge with ⟨e, he, ht, rfl, hdst, hv, hsrcDel, -⟩ |
      ⟨i, -, s, q, hs, hq, hsrc, hi⟩
    · -- An edge from before: it was not dropped, so neither end is stale.
      simp only [EdgeRow.staleIf, Bool.and_eq_true, Bool.not_eq_true', Bool.or_eq_false_iff] at hv
      obtain ⟨hvalid, hsrcStale, hdstStale⟩ := hv
      have hold : db.Contains e.srcId x.id := ⟨e, he, ht, rfl, hdst, hvalid⟩
      obtain ⟨⟨pr, hpr, hprid⟩, c, hc, hcid⟩ := hold.rows h.toWF
      have hcontainer : c.containerId = some e.srcId := h.column e.srcId c hc (hcid ▸ hold)
      have hforget : ∀ y : Node, y.containerId = some e.srcId →
          (y.forget (deletedIds (db.nodesByUri args.uri)
            (matchSymbols H (db.nodesByUri args.uri) syms))).containerId = some e.srcId := by
        intro y hy
        simp [Node.forget, hy, Option.filter, hsrcDel]
      rcases (hr.nodes x).mp hx with ⟨i, s, hs, -, hi, hcols⟩ | ⟨old, hold', -, -, rfl⟩ |
        ⟨y, hy, -, -, rfl⟩
      · rw [hdst, ← hcid] at hdstStale
        obtain ⟨f, t, ht, htf, hf, hhash⟩ :=
          hr.kept_symbol hm htakes hc hdstStale (hi.trans (congrArg some hcid.symm))
        have hparents := hkeep.container pr hpr c hc (by rw [hprid, hcid]; exact hold) t
          (List.mem_of_getElem? ht) htf hhash
        rw [hr.written_container hm hkeep.twins hx ht (hf.trans (congrArg some hcid)), ← hprid]
        exact hr.parent_row hm htakes hpr hparents.1 hparents.2
      · obtain rfl := h.node_ext hc (hm.old_mem_base hold') hcid
        exact hforget c.orphaned hcontainer
      · obtain rfl := h.node_ext hc hy hcid
        exact hforget c hcontainer
    · -- An edge of Pass 5.
      rw [hr.written_container hm hkeep.twins hx hs hi, hq]
      exact hsrc
  · rw [Db.Contains, hr.contains_iff]
    rcases (hr.nodes x).mp hx with ⟨i, s, hs, -, hi, hcols⟩ | ⟨old, -, -, -, rfl⟩ |
      ⟨y, hy, hu, hfree, rfl⟩
    · -- A row that was written: Pass 5 has linked it.
      rw [hcols, writtenCols_containerId] at hp
      obtain ⟨q, hq, hqid⟩ := Option.bind_eq_some_iff.mp hp
      exact .inr ⟨i, (List.getElem?_eq_some_iff.mp hs).1, s, q, hs, hq, hqid, hi⟩
    · cases hvalid
    · -- A row of another file: its container, if it is one of this file, does not change.
      obtain ⟨hcontainer, hdel⟩ : y.containerId = some p ∧ deletedIds (db.nodesByUri args.uri)
          (matchSymbols H (db.nodesByUri args.uri) syms) p = false := by
        simpa [Node.forget, Option.filter_eq_some_iff] using hp
      obtain ⟨e, he, ht, rfl, hdst, hv⟩ := h.edge p y hy hvalid hcontainer
      obtain ⟨hyStale, hyDel⟩ := hm.not_stale hy hu
      refine .inl ⟨e, he, ht, rfl, hdst, ?_, hdel, hyDel⟩
      have hpStale : staleIds (db.nodesByUri args.uri) syms
          (matchSymbols H (db.nodesByUri args.uri) syms) e.srcId = false := by
        -- Its symbol would have renamed or re-hashed it, and `outside` excludes both.
        by_contra hstale
        rw [Bool.not_eq_false] at hstale
        obtain ⟨i, s, hs, hrow⟩ := staleIds_iff.mp hstale
        obtain ⟨pr, hclaim, hprid, hne⟩ := staleRow_eq_some_iff.mp hrow
        have hpr := hm.old_mem_base (claimedRow_mem hclaim)
        have hpru := hm.old_uri (claimedRow_mem hclaim)
        have hunchanged := hkeep.outside pr hpr hpru y hy hvalid hu (by rw [hprid]; exact hcontainer)
          fun s hs hfqn => by
            obtain ⟨j, hj⟩ := List.getElem?_of_mem hs
            obtain ⟨f, -, -, -, hf, -⟩ := hr.first_row hm htakes hy hj hfqn
            exact hfree f hf
        obtain ⟨s', hs', hfqn'⟩ := hunchanged.1
        obtain ⟨j, hj⟩ := List.getElem?_of_mem hs'
        obtain ⟨f, t, ht, htf, -, hclaimf⟩ := hr.first_row hm htakes hpr hj hfqn'
        obtain rfl := hm.claimedRow_inj hclaim (hclaimf hpru)
        obtain rfl := Option.some.inj (hs.symm.trans ht)
        cases hne with
        | inl hne => exact hne htf.symm
        | inr hne => exact hne (hunchanged.2 s (List.mem_of_getElem? hs) htf)
      simp only [EdgeRow.staleIf, hv, hpStale, hdst, hyStale, Bool.or_self, Bool.not_false,
        Bool.and_self]

end Reconcile

end Semnav.Graph

namespace Semnav.Indexer

open Semnav.ForStd Semnav.Graph Semnav.Adapters

/-! ## Runs -/

/-- An index pass over some files, or a reconcile of one file, with the symbol trees that the
    server reports. -/
inductive GraphStep where
  | index (fetch : String → Option (List DocumentSymbol)) (adapters : List LanguageAdapter)
      (rootUri language : String) (files : List String)
  | reconcile (args : FileArgs) (modulePath : String) (fileExists : Bool)
      (symbols : List DocumentSymbol)

namespace GraphStep

/-- What a step leaves: a pass that fails leaves what it has written, a reconcile that fails is
    rolled back. -/
def apply (H : Hasher) : GraphStep → Db → Db
  | .index fetch adapters rootUri language files, db =>
    ((indexRepository H adapters rootUri language files).run fetch db).2
  | .reconcile args modulePath fileExists symbols, db =>
    match reconcileFileSymbols H db args
        ((fetchedSymbols symbols modulePath fileExists).map (FlatSymbol.toReconcile H)) with
    | .ok (db', _) => db'
    | .error _ => db

/-- Rows whose edges the step keeps stay in their containers. -/
def Keeps (H : Hasher) : GraphStep → Db → Prop
  | .index fetch adapters rootUri language files, db =>
    Prog.Obeys (keepingProtocol fetch) (fun _ _ => True)
      (indexRepository H adapters rootUri language files) db
  | .reconcile args modulePath fileExists symbols, db =>
    KeepsContainers db args.uri
      ((fetchedSymbols symbols modulePath fileExists).map (FlatSymbol.toReconcile H))

instance (H : Hasher) (step : GraphStep) (db : Db) : Decidable (step.Keeps H db) := by
  cases step with
  | index fetch adapters rootUri language files => exact Prog.decidableObeys _ _ _ _
  | reconcile args modulePath fileExists symbols =>
    exact inferInstanceAs (Decidable (KeepsContainers _ _ _))

/-- The graph after a list of steps. -/
def run (H : Hasher) (steps : List GraphStep) (db : Db) : Db :=
  steps.foldl (fun db step => step.apply H db) db

/-- Every step of the run keeps containers. -/
def KeepsAll (H : Hasher) : List GraphStep → Db → Prop
  | [], _ => True
  | step :: steps, db => step.Keeps H db ∧ KeepsAll H steps (step.apply H db)

instance decidableKeepsAll (H : Hasher) : (steps : List GraphStep) → (db : Db) →
    Decidable (KeepsAll H steps db)
  | [], _ => inferInstanceAs (Decidable True)
  | step :: steps, db =>
    have := decidableKeepsAll H steps (step.apply H db)
    inferInstanceAs (Decidable (step.Keeps H db ∧ KeepsAll H steps (step.apply H db)))

/-- A step that keeps containers keeps containment. -/
private theorem contained {H : Hasher} {step : GraphStep} {db : Db} (h : db.Contained)
    (hkeep : step.Keeps H db) : (step.apply H db).Contained := by
  cases step with
  | index fetch adapters rootUri language files =>
    obtain ⟨stats, db', hrun, hdone⟩ := indexRepository_contained adapters rootUri language files h hkeep
    simp only [apply, hrun]
    exact hdone
  | reconcile args modulePath fileExists symbols =>
    simp only [apply]
    split
    · rename_i db' o hok
      refine reconcile_contained h (fun s hs => ?_) hok hkeep
      obtain ⟨sym, hsym, rfl⟩ := List.mem_map.mp hs
      exact fetchedSymbols_line_nonneg symbols modulePath fileExists sym hsym
    · exact h

/-- A run of steps that keep containers keeps containment. -/
private theorem run_contained {H : Hasher} (steps : List GraphStep) {db : Db} (h : db.Contained)
    (hkeep : KeepsAll H steps db) : (run H steps db).Contained := by
  induction steps generalizing db with
  | nil => exact h
  | cons step steps ih => exact ih (contained h hkeep.1) hkeep.2

end GraphStep

/-- In every graph that a run of index passes and reconciles leads to from an empty one, each step
    keeping rows whose edges it keeps in their containers: between valid rows, a valid `contains`
    edge exists exactly where `container_id` says so. -/
theorem containers_agree (H : Hasher) (steps : List GraphStep)
    (hkeep : GraphStep.KeepsAll H steps .empty) : (GraphStep.run H steps .empty).ContainersAgree :=
  (GraphStep.run_contained steps Db.empty_contained hkeep).agree

/-! ## A class that is renamed -/

/-- A class with a method on the line below it. -/
def classNamed (cls : String) : List DocumentSymbol :=
  [.mk cls none 5 ⟨⟨1, 0⟩, ⟨3, 0⟩⟩ ⟨⟨1, 6⟩, ⟨1, 9⟩⟩
    [.mk "new" none 6 ⟨⟨2, 4⟩, ⟨3, 0⟩⟩ ⟨⟨2, 8⟩, ⟨2, 11⟩⟩ []]]

/-- An index pass over `app.py` with its class. -/
def indexClass (cls : String) : GraphStep :=
  .index (appFetch (classNamed cls)) (builtinAdapters []) "file:///" "python" ["file:///app.py"]

/-- A reconcile of `app.py` with its class. -/
def reconcileClass (cls : String) : GraphStep := .reconcile appPy "app" true (classNamed cls)

/-- `containers_agree` for two index passes and two reconciles of one class. -/
theorem containers_agree_class : (GraphStep.run lengthHasher
    [indexClass "Foo", reconcileClass "Foo", indexClass "Foo", reconcileClass "Foo"]
    .empty).ContainersAgree :=
  containers_agree lengthHasher _ (by decide +kernel)

/-- A class is renamed between two index passes: its method's row moves into the new class by its
    position, and the edge from the old class stays valid, as does the old class. -/
theorem moved_method_two_edges : ¬ (GraphStep.run lengthHasher
    [indexClass "Foo", indexClass "Bar"] .empty).ContainersAgree := by
  decide +kernel

end Semnav.Indexer
