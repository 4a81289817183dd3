import Semnav.Spec.WriteSymbols

/-!
# The loop of Pass 3

`Written k` says what the tables hold after `k` symbols: every row is the row of the last
symbol written to it, a parked row no symbol has claimed, or a row of another file that no
symbol has taken over.  It is kept by every round (`Written.step`), whatever mix of
matches, upserts and conflicts the symbols bring.

## Key results

- `Written.step`: one round keeps the invariant
- `pass3_written`: so a run that gets through ends in it
-/

namespace Semnav.Graph

/-! ## Who wrote a row last -/

/-- Symbol `i` is the last one before `k` that was written to its row. -/
def LastWriter (ids : Nat → Option RowId) (k i : Nat) : Prop :=
  i < k ∧ ∀ i', i < i' → i' < k → ids i' ≠ ids i

/-- Every row written has a last symbol that wrote it. -/
theorem exists_lastWriter (ids : Nat → Option RowId) {k i : Nat} (hi : i < k) :
    ∃ i', LastWriter ids k i' ∧ ids i' = ids i := by
  induction k with
  | zero => exact absurd hi (Nat.not_lt_zero i)
  | succ k ih =>
    by_cases hk : ids k = ids i
    · exact ⟨k, ⟨Nat.lt_succ_self k, fun i' hlt hlt' => by omega⟩, hk⟩
    · have hik : i < k := by
        rcases Nat.lt_succ_iff_lt_or_eq.mp hi with h | rfl
        · exact h
        · exact absurd rfl hk
      obtain ⟨i', ⟨hlt, hlast⟩, heq⟩ := ih hik
      refine ⟨i', ⟨Nat.lt_succ_of_lt hlt, fun j hj hjk => ?_⟩, heq⟩
      rcases Nat.lt_succ_iff_lt_or_eq.mp hjk with h | rfl
      · exact hlast j hj h
      · rw [heq]
        exact hk

/-- The last symbol that wrote a row is the only one. -/
theorem LastWriter.eq {ids : Nat → Option RowId} {k i i' : Nat} (h : LastWriter ids k i)
    (h' : LastWriter ids k i') (heq : ids i = ids i') : i = i' := by
  rcases Nat.lt_trichotomy i i' with hlt | rfl | hgt
  · exact absurd heq.symm (h.2 i' hlt h'.1)
  · rfl
  · exact absurd heq (h'.2 i hgt h.1)

/-- Among the first `k` symbols, two share a row exactly when the later one has the fqn or
    the position of the symbol that held the row. -/
def Collapses (syms : List ReconcileSymbol) (ids : Nat → Option RowId) (k : Nat) : Prop :=
  ∀ i' < k, ∀ s', syms[i']? = some s' → ∀ i s, syms[i]? = some s → LastWriter ids i' i →
    (ids i' = ids i ↔ s.fqn = s'.fqn ∨ s.key = s'.key)

/-! ## The three kinds of rows -/

/-- A row as its last writer left it. -/
def WrittenRow (args : FileArgs) (olds : List Node) (syms : List ReconcileSymbol)
    (a : Assignment) (ids : Nat → Option RowId) (k : Nat) (x : Node) : Prop :=
  ∃ i s, syms[i]? = some s ∧ LastWriter ids k i ∧ ids i = some x.id ∧
    x.toNodeCols = writtenCols args olds a ids i s

/-- A parked row that none of the first `k` symbols has claimed. -/
def PendingRow (olds : List Node) (a : Assignment) (k : Nat) (x : Node) : Prop :=
  ∃ old ∈ olds, (∀ i < k, claimedRow olds a i ≠ some old) ∧ x = old.parked

/-- A row of another file that none of the first `k` symbols has taken over. -/
def OtherRow (base : Db) (args : FileArgs) (ids : Nat → Option RowId) (k : Nat) (x : Node) :
    Prop :=
  x ∈ base.nodes ∧ x.uri ≠ args.uri ∧ ∀ i < k, ids i ≠ some x.id

/-- Where the id of a written row comes from. -/
inductive Origin (base : Db) (args : FileArgs) (olds : List Node) (syms : List ReconcileSymbol)
    (a : Assignment) (k : Nat) (r : RowId) : Prop where
  | claimed (i : Nat) (hi : i < k) (old : Node) (h : claimedRow olds a i = some old)
      (hr : r = old.id)
  | stolen (x : Node) (hx : x ∈ base.nodes) (hu : x.uri ≠ args.uri) (hr : r = x.id) (i : Nat)
      (hi : i < k) (s : ReconcileSymbol) (hs : syms[i]? = some s) (hfqn : x.fqn = s.fqn)
  | fresh (h : base.nodesSeq < r)

/-- The rows whose edges the first `k` symbols put up for re-evaluation. -/
def staleBefore (olds : List Node) (syms : List ReconcileSymbol) (a : Assignment) (k : Nat)
    (id : RowId) : Bool :=
  (List.range k).any fun i => syms[i]?.any fun s => decide (staleRow olds a i s = some id)

/-- The counters after the symbols `l`. -/
def tally (olds : List Node) (a : Assignment) (l : List ReconcileSymbol) : ReconcileOutcome :=
  l.zipIdx.foldl (fun o (s, i) => o.bump (fate olds a i s)) {}

/-- The invariant of the Pass 3 loop after `k` symbols. -/
structure Written (base : Db) (args : FileArgs) (olds : List Node) (syms : List ReconcileSymbol)
    (a : Assignment) (k : Nat) (st : ApplyState) : Prop where
  wf : st.db.WF
  seq_le : base.nodesSeq ≤ st.db.nodesSeq
  ids_iff : ∀ i, (∃ r, st.ids i = some r) ↔ i < k
  parent_lt : ∀ i < k, ∀ s, syms[i]? = some s → ∀ p, s.parent = some p → p < i
  claimed : ∀ i < k, ∀ old, claimedRow olds a i = some old → st.ids i = some old.id
  origin : ∀ i r, st.ids i = some r → Origin base args olds syms a k r
  /-- A row of another file goes to the first symbol that has its fqn. -/
  stolen : ∀ i < k, ∀ s, syms[i]? = some s → ∀ x ∈ base.nodes, x.uri ≠ args.uri →
    x.fqn = s.fqn → ∃ i' < k, st.ids i' = some x.id
  collapse : Collapses syms st.ids k
  nodes : ∀ x, x ∈ st.db.nodes ↔ WrittenRow args olds syms a st.ids k x ∨
    PendingRow olds a k x ∨ OtherRow base args st.ids k x
  edges : st.db.edges = base.edges.map (EdgeRow.staleIf (staleBefore olds syms a k))
  edgesSeq : st.db.edgesSeq = base.edgesSeq
  calleesCache : st.db.calleesCache = base.calleesCache
  materialized : st.db.materialized = base.materialized
  indexMeta : st.db.indexMeta = base.indexMeta
  outcome : st.outcome = tally olds a (syms.take k)

section Run

variable {base : Db} {args : FileArgs} {olds : List Node} {syms : List ReconcileSymbol}
  {a : Assignment}

/-- Where a row comes from stays known. -/
theorem Origin.mono {k k' : Nat} {r : RowId} (hk : k ≤ k')
    (h : Origin base args olds syms a k r) : Origin base args olds syms a k' r := by
  cases h with
  | claimed i hi old h hr => exact .claimed i (Nat.lt_of_lt_of_le hi hk) old h hr
  | stolen x hx hu hr i hi s hs hfqn =>
    exact .stolen x hx hu hr i (Nat.lt_of_lt_of_le hi hk) s hs hfqn
  | fresh h => exact .fresh h

/-- A row of the file is written only after it was claimed. -/
theorem Origin.old_claimed (hm : Matched base args olds syms a) {k : Nat} {old : Node}
    (hold : old ∈ olds) (h : Origin base args olds syms a k old.id) :
    ∃ i < k, claimedRow olds a i = some old := by
  cases h with
  | claimed i hi old' h hr =>
    obtain rfl := hm.old_ext hold (claimedRow_mem h) hr
    exact ⟨i, hi, h⟩
  | stolen x hx hu hr i hi s hs hfqn =>
    obtain rfl := hm.stored.node_ext (hm.old_mem_base hold) hx hr
    exact absurd (hm.old_uri hold) hu
  | fresh h => exact absurd (hm.stored.id_le old (hm.old_mem_base hold)) (Nat.not_le_of_lt h)

/-- The columns a symbol leaves depend on `ids` at its parent only. -/
theorem writtenCols_congr {ids ids' : Nat → Option RowId} {i : Nat} {s : ReconcileSymbol}
    (h : ∀ p, s.parent = some p → ids' p = ids p) :
    writtenCols args olds a ids' i s = writtenCols args olds a ids i s := by
  have hc : s.parent.bind ids' = s.parent.bind ids := by
    cases hp : s.parent with
    | none => rfl
    | some p => exact h p hp
  simp only [writtenCols, hc]

/-- After one more symbol the last writers of other rows stay. -/
private theorem LastWriter.update {ids : Nat → Option RowId} {k i : Nat} {r : RowId} (hi : i < k) :
    LastWriter (Function.update ids k (some r)) (k + 1) i ↔
      LastWriter ids k i ∧ ids i ≠ some r := by
  have hik : i ≠ k := Nat.ne_of_lt hi
  constructor
  · -- A last writer of before keeps its place unless the new entry takes its row.
    rintro ⟨-, hlast⟩
    refine ⟨⟨hi, fun j hj hjk => ?_⟩, fun hr => ?_⟩
    · have := hlast j hj (Nat.lt_succ_of_lt hjk)
      rwa [Function.update_of_ne (Nat.ne_of_lt hjk), Function.update_of_ne hik] at this
    · have := hlast k hi (Nat.lt_succ_self k)
      rw [Function.update_self, Function.update_of_ne hik] at this
      exact this hr.symm
  · rintro ⟨⟨-, hlast⟩, hr⟩
    refine ⟨Nat.lt_succ_of_lt hi, fun j hj hjk => ?_⟩
    rw [Function.update_of_ne hik]
    -- The later writer is one of before or the new one at `k`.
    rcases Nat.lt_succ_iff_lt_or_eq.mp hjk with hlt | rfl
    · rw [Function.update_of_ne (Nat.ne_of_lt hlt)]
      exact hlast j hj hlt
    · rw [Function.update_self]
      exact fun h => hr h.symm

namespace Written

variable {k : Nat} {st st' : ApplyState} {s : ReconcileSymbol} {r : RowId}

/-- The row of the symbol last written to it. -/
private theorem row_mem (hw : Written base args olds syms a k st) {i : Nat} {s : ReconcileSymbol}
    {id : RowId} (hs : syms[i]? = some s) (hlast : LastWriter st.ids k i)
    (hid : st.ids i = some id) : (⟨writtenCols args olds a st.ids i s, id⟩ : Node) ∈ st.db.nodes :=
  (hw.nodes _).mpr (.inl ⟨i, s, hs, hlast, hid, rfl⟩)

/-- Every id handed out has its row. -/
theorem exists_row (hw : Written base args olds syms a k st) (hk : k ≤ syms.length) {i : Nat}
    {id : RowId} (hid : st.ids i = some id) : ∃ x ∈ st.db.nodes, x.id = id := by
  have hi : i < k := (hw.ids_iff i).mp ⟨id, hid⟩
  obtain ⟨j, hlast, hj⟩ := exists_lastWriter st.ids hi
  have hjl : j < syms.length := Nat.lt_of_lt_of_le hlast.1 hk
  exact ⟨_, hw.row_mem (List.getElem?_eq_getElem hjl) hlast (hj.trans hid), rfl⟩

end Written

/-- Which row a round writes to, in terms of the run so far. -/
inductive Target (base : Db) (args : FileArgs) (olds : List Node) (syms : List ReconcileSymbol)
    (a : Assignment) (k : Nat) (st : ApplyState) (s : ReconcileSymbol) (r : RowId) : Prop where
  /-- The row the symbol was matched to. -/
  | claimed (old : Node) (h : claimedRow olds a k = some old) (hr : r = old.id)
  /-- The row of an earlier symbol with the same fqn or position. -/
  | overwrites (h : claimedRow olds a k = none) (i : Nat) (si : ReconcileSymbol)
      (hs : syms[i]? = some si) (hlast : LastWriter st.ids k i) (hr : st.ids i = some r)
      (hkey : si.fqn = s.fqn ∨ si.key = s.key)
  /-- A row of another file with the same fqn. -/
  | steals (h : claimedRow olds a k = none) (x : Node) (hx : OtherRow base args st.ids k x)
      (hr : r = x.id) (hfqn : x.fqn = s.fqn)
  | fresh (h : claimedRow olds a k = none) (hr : r = st.db.nodesSeq + 1)

namespace Written

variable {k : Nat} {st st' : ApplyState} {s : ReconcileSymbol} {r : RowId}

/-- An upsert never lands on a parked row. -/
theorem target (hm : Matched base args olds syms a) (hw : Written base args olds syms a k st)
    (hs : syms[k]? = some s) (hhit : Hit args olds a st.db k s r) :
    Target base args olds syms a k st s r := by
  -- A claimed or a free row is what it says; a conflict is with one of the rows there are.
  cases hhit with
  | claimed old h hr => exact .claimed old h hr
  | fresh h hr => exact .fresh h hr
  | conflict h m hmem hr hkey =>
    rcases (hw.nodes m).mp hmem with ⟨i, si, hsi, hlast, hid, hcols⟩ |
      ⟨old, hold, hunclaimed, rfl⟩ | hother
    · -- A row written in this run.
      refine .overwrites h i si hsi hlast (hid.trans (congrArg some hr.symm)) (hkey.imp ?_ ?_)
      · intro hfqn
        rw [hcols, writtenCols_fqn] at hfqn
        exact hfqn
      · intro hphys
        rw [hcols, hm.writtenCols_phys] at hphys
        exact congrArg Prod.snd hphys
    · -- A pending row: by its name it would be claimed; its key has a negative line.
      exfalso
      rcases hkey with hfqn | hphys
      · obtain ⟨i', hle, hclaim⟩ := hm.exists_claimedRow hold hs hfqn
        rcases Nat.lt_or_eq_of_le hle with hlt | rfl
        · exact hunclaimed i' hlt hclaim
        · rw [h] at hclaim
          exact nomatch hclaim
      · have hline : -(old.id : Int) = s.range.startLine :=
          congrArg (fun key : PhysKey => key.2.1) hphys
        have hnn := hm.sym_nonneg s (List.mem_of_getElem? hs)
        have hpos : (0 : Int) < (old.id : Int) :=
          Int.ofNat_lt.mpr (hm.stored.id_pos old (hm.old_mem_base hold))
        omega
    · -- A row of another file, which only its name can hit.
      rcases hkey with hfqn | hphys
      · exact .steals h m hother hr hfqn
      · exact absurd (congrArg Prod.fst hphys) hother.2.1

/-- The row a symbol goes to is one of the file's, one taken over or a new one. -/
private theorem target_origin (hw : Written base args olds syms a k st) (hs : syms[k]? = some s)
    (ht : Target base args olds syms a k st s r) : Origin base args olds syms a (k + 1) r := by
  cases ht with
  | claimed old h hr => exact .claimed k (Nat.lt_succ_self k) old h hr
  | overwrites _ i si _ _ hr _ => exact (hw.origin i r hr).mono (Nat.le_succ k)
  | steals _ x hx hr hfqn => exact .stolen x hx.1 hx.2.1 hr k (Nat.lt_succ_self k) s hs hfqn
  | fresh _ hr => exact .fresh (hr ▸ Nat.lt_succ_of_le hw.seq_le)

/-- Only an overwriting round writes to a row that was written before. -/
private theorem target_reused (hm : Matched base args olds syms a)
    (hw : Written base args olds syms a k st) (hk : k ≤ syms.length)
    (ht : Target base args olds syms a k st s r) {i : Nat} (hi : st.ids i = some r) :
    ∃ j sj, syms[j]? = some sj ∧ LastWriter st.ids k j ∧ st.ids j = some r ∧
      (sj.fqn = s.fqn ∨ sj.key = s.key) := by
  have hik : i < k := (hw.ids_iff i).mp ⟨r, hi⟩
  cases ht with
  | claimed old h hr =>
    obtain ⟨i', hi', hclaim⟩ :=
      (hr ▸ hw.origin i r hi : Origin base args olds syms a k old.id).old_claimed hm
        (claimedRow_mem h)
    exact absurd (hm.claimedRow_inj hclaim h) (Nat.ne_of_lt hi')
  | overwrites _ j sj hsj hlast hr hkey => exact ⟨j, sj, hsj, hlast, hr, hkey⟩
  | steals _ x hx hr _ => exact absurd (hr ▸ hi) (hx.2.2 i hik)
  | fresh _ hr =>
    obtain ⟨x, hx, hxid⟩ := hw.exists_row hk hi
    exact absurd (hxid.trans hr) (hw.wf.fresh_id hx)

/-- A step keeps the rows of earlier symbols. -/
theorem ids_of_lt (hstep : WriteStep args olds a s k st st' r) {i : Nat} (hi : i < k) :
    st'.ids i = st.ids i := by
  rw [hstep.ids_eq, Function.update_of_ne (Nat.ne_of_lt hi)]

/-- A step gives the symbol its row. -/
theorem ids_self (hstep : WriteStep args olds a s k st st' r) : st'.ids k = some r := by
  rw [hstep.ids_eq, Function.update_self]

/-- Parents come before their children. -/
private theorem step_parent_lt (hw : Written base args olds syms a k st) (hs : syms[k]? = some s)
    (hstep : WriteStep args olds a s k st st' r) :
    ∀ i < k + 1, ∀ t, syms[i]? = some t → ∀ p, t.parent = some p → p < i := by
  intro i hi t ht p hp
  rcases Nat.lt_succ_iff_lt_or_eq.mp hi with hlt | rfl
  · exact hw.parent_lt i hlt t ht p hp
  · obtain rfl := Option.some.inj (hs.symm.trans ht)
    exact (hw.ids_iff p).mp (hstep.parent_some p hp)

/-- The round leaves the rows of earlier symbols as their last writers wrote them. -/
private theorem step_writtenCols (hw : Written base args olds syms a k st) (hs : syms[k]? = some s)
    (hstep : WriteStep args olds a s k st st' r) {i : Nat} (hi : i < k + 1) {t : ReconcileSymbol}
    (ht : syms[i]? = some t) :
    writtenCols args olds a st'.ids i t = writtenCols args olds a st.ids i t :=
  writtenCols_congr fun p hp => ids_of_lt hstep
    (Nat.lt_of_lt_of_le (hw.step_parent_lt hs hstep i hi t ht p hp) (Nat.le_of_lt_succ hi))

/-- After a step the rows are those written, those pending and the others. -/
private theorem step_nodes (hm : Matched base args olds syms a)
    (hw : Written base args olds syms a k st)
    (hs : syms[k]? = some s) (hstep : WriteStep args olds a s k st st' r) (x : Node) :
    x ∈ st'.db.nodes ↔ WrittenRow args olds syms a st'.ids (k + 1) x ∨
      PendingRow olds a (k + 1) x ∨ OtherRow base args st'.ids (k + 1) x := by
  have ht := hw.target hm hs hstep.hit
  have horigin := hw.target_origin hs ht
  have hk : k < k + 1 := Nat.lt_succ_self k
  rw [hstep.nodes]
  constructor
  · -- The row of this round is the symbol's; every other row is what it was before the round.
    rintro (rfl | ⟨hx, hne⟩)
    · refine .inl ⟨k, s, hs, ⟨hk, fun i' hlt hlt' => by omega⟩, ids_self hstep, ?_⟩
      exact (hw.step_writtenCols hs hstep hk hs).symm
    · rcases (hw.nodes x).mp hx with ⟨i, t, hti, hlast, hid, hcols⟩ |
        ⟨old, hold, hunclaimed, rfl⟩ | ⟨hbase, huri, hother⟩
      · have hik := hlast.1
        refine .inl ⟨i, t, hti, ?_, (ids_of_lt hstep hik).trans hid, ?_⟩
        · rw [hstep.ids_eq, LastWriter.update hik]
          exact ⟨hlast, fun h => hne (Option.some.inj (hid.symm.trans h))⟩
        · rw [hcols, hw.step_writtenCols hs hstep (Nat.lt_succ_of_lt hik) hti]
      · refine .inr (.inl ⟨old, hold, fun i hi hclaim => ?_, rfl⟩)
        rcases Nat.lt_succ_iff_lt_or_eq.mp hi with hlt | rfl
        · exact hunclaimed i hlt hclaim
        · cases hstep.hit with
          | claimed old' h hr =>
            obtain rfl := Option.some.inj (hclaim.symm.trans h)
            exact hne hr.symm
          | conflict h => rw [h] at hclaim; exact nomatch hclaim
          | fresh h => rw [h] at hclaim; exact nomatch hclaim
      · refine .inr (.inr ⟨hbase, huri, fun i hi hid => ?_⟩)
        rcases Nat.lt_succ_iff_lt_or_eq.mp hi with hlt | rfl
        · exact hother i hlt ((ids_of_lt hstep hlt).symm.trans hid)
        · exact hne (Option.some.inj (hid.symm.trans (ids_self hstep)))
  · -- A row that counts as written by an earlier symbol has not been written to in this round.
    rintro (⟨i, t, hti, hlast, hid, hcols⟩ | ⟨old, hold, hunclaimed, rfl⟩ |
      ⟨hbase, huri, hother⟩)
    · rcases Nat.lt_succ_iff_lt_or_eq.mp hlast.1 with hlt | rfl
      · rw [hstep.ids_eq, LastWriter.update hlt] at hlast
        rw [ids_of_lt hstep hlt] at hid
        rw [hw.step_writtenCols hs hstep (Nat.lt_succ_of_lt hlt) hti] at hcols
        refine .inr ⟨(hw.nodes x).mpr (.inl ⟨i, t, hti, hlast.1, hid, hcols⟩), fun h => ?_⟩
        exact hlast.2 (h ▸ hid)
      · obtain rfl := Option.some.inj (hs.symm.trans hti)
        obtain rfl := Option.some.inj ((ids_self hstep).symm.trans hid)
        rw [hw.step_writtenCols hs hstep hk hs] at hcols
        exact .inl (by rw [← hcols])
    · refine .inr ⟨(hw.nodes _).mpr (.inr (.inl ⟨old, hold,
        fun i hi => hunclaimed i (Nat.lt_succ_of_lt hi), rfl⟩)), fun h => ?_⟩
      obtain ⟨i, hi, hclaim⟩ :=
        (h ▸ horigin : Origin base args olds syms a (k + 1) old.id).old_claimed hm hold
      exact hunclaimed i hi hclaim
    · refine .inr ⟨(hw.nodes _).mpr (.inr (.inr ⟨hbase, huri, fun i hi hid =>
        hother i (Nat.lt_succ_of_lt hi) ((ids_of_lt hstep hi).trans hid)⟩)), fun h => ?_⟩
      exact hother k hk (h ▸ ids_self hstep)

/-- Two symbols share a row when they share a name or a key. -/
private theorem step_collapse (hm : Matched base args olds syms a)
    (hw : Written base args olds syms a k st) (hs : syms[k]? = some s)
    (hstep : WriteStep args olds a s k st st' r) {i : Nat} {t : ReconcileSymbol}
    (hti : syms[i]? = some t) (hlast : LastWriter st.ids k i) :
    st'.ids k = st'.ids i ↔ t.fqn = s.fqn ∨ t.key = s.key := by
  have hk : k ≤ syms.length := Nat.le_of_lt (List.getElem?_eq_some_iff.mp hs).1
  rw [ids_self hstep, ids_of_lt hstep hlast.1]
  -- The rows agree when the later symbol hit the row of the earlier one.
  constructor
  · intro heq
    obtain ⟨j, sj, hsj, hlastj, hj, hkey⟩ :=
      hw.target_reused hm hk (hw.target hm hs hstep.hit) heq.symm
    obtain rfl := hlast.eq hlastj (heq.symm.trans hj.symm)
    obtain rfl := Option.some.inj (hti.symm.trans hsj)
    exact hkey
  · -- Otherwise both rows stay, and one of the unique indexes is violated.
    intro hkey
    by_contra hne
    obtain ⟨id, hid⟩ := (hw.ids_iff i).mpr hlast.1
    have hidr : id ≠ r := fun h => hne (h ▸ hid.symm)
    have hrow := (hstep.nodes _).mpr (.inr ⟨hw.row_mem hti hlast hid, hidr⟩)
    have hnew := (hstep.nodes _).mpr (.inl rfl)
    rcases hkey with hfqn | hphys
    · exact hidr (hstep.wf.fqn_unique _ hrow _ hnew (by simpa using hfqn))
    · refine hidr (hstep.wf.phys_unique _ hrow _ hnew ?_)
      change (writtenCols _ _ _ _ _ _).phys = (writtenCols _ _ _ _ _ _).phys
      rw [hm.writtenCols_phys, hm.writtenCols_phys, hphys]

/-- A row of another file is taken over by its name only. -/
private theorem step_stolen (hw : Written base args olds syms a k st) (hs : syms[k]? = some s)
    (hstep : WriteStep args olds a s k st st' r) :
    ∀ i < k + 1, ∀ t, syms[i]? = some t → ∀ x ∈ base.nodes, x.uri ≠ args.uri →
      x.fqn = t.fqn → ∃ i' < k + 1, st'.ids i' = some x.id := by
  have hmono : ∀ {id}, (∃ i' < k, st.ids i' = some id) → ∃ i' < k + 1, st'.ids i' = some id :=
    fun ⟨i', hlt, hid⟩ => ⟨i', Nat.lt_succ_of_lt hlt, (ids_of_lt hstep hlt).trans hid⟩
  intro i hi t hti x hx hu hfqn
  rcases Nat.lt_succ_iff_lt_or_eq.mp hi with hlt | rfl
  · exact hmono (hw.stolen i hlt t hti x hx hu hfqn)
  · obtain rfl := Option.some.inj (hs.symm.trans hti)
    -- The row was taken by an earlier symbol, or it is still there for this one to hit.
    by_cases htaken : ∃ i' < i, st.ids i' = some x.id
    · exact hmono htaken
    · have hmem : x ∈ st.db.nodes := (hw.nodes x).mpr (.inr (.inr
        ⟨hx, hu, fun i' hi' hid => htaken ⟨i', hi', hid⟩⟩))
      by_cases hr : x.id = r
      · exact ⟨i, Nat.lt_succ_self i, hr ▸ ids_self hstep⟩
      · -- It is hit, as two rows of one fqn cannot stand side by side.
        exact absurd (hstep.wf.fqn_unique _ ((hstep.nodes x).mpr (.inr ⟨hmem, hr⟩)) _
          ((hstep.nodes _).mpr (.inl rfl)) (by simpa using hfqn)) hr

/-- One round of Pass 3 keeps the invariant. -/
private theorem step (hm : Matched base args olds syms a) (hw : Written base args olds syms a k st)
    (hs : syms[k]? = some s) (hstep : WriteStep args olds a s k st st' r) :
    Written base args olds syms a (k + 1) st' where
  wf := hstep.wf
  seq_le := Nat.le_trans hw.seq_le hstep.seq_le
  ids_iff := by
    intro i
    -- The symbols before, this one, and those to come.
    rcases Nat.lt_trichotomy i k with hlt | rfl | hgt
    · rw [ids_of_lt hstep hlt, hw.ids_iff]
      omega
    · rw [ids_self hstep]
      exact ⟨fun _ => Nat.lt_succ_self i, fun _ => ⟨r, rfl⟩⟩
    · rw [hstep.ids_eq, Function.update_of_ne (Nat.ne_of_gt hgt), hw.ids_iff]
      omega
  parent_lt := hw.step_parent_lt hs hstep
  claimed := by
    intro i hi old hclaim
    rcases Nat.lt_succ_iff_lt_or_eq.mp hi with hlt | rfl
    · rw [ids_of_lt hstep hlt]
      exact hw.claimed i hlt old hclaim
    · -- The symbol's own row is the one it claimed.
      rw [ids_self hstep]
      cases hstep.hit with
      | claimed old' h hr =>
        obtain rfl := Option.some.inj (hclaim.symm.trans h)
        rw [hr]
      | conflict h => rw [h] at hclaim; exact nomatch hclaim
      | fresh h => rw [h] at hclaim; exact nomatch hclaim
  origin := by
    intro i id hid
    rw [hstep.ids_eq, Function.update_apply] at hid
    split at hid
    · obtain rfl := Option.some.inj hid
      exact hw.target_origin hs (hw.target hm hs hstep.hit)
    · exact (hw.origin i id hid).mono (Nat.le_succ k)
  stolen := hw.step_stolen hs hstep
  collapse := by
    intro i' hi' s' hs' i t hti hlast
    -- Two earlier symbols share a row as they did; for this one the step has said when.
    rcases Nat.lt_succ_iff_lt_or_eq.mp hi' with hlt | rfl
    · have hids : ∀ j, j < k → st'.ids j = st.ids j := fun j hj => ids_of_lt hstep hj
      have hlast' : LastWriter st.ids i' i := by
        refine ⟨hlast.1, fun j hj hji => ?_⟩
        rw [← hids j (by omega), ← hids i (by have := hlast.1; omega)]
        exact hlast.2 j hj hji
      rw [hids i' hlt, hids i (by have := hlast.1; omega)]
      exact hw.collapse i' hlt s' hs' i t hti hlast'
    · obtain rfl := Option.some.inj (hs.symm.trans hs')
      refine hw.step_collapse hm hs hstep hti ⟨hlast.1, fun j hj hji => ?_⟩
      rw [← ids_of_lt hstep hji, ← ids_of_lt hstep hlast.1]
      exact hlast.2 j hj hji
  nodes := hw.step_nodes hm hs hstep
  edges := by
    -- One more symbol may have made its row's edges stale.
    rw [hstep.edges, hw.edges, map_staleIf_staleIf]
    congr 2
    funext id
    simp only [staleBefore, List.range_succ, List.any_append, List.any_cons, List.any_nil,
      Bool.or_false, hs, Option.any_some]
  edgesSeq := hstep.edgesSeq.trans hw.edgesSeq
  calleesCache := hstep.calleesCache.trans hw.calleesCache
  materialized := hstep.materialized.trans hw.materialized
  indexMeta := hstep.indexMeta.trans hw.indexMeta
  -- The counts are those of the symbols so far.
  outcome := by
    have hlen : (syms.take k).length = k := by
      have := (List.getElem?_eq_some_iff.mp hs).1
      rw [List.length_take]
      omega
    rw [hstep.outcome, hw.outcome, List.take_add_one, hs, tally, tally, List.zipIdx_append,
      List.foldl_append, hlen]
    simp

end Written

/-! ## The whole loop -/

/-- Before the first symbol all rows are parked. -/
theorem written_init (hm : Matched base args olds syms a) :
    Written base args olds syms a 0 ⟨base.parkUri args.uri, fun _ => none, {}⟩ where
  wf := (park_eq hm.stored args.uri).2
  seq_le := Nat.le_refl _
  ids_iff := fun i => ⟨fun ⟨_, h⟩ => by simp at h, fun h => absurd h (Nat.not_lt_zero i)⟩
  parent_lt := fun i hi => absurd hi (Nat.not_lt_zero i)
  claimed := fun i hi => absurd hi (Nat.not_lt_zero i)
  origin := fun _ _ h => by simp at h
  stolen := fun i hi => absurd hi (Nat.not_lt_zero i)
  collapse := fun i hi => absurd hi (Nat.not_lt_zero i)
  nodes := by
    intro x
    have hnone : ∀ P : Nat → Prop, ∀ i < 0, P i := fun P i hi => absurd hi (Nat.not_lt_zero i)
    -- All rows of the file are parked, and no symbol has been written.
    rw [mem_parkUri]
    constructor
    · rintro (⟨n, hn, rfl⟩ | ⟨hx, hu⟩)
      · exact .inr (.inl ⟨n, (hm.mem_olds n).mpr (Db.mem_nodesByUri.mp hn), hnone _, rfl⟩)
      · exact .inr (.inr ⟨hx, hu, hnone _⟩)
    · rintro (⟨i, s, -, hlast, -⟩ | ⟨old, hold, -, rfl⟩ | ⟨hx, hu, -⟩)
      · exact absurd hlast.1 (Nat.not_lt_zero i)
      · exact .inl ⟨old, Db.mem_nodesByUri.mpr ((hm.mem_olds old).mp hold), rfl⟩
      · exact .inr ⟨hx, hu⟩
  edges := (map_staleIf_false base.edges).symm
  edgesSeq := rfl
  calleesCache := rfl
  materialized := rfl
  indexMeta := rfl
  outcome := rfl

/-- A round that gets through, seen from the invariant. -/
private theorem Written.writeStep_of_ok (hm : Matched base args olds syms a) {k : Nat}
    {st st' : ApplyState}
    {s : ReconcileSymbol} (hw : Written base args olds syms a k st)
    (h : applySymbol args olds a st s k = .ok st') :
    ∃ r, WriteStep args olds a s k st st' r := by
  have hpending : ∀ old, claimedRow olds a k = some old → old.parked ∈ st.db.nodes :=
    fun old hclaim => (hw.nodes _).mpr (.inr (.inl ⟨old, claimedRow_mem hclaim,
      fun i hi hclaim' => absurd (hm.claimedRow_inj hclaim' hclaim) (Nat.ne_of_lt hi), rfl⟩))
  exact applySymbol_ok hw.wf hpending h

/-- Writing one symbol keeps the invariant. -/
theorem Written.step_of_ok (hm : Matched base args olds syms a) {k : Nat} {st st' : ApplyState}
    {s : ReconcileSymbol} (hw : Written base args olds syms a k st) (hs : syms[k]? = some s)
    (h : applySymbol args olds a st s k = .ok st') : Written base args olds syms a (k + 1) st' := by
  obtain ⟨r, hstep⟩ := hw.writeStep_of_ok hm h
  exact hw.step hm hs hstep

/-- What Pass 3 has done when it gets through. -/
theorem pass3_written (hm : Matched base args olds syms a) {st : ApplyState}
    (h : pass3 args olds a syms (base.parkUri args.uri) = .ok st) :
    Written base args olds syms a syms.length st :=
  List.foldlM_zipIdx_induction (fun k st => Written base args olds syms a k st) (written_init hm)
    (fun _ _ _ _ hs hw hok => hw.step_of_ok hm hs hok) h

/-- The first symbol with the fqn of a row of another file has taken over the row. -/
def TakesOver (base : Db) (args : FileArgs) (syms : List ReconcileSymbol)
    (ids : Nat → Option RowId) (k : Nat) : Prop :=
  ∀ i < k, ∀ s, syms[i]? = some s → (∀ i' < i, ∀ s', syms[i']? = some s' → s'.fqn ≠ s.fqn) →
    ∀ x ∈ base.nodes, x.uri ≠ args.uri → x.fqn = s.fqn → ids i = some x.id

/-- After pass three a row taken over has a symbol of its name. -/
theorem pass3_takesOver (hm : Matched base args olds syms a) {st : ApplyState}
    (h : pass3 args olds a syms (base.parkUri args.uri) = .ok st) :
    TakesOver base args syms st.ids syms.length := by
  refine (List.foldlM_zipIdx_induction
    (fun k st => Written base args olds syms a k st ∧ TakesOver base args syms st.ids k)
    ⟨written_init hm, fun i hi => absurd hi (Nat.not_lt_zero i)⟩ ?_ h).2
  rintro k s st st' hs ⟨hw, htaken⟩ hok
  obtain ⟨r, hstep⟩ := hw.writeStep_of_ok hm hok
  have hw' := hw.step hm hs hstep
  refine ⟨hw', fun i hi t ht hfirst x hx hu hfqn => ?_⟩
  -- An earlier symbol has its row already.
  rcases Nat.lt_succ_iff_lt_or_eq.mp hi with hlt | rfl
  · rw [Written.ids_of_lt hstep hlt]
    exact htaken i hlt t ht hfirst x hx hu hfqn
  · -- By now some symbol has the row, and no earlier one can have taken it.
    obtain ⟨i', hi', hid⟩ := hw'.stolen i hi t ht x hx hu hfqn
    rcases Nat.lt_succ_iff_lt_or_eq.mp hi' with hlt | rfl
    · rw [Written.ids_of_lt hstep hlt] at hid
      cases hw.origin i' x.id hid with
      | claimed j hj old hclaim hr =>
        obtain rfl := hm.stored.node_ext hx (hm.old_mem_base (claimedRow_mem hclaim)) hr
        exact absurd (hm.old_uri (claimedRow_mem hclaim)) hu
      | stolen y hy hyu hr j hj s' hs' hyfqn =>
        obtain rfl := hm.stored.node_ext hx hy hr
        exact absurd (hyfqn.symm.trans hfqn) (hfirst j hj s' hs')
      | fresh hlt => exact absurd (hm.stored.id_le x hx) (Nat.not_le_of_lt hlt)
    · exact hid

end Run

end Semnav.Graph
