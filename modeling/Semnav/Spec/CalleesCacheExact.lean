import Semnav.Spec.CallPathCorrect
import Semnav.Spec.OutgoingExact
import Semnav.Spec.Revival

/-!
# What a callees cache hit stands for

The key of a cache row is the hash of the caller's file, but the calls that the row vouches for also
depend on the rows of the callees.  A run carries along a history of the calls: those that the
server answered when each anchor was last materialized, and those of them whose callee a reconcile
has renamed, updated or deleted since.  A cached anchor has the calls that were answered and not
dropped, so that a hit is exact where the server's answer is still the one it was then, but for
calls that were dropped or lead to rows that are not valid, and these it no longer reports.

## Key results

- `rematerialize_callOf`: a materialization leaves the calls of the answer, the last of each key
- `Reconciled.callOf_iff`: what a reconcile leaves of the calls of another file
- `findCallees_refreshes`, `findCallPath_refreshes`: a query refreshes anchors or leaves them
- `callees_hit_exact_iff`: when the hits are exact, in every state of a run
- `reconciled_callee_lost`: a callee is updated in its own file, and the caller's hit stays
-/

namespace Semnav.Graph.Db

/-- The edge is a valid call of the row with this id. -/
def CallOf (d : Db) (id : RowId) (e : Edge) : Prop :=
  ∃ x ∈ d.edges, x.toEdge = e ∧ e.srcId = id ∧ e.edgeType = .calls ∧ e.valid = true

/-- A valid call of the anchor that leads to a valid row. -/
def LiveCallOf (d : Db) (id : RowId) (e : Edge) : Prop := d.CallOf id e ∧ d.ValidId e.dstId

/-- The calls of an anchor depend on the edges only. -/
theorem CallOf.congr {d d' : Db} (h : d'.edges = d.edges) (id : RowId) (e : Edge) :
    d'.CallOf id e ↔ d.CallOf id e := by
  unfold CallOf
  rw [h]

/-- The live ids depend on the rows only. -/
private theorem ValidId.congr_iff {d d' : Db} (h : d'.nodes = d.nodes) (id : RowId) :
    d'.ValidId id ↔ d.ValidId id := by
  unfold ValidId
  rw [h]

end Semnav.Graph.Db

namespace Semnav.Graph

open Semnav.ForStd

/-! ## What a reconcile does to the calls of other files -/

namespace Reconciled

variable {db db' : Db} {args : FileArgs} {olds : List Node} {syms : List ReconcileSymbol}
  {a : Assignment} {ids : Nat → Option RowId} {o : ReconcileOutcome}

/-- A row of another file is neither renewed nor deleted. -/
private theorem other_not_dropped (hm : Matched (db.clearCalleesCache args.uri) args olds syms a)
    {n : Node}
    (hn : n ∈ db.nodes) (hu : n.uri ≠ args.uri) :
    staleIds olds syms a n.id = false ∧ deletedIds olds a n.id = false := by
  have hother : ∀ old ∈ olds, old.id ≠ n.id := by
    intro old hold hid
    obtain rfl := hm.stored.node_ext hn (hm.old_mem_base hold) hid.symm
    exact hu (hm.old_uri hold)
  constructor
  · rw [← Bool.not_eq_true, staleIds_iff_renewed]
    intro hrenewed
    obtain ⟨i, s, old, -, hclaim, hid, -⟩ := hrenewed
    exact hother old (claimedRow_mem hclaim) hid
  · rw [← Bool.not_eq_true, deletedIds_iff]
    intro hdeleted
    obtain ⟨j, old, hj, -, -, hid⟩ := hdeleted
    exact hother old (List.mem_of_getElem? hj) hid

/-- A row of another file keeps its calls, but those to rows that are renewed or deleted. -/
private theorem callOf_iff (hm : Matched (db.clearCalleesCache args.uri) args olds syms a)
    (hr : Reconciled db args olds syms a ids db' o) {n : Node} (hn : n ∈ db.nodes)
    (hu : n.uri ≠ args.uri) (e : Edge) : db'.CallOf n.id e ↔
      db.CallOf n.id e ∧ ¬ Renewed olds syms a e.dstId ∧ ¬ StruckTwice olds a e.dstId := by
  -- The anchor lies in another file, so it is neither renewed nor deleted itself;
  obtain ⟨hsrcStale, hsrcDeleted⟩ := other_not_dropped hm hn hu
  have hends : ¬ Renewed olds syms a e.dstId ∧ ¬ StruckTwice olds a e.dstId ↔
      staleIds olds syms a e.dstId = false ∧ deletedIds olds a e.dstId = false := by
    unfold StruckTwice
    rw [← staleIds_iff_renewed, ← deletedIds_iff, Bool.not_eq_true, Bool.not_eq_true]
  rw [hends]
  -- whether its edges stay is decided by their other end.
  constructor
  · intro hcall
    obtain ⟨x, hx, rfl, hsrc, htype, hvalid⟩ := hcall
    obtain ⟨x₀, hx₀, rfl, -, hdeleted⟩ :=
      (hr.edges_other x fun h => nomatch htype.symm.trans h).mp hx
    have hflag : (x₀.valid && !(staleIds olds syms a x₀.srcId || staleIds olds syms a x₀.dstId)) =
        true := hvalid
    simp only [Bool.and_eq_true, Bool.not_eq_true'] at hflag
    have hstale := (Bool.or_eq_false_iff.mp hflag.2).2
    refine ⟨⟨x₀, hx₀, ?_, hsrc, htype, hvalid⟩, hstale, hdeleted⟩
    simp [EdgeRow.staleIf, hflag.2]
  · intro hkept
    obtain ⟨⟨x, hx, rfl, hsrc, htype, hvalid⟩, hdstStale, hdstDeleted⟩ := hkept
    have hstale : staleIds olds syms a x.srcId = false := by
      rw [hsrc]
      exact hsrcStale
    have hsame : x.staleIf (staleIds olds syms a) = x := by
      simp [EdgeRow.staleIf, hstale, hdstStale]
    have hcalls : x.edgeType ≠ .contains := fun h => nomatch htype.symm.trans h
    refine ⟨x, (hr.edges_other x hcalls).mpr ⟨x, hx, hsame.symm, ?_, hdstDeleted⟩, rfl, hsrc, htype,
      hvalid⟩
    rw [hsrc]
    exact hsrcDeleted

end Reconciled

end Semnav.Graph

namespace Semnav.Query

open Semnav.ForStd Semnav.Graph Semnav.Indexer QueryEngine

/-! ## A fresh materialization -/

section Fresh

variable (A : Answers) {d : Db} (client : Client) {anchor : Node}

/-- The callees that are found are valid rows. -/
private theorem calleeTargets_valid {callee : Node} (hcallee : callee ∈ d.nodes)
    (hvalid : callee.valid = true) {id : RowId}
    (hid : id ∈ calleeTargets A d client anchor callee) : d.ValidId id := by
  have hself : id ∈ [callee.id] → d.ValidId id := by
    intro h
    rw [List.mem_singleton.mp h]
    exact ⟨callee, hcallee, hvalid, rfl⟩
  unfold calleeTargets at hid
  split at hid
  · exact hself hid
  · split at hid
    · exact hself hid
    · split at hid
      · exact hself hid
      · obtain ⟨loc, -, hloc⟩ := List.mem_filterMap.mp hid
        exact idAt_valid hloc

/-- A fresh call leads from the anchor to a live row. -/
private theorem freshCalls_spec {e : Edge} (he : e ∈ freshCalls A d client anchor) :
    e.srcId = anchor.id ∧ e.edgeType = .calls ∧ e.site.isSome = true ∧ e.valid = true ∧
      d.ValidId e.dstId := by
  obtain ⟨call, -, callee, hfound, dst, hdst, range, -, rfl⟩ := (mem_callEdges A d client anchor).mp he
  obtain ⟨hcallee, -, hvalid, -⟩ := Db.findNodeByPosition_mem hfound
  exact ⟨rfl, rfl, rfl, rfl, calleeTargets_valid A client hcallee hvalid hdst⟩

/-- The fresh calls depend on the rows only. -/
theorem freshCalls_congr {d' : Db} (h : d'.nodes = d.nodes) :
    freshCalls A d' client anchor = freshCalls A d client anchor :=
  callEdges_congr A client anchor h _

end Fresh

/-- A list of upserts and the calls among them agree on the last of each key. -/
private theorem lastOfKey_filter {es calls : List Edge} (hcalls : es.filter isCall = calls)
    {e : Edge}
    (he : Db.LastOfKey calls e) : Db.LastOfKey es e := by
  obtain ⟨before, after, rfl, hnone⟩ := he
  obtain ⟨es₁, es₂, rfl, -, hrest⟩ := List.filter_eq_append_iff.mp hcalls
  obtain ⟨skipped, es₃, rfl, -, hcall, hafter⟩ := List.filter_eq_cons_iff.mp hrest
  refine ⟨es₁ ++ skipped, es₃, by rw [List.append_assoc], fun e' he' hkey => ?_⟩
  -- An edge with the key of a call is a call.
  have htype : e'.edgeType = e.edgeType := congrArg (fun k => k.2.2.1) hkey
  have hcall' : isCall e' = true := by
    unfold isCall at hcall ⊢
    rw [htype]
    exact hcall
  exact hnone e' (hafter ▸ List.mem_filter.mpr ⟨he', hcall'⟩) hkey

section Materialization

variable {S : Servers} {A : Answers} {client : Client} {w w' : World} {engine : QueryEngine}

/-- A materialization leaves the anchor the calls of the answer, the last of each key, and every
    other row its own. -/
private theorem rematerialize_callOf (hA : S.Follows A w.text) (hwf : w.db.WF)
    (huniq : w.db.SitesUnique .calls) {anchor : Node} {t : Bool}
    (h : (engine.rematerialize anchor.id anchor client).run S w = (.ok t, w')) :
    (∀ e, w'.db.CallOf anchor.id e ↔ Db.LastOfKey (freshCalls A w.db client anchor) e) ∧
      ∀ id ≠ anchor.id, ∀ e, w'.db.CallOf id e ↔ w.db.CallOf id e := by
  obtain ⟨es, hes, hcalls⟩ := rematerialize_upserts hA hwf h
  have hwf₁ := Db.invalidateOutgoingCalls_wf hwf anchor.id
  have huniq₁ : (w.db.invalidateOutgoingCalls anchor.id).SitesUnique .calls :=
    handle_sitesUnique (S := S) (.db (.invalidateOutgoingCalls anchor.id)) hwf huniq
  have hupserts := hes.upserts hwf₁ huniq₁
  have hexact : OutgoingExact A client anchor (outgoingReply A client anchor) w.db w'.db :=
    .of_upserts hupserts hcalls
  have hlast : ∀ e, Db.LastOfKey (freshCalls A w.db client anchor) e →
      ∃ x ∈ w'.db.edges, x.toEdge = e := fun e he =>
    hes.settled hwf₁ huniq₁ (lastOfKey_filter hcalls he)
  constructor
  · intro e
    constructor
    · intro hcall
      obtain ⟨x, hx, rfl, hsrc, htype, hvalid⟩ := hcall
      -- The row holds a call of the answer, and the last one with its key is in the same row.
      have hmem := hexact.reported x hx hsrc htype hvalid
      obtain ⟨e', hlastOf, hkey⟩ := Db.exists_lastOfKey hmem
      obtain ⟨y, hy, rfl⟩ := hlast e' hlastOf
      obtain ⟨-, -, hsite, -⟩ := freshCalls_spec A client hmem
      obtain rfl := hupserts.unique x hx y hy htype hsite hkey.symm
      exact hlastOf
    · intro he
      obtain ⟨hsrc, htype, -, hvalid, -⟩ := freshCalls_spec A client he.mem
      obtain ⟨x, hx, hxe⟩ := hlast e he
      exact ⟨x, hx, hxe, hsrc, htype, hvalid⟩
  · intro id hne e
    constructor
    · intro hcall
      obtain ⟨x, hx, rfl, rfl, htype, hvalid⟩ := hcall
      exact ⟨x, (hexact.others x htype hne).mp hx, rfl, rfl, htype, hvalid⟩
    · intro hcall
      obtain ⟨x, hx, rfl, rfl, htype, hvalid⟩ := hcall
      exact ⟨x, (hexact.others x htype hne).mpr hx, rfl, rfl, htype, hvalid⟩

end Materialization

/-! ## What a query does to the calls of an anchor -/

/-- What the events of a part of a query say of an anchor: its calls are those of the answer, or
    its calls and its cache row are as they were. -/
inductive AnchorCase (A : Answers) (client : Client) (w w' : World) (events : List Event)
    (id : RowId) : Prop where
  | made {n : Node} (hevent : .invalidated id ∈ events) (hn : n ∈ w.db.nodes) (hid : n.id = id)
      (hcalls : ∀ e, w'.db.CallOf id e ↔ Db.LastOfKey (freshCalls A w.db client n) e)
  | kept (hevent : .invalidated id ∉ events) (hcalls : ∀ e, w'.db.CallOf id e ↔ w.db.CallOf id e)
      (hcache : w'.db.calleesCache id = w.db.calleesCache id)

/-- `w'` is `w` after a part of a query. -/
structure Refreshed (A : Answers) (client : Client) (w w' : World) : Prop where
  nodes : w'.db.nodes = w.db.nodes
  log : ∃ events, w'.log = w.log ++ events ∧ ∀ id, AnchorCase A client w w' events id

section Refreshed

variable {A : Answers} {client : Client} {w w' w'' : World}

/-- A part that writes to no table, and logs no invalidation. -/
private theorem Refreshed.of_db_eq (hdb : w'.db = w.db) {events : List Event}
    (hlog : w'.log = w.log ++ events) (hevents : ∀ id, .invalidated id ∉ events) :
    Refreshed A client w w' where
  nodes := by rw [hdb]
  log := ⟨events, hlog, fun id => .kept (hevents id) (fun _ => by rw [hdb]) (by rw [hdb])⟩

/-- What two parts of a query store is what the whole stores. -/
theorem Refreshed.trans (h : Refreshed A client w w') (h' : Refreshed A client w' w'') :
    Refreshed A client w w'' where
  nodes := h'.nodes.trans h.nodes
  log := by
    obtain ⟨events, hlog, hcases⟩ := h.log
    obtain ⟨events', hlog', hcases'⟩ := h'.log
    refine ⟨events ++ events', by rw [hlog', hlog, List.append_assoc], fun id => ?_⟩
    cases hcases' id with
    | made hevent hn hid hcalls =>
      -- The rows are those of before, and with them the calls of the answer.
      rw [h.nodes] at hn
      rw [freshCalls_congr A client h.nodes] at hcalls
      exact .made (List.mem_append_right _ hevent) hn hid hcalls
    | kept hevent hcalls hcache =>
      cases hcases id with
      | made hevent' hn hid hcalls' =>
        exact .made (List.mem_append_left _ hevent') hn hid fun e => (hcalls e).trans (hcalls' e)
      | kept hevent' hcalls' hcache' =>
        refine .kept ?_ (fun e => (hcalls e).trans (hcalls' e)) (hcache.trans hcache')
        exact fun hmem => (List.mem_append.mp hmem).elim hevent' hevent

/-- A `didOpen` before it is no part of it. -/
private theorem Refreshed.of_openedWith {c : Client} {uri : String} {text : Option String}
    (h : Refreshed A client (w.openedWith c uri text) w') : Refreshed A client w w' := by
  have hlog : (w.openedWith c uri text).log = w.log ++ [] := by
    rw [openedWith_log, List.append_nil]
  have hopened : Refreshed A client w (w.openedWith c uri text) :=
    .of_db_eq (openedWith_db ..) hlog fun _ => List.not_mem_nil
  exact hopened.trans h

end Refreshed

/-- The part of a query refreshes anchors or leaves them, over whatever graph with these rows, and
    what it returns has `Q`. -/
def Refreshes {α : Type} (S : Servers) (A : Answers) (client : Client) (nodes : List Node)
    (q : QueryM α) (Q : α → Prop) : Prop :=
  ∀ w : World, S.Follows A w.text → w.db.Stored → w.db.SitesUnique .calls → w.db.nodes = nodes →
    Refreshed A client w (q.run S w).2 ∧ ∀ a, (q.run S w).1 = .ok a → Q a

section Refreshes

variable {S : Servers} {A : Answers} {client : Client} {nodes : List Node} {α β : Type}

/-- A sequence stores what its parts store. -/
private theorem Refreshes.bind {q : QueryM α} {f : α → QueryM β} {Q : α → Prop} {R : β → Prop}
    (hq : Refreshes S A client nodes q Q) (hf : ∀ a, Q a → Refreshes S A client nodes (f a) R) :
    Refreshes S A client nodes (q >>= f) R := by
  intro w hA hstored huniq hnodes
  obtain ⟨hfirst, hpost⟩ := hq w hA hstored huniq hnodes
  have htext' : (q.run S w).2.text = w.text := run_text q w
  have hstored' := run_stored (S := S) q hstored
  have huniq' := run_sitesUnique (S := S) q hstored huniq
  rw [run_bind]
  rcases hrun : q.run S w with ⟨e | a, w'⟩
  · rw [hrun] at hfirst
    exact ⟨hfirst, nofun⟩
  · rw [hrun] at hfirst hpost htext' hstored' huniq'
    have hrest := hf a (hpost a rfl) w' (htext' ▸ hA) hstored' huniq' (hfirst.nodes.trans hnodes)
    exact ⟨hfirst.trans hrest.1, hrest.2⟩

/-- A part that writes nothing. -/
theorem Refreshes.of_keepsDb {q : QueryM α} (hq : OnlyKinds CmdKind.keepsDb q) :
    Refreshes S A client nodes q fun _ => True := by
  intro w _ _ _ _
  obtain ⟨events, hlog, hkinds⟩ := hq.run_log (S := S) w
  refine ⟨.of_db_eq (hq.run_db w) hlog fun id hid => ?_, fun _ _ => trivial⟩
  exact hkinds _ hid

/-- A value stores nothing. -/
theorem Refreshes.pure {a : α} {Q : α → Prop} (ha : Q a) :
    Refreshes S A client nodes (Pure.pure a) Q := by
  intro w _ _ _ _
  rw [run_pure]
  exact ⟨.of_db_eq rfl (List.append_nil _).symm fun _ => List.not_mem_nil,
    fun b hb => Except.ok.inj hb ▸ ha⟩

/-- Neighbours are rows of the graph. -/
private theorem getNeighbors_refreshes (id : RowId) (t : EdgeType) (dir : Direction) :
    Refreshes S A client nodes (db (.getNeighbors id t dir)) fun rows =>
      ∀ row ∈ rows, row.1 ∈ nodes := by
  intro w hA hstored huniq hnodes
  have hkeeps : OnlyKinds CmdKind.keepsDb (db (.getNeighbors id t dir)) := onlyKinds_db trivial
  refine ⟨(Refreshes.of_keepsDb hkeeps w hA hstored huniq hnodes).1, fun rows hrows row hrow => ?_⟩
  rw [run_getNeighbors] at hrows
  cases hrows
  exact hnodes ▸ (Db.getNeighbors_valid hrow).1

/-- A resolved anchor is a row, and resolving stores no call. -/
private theorem resolveAnchor_refreshes (symref : SymbolRef) (c : Option Client) :
    Refreshes S A client nodes (resolveAnchor symref c) fun r => ∀ n, r.1 = some n → n ∈ nodes := by
  intro w hA hstored huniq hnodes
  have hkeeps : OnlyKinds CmdKind.keepsDb (resolveAnchor symref c) :=
    resolveAnchor_onlyKinds trivial trivial symref c
  refine ⟨(Refreshes.of_keepsDb hkeeps w hA hstored huniq hnodes).1, fun r hr n hn => ?_⟩
  obtain ⟨r', w', hrun, -, -, hmem, -⟩ := resolveAnchor_returns (S := S) (w := w) symref c
  obtain rfl : r = r' := by
    rw [show (resolveAnchor symref c).run S w = (.ok r', w') from hrun] at hr
    exact (Except.ok.inj hr).symm
  exact hnodes ▸ hmem n hn

/-- The miss path: a materialization, and then the hash. -/
private theorem missPath_refreshes (engine : QueryEngine) {anchor : Node} (hanchor : anchor ∈ nodes)
    (hash : Option String) (f : Bool → α) :
    Refreshes S A client nodes (missPath engine anchor.id anchor client hash f) fun _ => True := by
  intro w hA hstored huniq hnodes
  have hmem : anchor ∈ w.db.nodes := hnodes ▸ hanchor
  have hid := Db.hasNode_of_mem hmem
  obtain ⟨t, w₁, hrun, targets, hw₁, -⟩ :=
    rematerialize_returns (S := S) engine client hstored.toWF anchor hid
  have hid₁ : w₁.db.hasNode anchor.id = true := by rw [Db.hasNode_congr hw₁.rows.nodes, hid]
  obtain ⟨trips, hlog, htrips⟩ := rematerialize_log hrun
  obtain ⟨hmade, hothers⟩ := rematerialize_callOf hA hstored.toWF huniq hrun
  have hevents : ∀ id, .invalidated id ∈ Event.invalidated anchor.id :: trips ↔ id = anchor.id := by
    intro id
    rw [List.mem_cons]
    constructor
    · intro h
      cases h with
      | inl heq => exact Event.invalidated.inj heq
      | inr htrip =>
        obtain ⟨method, outcome, heq⟩ := htrips _ htrip
        exact nomatch heq
    · intro heq
      rw [heq]
      exact .inl rfl
  -- The hash touches nothing but the cache row of the anchor.
  have hstore : ∃ w₂, (storeHash anchor.id hash).run S w₁ = (.ok (), w₂) ∧
      w₂.log = w₁.log ∧ w₂.db.nodes = w₁.db.nodes ∧ w₂.db.edges = w₁.db.edges ∧
      ∀ id ≠ anchor.id, w₂.db.calleesCache id = w₁.db.calleesCache id := by
    cases hash with
    | none => exact ⟨w₁, rfl, rfl, rfl, rfl, fun _ _ => rfl⟩
    | some hash =>
      exact ⟨_, run_setCalleesCacheHash S w₁ hid₁ hash, rfl, rfl, rfl, fun id hne => if_neg hne⟩
  obtain ⟨w₂, hstore, hlog₂, hnodes₂, hedges₂, hcache₂⟩ := hstore
  have hall : (missPath engine anchor.id anchor client hash f).run S w = (.ok (f t), w₂) := by
    unfold missPath
    rw [run_bind_of_ok S w _ hrun, run_bind_of_ok S w₁ _ hstore, run_pure]
  rw [hall]
  refine ⟨⟨hnodes₂.trans hw₁.rows.nodes, _, hlog₂.trans hlog, fun id => ?_⟩, fun _ _ => trivial⟩
  by_cases heq : id = anchor.id
  · subst heq
    refine .made ((hevents _).mpr rfl) hmem rfl fun e => ?_
    exact (Db.CallOf.congr hedges₂ _ e).trans (hmade e)
  · refine .kept (fun h => heq ((hevents id).mp h)) (fun e => ?_) ?_
    · exact (Db.CallOf.congr hedges₂ id e).trans (hothers id heq e)
    · rw [hcache₂ id heq, hw₁.rows.calleesCache]

/-- A part that is the given one once the anchor's document was opened. -/
private theorem Refreshes.of_openedWith {q r : QueryM α} {Q : α → Prop} {c : Client} {w : World}
    {uri : String} {text : Option String} (hr : Refreshes S A client nodes r Q)
    (hrun : q.run S w = r.run S (w.openedWith c uri text)) (hA : S.Follows A w.text)
    (hstored : w.db.Stored) (huniq : w.db.SitesUnique .calls) (hnodes : w.db.nodes = nodes) :
    Refreshed A client w (q.run S w).2 ∧ ∀ a, (q.run S w).1 = .ok a → Q a := by
  have hopened := hr (w.openedWith c uri text) (by rw [openedWith_text]; exact hA)
    (by rw [openedWith_db]; exact hstored) (by rw [openedWith_db]; exact huniq)
    (by rw [openedWith_db]; exact hnodes)
  rw [hrun]
  exact ⟨hopened.1.of_openedWith, hopened.2⟩

/-- A refresh stores the answer for its anchor, or nothing. -/
private theorem refreshCallees_refreshes (engine : QueryEngine) {anchor : Node}
    (hanchor : anchor ∈ nodes) :
    Refreshes S A client nodes (engine.refreshCallees anchor.id anchor client) fun _ => True := by
  intro w hA hstored huniq hnodes
  have hrun : (engine.refreshCallees anchor.id anchor client).run S w = _ :=
    run_refreshCallees engine
  split at hrun
  · exact Refreshes.of_openedWith (r := pure false) (.pure trivial) hrun hA hstored huniq hnodes
  · exact Refreshes.of_openedWith (missPath_refreshes engine hanchor _ _) hrun hA hstored huniq hnodes

/-- One expansion refreshes its node at most. -/
private theorem expandOutgoingCalls_refreshes (engine : QueryEngine) {anchor : Node}
    (hanchor : anchor ∈ nodes) {c : Option Client} (hc : ∀ c', c = some c' → c' = client)
    (remaining : Nat) :
    Refreshes S A client nodes (engine.expandOutgoingCalls anchor.id anchor c remaining)
      fun _ => True := by
  cases c with
  | none => exact .pure trivial
  | some c' =>
    obtain rfl := hc c' rfl
    intro w hA hstored huniq hnodes
    -- A hit and a spent budget only open the document; else the miss is materialized.
    have hrun : (engine.expandOutgoingCalls anchor.id anchor (some c') remaining).run S w = _ :=
      run_expandOutgoingCalls engine remaining
    split at hrun
    · exact Refreshes.of_openedWith (r := pure _) (.pure trivial) hrun hA hstored huniq hnodes
    · split at hrun
      · exact Refreshes.of_openedWith (r := pure _) (.pure trivial) hrun hA hstored huniq hnodes
      · exact Refreshes.of_openedWith (missPath_refreshes engine hanchor _ _) hrun hA hstored huniq
          hnodes

/-- The items that a scan enqueues are rows. -/
private theorem scanCallees_rows {toId : RowId} {path callees : List Node}
    {visited visited' : List RowId}
    {queue queue' : List QueueItem} (hcallees : ∀ n ∈ callees, n ∈ nodes)
    (hqueue : ∀ item ∈ queue, item.node ∈ nodes ∧ item.nodeId = item.node.id)
    (h : scanCallees toId path callees visited queue = .inr (visited', queue')) :
    ∀ item ∈ queue', item.node ∈ nodes ∧ item.nodeId = item.node.id := by
  -- Induction on the callees: only rows are queued.
  induction callees generalizing visited queue with
  | nil =>
    cases h
    exact hqueue
  | cons callee rest ih =>
    have hrest : ∀ n ∈ rest, n ∈ nodes := fun n hn => hcallees n (List.mem_cons_of_mem _ hn)
    unfold scanCallees at h
    split at h
    · cases h
    · split at h
      · exact ih hrest hqueue h
      · refine ih hrest (fun item hitem => ?_) h
        cases List.mem_append.mp hitem with
        | inl hold => exact hqueue item hold
        | inr hnew =>
          rw [List.mem_singleton.mp hnew]
          exact ⟨hcallees callee List.mem_cons_self, rfl⟩

/-- A search refreshes the nodes it queues at most. -/
private theorem searchLoop_refreshes (engine : QueryEngine) (toId : RowId) (maxDepth : Nat)
    {c : Option Client} (hc : ∀ c', c = some c' → c' = client) (fuel : Nat) {st : SearchState}
    (hqueue : ∀ item ∈ st.queue, item.node ∈ nodes ∧ item.nodeId = item.node.id) :
    Refreshes S A client nodes (engine.searchLoop toId maxDepth c fuel st) fun _ => True := by
  induction fuel generalizing st with
  | zero => exact .pure trivial
  | succ fuel ih =>
    unfold searchLoop
    split
    · exact .pure trivial
    · rename_i item queue hq
      rw [hq] at hqueue
      obtain ⟨hnode, hid⟩ := hqueue item List.mem_cons_self
      have hrest : ∀ item ∈ queue, item.node ∈ nodes ∧ item.nodeId = item.node.id :=
        fun item hitem => hqueue item (List.mem_cons_of_mem _ hitem)
      split
      · exact ih hrest
      · rw [hid]
        refine Refreshes.bind (expandOutgoingCalls_refreshes engine hnode hc _) fun expansion _ => ?_
        refine Refreshes.bind (getNeighbors_refreshes _ _ _) fun rows hrows => ?_
        split
        · exact .pure trivial
        · rename_i visited queue' hscan
          apply ih
          refine scanCallees_rows (fun n hn => ?_) hrest hscan
          -- A callee is the node of a row.
          obtain ⟨g, hg, rfl⟩ := List.mem_map.mp hn
          obtain ⟨row, hrow, heq⟩ := groupByNode_node hg
          exact heq ▸ hrows row hrow

/-- `find_callees` refreshes its anchor at most. -/
theorem findCallees_refreshes (engine : QueryEngine) (symref : SymbolRef) (filter : Filter)
    (page : Page) {c : Option Client} (hc : ∀ c', c = some c' → c' = client) :
    Refreshes S A client nodes (engine.findCallees symref filter page c) fun _ => True := by
  refine (resolveAnchor_refreshes symref c).bind fun r hr => ?_
  obtain ⟨anchor, timedOut⟩ := r
  cases anchor with
  | none =>
    refine .of_keepsDb ((hintFqnsForSymref_onlyKinds trivial engine symref).bind fun hints => ?_)
    exact onlyKinds_pure _
  | some anchor =>
    -- What is left after the refresh only reads the tables.
    have hread : ∀ refreshTimedOut : Bool, Refreshes S A client nodes
        (readCallsPage anchor.id .outgoing filter page >>= fun result =>
          (pure (result, timedOut || refreshTimedOut) : QueryM _)) fun _ => True := by
      intro refreshTimedOut
      refine .of_keepsDb (OnlyKinds.bind ?_ fun result => onlyKinds_pure _)
      exact (onlyKinds_db trivial).bind fun neighbors => onlyKinds_pure _
    cases c with
    | none => exact Refreshes.bind (Q := fun _ => True) (.pure trivial) fun b _ => hread b
    | some c' =>
      obtain rfl := hc c' rfl
      exact (refreshCallees_refreshes engine (hr anchor rfl)).bind fun b _ => hread b

/-- `find_call_path` refreshes what it expands at most. -/
theorem findCallPath_refreshes (engine : QueryEngine) (fuel : Nat) (from_ to_ : SymbolRef)
    (maxDepth maxLspCalls : Nat) {c : Option Client} (hc : ∀ c', c = some c' → c' = client) :
    Refreshes S A client nodes (engine.findCallPath fuel from_ to_ maxDepth maxLspCalls c)
      fun _ => True := by
  refine (resolveAnchor_refreshes from_ c).bind fun r₁ hr₁ => ?_
  obtain ⟨fromAnchor, fromTimedOut⟩ := r₁
  refine (resolveAnchor_refreshes to_ c).bind fun r₂ _ => ?_
  obtain ⟨toAnchor, toTimedOut⟩ := r₂
  dsimp only
  split
  · split
    · exact .pure trivial
    · refine searchLoop_refreshes engine _ maxDepth hc fuel fun item hitem => ?_
      rw [List.mem_singleton.mp hitem]
      exact ⟨hr₁ _ rfl, rfl⟩
  · -- An end that did not resolve gets hints.
    have hhints : ∀ symref, OnlyKinds CmdKind.keepsDb (engine.hintFqnsForSymref symref) :=
      fun symref => hintFqnsForSymref_onlyKinds trivial engine symref
    apply Refreshes.of_keepsDb
    split
    · refine (hhints from_).bind fun fromHints => ?_
      split
      · exact (hhints to_).bind fun _ => onlyKinds_pure _
      · exact onlyKinds_pure _
    · split
      · exact (hhints to_).bind fun _ => onlyKinds_pure _
      · exact onlyKinds_pure _

end Refreshes

/-! ## Runs -/

/-- What may happen to the graph and the files. -/
inductive CacheOp where
  | edit (text : String → Option String)
  | reconcile (args : FileArgs) (syms : List ReconcileSymbol)
  | findCallees (symref : SymbolRef) (filter : Filter) (page : Page) (asks : Bool)
  | findCallPath (fuel : Nat) (from_ to_ : SymbolRef) (maxDepth maxLspCalls : Nat) (asks : Bool)

/-- The symbols of a reconcile stand on real lines. -/
def CacheOp.OnLines : CacheOp → Prop
  | .reconcile _ syms => ∀ s ∈ syms, 0 ≤ s.range.startLine
  | _ => True

/-- The state of a run.  For each anchor `answered` are the calls that the server answered when the
    anchor was last materialized, and `dropped` are those calls that a reconcile has dropped since,
    because it renamed, updated or deleted the row they lead to. -/
structure CacheState where
  world : World
  answered : RowId → Edge → Prop
  dropped : RowId → Edge → Prop

section Runs

variable (A : (String → Option String) → Answers) (engine : QueryEngine) (S : Servers)
  (client : Client)

/-- The calls of the anchors with this id, as the server answers them in this world: the last of
    each key. -/
def AnsweredCall (w : World) (id : RowId) (e : Edge) : Prop :=
  ∃ n ∈ w.db.nodes, n.id = id ∧ Db.LastOfKey (freshCalls (A w.text) w.db client n) e

/-- The state after a query: where it asked for the calls of an anchor, these are the calls that the
    server answered, and none of them is dropped yet. -/
def CacheState.afterQuery (s : CacheState) {α : Type} (q : QueryM α) : CacheState :=
  let after := (q.run S s.world).2
  { world := after
    answered := fun id e =>
      if .invalidated id ∈ s.world.since after then AnsweredCall A client s.world id e
      else s.answered id e
    dropped := fun id e =>
      if .invalidated id ∈ s.world.since after then False else s.dropped id e }

/-- The state after an operation; a query that does not ask has no client. -/
def CacheState.after (s : CacheState) : CacheOp → CacheState
  | .edit text => { s with world := { s.world with text := text } }
  | .reconcile args syms =>
    match reconcileFileSymbols engine.hasher s.world.db args syms with
    | .ok (tables, _) =>
      let olds := s.world.db.nodesByUri args.uri
      let a := matchSymbols engine.hasher olds syms
      { s with
        world := s.world.setDb tables
        dropped := fun id e =>
          s.dropped id e ∨ Renewed olds syms a e.dstId ∨ StruckTwice olds a e.dstId }
    | .error _ => s
  | .findCallees symref filter page asks =>
    s.afterQuery A S client
      (engine.findCallees symref filter page (if asks then some client else none))
  | .findCallPath fuel from_ to_ maxDepth maxLspCalls asks =>
    s.afterQuery A S client (engine.findCallPath fuel from_ to_ maxDepth maxLspCalls
      (if asks then some client else none))

/-- The states of the runs from an empty graph. -/
inductive CacheRun : CacheState → Prop where
  | start {w : World} (hdb : w.db = .empty) : CacheRun ⟨w, fun _ _ => False, fun _ _ => False⟩
  | step {s : CacheState} (op : CacheOp) (hrun : CacheRun s) (hlines : op.OnLines) :
      CacheRun (s.after A engine S client op)

/-- An anchor whose cache row holds the hash of its file has the valid calls, to valid rows, that a
    materialization would leave. -/
def CalleesCacheExact (w : World) : Prop :=
  ∀ n ∈ w.db.nodes, CacheHit engine w n.id n → ∀ e, w.db.LiveCallOf n.id e ↔
    ((engine.rematerialize n.id n client).run S w).2.db.LiveCallOf n.id e

/-- The answer for an anchor stands: what the server answers now was answered when the anchor was
    last materialized and was not dropped since, and what was answered then it answers now, but the
    calls that were dropped or lead to a row that is no longer valid. -/
structure CacheState.AnswerStands (s : CacheState) (n : Node) : Prop where
  known : ∀ e, Db.LastOfKey (freshCalls (A s.world.text) s.world.db client n) e →
    s.answered n.id e ∧ ¬ s.dropped n.id e
  repeated : ∀ e, s.answered n.id e → ¬ s.dropped n.id e → s.world.db.ValidId e.dstId →
    Db.LastOfKey (freshCalls (A s.world.text) s.world.db client n) e

/-- The recorded answer stands for every anchor whose cache row holds the hash of its file. -/
def CacheState.AnswersStand (s : CacheState) : Prop :=
  ∀ n ∈ s.world.db.nodes, CacheHit engine s.world n.id n → s.AnswerStands A client n

end Runs

/-- What holds in every run: a cached anchor has the calls that were answered and not dropped. -/
structure CacheInv (s : CacheState) : Prop where
  stored : s.world.db.Stored
  unique : s.world.db.SitesUnique .calls
  kept : ∀ id, s.world.db.calleesCache id ≠ none → ∀ e,
    s.world.db.CallOf id e ↔ s.answered id e ∧ ¬ s.dropped id e

section Runs

variable {A : (String → Option String) → Answers} {engine : QueryEngine} {S : Servers}
  {client : Client} {s : CacheState}

/-- A row that is still cached after a reconcile is one of another file. -/
private theorem cached_other {d tables : Db} (hstored : d.Stored) {args : FileArgs}
    {syms : List ReconcileSymbol} {olds : List Node} {a : Assignment} {ids : Nat → Option RowId}
    {o : ReconcileOutcome} (hr : Reconciled d args olds syms a ids tables o) {id : RowId}
    (hid : tables.calleesCache id ≠ none) :
    d.calleesCache id ≠ none ∧ ∃ n ∈ d.nodes, n.uri ≠ args.uri ∧ n.id = id := by
  rw [hr.calleesCache] at hid
  split at hid
  · exact absurd rfl hid
  · unfold Db.clearCalleesCache at hid
    dsimp only at hid
    split at hid
    · exact absurd rfl hid
    · rename_i hother
      obtain ⟨n, hn, rfl⟩ := (Db.hasNode_iff _ _).mp (hstored.cache_ok id hid)
      refine ⟨hid, n, hn, fun hu => hother ?_, rfl⟩
      exact List.any_eq_true.mpr ⟨n, Db.mem_nodesByUri.mpr ⟨hn, hu⟩, by simp⟩

/-- A reconcile keeps the record in step with the edges: both forget the same calls. -/
private theorem CacheInv.reconcile (h : CacheInv s) {args : FileArgs} {syms : List ReconcileSymbol}
    (hline : ∀ sym ∈ syms, 0 ≤ sym.range.startLine) :
    CacheInv (s.after A engine S client (.reconcile args syms)) := by
  unfold CacheState.after
  dsimp only
  split
  · rename_i tables o hok
    obtain ⟨ids, hr⟩ := reconcile_reconciled engine.hasher h.stored hline hok
    have hm := matched_of_stored engine.hasher h.stored args hline
    constructor
    case stored => exact hr.stored
    case unique => exact reconcile_sitesUnique nofun h.stored h.unique hline hok
    case kept =>
      intro id hid e
      -- A row of the file has lost its cache row; one of another file loses just such calls.
      obtain ⟨hbefore, n, hn, hu, rfl⟩ := cached_other h.stored hr hid
      refine (hr.callOf_iff hm hn hu e).trans ?_
      rw [h.kept n.id hbefore e]
      simp only [not_or, and_assoc]
  · exact h

/-- A query leaves the calls of the answer where it materializes, and the other anchors as they
    are. -/
private theorem CacheInv.query (h : CacheInv s) (hA : S.Follows (A s.world.text) s.world.text)
    {α : Type}
    {q : QueryM α} (hq : Refreshes S (A s.world.text) client s.world.db.nodes q fun _ => True) :
    CacheInv (s.afterQuery A S client q) := by
  -- For each row the query asked again, or left calls and hash as they were.
  obtain ⟨-, events, hlog, hcases⟩ := (hq s.world hA h.stored h.unique rfl).1
  have hsince : s.world.since (q.run S s.world).2 = events := since_of_append hlog
  unfold CacheState.afterQuery
  dsimp only
  rw [hsince]
  constructor
  case stored => exact run_stored q h.stored
  case unique => exact run_sitesUnique q h.stored h.unique
  case kept =>
    intro id hid e
    cases hcases id with
    -- Asked again: the record is this answer, and so are the edges.
    | @made n hevent hn hid' hcalls =>
      simp only [if_pos hevent, not_false_eq_true, and_true]
      rw [hcalls e]
      constructor
      · exact fun he => ⟨n, hn, hid', he⟩
      · intro hanswered
        obtain ⟨n', hn', hid'', he⟩ := hanswered
        obtain rfl := h.stored.node_ext hn' hn (hid''.trans hid'.symm)
        exact he
    -- Not asked: record and edges are those of before.
    | kept hevent hcalls hcache =>
      simp only [if_neg hevent]
      rw [hcalls e]
      exact h.kept id (hcache ▸ hid) e

/-- The invariant holds in every run. -/
theorem CacheRun.inv (hA : ∀ text, S.Follows (A text) text)
    (hrun : CacheRun A engine S client s) : CacheInv s := by
  induction hrun with
  | start hdb =>
    -- The empty tables hold no edge and no cache entry.
    refine ⟨hdb ▸ Db.empty_stored, hdb ▸ fun e he => absurd he List.not_mem_nil, fun id hid => ?_⟩
    rw [hdb] at hid
    exact absurd rfl hid
  | @step s op hrun hlines ih =>
    -- A query that asks the servers at all asks through the one client of the run.
    have hclient : ∀ (asks : Bool) (c' : Client),
        (if asks then some client else none) = some c' → c' = client := by
      intro asks c' hc
      cases asks
      · exact nomatch hc
      · exact (Option.some.inj hc).symm
    cases op with
    | edit text => exact ⟨ih.stored, ih.unique, ih.kept⟩
    | reconcile args syms => exact ih.reconcile hlines
    | findCallees symref filter page asks =>
      exact ih.query (hA _) (findCallees_refreshes engine symref filter page (hclient asks))
    | findCallPath fuel from_ to_ maxDepth maxLspCalls asks =>
      exact ih.query (hA _)
        (findCallPath_refreshes engine fuel from_ to_ maxDepth maxLspCalls (hclient asks))

/-- What a materialization would leave, and what is there. -/
private theorem CacheInv.liveCallOf (h : CacheInv s) (hA : S.Follows (A s.world.text) s.world.text)
    {n : Node} (hn : n ∈ s.world.db.nodes) (hhit : CacheHit engine s.world n.id n) (e : Edge) :
    (s.world.db.LiveCallOf n.id e ↔
        (s.answered n.id e ∧ ¬ s.dropped n.id e) ∧ s.world.db.ValidId e.dstId) ∧
      (((engine.rematerialize n.id n client).run S s.world).2.db.LiveCallOf n.id e ↔
        Db.LastOfKey (freshCalls (A s.world.text) s.world.db client n) e) := by
  constructor
  · obtain ⟨text, -, hcached⟩ := hhit
    have hsome : s.world.db.calleesCache n.id ≠ none := by
      rw [hcached]
      exact Option.some_ne_none _
    exact and_congr_left fun _ => h.kept n.id hsome e
  · obtain ⟨t, w', hrun, targets, hw', -⟩ := rematerialize_returns (S := S) engine client
      h.stored.toWF n (Db.hasNode_of_mem hn)
    have hafter : ((engine.rematerialize n.id n client).run S s.world).2 = w' :=
      congrArg Prod.snd hrun
    have hcalls := (rematerialize_callOf hA h.stored.toWF h.unique hrun).1 e
    rw [hafter, ← hcalls]
    -- Its calls lead to valid rows anyway.
    refine and_iff_left_of_imp fun hcall => ?_
    obtain ⟨-, -, -, -, hvalid⟩ := freshCalls_spec _ client (hcalls.mp hcall).mem
    exact (Db.ValidId.congr_iff hw'.rows.nodes _).mpr hvalid

end Runs

/-- In every state of a run the hits are exact if and only if the answers that the cached anchors
    were materialized with stand. -/
theorem callees_hit_exact_iff (A : (String → Option String) → Answers) (engine : QueryEngine)
    (S : Servers) (client : Client) (hA : ∀ text, S.Follows (A text) text) {s : CacheState}
    (hrun : CacheRun A engine S client s) :
    CalleesCacheExact engine S client s.world ↔ s.AnswersStand A engine client := by
  have hinv := hrun.inv hA
  constructor
  · intro hexact n hn hhit
    have hboth : ∀ e, (s.answered n.id e ∧ ¬ s.dropped n.id e) ∧ s.world.db.ValidId e.dstId ↔
        Db.LastOfKey (freshCalls (A s.world.text) s.world.db client n) e := fun e => by
      obtain ⟨hnow, hfresh⟩ := hinv.liveCallOf (A := A) (hA _) hn hhit e
      exact hnow.symm.trans ((hexact n hn hhit e).trans hfresh)
    constructor
    case known => exact fun e he => ((hboth e).mpr he).1
    case repeated => exact fun e he hkept hvalid => (hboth e).mp ⟨⟨he, hkept⟩, hvalid⟩
  · intro hstand n hn hhit e
    obtain ⟨hknown, hrepeated⟩ := hstand n hn hhit
    obtain ⟨hnow, hfresh⟩ := hinv.liveCallOf (A := A) (hA _) hn hhit e
    rw [hnow, hfresh]
    constructor
    · exact fun he => hrepeated e he.1.1 he.1.2 he.2
    · intro he
      -- The server's answer resolves to valid rows.
      obtain ⟨-, -, -, -, hvalid⟩ := freshCalls_spec _ client he.mem
      exact ⟨hknown e he, hvalid⟩

/-! ## A callee that is updated -/

/-- The one function of a file, over the given lines. -/
def functionSymbol (fqn name : String) (lines : Int) : ReconcileSymbol where
  fqn := fqn
  name := name
  kind := 12
  nodeKind := "Function"
  range := ⟨0, 0, lines, 0⟩
  sel := ⟨0, 4, 0, 5⟩
  detail := none
  signatureHash := toString lines
  parent := none

/-- The call hierarchy item of such a function. -/
def functionItem (name uri : String) : CallHierarchyItem where
  name := name
  kind := 12
  uri := uri
  range := ⟨⟨0, 0⟩, ⟨2, 0⟩⟩
  selectionRange := ⟨⟨0, 4⟩, ⟨0, 5⟩⟩
  raw := name

/-- `a` of `app.py` calls `b` of `lib.py`, and that is all. -/
def libAnswers : Answers where
  answer := fun _ r =>
    match r with
    | .prepareCallHierarchy uri _ _ =>
      if uri = "file:///app.py" then [functionItem "a" "file:///app.py"] else []
    | .outgoingCalls _ => [⟨functionItem "b" "file:///lib.py", [⟨⟨1, 4⟩, ⟨1, 7⟩⟩]⟩]
    | .incomingCalls _ => []
    | .definition .. => []
    | .references .. => []
    | .implementation .. => []
    | .hover .. => none
    | .documentSymbol .. => []

/-- The server that answers so. -/
def libServers : Servers where
  reply := fun _ c r => .ok (libAnswers.answer c r)
  openReply := fun _ _ _ _ => .ok ()
  acquireReply := fun _ _ => .ok ()

/-- `app.py`, next to a version of `lib.py`. -/
def libText (lib uri : String) : Option String :=
  if uri = "file:///app.py" then some "def a():\n    b()"
  else if uri = "file:///lib.py" then some lib
  else none

/-- Both files are reconciled, `a` is asked for its callees, and `b` gets a longer body. -/
def libOps : List CacheOp :=
  [.edit (libText "def b():\n    pass"),
    .reconcile ⟨"file:///app.py", "python", false⟩ [functionSymbol "app.a" "a" 2],
    .reconcile ⟨"file:///lib.py", "python", false⟩ [functionSymbol "lib.b" "b" 2],
    .findCallees (.fqn "app.a") anyFilter firstPage true,
    .edit (libText "def b():\n    pass\n    pass"),
    .reconcile ⟨"file:///lib.py", "python", false⟩ [functionSymbol "lib.b" "b" 3]]

/-- The state this leads to. -/
def libState : CacheState :=
  libOps.foldl (CacheState.after (fun _ => libAnswers) appEngine libServers ⟨"python"⟩)
    ⟨twoFunctionsWorld.setDb .empty, fun _ _ => False, fun _ _ => False⟩

/-- The operations of a list are a run. -/
private theorem CacheRun.foldl {A : (String → Option String) → Answers} {engine : QueryEngine}
    {S : Servers} {client : Client} {s : CacheState} (ops : List CacheOp)
    (hrun : CacheRun A engine S client s) (hlines : ∀ op ∈ ops, op.OnLines) :
    CacheRun A engine S client (ops.foldl (CacheState.after A engine S client) s) := by
  induction ops generalizing s with
  | nil => exact hrun
  | cons op ops ih =>
    have hfirst := hrun.step op (hlines op List.mem_cons_self)
    exact ih hfirst fun op hop => hlines op (List.mem_cons_of_mem _ hop)

/-- The failing state is reached by a run. -/
private theorem libState_run :
    CacheRun (fun _ => libAnswers) appEngine libServers ⟨"python"⟩ libState := by
  apply CacheRun.foldl libOps (.start rfl)
  simp [libOps, CacheOp.OnLines, functionSymbol]

/-- In that state the answers no longer stand, and the hit is not exact. -/
theorem callees_hit_exact_iff_lib :
    CalleesCacheExact appEngine libServers ⟨"python"⟩ libState.world ↔
      libState.AnswersStand (fun _ => libAnswers) appEngine ⟨"python"⟩ :=
  callees_hit_exact_iff (fun _ => libAnswers) appEngine libServers ⟨"python"⟩
    (fun _ _ _ _ _ _ => rfl) libState_run

/-- The row of `a`. -/
def libCaller : Node :=
  ⟨(functionSymbol "app.a" "a" 2).toNode "file:///app.py" "python" false none, 1⟩

/-- The call of the example. -/
def libCall : Edge := ⟨1, 2, .calls, some ⟨"file:///app.py", ⟨1, 4, 1, 7⟩⟩, true⟩

/-- `b` is updated, with it the call of `a` is dropped, and `a` is still taken to be fresh. -/
theorem reconciled_callee_lost : (∀ text, libServers.Follows libAnswers text) ∧
    CacheRun (fun _ => libAnswers) appEngine libServers ⟨"python"⟩ libState ∧
    ¬ CalleesCacheExact appEngine libServers ⟨"python"⟩ libState.world := by
  refine ⟨fun text _ _ _ _ _ => rfl, libState_run, fun hexact => ?_⟩
  have hhit : CacheHit appEngine libState.world libCaller.id libCaller := by decide
  have hfresh : ((appEngine.rematerialize libCaller.id libCaller ⟨"python"⟩).run libServers
      libState.world).2.db.LiveCallOf libCaller.id libCall := by
    unfold Db.LiveCallOf Db.CallOf Db.ValidId
    decide
  have hnow : ¬ libState.world.db.CallOf libCaller.id libCall := by
    unfold Db.CallOf
    decide
  exact hnow ((hexact libCaller (by decide) hhit libCall).mpr hfresh).1

end Semnav.Query
