import Semnav.Spec.QueryCommands

/-!
# A failed outgoing materialization

`find_callees` and `expand_outgoing_calls` invalidate the anchor's outgoing calls, then ask
the server, then store the hash of the file.  A failed round trip reads as an empty reply, so
the invalidated edges stay invalid and the hash is stored over them.

## Key results

- `rematerialize_of_failure`: what a failed materialization leaves
- `failed_materialization_keeps_iff`: when it leaves the cache as it was
-/

namespace Semnav.Query

open Semnav.ForStd Semnav.Graph Semnav.Indexer

/-! ## Failed round trips -/

/-- A `prepareCallHierarchy` or `outgoingCalls` round trip that failed. -/
def Event.callFailure : Event → Bool
  | .trip .prepareCallHierarchy (.failed _) => true
  | .trip .outgoingCalls (.failed _) => true
  | _ => false

/-- The events between two states of the world. -/
def World.since (w w' : World) : List Event := w'.log.drop w.log.length

/-- Did a call hierarchy round trip fail between the two states? -/
def CallFailed (w w' : World) : Prop := ∃ e ∈ w.since w', e.callFailure = true

/-- The events since a moment are those logged after it. -/
theorem since_of_append {w w' : World} {new : List Event} (h : w'.log = w.log ++ new) :
    w.since w' = new := by
  rw [World.since, h, List.drop_left]

section Failure

variable {S : Servers} {α β : Type}

/-- Events of other kinds are no call failures. -/
theorem Logs.not_callFailed {K : CmdKind → Prop} {w w' : World} (h : Logs K w w')
    (hprep : ¬ K (.request .prepareCallHierarchy)) (hout : ¬ K (.request .outgoingCalls)) :
    ¬ CallFailed w w' := by
  obtain ⟨new, hnew, hk⟩ := h
  rintro ⟨e, he, hfail⟩
  rw [since_of_append hnew] at he
  have hke := hk e he
  match e, hfail with
  | .trip .prepareCallHierarchy (.failed _), _ => exact hprep hke
  | .trip .outgoingCalls (.failed _), _ => exact hout hke

/-- Splitting the events at a state in between. -/
theorem callFailed_trans {K K' : CmdKind → Prop} {a b c : World} (hab : Logs K a b)
    (hbc : Logs K' b c) : CallFailed a c ↔ CallFailed a b ∨ CallFailed b c := by
  obtain ⟨new, hnew, -⟩ := hab
  obtain ⟨new', hnew', -⟩ := hbc
  have hac : c.log = a.log ++ (new ++ new') := by rw [hnew', hnew, List.append_assoc]
  simp only [CallFailed, since_of_append hnew, since_of_append hnew', since_of_append hac,
    List.mem_append, or_and_right, exists_or]

/-- The kinds of command that follow the two call hierarchy round trips. -/
def CmdKind.storesCalls : CmdKind → Prop
  | .read | .file | .openDocument | .request .implementation
  | .upsertEdge .implements | .upsertEdge .calls => True
  | _ => False

/-- Storing the outgoing calls of an anchor stores calls only. -/
private theorem addOutgoing_stores (anchorId : RowId) (anchor : Node) (client : Client)
    (calls : List OutgoingCall) :
    OnlyKinds CmdKind.storesCalls (addOutgoing anchorId anchor client calls) :=
  addOutgoing_onlyKinds ⟨trivial, trivial, trivial, trivial, trivial⟩ trivial ..

/-- A round trip that succeeded is no failure. -/
private theorem not_callFailed_note {w : World} {e : Event} (he : e.callFailure = false) :
    ¬ CallFailed w (w.note e) := by
  rintro ⟨e', he', hfail⟩
  rw [since_of_append (note_log w e), List.mem_singleton] at he'
  subst he'
  rw [he] at hfail
  exact nomatch hfail

/-- An event is logged. -/
private theorem note_logs (w : World) (e : Event) : Logs (fun _ => True) w (w.note e) :=
  ⟨[e], rfl, fun _ _ => trivial⟩

variable {rootUri : String} {anchorId : RowId} {anchor : Node} {client : Client} {w : World}

/-- A materialization in which a call hierarchy round trip fails stores nothing. -/
private theorem materialize_of_failure
    (hfail : CallFailed w ((materializeCallEdges rootUri anchorId anchor .outgoing client).run S w).2) :
    ∃ t w', (materializeCallEdges rootUri anchorId anchor .outgoing client).run S w = (.ok t, w') ∧
      w'.db = w.db := by
  unfold materializeCallEdges at hfail ⊢
  rw [run_bind, run_request] at hfail ⊢
  dsimp only at hfail ⊢
  generalize hreply : S.reply w client (.prepareCallHierarchy anchor.uri
    (asU32 anchor.sel.startLine) (asU32 anchor.sel.startCol)) = reply at hfail ⊢
  rcases reply with e | items
  · exact ⟨_, _, rfl, rfl⟩
  · rcases items with _ | ⟨item, items⟩
    · exact ⟨_, _, rfl, rfl⟩
    · simp only [orTimedOut] at hfail ⊢
      rw [run_bind, run_request] at hfail ⊢
      dsimp only at hfail ⊢
      generalize hout : S.reply _ client (.outgoingCalls item) = reply at hfail ⊢
      rcases reply with e | calls
      · exact ⟨_, _, rfl, rfl⟩
      · -- Both round trips succeeded, and what follows makes no call hierarchy request.
        exfalso
        have hrest := ((addOutgoing_stores anchorId anchor client calls).bind
          fun t => onlyKinds_pure (false || t)).run_log (S := S)
            ((w.note (.trip .prepareCallHierarchy .ok)).note (.trip .outgoingCalls .ok))
        rcases (callFailed_trans (note_logs w _)
          ((note_logs _ (.trip .outgoingCalls .ok)).trans (hrest.mono fun _ _ => trivial))).mp hfail
          with h | h
        · exact not_callFailed_note rfl h
        · rcases (callFailed_trans (note_logs _ _) hrest).mp h with h | h
          · exact not_callFailed_note rfl h
          · exact hrest.not_callFailed id id h

/-! ## The two callers -/

/-- The world after `didOpen` with a text that was read, if any. -/
def World.openedWith (w : World) (client : Client) (uri : String) : Option String → World
  | some text =>
    { w with opened := fun c u => if c = client ∧ u = uri then some text else w.opened c u }
  | none => w

/-- Opening a document leaves the graph. -/
@[simp] theorem openedWith_db (client : Client) (uri : String) (text : Option String) :
    (w.openedWith client uri text).db = w.db := by
  cases text <;> rfl

/-- Opening a document leaves the files. -/
@[simp] theorem openedWith_text (client : Client) (uri : String) (text : Option String) :
    (w.openedWith client uri text).text = w.text := by
  cases text <;> rfl

/-- Opening a document leaves the log. -/
@[simp] theorem openedWith_log (client : Client) (uri : String) (text : Option String) :
    (w.openedWith client uri text).log = w.log := by
  cases text <;> rfl

/-- What opening with a text does. -/
@[simp] theorem run_openText (client : Client) (uri : String) (text : Option String) :
    (QueryEngine.openText client uri text).run S w = (.ok (), w.openedWith client uri text) := by
  cases text with
  | none => rfl
  | some text =>
    unfold QueryEngine.openText
    rw [run_bind, run_openDocument]
    rfl

/-- The freshness check reads the cache row and leaves the state. -/
@[simp] theorem run_isFresh (id : RowId) (hash : Option String) :
    (QueryEngine.isFresh id hash).run S w =
      (.ok (hash.isSome && w.db.calleesCache id == hash), w) := by
  cases hash with
  | none => rfl
  | some hash =>
    unfold QueryEngine.isFresh
    rw [run_bind, run_getCalleesCacheHash]
    rfl

/-- The tables once a failed materialization is recorded as complete. -/
def failedDb (d : Db) (anchorId : RowId) : Option String → Db
  | some hash =>
    { d.invalidateOutgoingCalls anchorId with
      calleesCache := fun a => if a = anchorId then some hash else d.calleesCache a }
  | none => d.invalidateOutgoingCalls anchorId

/-- The miss path that both callers take. -/
def missPath (engine : QueryEngine) (anchorId : RowId) (anchor : Node) (client : Client)
    (hash : Option String) (f : Bool → α) : QueryM α := do
  let timedOut ← engine.rematerialize anchorId anchor client
  QueryEngine.storeHash anchorId hash
  pure (f timedOut)

/-- After a failure the old edges stay invalid, and the hash is stored. -/
private theorem missPath_of_failure (engine : QueryEngine) (hash : Option String) (f : Bool → α)
    (hanchor : w.db.hasNode anchorId = true)
    (hfail : CallFailed w ((missPath engine anchorId anchor client hash f).run S w).2) :
    ∃ a w', (missPath engine anchorId anchor client hash f).run S w = (.ok a, w') ∧
      w'.db = failedDb w.db anchorId hash := by
  unfold missPath at hfail ⊢
  have hinv : Logs (fun _ => True) w
      ((w.note (.invalidated anchorId)).setDb (w.db.invalidateOutgoingCalls anchorId)) :=
    ⟨[.invalidated anchorId], rfl, fun _ _ => trivial⟩
  have hremat : (engine.rematerialize anchorId anchor client).run S w =
      (materializeCallEdges engine.rootUri anchorId anchor .outgoing client).run S
        ((w.note (.invalidated anchorId)).setDb (w.db.invalidateOutgoingCalls anchorId)) := by
    unfold QueryEngine.rematerialize
    rw [run_bind, run_invalidateOutgoingCalls]
  -- A failure is one of the materialization's: neither the invalidation nor the hash makes one.
  have hmat : CallFailed w ((engine.rematerialize anchorId anchor client).run S w).2 →
      ∃ t w₁, (engine.rematerialize anchorId anchor client).run S w = (.ok t, w₁) ∧
        w₁.db = w.db.invalidateOutgoingCalls anchorId := by
    intro h
    rw [hremat] at h ⊢
    have hall : OnlyKinds (fun _ => True)
        (materializeCallEdges engine.rootUri anchorId anchor .outgoing client) :=
      onlyKinds_true _
    rcases (callFailed_trans hinv (hall.run_log _)).mp h with h | h
    · exact absurd h (not_callFailed_note rfl)
    · exact materialize_of_failure h
  rw [run_bind] at hfail ⊢
  rcases hrun : (engine.rematerialize anchorId anchor client).run S w with ⟨e | t, w₁⟩
  · rw [hrun] at hfail hmat
    obtain ⟨t, w₁, hok, -⟩ := hmat hfail
    exact nomatch hok
  · rw [hrun] at hfail hmat
    have hstore : OnlyKinds (· = .setCache)
        (QueryEngine.storeHash anchorId hash >>= fun _ => (pure (f t) : QueryM α)) := by
      refine OnlyKinds.bind ?_ fun _ => trivial
      cases hash with
      | some hash => exact onlyKinds_db rfl
      | none => trivial
    have hbefore : CallFailed w w₁ := by
      have hlog := ((onlyKinds_true (engine.rematerialize anchorId anchor client)).run_log
        (S := S) w)
      rw [hrun] at hlog
      rcases (callFailed_trans hlog (hstore.run_log w₁)).mp hfail with h | h
      · exact h
      · exact absurd h ((hstore.run_log w₁).not_callFailed nofun nofun)
    obtain ⟨_, _, hok, hdb⟩ := hmat hbefore
    cases hok
    cases hash with
    | none => exact ⟨_, _, rfl, hdb⟩
    | some hash =>
      have hnode : w₁.db.hasNode anchorId = true := by
        rw [hdb]
        exact hanchor
      have hstored : (QueryEngine.storeHash anchorId (some hash)).run S w₁ = _ :=
        run_setCalleesCacheHash S w₁ hnode hash
      dsimp only
      rw [run_bind, hstored, hdb]
      exact ⟨_, _, rfl, rfl⟩

/-- Does the anchor's cache row hold the hash of its file as it reads now? -/
def CacheHit (engine : QueryEngine) (w : World) (anchorId : RowId) (anchor : Node) : Prop :=
  ∃ text, w.text anchor.uri = some text ∧
    w.db.calleesCache anchorId = some (contentHash engine.hasher text)

instance (engine : QueryEngine) (w : World) (anchorId : RowId) (anchor : Node) :
    Decidable (CacheHit engine w anchorId anchor) :=
  match h : w.text anchor.uri with
  | none => isFalse fun ⟨_, htext, _⟩ => nomatch h.symm.trans htext
  | some text =>
    decidable_of_iff (w.db.calleesCache anchorId = some (contentHash engine.hasher text))
      ⟨fun hc => ⟨text, h, hc⟩, fun ⟨_, htext, hc⟩ => Option.some.inj (h.symm.trans htext) ▸ hc⟩

/-- The freshness check is the cache hit. -/
private theorem fresh_eq_cacheHit (engine : QueryEngine) (w : World) (anchorId : RowId)
    (anchor : Node) :
    ((((w.text anchor.uri).map (contentHash engine.hasher)).isSome &&
      w.db.calleesCache anchorId == (w.text anchor.uri).map (contentHash engine.hasher)) = true) ↔
      CacheHit engine w anchorId anchor := by
  unfold CacheHit
  cases w.text anchor.uri with
  | none => simp
  | some text => simp

/-- `expand_outgoing_calls`: free on a hit, nothing without a budget, else the miss path. -/
theorem run_expandOutgoingCalls (engine : QueryEngine) (remaining : Nat) :
    (engine.expandOutgoingCalls anchorId anchor (some client) remaining).run S w =
      if CacheHit engine w anchorId anchor then
        (.ok ⟨true, false, remaining⟩, w.openedWith client anchor.uri (w.text anchor.uri))
      else if remaining = 0 then
        (.ok ⟨false, false, remaining⟩, w.openedWith client anchor.uri (w.text anchor.uri))
      else
        (missPath engine anchorId anchor client ((w.text anchor.uri).map (contentHash engine.hasher))
          fun timedOut => (⟨true, timedOut, remaining - 1⟩ : QueryEngine.Expansion)).run S
            (w.openedWith client anchor.uri (w.text anchor.uri)) := by
  unfold QueryEngine.expandOutgoingCalls
  dsimp only
  -- The three reads that come before the decision: the file, the document sent, the stored hash.
  rw [run_bind, run_readFileText]
  dsimp only
  rw [run_bind, run_openText]
  dsimp only
  rw [run_bind, run_isFresh]
  dsimp only
  simp only [openedWith_db, fresh_eq_cacheHit]
  split
  · rfl
  · split <;> rfl

/-- `find_callees` once the anchor is known: nothing on a hit, else the miss path. -/
theorem run_refreshCallees (engine : QueryEngine) :
    (engine.refreshCallees anchorId anchor client).run S w =
      if CacheHit engine w anchorId anchor then
        (.ok false, w.openedWith client anchor.uri (w.text anchor.uri))
      else
        (missPath engine anchorId anchor client ((w.text anchor.uri).map (contentHash engine.hasher))
          id).run S (w.openedWith client anchor.uri (w.text anchor.uri)) := by
  unfold QueryEngine.refreshCallees
  rw [run_bind, run_readFileText]
  dsimp only
  rw [run_bind, run_openText]
  dsimp only
  rw [run_bind, run_isFresh]
  dsimp only
  simp only [openedWith_db, fresh_eq_cacheHit]
  split <;> rfl

/-- No call failed when nothing was logged. -/
private theorem not_callFailed_of_log {w w' : World} (h : w'.log = w.log) : ¬ CallFailed w w' := by
  rintro ⟨e, he, -⟩
  rw [World.since, h, List.drop_length] at he
  exact List.not_mem_nil he

/-- Opening a document logs nothing. -/
private theorem callFailed_openedWith {w' : World} {uri : String} {text : Option String} :
    CallFailed (w.openedWith client uri text) w' ↔ CallFailed w w' := by
  simp only [CallFailed, World.since, openedWith_log]

/-- `expand_outgoing_calls` after a failure. -/
private theorem expand_of_failure (engine : QueryEngine) (remaining : Nat)
    (hanchor : w.db.hasNode anchorId = true)
    (hfail : CallFailed w
      ((engine.expandOutgoingCalls anchorId anchor (some client) remaining).run S w).2) :
    ¬ CacheHit engine w anchorId anchor ∧
      ∃ a w', (engine.expandOutgoingCalls anchorId anchor (some client) remaining).run S w =
          (.ok a, w') ∧ a.usable = true ∧
        w'.db = failedDb w.db anchorId ((w.text anchor.uri).map (contentHash engine.hasher)) := by
  rw [run_expandOutgoingCalls] at hfail ⊢
  -- A hit asks nothing, and without budget nothing is asked either: neither can fail.
  split at hfail
  · exact absurd hfail (not_callFailed_of_log (openedWith_log ..))
  · rename_i hmiss
    split at hfail
    · exact absurd hfail (not_callFailed_of_log (openedWith_log ..))
    · rename_i hbudget
      rw [if_neg hmiss, if_neg hbudget]
      obtain ⟨a, w', hrun, hdb⟩ := missPath_of_failure engine _ _
        (by rw [openedWith_db]; exact hanchor) (callFailed_openedWith.mpr hfail)
      refine ⟨hmiss, a, w', hrun, ?_, by rw [hdb, openedWith_db]⟩
      obtain ⟨t, w₁, -, hrest⟩ := run_bind_eq_ok.mp hrun
      obtain ⟨-, w₂, -, hpure⟩ := run_bind_eq_ok.mp hrest
      cases hpure
      rfl

/-- The refresh of `find_callees` after a failure. -/
private theorem refresh_of_failure (engine : QueryEngine) (hanchor : w.db.hasNode anchorId = true)
    (hfail : CallFailed w ((engine.refreshCallees anchorId anchor client).run S w).2) :
    ¬ CacheHit engine w anchorId anchor ∧
      ∃ a w', (engine.refreshCallees anchorId anchor client).run S w = (.ok a, w') ∧
        w'.db = failedDb w.db anchorId ((w.text anchor.uri).map (contentHash engine.hasher)) := by
  rw [run_refreshCallees] at hfail ⊢
  split at hfail
  · exact absurd hfail (not_callFailed_of_log (openedWith_log ..))
  · rename_i hmiss
    rw [if_neg hmiss]
    obtain ⟨a, w', hrun, hdb⟩ := missPath_of_failure engine _ _
      (by rw [openedWith_db]; exact hanchor) (callFailed_openedWith.mpr hfail)
    exact ⟨hmiss, a, w', hrun, by rw [hdb, openedWith_db]⟩

/-- The anchor's cache row and the valid flags of its outgoing calls are as before. -/
structure KeepsCallees (d d' : Db) (anchorId : RowId) : Prop where
  cache : d'.calleesCache anchorId = d.calleesCache anchorId
  flags : ∀ e : EdgeRow, e.srcId = anchorId → e.edgeType = .calls → (e ∈ d'.edges ↔ e ∈ d.edges)

/-- Nothing can be lost: no outgoing call of the anchor is valid, and its file has no text. -/
def NothingCached (w : World) (anchor : Node) : Prop :=
  (∀ e ∈ w.db.edges, e.srcId = anchor.id → e.edgeType = .calls → e.valid = false) ∧
    w.text anchor.uri = none

/-- What the miss path leaves after a failure is what was there only if nothing was. -/
private theorem failedDb_keeps_iff (engine : QueryEngine)
    (hmiss : ¬ CacheHit engine w anchor.id anchor) :
    KeepsCallees w.db (failedDb w.db anchor.id ((w.text anchor.uri).map (contentHash engine.hasher)))
      anchor.id ↔ NothingCached w anchor := by
  -- The hash that is noted changes no edge.
  have hedges : ∀ hash, (failedDb w.db anchor.id hash).edges =
      (w.db.invalidateOutgoingCalls anchor.id).edges := by
    intro hash
    cases hash <;> rfl
  constructor
  · intro h
    refine ⟨fun e he hsrc ht => ?_, ?_⟩
    · -- An edge that was active before is not after the invalidation, unless it did not count.
      have hmem := (h.flags e hsrc ht).mpr he
      rw [hedges] at hmem
      obtain ⟨e₀, -, rfl⟩ := List.mem_map.mp hmem
      split at hsrc
      · rename_i hcond
        rw [if_pos hcond]
      · rename_i hcond
        rw [if_neg hcond] at ht
        exact absurd ⟨hsrc, ht⟩ hcond
    · -- A hash that is noted after the failure would make the next call a hit.
      cases htext : w.text anchor.uri with
      | none => rfl
      | some text =>
        have hcache := h.cache
        simp only [htext, Option.map_some, failedDb, if_true] at hcache
        exact absurd ⟨text, htext, hcache.symm⟩ hmiss
  · rintro ⟨hinvalid, htext⟩
    rw [htext]
    refine ⟨rfl, fun e hsrc ht => ?_⟩
    rw [hedges]
    constructor
    · intro he
      -- Nothing was active, so the invalidation changes no edge of the anchor.
      obtain ⟨e₀, he₀, rfl⟩ := List.mem_map.mp he
      split at hsrc
      · rename_i hcond
        have hold := hinvalid e₀ he₀ hcond.1 hcond.2
        rw [if_pos hcond]
        obtain ⟨⟨src, dst, t, site, valid⟩, id⟩ := e₀
        simp only at hold
        subst hold
        exact he₀
      · rename_i hcond
        rw [if_neg hcond]
        exact he₀
    · intro he
      refine List.mem_map.mpr ⟨e, he, ?_⟩
      rw [if_pos ⟨hsrc, ht⟩]
      have hold := hinvalid e he hsrc ht
      obtain ⟨⟨src, dst, t, site, valid⟩, id⟩ := e
      simp only at hold
      subst hold
      rfl

/-- The part of `find_callees` after the anchor is resolved. -/
private theorem run_findCallees (engine : QueryEngine) {symref : SymbolRef} (filter : Filter)
    (page : Page) {t : Bool} {w₁ : World}
    (hres : (QueryEngine.resolveAnchor symref (some client)).run S w = (.ok (some anchor, t), w₁)) :
    (engine.findCallees symref filter page (some client)).run S w =
      (engine.refreshCallees anchor.id anchor client >>= fun refreshTimedOut =>
        QueryEngine.readCallsPage anchor.id .outgoing filter page >>= fun result =>
          pure (result, t || refreshTimedOut)).run S w₁ := by
  unfold QueryEngine.findCallees
  rw [run_bind, hres]

end Failure

/-- A failed call hierarchy round trip leaves the anchor's cache row and its outgoing calls as
    they were exactly when there was nothing to lose: no valid outgoing call, and no readable
    file to store a hash of. -/
theorem failed_materialization_keeps_iff (engine : QueryEngine) (S : Servers) (w : World)
    (anchor : Node) (client : Client) (hanchor : w.db.hasNode anchor.id = true) :
    (∀ remaining,
      CallFailed w
        ((engine.expandOutgoingCalls anchor.id anchor (some client) remaining).run S w).2 →
      (KeepsCallees w.db
        ((engine.expandOutgoingCalls anchor.id anchor (some client) remaining).run S w).2.db
        anchor.id ↔ NothingCached w anchor)) ∧
    (∀ symref filter page t w₁,
      (QueryEngine.resolveAnchor symref (some client)).run S w = (.ok (some anchor, t), w₁) →
      CallFailed w ((engine.findCallees symref filter page (some client)).run S w).2 →
      (KeepsCallees w.db ((engine.findCallees symref filter page (some client)).run S w).2.db
        anchor.id ↔ NothingCached w anchor)) := by
  constructor
  · intro remaining hfail
    obtain ⟨hmiss, a, w', hrun, -, hdb⟩ := expand_of_failure engine remaining hanchor hfail
    rw [hrun, hdb]
    exact failedDb_keeps_iff engine hmiss
  · intro symref filter page t w₁ hres hfail
    -- Resolving the anchor writes nothing and makes no call hierarchy request.
    have hkinds : OnlyKinds (fun k => k = .read ∨ k = .request .definition)
        (QueryEngine.resolveAnchor symref (some client)) :=
      resolveAnchor_onlyKinds (.inl rfl) (.inr rfl) ..
    have hreads : OnlyKinds CmdKind.keepsDb (QueryEngine.resolveAnchor symref (some client)) :=
      hkinds.mono fun k hk => by rcases hk with rfl | rfl <;> trivial
    have hdb₁ := hreads.run_db (S := S) w
    have htext₁ := run_text (S := S) (QueryEngine.resolveAnchor symref (some client)) w
    have hlog₁ := hkinds.run_log (S := S) w
    rw [hres] at hdb₁ htext₁ hlog₁
    dsimp only at hdb₁ htext₁ hlog₁
    have htail : ∀ r, OnlyKinds (· = .neighbors)
        (QueryEngine.readCallsPage anchor.id .outgoing filter page >>= fun result =>
          (pure (result, t || r) : QueryM _)) := by
      intro r
      refine OnlyKinds.bind ?_ fun _ => onlyKinds_pure _
      apply readCallsPage_onlyKinds
      rfl
    have hrefreshLog := (onlyKinds_true (engine.refreshCallees anchor.id anchor client)).run_log
      (S := S) w₁
    have hanchor₁ : w₁.db.hasNode anchor.id = true := by
      rw [hdb₁]
      exact hanchor
    rw [run_findCallees engine filter page hres] at hfail ⊢
    rw [run_bind] at hfail ⊢
    rcases hrefresh : (engine.refreshCallees anchor.id anchor client).run S w₁ with ⟨e | r, w₂⟩
    · rw [hrefresh] at hfail hrefreshLog
      have hfail₁ : CallFailed w₁ w₂ := by
        rcases (callFailed_trans hlog₁ hrefreshLog).mp hfail with h | h
        · exact absurd h (hlog₁.not_callFailed nofun nofun)
        · exact h
      obtain ⟨-, a, w', hok, -⟩ := refresh_of_failure (S := S) engine hanchor₁
        (by rw [hrefresh]; exact hfail₁)
      exact nomatch hrefresh.symm.trans hok
    · rw [hrefresh] at hfail hrefreshLog
      dsimp only at hfail ⊢
      have htailLog := (htail r).run_log (S := S) w₂
      have hfail₁ : CallFailed w₁ w₂ := by
        rcases (callFailed_trans (hlog₁.append hrefreshLog) htailLog).mp hfail with h | h
        · rcases (callFailed_trans hlog₁ hrefreshLog).mp h with h | h
          · exact absurd h (hlog₁.not_callFailed nofun nofun)
          · exact h
        · exact absurd h (htailLog.not_callFailed nofun nofun)
      obtain ⟨hmiss, a, w', hok, hdb⟩ := refresh_of_failure (S := S) engine hanchor₁
        (by rw [hrefresh]; exact hfail₁)
      cases hrefresh.symm.trans hok
      have htailReads : OnlyKinds CmdKind.keepsDb
          (QueryEngine.readCallsPage anchor.id .outgoing filter page >>= fun result =>
            (pure (result, t || r) : QueryM _)) :=
        (htail r).mono fun k hk => by rw [hk]; trivial
      rw [htailReads.run_db, hdb, htext₁, hdb₁]
      refine failedDb_keeps_iff engine fun ⟨text, htext, hcache⟩ => hmiss ⟨text, ?_, ?_⟩
      · rw [htext₁]
        exact htext
      · rw [hdb₁]
        exact hcache

/-! ## A server that answers with errors -/

/-- A Python function on two lines of `app.py`. -/
def appFunction (id : RowId) (name : String) (line : Int) : Node where
  id := id
  fqn := "app." ++ name
  uri := "file:///app.py"
  name := name
  language := "python"
  kind := 12
  nodeKind := "Function"
  construct := none
  containerId := none
  range := ⟨line, 0, line + 2, 0⟩
  sel := ⟨line, 4, line, 5⟩
  signature := none
  documentation := none
  detail := none
  signatureHash := none
  valid := true
  orphan := false
  generation := 0
  isExternal := false

/-- `a` calls `b`, as an earlier query found out. -/
def twoFunctions : Db where
  nodes := [appFunction 1 "a" 0, appFunction 2 "b" 3]
  nodesSeq := 2
  edges := [⟨⟨1, 2, .calls, some ⟨"file:///app.py", ⟨1, 4, 1, 7⟩⟩, true⟩, 1⟩]
  edgesSeq := 1
  calleesCache := fun _ => none
  materialized := fun _ _ => false
  indexMeta := fun _ => none

/-- The file is readable and nothing has happened yet. -/
def twoFunctionsWorld : World where
  db := twoFunctions
  text := fun uri => if uri = "file:///app.py" then some "def a(): b()" else none
  opened := fun _ _ => none
  refreshes := []
  log := []

/-- Every round trip gets an error response. -/
def brokenServers : Servers where
  reply := fun _ _ _ => .error .other
  openReply := fun _ _ _ _ => .ok ()
  acquireReply := fun _ _ => .ok ()

/-- The engine of the concrete runs. -/
def appEngine : QueryEngine where
  rootUri := "file:///"
  hasher := fun ws => UInt64.ofNat ws.length
  fuzzyEq := fun _ _ => false

/-- Everything, on one page. -/
def anyFilter : Filter := ⟨none, none, true⟩

/-- The first page. -/
def firstPage : Page := ⟨100, none⟩

/-- On servers that answer with errors, both callers lose the edges. -/
theorem failed_materialization_keeps_iff_broken :
    (KeepsCallees twoFunctions
      ((appEngine.expandOutgoingCalls 1 (appFunction 1 "a" 0) (some ⟨"python"⟩) 30).run
        brokenServers twoFunctionsWorld).2.db 1 ↔
          NothingCached twoFunctionsWorld (appFunction 1 "a" 0)) ∧
    (KeepsCallees twoFunctions
      ((appEngine.findCallees (.fqn "app.a") anyFilter firstPage (some ⟨"python"⟩)).run
        brokenServers twoFunctionsWorld).2.db 1 ↔
          NothingCached twoFunctionsWorld (appFunction 1 "a" 0)) :=
  have h := failed_materialization_keeps_iff appEngine brokenServers twoFunctionsWorld
    (appFunction 1 "a" 0) ⟨"python"⟩ rfl
  ⟨h.1 30 ⟨.trip .prepareCallHierarchy (.failed .other), by decide, rfl⟩,
    h.2 (.fqn "app.a") anyFilter firstPage false twoFunctionsWorld rfl
      ⟨.trip .prepareCallHierarchy (.failed .other), by decide, rfl⟩⟩

/-- With an error response to `prepareCallHierarchy`, both callers lose the known callee and
    store the hash of the file. -/
theorem broken_server_loses_callee :
    CallFailed twoFunctionsWorld
        ((appEngine.expandOutgoingCalls 1 (appFunction 1 "a" 0) (some ⟨"python"⟩) 30).run
          brokenServers twoFunctionsWorld).2 ∧
      ¬ KeepsCallees twoFunctions
        ((appEngine.expandOutgoingCalls 1 (appFunction 1 "a" 0) (some ⟨"python"⟩) 30).run
          brokenServers twoFunctionsWorld).2.db 1 ∧
      ¬ KeepsCallees twoFunctions
        ((appEngine.findCallees (.fqn "app.a") anyFilter firstPage (some ⟨"python"⟩)).run
          brokenServers twoFunctionsWorld).2.db 1 := by
  refine ⟨⟨.trip .prepareCallHierarchy (.failed .other), by decide, rfl⟩, ?_, ?_⟩
  · intro h
    exact absurd h.cache (by decide)
  · intro h
    exact absurd h.cache (by decide)

end Semnav.Query
