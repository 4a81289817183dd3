import Semnav.Spec.CallPathCorrect
import Semnav.Spec.LinkParents
import Semnav.Spec.Reachable

/-!
# What an incoming materialization leaves

An incoming materialization upserts an edge for each reported site, under the key of the
`UNIQUE` constraint.  What is valid afterwards are the reported sites, and the edges from
before whose key was not reported: nothing retires those.

## Key results

- `Db.upsertEdge_hasSite`: the located edges after one upsert
- `addReferences_recorded`, `addIncoming_recorded`: those after a whole answer
- `incoming_exact_iff`: when the edges afterwards are exactly those of the answer
- `vanished_caller_stays`: a caller that the answer no longer contains keeps its edge
-/

namespace Semnav.Graph.Db

/-- A valid edge of type `t` leads from `src` to `dst` at `site`. -/
def HasSite (d : Db) (t : EdgeType) (src dst : RowId) (site : Option Site) : Prop :=
  ∃ e ∈ d.edges, e.srcId = src ∧ e.dstId = dst ∧ e.edgeType = t ∧ e.site = site ∧ e.valid = true

/-- The `UNIQUE` constraint of `edges`, for the located edges of one type. -/
def SitesUnique (d : Db) (t : EdgeType) : Prop :=
  ∀ e ∈ d.edges, ∀ e' ∈ d.edges, e.edgeType = t → e.site.isSome = true →
    e.toEdge.key = e'.toEdge.key → e = e'

/-- A pair of a source and a site has the key of an edge from `src` at `site`. -/
def KeyOf (p : RowId × Site) (src : RowId) (site : Option Site) : Prop :=
  p.1 = src ∧ site.map Site.startKey = some p.2.startKey

/-- Refreshing the row with the key of `e` keeps every key. -/
theorem refreshed_key {d : Db} (hwf : d.WF) {r : EdgeRow} (hr : r ∈ d.edges) {e : Edge}
    (hkey : r.key = e.key) {x : EdgeRow} (hx : x ∈ d.edges) :
    (if x.id = r.id then ({ x with valid := e.valid, site := e.site } : EdgeRow) else x).toEdge.key =
      x.toEdge.key := by
  split
  · rename_i hid
    exact key_refresh hkey (List.inj_on_of_nodup_map hwf.edge_ids_nodup hx hr hid)
  · rfl

/-- An upsert finds the row with its key, so it never makes a second one. -/
theorem upsertEdge_sitesUnique {d d' : Db} {t : EdgeType} (hwf : d.WF) (huniq : d.SitesUnique t)
    {e : Edge} {id : RowId} (h : d.upsertEdge e = .ok (d', id)) : d'.SitesUnique t := by
  intro x hx y hy ht hs hxy
  -- The upsert refreshes the row with its key, or adds one where there is none.
  rcases upsertEdge_ok h with ⟨r, hr, -, hkey, -, rfl⟩ | ⟨hnew, -, -, -, rfl⟩
  · obtain ⟨x', hx', rfl⟩ := List.mem_map.mp hx
    obtain ⟨y', hy', rfl⟩ := List.mem_map.mp hy
    rw [refreshed_key hwf hr hkey hx', refreshed_key hwf hr hkey hy'] at hxy
    have heq : x' = y' := by
      refine huniq x' hx' y' hy' ?_ ?_ hxy
      · split at ht
        · exact ht
        · exact ht
      · split at hs
        · -- The site of the refreshed row is where that of `e` is.
          rename_i hid
          have hsites := congrArg (fun k => k.2.2.2.isSome) hkey
          simp only [Edge.key, Option.isSome_map] at hsites
          rw [List.inj_on_of_nodup_map hwf.edge_ids_nodup hx' hr hid, hsites]
          exact hs
        · exact hs
    rw [heq]
  · -- Of two rows with the key one would be the new one, but then the key was there before.
    cases List.mem_append.mp hx with
    | inl hx =>
      cases List.mem_append.mp hy with
      | inl hy => exact huniq x hx y hy ht hs hxy
      | inr hy =>
        rw [List.mem_singleton.mp hy] at hxy
        exact absurd hxy (hnew x hx)
    | inr hx =>
      cases List.mem_append.mp hy with
      | inl hy =>
        rw [List.mem_singleton.mp hx] at hxy
        exact absurd hxy.symm (hnew y hy)
      | inr hy => rw [List.mem_singleton.mp hx, List.mem_singleton.mp hy]

/-- The located edges after an upsert: the one upserted, and those with another key. -/
theorem upsertEdge_hasSite {d d' : Db} {t : EdgeType} (hwf : d.WF) (huniq : d.SitesUnique t)
    {src dst id : RowId} {s : Site} (h : d.upsertEdge ⟨src, dst, t, some s, true⟩ = .ok (d', id))
    (a b : RowId) (site : Option Site) : d'.HasSite t a b site ↔
      (a = src ∧ b = dst ∧ site = some s) ∨
        (d.HasSite t a b site ∧ ¬ (b = dst ∧ KeyOf (src, s) a site)) := by
  rcases upsertEdge_ok h with ⟨r, hr, -, hkey, -, rfl⟩ | ⟨hnew, -, -, -, rfl⟩
  · -- The row with the key is refreshed.
    have hends : r.srcId = src ∧ r.dstId = dst ∧ r.edgeType = t ∧
        r.site.map Site.startKey = some s.startKey := by
      simpa [Edge.key] using hkey
    have hsome : r.site.isSome = true := by
      cases hsite : r.site with
      | none => simp [hsite] at hends
      | some site => rfl
    have hsame : ∀ r' ∈ d.edges, r'.id = r.id → r' = r := fun r' hr' hid =>
      List.inj_on_of_nodup_map hwf.edge_ids_nodup hr' hr hid
    constructor
    · intro hsite
      obtain ⟨x, hx, ha, hb, ht, hs, hv⟩ := hsite
      obtain ⟨x', hx', rfl⟩ := List.mem_map.mp hx
      by_cases hid : x'.id = r.id
      · rw [if_pos hid] at ha hb hs
        rw [hsame x' hx' hid] at ha hb
        exact .inl ⟨ha.symm.trans hends.1, hb.symm.trans hends.2.1, hs.symm⟩
      · rw [if_neg hid] at ha hb ht hs hv
        refine .inr ⟨⟨x', hx', ha, hb, ht, hs, hv⟩, fun hk => hid ?_⟩
        have hkey' : r.toEdge.key = x'.toEdge.key := by
          simp [Edge.key, hends, ha, hb, ht, hs, hk.1, hk.2.1.symm, hk.2.2]
        rw [huniq r hr x' hx' hends.2.2.1 hsome hkey']
    · intro hsite
      cases hsite with
      | inl h =>
        obtain ⟨rfl, rfl, rfl⟩ := h
        refine ⟨{ r with valid := true, site := some s }, ?_, hends.1, hends.2.1, hends.2.2.1, rfl, rfl⟩
        exact List.mem_map.mpr ⟨r, hr, if_pos rfl⟩
      | inr h =>
        obtain ⟨⟨x, hx, ha, hb, ht, hs, hv⟩, hother⟩ := h
        refine ⟨x, List.mem_map.mpr ⟨x, hx, if_neg fun hid => hother ?_⟩, ha, hb, ht, hs, hv⟩
        have hx := hsame x hx hid
        subst hx
        exact ⟨hb.symm.trans hends.2.1, hends.1.symm.trans ha, hs ▸ hends.2.2.2⟩
  · -- No row has the key.
    have hother : ∀ x ∈ d.edges, x.edgeType = t → ¬ (x.dstId = dst ∧ KeyOf (src, s) x.srcId x.site) := by
      intro x hx ht hk
      refine hnew x hx ?_
      simp [Edge.key, ht, hk.1, hk.2.1.symm, hk.2.2]
    constructor
    · intro hsite
      obtain ⟨x, hx, ha, hb, ht, hs, hv⟩ := hsite
      cases List.mem_append.mp hx with
      | inl hx =>
        refine .inr ⟨⟨x, hx, ha, hb, ht, hs, hv⟩, fun hk => hother x hx ht ?_⟩
        rw [ha, hb, hs]
        exact hk
      | inr hx =>
        rw [List.mem_singleton.mp hx] at ha hb hs
        exact .inl ⟨ha.symm, hb.symm, hs.symm⟩
    · intro hsite
      cases hsite with
      | inl h =>
        obtain ⟨rfl, rfl, rfl⟩ := h
        exact ⟨_, List.mem_append_right _ (List.mem_singleton_self _), rfl, rfl, rfl, rfl, rfl⟩
      | inr h =>
        obtain ⟨⟨x, hx, ha, hb, ht, hs, hv⟩, -⟩ := h
        exact ⟨x, List.mem_append_left _ hx, ha, hb, ht, hs, hv⟩

/-- `d'` is `d` once the sites were upserted as edges of type `t` into the anchor. -/
structure Recorded (t : EdgeType) (anchorId : RowId) (sites : List (RowId × Site)) (d d' : Db) :
    Prop where
  wf : d'.WF
  rows : d.SameRows d'
  unique : d'.SitesUnique t
  /-- Every site is there, under its key. -/
  added : ∀ p ∈ sites, ∃ site, KeyOf p p.1 site ∧ d'.HasSite t p.1 anchorId site
  /-- Nothing else is there but what was before. -/
  source : ∀ src site, d'.HasSite t src anchorId site → (∃ s, site = some s ∧ (src, s) ∈ sites) ∨
    (d.HasSite t src anchorId site ∧ ∀ p ∈ sites, ¬ KeyOf p src site)
  /-- And nothing from before went away. -/
  kept : ∀ src site, d.HasSite t src anchorId site → (∀ p ∈ sites, ¬ KeyOf p src site) →
    d'.HasSite t src anchorId site

section Recorded

variable {t : EdgeType} {anchorId : RowId} {d d' d'' : Db}

/-- Without a site nothing is recorded. -/
theorem Recorded.nil (hwf : d.WF) (huniq : d.SitesUnique t) : Recorded t anchorId [] d d where
  wf := hwf
  rows := .refl d
  unique := huniq
  added := by simp
  source := fun src site h => .inr ⟨h, by simp⟩
  kept := fun src site h _ => h

/-- One site is recorded by one upsert. -/
private theorem Recorded.single (hwf : d.WF) (huniq : d.SitesUnique t) {src id : RowId} {s : Site}
    (h : d.upsertEdge ⟨src, anchorId, t, some s, true⟩ = .ok (d', id)) :
    Recorded t anchorId [(src, s)] d d' := by
  have hsite := upsertEdge_hasSite hwf huniq h
  obtain ⟨hnodes, hseq, hcache, hmat, hmeta⟩ := upsertEdge_frame h
  exact {
    wf := upsertEdge_wf hwf h
    rows := ⟨hnodes, hseq, hcache, hmat, hmeta⟩
    unique := upsertEdge_sitesUnique hwf huniq h
    added := fun p hp => by
      rw [List.mem_singleton.mp hp]
      exact ⟨some s, ⟨rfl, rfl⟩, (hsite ..).mpr (.inl ⟨rfl, rfl, rfl⟩)⟩
    source := fun a site h => by
      -- A site after the upsert is the new one or an old one of another key.
      cases (hsite a anchorId site).mp h with
      | inl h => exact .inl ⟨s, h.2.2, by simp [h.1]⟩
      | inr h =>
        refine .inr ⟨h.1, fun p hp hk => h.2 ⟨rfl, ?_⟩⟩
        rw [List.mem_singleton.mp hp] at hk
        exact hk
    kept := fun a site h hno =>
      (hsite a anchorId site).mpr (.inr ⟨h, fun hk => hno _ (List.mem_singleton_self _) hk.2⟩) }

/-- Two answers, one after the other. -/
theorem Recorded.append {sites sites' : List (RowId × Site)} (h : Recorded t anchorId sites d d')
    (h' : Recorded t anchorId sites' d' d'') : Recorded t anchorId (sites ++ sites') d d'' where
  wf := h'.wf
  rows := h.rows.trans h'.rows
  unique := h'.unique
  added := fun p hp => by
    -- A site recorded first stays, unless a later one has its key.
    cases List.mem_append.mp hp with
    | inr hp => exact h'.added p hp
    | inl hp =>
      obtain ⟨site, hk, hsite⟩ := h.added p hp
      by_cases hagain : ∃ q ∈ sites', KeyOf q p.1 site
      · -- The same key once more: the later site is the one that stays.
        obtain ⟨q, hq, hkq⟩ := hagain
        obtain ⟨site', hk', hsite'⟩ := h'.added q hq
        refine ⟨site', ⟨rfl, ?_⟩, hkq.1 ▸ hsite'⟩
        rw [hk'.2, ← hkq.2, hk.2]
      · exact ⟨site, hk, h'.kept _ _ hsite fun q hq hkq => hagain ⟨q, hq, hkq⟩⟩
  source := fun src site hsite => by
    -- What is stored comes from the second list, from the first, or was there, under no key of
    -- either.
    cases h'.source src site hsite with
    | inl hnew =>
      obtain ⟨s, hs, hmem⟩ := hnew
      exact .inl ⟨s, hs, List.mem_append_right _ hmem⟩
    | inr hold =>
      cases h.source src site hold.1 with
      | inl hnew =>
        obtain ⟨s, hs, hmem⟩ := hnew
        exact .inl ⟨s, hs, List.mem_append_left _ hmem⟩
      | inr hbefore =>
        refine .inr ⟨hbefore.1, fun p hp => ?_⟩
        cases List.mem_append.mp hp with
        | inl hp => exact hbefore.2 p hp
        | inr hp => exact hold.2 p hp
  kept := fun src site hsite hno =>
    h'.kept src site (h.kept src site hsite fun p hp => hno p (List.mem_append_left _ hp))
      fun p hp => hno p (List.mem_append_right _ hp)

end Recorded

end Semnav.Graph.Db

namespace Semnav.Query

open Semnav.ForStd Semnav.Graph Semnav.Indexer

/-- No command of a query breaks the `UNIQUE` constraint. -/
theorem handle_sitesUnique {β : Type} {S : Servers} (c : Cmd β) {w : World} {t : EdgeType}
    (hwf : w.db.WF) (h : w.db.SitesUnique t) : (c.handle S w).2.db.SitesUnique t := by
  have hdb : ∀ (c : DbCmd β) (b : β) (d : Db), c.exec w.db = .ok (b, d) → d.SitesUnique t := by
    intro c b d hexec
    cases c with
    | upsertEdge e => exact Db.upsertEdge_sitesUnique hwf h (exec_upsertEdge_iff.mp hexec)
    | invalidateOutgoingCalls id =>
      -- The flag that it clears is no part of the key.
      cases hexec
      intro x hx y hy ht hs hxy
      obtain ⟨x', hx', rfl⟩ := List.mem_map.mp hx
      obtain ⟨y', hy', rfl⟩ := List.mem_map.mp hy
      have hsame : ∀ z : EdgeRow, (if z.srcId = id ∧ z.edgeType = .calls then
          ({ z with valid := false } : EdgeRow) else z).edgeType = z.edgeType ∧
          (if z.srcId = id ∧ z.edgeType = .calls then
            ({ z with valid := false } : EdgeRow) else z).site = z.site ∧
          (if z.srcId = id ∧ z.edgeType = .calls then
            ({ z with valid := false } : EdgeRow) else z).toEdge.key = z.toEdge.key := by
        intro z
        split <;> exact ⟨rfl, rfl, rfl⟩
      rw [(hsame x').1] at ht
      rw [(hsame x').2.1] at hs
      rw [(hsame x').2.2, (hsame y').2.2] at hxy
      rw [h x' hx' y' hy' ht hs hxy]
    | setCalleesCacheHash id hash =>
      obtain ⟨-, rfl⟩ := exec_setCalleesCacheHash_iff.mp hexec
      exact h
    | markMaterialized id t' =>
      obtain ⟨-, rfl⟩ := exec_markMaterialized_iff.mp hexec
      exact h
    | _ =>
      cases hexec
      exact h
  cases c with
  | db c =>
    simp only [Cmd.handle]
    split
    · rename_i b d hexec
      exact hdb c b d hexec
    · exact h
  | spawnRefresh r =>
    simp only [Cmd.handle]
    split
    · exact h
    · exact h
  | _ => exact h

/-! ## The sites of an answer -/

/-- The sites of a `references` reply that lie in an indexed node, with that node. -/
def referenceSites (d : Db) (locs : List Location) : List (RowId × Site) :=
  locs.filterMap fun loc =>
    (idAt d loc.uri loc.range).map fun id => (id, ⟨loc.uri, loc.range.toGraph⟩)

/-- The indexed caller that an incoming call is attributed to. -/
def callerId (d : Db) (rootUri : String) (item : CallHierarchyItem) : Option RowId :=
  if isSentinel item.selectionRange then
    (d.getNodeByFqn (modulePathFromUri item.uri rootUri)).map (·.id)
  else idAt d item.uri item.selectionRange

/-- The call sites of one caller. -/
def callSites (src : RowId) (uri : String) (ranges : List LspRange) : List (RowId × Site) :=
  ranges.map fun range => (src, ⟨uri, range.toGraph⟩)

/-- The call sites of an `incomingCalls` reply that have an indexed caller. -/
def incomingSites (d : Db) (rootUri : String) (calls : List IncomingCall) : List (RowId × Site) :=
  calls.flatMap fun call =>
    match callerId d rootUri call.from with
    | some src => callSites src call.from.uri call.fromRanges
    | none => []

/-- The sites of references depend on the rows only. -/
theorem referenceSites_congr {d d' : Db} (h : d'.nodes = d.nodes) (locs : List Location) :
    referenceSites d' locs = referenceSites d locs := by
  simp only [referenceSites, idAt, Db.findNodeByPosition_congr h]

/-- The sites of incoming calls depend on the rows only. -/
theorem incomingSites_congr {d d' : Db} (h : d'.nodes = d.nodes) (rootUri : String)
    (calls : List IncomingCall) : incomingSites d' rootUri calls = incomingSites d rootUri calls := by
  have hcaller : ∀ item, callerId d' rootUri item = callerId d rootUri item := by
    intro item
    simp only [callerId, idAt, Db.findNodeByPosition_congr h, Db.getNodeByFqn, h]
  simp only [incomingSites, hcaller]

/-! ## The runs -/

section Runs

variable {S : Servers} {w w' : World} {anchorId : RowId}

/-- What an edge upsert that succeeded did. -/
theorem run_upsertEdge_ok {e : Edge} {id : RowId}
    (h : (db (.upsertEdge e)).run S w = (.ok id, w')) : w.db.upsertEdge e = .ok (w'.db, id) := by
  simp only [run_db, DbCmd.exec, bind, Except.bind] at h
  cases hup : w.db.upsertEdge e with
  | error err =>
    rw [hup] at h
    cases h
  | ok r =>
    rw [hup] at h
    cases h
    rfl

/-- The sites of one caller are recorded. -/
theorem addCallSites_recorded {src : RowId} {uri : String} {ranges : List LspRange}
    (hwf : w.db.WF) (huniq : w.db.SitesUnique .calls)
    (h : (addCallSites src anchorId uri ranges).run S w = (.ok (), w')) :
    w.db.Recorded .calls anchorId (callSites src uri ranges) w'.db := by
  induction ranges generalizing w with
  | nil =>
    cases h
    exact .nil hwf huniq
  | cons range rest ih =>
    obtain ⟨id, w₁, hone, hrest⟩ := run_bind_eq_ok.mp h
    have hfirst := Db.Recorded.single hwf huniq (run_upsertEdge_ok hone)
    exact hfirst.append (ih hfirst.wf hfirst.unique hrest)

/-- The references of the anchor are recorded. -/
private theorem addReferences_recorded {locs : List Location} (hwf : w.db.WF)
    (huniq : w.db.SitesUnique .references)
    (h : (addReferences anchorId locs).run S w = (.ok (), w')) :
    w.db.Recorded .references anchorId (referenceSites w.db locs) w'.db := by
  -- Induction on the locations.  One that no indexed node contains adds no site.
  induction locs generalizing w with
  | nil =>
    cases h
    exact .nil hwf huniq
  | cons loc rest ih =>
    obtain ⟨container, w₁, hat, hrest⟩ := run_bind_eq_ok.mp h
    rw [run_nodeAt] at hat
    cases hat
    cases hfound : w.db.findNodeByPosition loc.uri loc.range.start.line loc.range.start.character with
    | none =>
      rw [hfound] at hrest
      have hsites : referenceSites w.db (loc :: rest) = referenceSites w.db rest := by
        simp [referenceSites, idAt, hfound]
      rw [hsites]
      exact ih hwf huniq hrest
    | some container =>
      rw [hfound] at hrest
      obtain ⟨id, w₁, hone, hrest⟩ := run_bind_eq_ok.mp hrest
      -- One upsert, and the rows are those of before, so the later locations mean the same sites.
      have hfirst := Db.Recorded.single hwf huniq (run_upsertEdge_ok hone)
      have hsites : referenceSites w.db (loc :: rest) =
          (container.id, ⟨loc.uri, loc.range.toGraph⟩) :: referenceSites w₁.db rest := by
        rw [referenceSites_congr hfirst.rows.nodes]
        simp [referenceSites, idAt, hfound]
      rw [hsites]
      exact hfirst.append (ih hfirst.wf hfirst.unique hrest)

/-- (a caller is read off the rows) -/
theorem run_incomingCaller (rootUri : String) (item : CallHierarchyItem) :
    ∃ caller, (incomingCaller rootUri item).run S w = (.ok caller, w) ∧
      caller.map (·.id) = callerId w.db rootUri item := by
  unfold incomingCaller callerId
  split
  · exact ⟨_, run_getNodeByFqn S w _, rfl⟩
  · exact ⟨_, run_nodeAt .., rfl⟩

/-- All the incoming calls of the anchor are recorded. -/
private theorem addIncoming_recorded {rootUri : String} {calls : List IncomingCall} (hwf : w.db.WF)
    (huniq : w.db.SitesUnique .calls)
    (h : (addIncoming rootUri anchorId calls).run S w = (.ok (), w')) :
    w.db.Recorded .calls anchorId (incomingSites w.db rootUri calls) w'.db := by
  -- Induction on the calls.  A call from outside the index adds no site.
  induction calls generalizing w with
  | nil =>
    cases h
    exact .nil hwf huniq
  | cons call rest ih =>
    obtain ⟨caller, hcaller, hid⟩ := run_incomingCaller (S := S) (w := w) rootUri call.from
    obtain ⟨caller', w₁, hrun, hrest⟩ := run_bind_eq_ok.mp h
    rw [hcaller] at hrun
    cases hrun
    cases caller with
    | none =>
      have hsites : incomingSites w.db rootUri (call :: rest) = incomingSites w.db rootUri rest := by
        simp [incomingSites, ← hid]
      rw [hsites]
      exact ih hwf huniq hrest
    | some caller =>
      obtain ⟨_, w₁, hone, hrest⟩ := run_bind_eq_ok.mp hrest
      -- One upsert for each range, and the later calls mean the same sites.
      have hfirst := addCallSites_recorded hwf huniq hone
      have hsites : incomingSites w.db rootUri (call :: rest) =
          callSites caller.id call.from.uri call.fromRanges ++ incomingSites w₁.db rootUri rest := by
        rw [incomingSites_congr hfirst.rows.nodes]
        simp [incomingSites, ← hid]
      rw [hsites]
      exact hfirst.append (ih hfirst.wf hfirst.unique hrest)

/-- The server answers the references of the anchor with these locations. -/
def RepliesReferences (S : Servers) (w : World) (client : Client) (anchor : Node)
    (locs : List Location) : Prop :=
  S.reply w client (.references anchor.uri (asU32 anchor.sel.startLine)
    (asU32 anchor.sel.startCol) true) = .ok locs

/-- The server answers both round trips of an incoming materialization, with these calls:
    none where the anchor is no call hierarchy item. -/
def RepliesIncoming (S : Servers) (w : World) (client : Client) (anchor : Node)
    (calls : List IncomingCall) : Prop :=
  ∃ items, S.reply w client (.prepareCallHierarchy anchor.uri (asU32 anchor.sel.startLine)
      (asU32 anchor.sel.startCol)) = .ok items ∧
    match items with
    | [] => calls = []
    | item :: _ =>
      S.reply (w.note (.trip .prepareCallHierarchy .ok)) client (.incomingCalls item) = .ok calls

/-- Materializing the references records what the server reports. -/
private theorem materializeReferences_recorded {client : Client} {anchor : Node}
    {locs : List Location}
    {timedOut : Bool} (hwf : w.db.WF) (huniq : w.db.SitesUnique .references)
    (hreply : RepliesReferences S w client anchor locs)
    (h : (materializeReferences anchorId anchor client).run S w = (.ok timedOut, w')) :
    w.db.Recorded .references anchorId (referenceSites w.db locs) w'.db := by
  obtain ⟨reply, w₁, hrequest, hrest⟩ := run_bind_eq_ok.mp h
  rw [run_request, hreply] at hrequest
  cases hrequest
  obtain ⟨_, w₂, hadd, hpure⟩ := run_bind_eq_ok.mp hrest
  cases hpure
  have hrecorded := addReferences_recorded (w := w.note _) hwf huniq hadd
  exact hrecorded

/-- Materializing the callers records what the server reports. -/
theorem materializeIncoming_recorded {rootUri : String} {client : Client} {anchor : Node}
    {calls : List IncomingCall} {timedOut : Bool} (hwf : w.db.WF)
    (huniq : w.db.SitesUnique .calls) (hreply : RepliesIncoming S w client anchor calls)
    (h : (materializeCallEdges rootUri anchorId anchor .incoming client).run S w =
      (.ok timedOut, w')) :
    w.db.Recorded .calls anchorId (incomingSites w.db rootUri calls) w'.db := by
  -- The reply to the first request says whether a second one is made.
  obtain ⟨items, hprepare, hcalls⟩ := hreply
  obtain ⟨reply, w₁, hrequest, hrest⟩ := run_bind_eq_ok.mp h
  rw [run_request, hprepare] at hrequest
  cases hrequest
  -- Without an item there are no calls, and nothing is recorded.
  cases items with
  | nil =>
    cases hrest
    cases hcalls
    exact .nil hwf huniq
  | cons item rest =>
    obtain ⟨reply, w₂, hrequest, hrest⟩ := run_bind_eq_ok.mp hrest
    rw [run_request] at hrequest
    have hincoming : S.reply (w.note (.trip .prepareCallHierarchy .ok)) client
        (.incomingCalls item) = .ok calls := hcalls
    simp only [Request.method, Outcome.ofReply, hincoming] at hrequest
    cases hrequest
    obtain ⟨_, w₃, hadd, hpure⟩ := run_bind_eq_ok.mp hrest
    cases hpure
    have hrecorded := addIncoming_recorded (w := (w.note _).note _) hwf huniq hadd
    exact hrecorded

end Runs

/-! ## Exactness -/

/-- The valid edges of type `t` into the anchor from valid nodes are the reported sites, one edge
    for each. -/
structure IncomingExact (d : Db) (t : EdgeType) (anchorId : RowId) (sites : List (RowId × Site)) :
    Prop where
  sites_iff : ∀ src site, d.ValidId src →
    (d.HasSite t src anchorId site ↔ ∃ s, site = some s ∧ (src, s) ∈ sites)
  one : ∀ e ∈ d.edges, ∀ e' ∈ d.edges, e.edgeType = t → e'.edgeType = t → e.dstId = anchorId →
    e'.dstId = anchorId → e.valid = true → e'.valid = true → d.ValidId e.srcId →
    e.srcId = e'.srcId → e.site = e'.site → e = e'

/-- Every valid edge into the anchor from a valid node has the key of a reported site, and the
    sites reported in one node differ in their start. -/
structure Reconfirmed (d : Db) (t : EdgeType) (anchorId : RowId) (sites : List (RowId × Site)) :
    Prop where
  confirmed : ∀ src site, d.ValidId src → d.HasSite t src anchorId site →
    ∃ p ∈ sites, Db.KeyOf p src site
  apart : ∀ src s s', d.ValidId src → (src, s) ∈ sites → (src, s') ∈ sites →
    s.startKey = s'.startKey → s = s'

/-- Sites that were recorded are exact if and only if they reconfirm what was there. -/
private theorem exact_iff_of_recorded {t : EdgeType} {anchorId : RowId}
    {sites : List (RowId × Site)}
    {d d' : Db} (h : d.Recorded t anchorId sites d') :
    IncomingExact d' t anchorId sites ↔ Reconfirmed d t anchorId sites := by
  have hvalid : ∀ src, d'.ValidId src ↔ d.ValidId src := fun src =>
    ⟨Db.ValidId.congr h.rows.nodes, Db.ValidId.congr h.rows.nodes.symm⟩
  constructor
  · intro hexact
    constructor
    · intro src site hsrc hsite
      by_contra hno
      -- An edge whose key is not reported stays, so it would have to be reported.
      have hkept := h.kept src site hsite fun p hp hk => hno ⟨p, hp, hk⟩
      obtain ⟨s, rfl, hmem⟩ := (hexact.sites_iff src site ((hvalid src).mpr hsrc)).mp hkept
      exact hno ⟨(src, s), hmem, rfl, rfl⟩
    · intro src s s' hsrc hs hs' hstart
      -- Two sites with one key have one edge, which lies at both.
      have hat : ∀ s, (src, s) ∈ sites → d'.HasSite t src anchorId (some s) := fun s hs =>
        (hexact.sites_iff src (some s) ((hvalid src).mpr hsrc)).mpr ⟨s, rfl, hs⟩
      obtain ⟨e, he, hsrc', hdst, ht, hsite, -⟩ := hat s hs
      obtain ⟨e', he', hsrc'', hdst', ht', hsite', -⟩ := hat s' hs'
      have hkey : e.toEdge.key = e'.toEdge.key := by
        simp [Edge.key, hsrc', hsrc'', hdst, hdst', ht, ht', hsite, hsite', hstart]
      have heq := h.unique e he e' he' ht (by simp [hsite]) hkey
      rw [heq, hsite'] at hsite
      exact (Option.some.inj hsite).symm
  · intro hre
    have hsites : ∀ src site, d'.ValidId src →
        (d'.HasSite t src anchorId site ↔ ∃ s, site = some s ∧ (src, s) ∈ sites) := by
      intro src site hsrc
      have hsrc := (hvalid src).mp hsrc
      constructor
      · intro hsite
        cases h.source src site hsite with
        | inl hnew => exact hnew
        | inr hold =>
          obtain ⟨p, hp, hk⟩ := hre.confirmed src site hsrc hold.1
          exact absurd hk (hold.2 p hp)
      · intro hmem
        obtain ⟨s, rfl, hs⟩ := hmem
        obtain ⟨site, hk, hsite⟩ := h.added (src, s) hs
        cases h.source src site hsite with
        | inl hnew =>
          obtain ⟨s', rfl, hs'⟩ := hnew
          have hstart : s'.startKey = s.startKey := Option.some.inj hk.2
          rw [hre.apart src s s' hsrc hs hs' hstart.symm]
          exact hsite
        | inr hold => exact absurd hk (hold.2 (src, s) hs)
    refine ⟨hsites, fun e he e' he' ht ht' hdst hdst' hv _ hsrc hends hsite => ?_⟩
    -- A valid edge has a site, and the key of a located edge is its own.
    obtain ⟨s, hs, -⟩ := (hsites e.srcId e.site hsrc).mp ⟨e, he, rfl, hdst, ht, rfl, hv⟩
    refine h.unique e he e' he' ht (by simp [hs]) ?_
    simp [Edge.key, hends, hsite, hdst, hdst', ht, ht']

/-- An incoming materialization whose round trips were all answered, run alone, makes the valid
    incoming edges exact if and only if the answer reconfirms every such edge from before, and
    tells its sites apart by their starts. -/
theorem incoming_exact_iff (S : Servers) (w : World) (hwf : w.db.WF) (anchorId : RowId)
    (anchor : Node) (client : Client) (timedOut : Bool) (w' : World) :
    (∀ locs, w.db.SitesUnique .references → RepliesReferences S w client anchor locs →
      (materializeReferences anchorId anchor client).run S w = (.ok timedOut, w') →
      (IncomingExact w'.db .references anchorId (referenceSites w.db locs) ↔
        Reconfirmed w.db .references anchorId (referenceSites w.db locs))) ∧
    ∀ rootUri calls, w.db.SitesUnique .calls → RepliesIncoming S w client anchor calls →
      (materializeCallEdges rootUri anchorId anchor .incoming client).run S w =
        (.ok timedOut, w') →
      (IncomingExact w'.db .calls anchorId (incomingSites w.db rootUri calls) ↔
        Reconfirmed w.db .calls anchorId (incomingSites w.db rootUri calls)) := by
  constructor
  · intro locs huniq hreply hrun
    exact exact_iff_of_recorded (materializeReferences_recorded hwf huniq hreply hrun)
  · intro rootUri calls huniq hreply hrun
    exact exact_iff_of_recorded (materializeIncoming_recorded hwf huniq hreply hrun)

/-- No query breaks the `UNIQUE` constraint. -/
theorem run_sitesUnique {α : Type} {S : Servers} (q : QueryM α) {w : World} {t : EdgeType}
    (hstored : w.db.Stored) (h : w.db.SitesUnique t) : (q.run S w).2.db.SitesUnique t := by
  refine (Prog.Issues.run_rel (Cmd.handle S)
    (fun a b => a.db.Stored ∧ a.db.SitesUnique t → b.db.Stored ∧ b.db.SitesUnique t)
    (fun _ h => h) (fun hab hbc ha => hbc (hab ha)) (fun _ c w _ hs => ?_) (onlyKinds_true q) _
    ⟨hstored, h⟩).2
  exact ⟨handle_stored c hs.1, handle_sitesUnique c hs.1.toWF hs.2⟩

/-- A reconcile brings no second row of a site, outside of `contains`. -/
theorem reconcile_sitesUnique {H : Hasher} {d d' : Db} {t : EdgeType} (ht : t ≠ .contains)
    (hstored : d.Stored) (h : d.SitesUnique t) {args : FileArgs} {syms : List ReconcileSymbol}
    (hline : ∀ s ∈ syms, 0 ≤ s.range.startLine) {o : ReconcileOutcome}
    (hok : reconcileFileSymbols H d args syms = .ok (d', o)) : d'.SitesUnique t := by
  obtain ⟨ids, hr⟩ := reconcile_reconciled H hstored hline hok
  intro x hx y hy htx hs hxy
  have hty : y.edgeType = t := by
    have htypes := congrArg (fun k => k.2.2.1) hxy
    exact htypes.symm.trans htx
  -- Both are rows from before, perhaps without their validity.
  obtain ⟨x', hx', rfl, -, -⟩ := (hr.edges_other x (htx ▸ ht)).mp hx
  obtain ⟨y', hy', rfl, -, -⟩ := (hr.edges_other y (hty ▸ ht)).mp hy
  rw [h x' hx' y' hy' htx hs hxy]

/-- In a reachable graph the `UNIQUE` constraint holds. -/
theorem Reachable.sitesUnique {H : Hasher} {w : World} (h : Reachable H w) {t : EdgeType}
    (ht : t ≠ .contains) : w.db.SitesUnique t := by
  induction h with
  | start hdb =>
    rw [hdb]
    exact fun e he => absurd he List.not_mem_nil
  | env hw hs ih =>
    cases hs with
    | reconcile hline hok => exact reconcile_sitesUnique ht hw.stored ih hline hok
    | upsertNode args containerId hline hok =>
      have hedges := (upsertNode_frame hw.stored.toWF hok).1
      intro x hx y hy
      dsimp only [setDb_db] at hx hy
      rw [hedges] at hx hy
      exact ih x hx y hy
    | _ => exact ih
  | query hw S q ih => exact run_sitesUnique q hw.stored ih

/-! ## A caller that no longer calls -/

/-- The callers of `b`, for which the server lists none. -/
theorem incoming_exact_iff_two :
    IncomingExact
        ((materializeCallEdges "file:///" 2 (appFunction 2 "b" 3) .incoming ⟨"python"⟩).run
          appServers twoFunctionsWorld).2.db .calls 2 (incomingSites twoFunctions "file:///" []) ↔
      Reconfirmed twoFunctions .calls 2 (incomingSites twoFunctions "file:///" []) :=
  (incoming_exact_iff appServers twoFunctionsWorld twoFunctions_stored.toWF 2 (appFunction 2 "b" 3)
    ⟨"python"⟩ false _).2 "file:///" [] (fun _ he _ he' _ _ _ =>
      (List.mem_singleton.mp he).trans (List.mem_singleton.mp he').symm) ⟨_, rfl, rfl⟩ rfl

/-- The server says that nothing calls `b` any more, and both round trips are answered: the
    edge from `a` is still valid afterwards. -/
theorem vanished_caller_stays :
    RepliesIncoming appServers twoFunctionsWorld ⟨"python"⟩ (appFunction 2 "b" 3) [] ∧
    ∃ w', (materializeCallEdges "file:///" 2 (appFunction 2 "b" 3) .incoming ⟨"python"⟩).run
        appServers twoFunctionsWorld = (.ok false, w') ∧
      ¬ IncomingExact w'.db .calls 2 (incomingSites twoFunctions "file:///" []) := by
  refine ⟨⟨_, rfl, rfl⟩, _, rfl, fun h => ?_⟩
  have hsite : twoFunctions.HasSite .calls 1 2 (some ⟨"file:///app.py", ⟨1, 4, 1, 7⟩⟩) :=
    ⟨_, List.mem_cons_self, rfl, rfl, rfl, rfl, rfl⟩
  obtain ⟨s, -, hs⟩ := (h.sites_iff 1 _ ⟨appFunction 1 "a" 0, by decide, rfl, rfl⟩).mp hsite
  exact nomatch hs

end Semnav.Query
