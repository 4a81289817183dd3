import Semnav.Spec.CallPathSearch

/-!
# `find_call_path` with servers that answer

With answers that do not fail and cache hits that are exact, the search decides reachability
over the relation "the materialization of `a` leaves an edge to `b`", up to the depth bound
and the budget, and finds shortest paths over what it read.

## Key results

- `leaves_iff`: the relation, as a function of the answers and the rows
- `find_call_path_correct`: the four properties of the search
-/

namespace Semnav.Query

open Semnav.ForStd Semnav.Graph Semnav.Indexer QueryEngine

/-! ## The statement's notions -/

/-- A materialization of `a` in this world leaves an edge to `b` that a reader sees. -/
def Leaves (engine : QueryEngine) (S : Servers) (client : Client) (w : World) (a b : RowId) :
    Prop :=
  ∃ n ∈ w.db.nodes, n.id = a ∧ ∃ t w',
    (engine.rematerialize n.id n client).run S w = (.ok t, w') ∧
      ∃ row ∈ w'.db.getNeighbors n.id .calls .outgoing, row.1.id = b

/-- Where the cache row of a node holds the hash of its file, its visible callees are those
    that a materialization would leave. -/
def ExactHits (engine : QueryEngine) (S : Servers) (client : Client) (w : World) : Prop :=
  ∀ n ∈ w.db.nodes, CacheHit engine w n.id n → ∀ b,
    (∃ row ∈ w.db.getNeighbors n.id .calls .outgoing, row.1.id = b) ↔
      Leaves engine S client w n.id b

/-- Both ends of the request resolve, one after the other. -/
def ResolveTo (S : Servers) (client : Option Client) (w : World) (from_ to_ : SymbolRef)
    (fromNode toNode : Node) : Prop :=
  ∃ w', (do
    let a ← resolveAnchor from_ client
    let b ← resolveAnchor to_ client
    pure (a.1, b.1) : QueryM _).run S w = (.ok (some fromNode, some toNode), w')

section Correct

variable {engine : QueryEngine} {S : Servers} {A : Answers} {client : Client} {w : World}

/-- What a materialization leaves is what the answers resolve to. -/
private theorem leaves_iff (hwf : w.db.WF) (hA : S.Follows A w.text) (a b : RowId) :
    Leaves engine S client w a b ↔
      ∃ n ∈ w.db.nodes, n.id = a ∧ b ∈ outgoingTargets A w.db client n := by
  refine exists_congr fun n => and_congr_right fun hn => and_congr_right fun _ => ?_
  obtain ⟨t, w', hrun, targets, hw', htargets⟩ :=
    rematerialize_returns (S := S) engine client hwf n (Db.hasNode_of_mem hn)
  obtain rfl := htargets A hA.lists
  have hids : (∃ row ∈ w'.db.getNeighbors n.id .calls .outgoing, row.1.id = b) ↔
      b ∈ outgoingTargets A w.db client n := by
    rw [← mem_calleeIds_iff_row hw'.wf, mem_calleeIds hw'.wf, hw'.calls]
    -- A refresh leaves the anchor exactly its targets, and the rows they name are valid nodes.
    simp only [ne_eq, not_true_eq_false, false_and, true_and, false_or]
    exact and_iff_right_of_imp fun hb => (hw'.valid b hb).congr hw'.rows.nodes.symm
  constructor
  · rintro ⟨t', w'', hrun', hrow⟩
    cases hrun.symm.trans hrun'
    exact hids.mp hrow
  · intro hb
    exact ⟨t, w', hrun, hids.mpr hb⟩

/-! ## Resolving the two ends -/

/-- Resolving locations changes nothing. -/
private theorem firstResolved_returns (locs : List Location) :
    (firstResolved locs).Returns S w fun node w' =>
      w' = w ∧ ∀ n, node = some n → n ∈ w.db.nodes := by
  induction locs with
  | nil => exact Prog.Returns.pure ⟨rfl, by simp⟩
  | cons loc rest ih =>
    refine Prog.Returns.bind_run (run_nodeAt ..) ?_
    cases hfound : w.db.findNodeByPosition loc.uri loc.range.start.line loc.range.start.character with
    | none => exact ih
    | some node =>
      refine Prog.Returns.pure ⟨rfl, fun n hn => ?_⟩
      cases hn
      exact (Db.findNodeByPosition_mem hfound).1

/-- A node found by name is a row. -/
theorem getNodeByFqn_mem {d : Db} {fqn : String} {n : Node} (h : d.getNodeByFqn fqn = some n) :
    n ∈ d.nodes := List.mem_of_find?_eq_some h

/-- A resolved anchor is a row, and resolving writes nothing. -/
theorem resolveAnchor_returns (symref : SymbolRef) (client : Option Client) :
    (resolveAnchor symref client).Returns S w fun r w' =>
      w'.db = w.db ∧ w'.text = w.text ∧ (∀ n, r.1 = some n → n ∈ w.db.nodes) ∧
        ∃ events, w'.log = w.log ++ events ∧ ∀ e ∈ events, ∃ outcome, e = .trip .definition outcome := by
  cases symref with
  | fqn fqn =>
    -- A lookup by name asks the database alone, so no request is logged.
    refine Prog.Returns.bind_run (run_getNodeByFqn S w fqn) (Prog.Returns.pure ⟨rfl, rfl, ?_, ?_⟩)
    · exact fun n hn => getNodeByFqn_mem hn
    · exact ⟨[], (List.append_nil _).symm, by simp⟩
  | «at» uri line character =>
    cases client with
    | none =>
      -- Without a server the position is looked up in the database too.
      refine Prog.Returns.bind_run (run_findNodeByPosition S w uri line character)
        (Prog.Returns.pure ⟨rfl, rfl, ?_, ?_⟩)
      · exact fun n hn => (Db.findNodeByPosition_mem hn).1
      · exact ⟨[], (List.append_nil _).symm, by simp⟩
    | some client =>
      refine Prog.Returns.bind_run (run_request S w client _) ?_
      -- The server's locations are tried in order; the first one that is stored is the anchor.
      refine Prog.Returns.bind (firstResolved_returns _) fun node w' ⟨hw', hnode⟩ => ?_
      subst hw'
      cases node with
      | some node =>
        refine Prog.Returns.pure ⟨rfl, rfl, hnode, [_], rfl, fun e he => ?_⟩
        exact ⟨_, List.mem_singleton.mp he⟩
      | none =>
        -- None of them is stored: the database is asked for the position.
        refine Prog.Returns.bind_run (run_findNodeByPosition S _ uri line character)
          (Prog.Returns.pure ⟨rfl, rfl, ?_, [_], rfl, fun e he => ?_⟩)
        · exact fun n hn => (Db.findNodeByPosition_mem hn).1
        · exact ⟨_, List.mem_singleton.mp he⟩

/-- `find_call_path` once both ends are resolved: rows of the graph, reached without a write. -/
theorem run_findCallPath {client : Option Client} {from_ to_ : SymbolRef} {fromNode toNode : Node}
    (h : ResolveTo S client w from_ to_ fromNode toNode) (fuel maxDepth maxLspCalls : Nat) :
    ∃ w₁ events timedOut, w₁.db = w.db ∧ w₁.text = w.text ∧ w₁.log = w.log ++ events ∧
      (∀ e ∈ events, ∃ outcome, e = .trip .definition outcome) ∧
      fromNode ∈ w.db.nodes ∧ toNode ∈ w.db.nodes ∧
      (engine.findCallPath fuel from_ to_ maxDepth maxLspCalls client).run S w =
        (if fromNode.id = toNode.id then
          pure (some (⟨true, [.fromNode fromNode], false, [], []⟩, timedOut))
        else engine.searchLoop toNode.id maxDepth client fuel
          (.init fromNode maxLspCalls timedOut) : QueryM _).run S w₁ := by
  -- Both ends were resolved in the run of the hypothesis, which is the same run here.
  obtain ⟨w', hrun⟩ := h
  obtain ⟨a, wa, ha, hrun⟩ := run_bind_eq_ok.mp hrun
  obtain ⟨b, wb, hb, hrun⟩ := run_bind_eq_ok.mp hrun
  obtain ⟨a', wa', ha', hdba, htexta, hnodea, evsa, hloga, htripsa⟩ :=
    resolveAnchor_returns (S := S) (w := w) from_ client
  cases ha.symm.trans ha'
  obtain ⟨b', wb', hb', hdbb, htextb, hnodeb, evsb, hlogb, htripsb⟩ :=
    resolveAnchor_returns (S := S) (w := wa) to_ client
  cases hb.symm.trans hb'
  obtain ⟨a, ta⟩ := a
  obtain ⟨b, tb⟩ := b
  cases hrun
  refine ⟨w', evsa ++ evsb, ta || tb, hdbb.trans hdba, htextb.trans htexta,
    by rw [hlogb, hloga, List.append_assoc], fun e he => ?_, hnodea _ rfl, ?_, ?_⟩
  · -- The events are the first resolution's and then the second's.
    rcases List.mem_append.mp he with he | he
    · exact htripsa e he
    · exact htripsb e he
  · rw [← hdba]
    exact hnodeb _ rfl
  · exact (run_bind_of_ok S w _ ha).trans (run_bind_of_ok S wa _ hb)

/-- Resolving reads no callees and starts no materialization. -/
private theorem countP_definitions {events : List Event}
    (h : ∀ e ∈ events, ∃ outcome, e = .trip .definition outcome) :
    events.countP Event.isInvalidation = 0 := by
  rw [List.countP_eq_zero]
  intro e he
  obtain ⟨outcome, rfl⟩ := h e he
  exact Bool.false_ne_true

/-- Resolving the two ends logs definitions only. -/
theorem mem_append_definitions {resolving events : List Event} {e : Event}
    (h : ∀ e ∈ resolving, ∃ outcome, e = .trip .definition outcome)
    (he : ∀ outcome, e ≠ .trip .definition outcome) :
    e ∈ resolving ++ events ↔ e ∈ events := by
  rw [List.mem_append]
  refine or_iff_right fun hmem => ?_
  obtain ⟨outcome, heq⟩ := h e hmem
  exact he outcome heq

/-- The edges read in the call are those of the search. -/
theorem edgeRead_append_definitions {resolving : List Event}
    (h : ∀ e ∈ resolving, ∃ outcome, e = .trip .definition outcome) (events : List Event)
    (a b : RowId) :
    EdgeRead (resolving ++ events) a b ↔ EdgeRead events a b := by
  refine exists_congr fun rows => and_congr_left fun _ => ?_
  exact mem_append_definitions h fun outcome heq => nomatch heq

/-! ## What was read against what there is -/

/-- Every list that was read holds what a materialization would leave, if the budget suffices
    for the nodes that were not fresh. -/
private theorem ReadCase.complete {w₀ : World} {events : List Event} {limit : Bool}
    {maxLspCalls : Nat}
    (hwf : w₀.db.WF) (hA : S.Follows A w₀.text) (hexact : ExactHits engine S client w₀)
    {r : RowId × List RowId}
    (h : ReadCase S engine (some client) maxLspCalls w₀ events limit r)
    (hlimit : limit = false ∨ coldReads engine w₀ events ≤ maxLspCalls) (b : RowId)
    (hb : Leaves engine S client w₀ r.1 b) : b ∈ r.2 := by
  cases h with
  | @hit n ys hn hclient hhit hys =>
    refine (hys b).mpr ?_
    rw [← mem_calleeIds hwf, mem_calleeIds_iff_row hwf]
    exact (hexact n hn hhit b).mpr hb
  | @refused n ys hn hlim hwhy =>
    rcases hlimit with hl | hsuff
    · exact absurd (hlim.symm.trans hl) nofun
    · -- A refusal takes one cold node more than the budget has calls.
      rcases hwhy with hnone | hspent
      · cases hnone
      · omega
  | @made n ys targets c hn hclient hmiss hinv hys hanswers =>
    cases hclient
    rw [leaves_iff hwf hA] at hb
    obtain ⟨m, hm, hid, hb⟩ := hb
    obtain rfl := hwf.node_ext hm hn hid
    rw [hys b, hanswers A hA.lists]
    exact hb

/-- Definitions are no reads. -/
theorem readsOf_definitions {events : List Event}
    (h : ∀ e ∈ events, ∃ outcome, e = .trip .definition outcome) : readsOf events = [] := by
  rw [readsOf, List.filterMap_eq_nil_iff]
  intro e he
  obtain ⟨outcome, rfl⟩ := h e he
  rfl

/-- What leaves a node depends on the graph and the texts only. -/
theorem leaves_congr {w₁ : World} (hwf : w.db.WF) (hA : S.Follows A w.text)
    (hdb : w₁.db = w.db) (htext : w₁.text = w.text) (a b : RowId) :
    Leaves engine S client w₁ a b ↔ Leaves engine S client w a b := by
  rw [leaves_iff (hdb ▸ hwf) (htext ▸ hA), leaves_iff hwf hA, hdb]

/-- Whether expanding a node is a hit depends on the graph and the texts only. -/
theorem cacheHit_congr {w₁ : World} (hdb : w₁.db = w.db) (htext : w₁.text = w.text) (n : Node) :
    CacheHit engine w₁ n.id n ↔ CacheHit engine w n.id n := by
  rw [CacheHit, CacheHit, hdb, htext]

/-- How many reads are cold depends on the graph and the texts only. -/
theorem coldReads_congr {w₁ : World} (hdb : w₁.db = w.db) (htext : w₁.text = w.text)
    (events : List Event) : coldReads engine w₁ events = coldReads engine w events := by
  simp only [coldReads, Fresh, cacheHit_congr hdb htext, hdb]

/-- Whether the hits are exact depends on the graph and the texts only. -/
theorem exactHits_congr {w₁ : World} (hwf : w.db.WF) (hA : S.Follows A w.text)
    (hdb : w₁.db = w.db) (htext : w₁.text = w.text) (h : ExactHits engine S client w) :
    ExactHits engine S client w₁ := by
  intro n hn hhit b
  rw [hdb] at hn ⊢
  rw [leaves_congr hwf hA hdb htext]
  exact h n hn ((cacheHit_congr hdb htext n).mp hhit) b

end Correct

/-- The search of `find_call_path` with servers that answer: (a) a path that it returns is one
    of read edges, within the bound, and no path of read edges is shorter; (b) a definite no
    means that there is no path at all; (c) the budget bounds the materializations; (d) where the
    budget is enough for every node that was expanded without being fresh, no path within the
    bound is missed. -/
theorem find_call_path_correct (engine : QueryEngine) (S : Servers) (A : Answers)
    (client : Client) (w : World) (from_ to_ : SymbolRef) (fromNode toNode : Node)
    (fuel maxDepth maxLspCalls : Nat) (hstored : w.db.Stored) (hA : S.Follows A w.text)
    (hexact : ExactHits engine S client w)
    (hres : ResolveTo S (some client) w from_ to_ fromNode toNode)
    (hsize : maxDepth + 1 < 2 ^ 32 ∨ w.db.nodes.length < 2 ^ 32)
    (hfuel : w.db.nodes.length < fuel) :
    ∃ result timedOut w',
      (engine.findCallPath fuel from_ to_ maxDepth maxLspCalls (some client)).run S w =
        (.ok (some (result, timedOut)), w') ∧
      (result.reachable = true → ∃ path : List Node, result.path = path.map .fromNode ∧
        (∀ n ∈ path, n ∈ w.db.nodes) ∧
        IsPath (EdgeRead (w.since w')) fromNode.id toNode.id (path.map (·.id)) ∧
        path.length ≤ maxDepth + 1 ∧
        ∀ k, Steps (EdgeRead (w.since w')) fromNode.id k toNode.id → path.length ≤ k + 1) ∧
      (result.reachable = false → result.limitReached = false →
        ¬ Relation.ReflTransGen (Leaves engine S client w) fromNode.id toNode.id) ∧
      (w.since w').countP Event.isInvalidation ≤ maxLspCalls ∧
      ((∃ k ≤ maxDepth, Steps (Leaves engine S client w) fromNode.id k toNode.id) →
        coldReads engine w (w.since w') ≤ maxLspCalls → result.reachable = true) := by
  obtain ⟨w₁, resolving, t₁, hdb, htext, hlog, htrips, hfrom, hto, hrun⟩ :=
    run_findCallPath hres fuel maxDepth maxLspCalls
  have hwf := hstored.toWF
  have hexact₁ := exactHits_congr hwf hA hdb htext hexact
  have hA₁ : S.Follows A w₁.text := htext ▸ hA
  by_cases hne : fromNode.id = toNode.id
  · -- The search is not run: the one node is the path.
    rw [if_pos hne] at hrun
    have hsince : w.since w₁ = resolving := since_of_append hlog
    refine ⟨_, t₁, w₁, hrun, fun _ => ⟨[fromNode], rfl, ?_, ?_, by simp, fun k _ => by simp⟩,
      nofun, ?_, fun _ _ => rfl⟩
    · exact fun n hn => List.mem_singleton.mp hn ▸ hfrom
    · rw [← hne]
      exact .single _ _
    · rw [hsince, countP_definitions htrips]
      exact Nat.zero_le _
  · rw [if_neg hne] at hrun
    obtain ⟨_, w', hloop, r, t, events, rfl, hends⟩ := searchLoop_returns (S := S)
      (hdb ▸ hwf) (by rw [hdb]; exact hsize) fuel
      (.init (hdb ▸ hwf) (hdb ▸ hfrom) hne t₁) (by rw [hdb]; simpa [SearchState.init] using hfuel)
    refine ⟨r, t, w', hrun.trans hloop, ?_⟩
    have hlog' : ∃ remaining limit,
        Expanding S engine (some client) maxLspCalls w₁ events remaining limit w' := by
      cases hends with
      | found hexpanding => exact ⟨_, _, hexpanding⟩
      | exhausted hinv => exact ⟨_, _, hinv.expanding⟩
    obtain ⟨remaining, limit, hexpanding⟩ := hlog'
    have hsince : w.since w' = resolving ++ events :=
      since_of_append (by rw [hexpanding.log, hlog, List.append_assoc])
    have hread := edgeRead_append_definitions htrips events
    rw [hsince]
    refine ⟨?_, ?_, ?_, ?_⟩
    · -- (a)
      intro hreach
      cases hends with
      | @found path remaining limit hexp hnodes hpath hlength hshortest =>
        refine ⟨path, rfl, hdb ▸ hnodes, hpath.mono fun a b => (hread a b).mpr, hlength,
          fun k hk => hshortest k (hk.mono fun a b => (hread a b).mp)⟩
      | exhausted => exact nomatch hreach
    · -- (b)
      intro hreach hlimit hpath
      cases hends with
      | found => exact nomatch hreach
      | @exhausted st hinv hqueue =>
        obtain ⟨level, cut, hlevel, hcut, -⟩ := hinv.search
        obtain rfl : cut = false := by
          cases cut with
          | false => rfl
          | true => exact absurd (hlimit.symm.trans (hcut rfl)) nofun
        rw [hqueue] at hlevel
        refine hlevel.unreachable (fun r hr y hy => ?_)
          (Relation.ReflTransGen.mono (fun a b => (leaves_congr hwf hA hdb htext a b).mpr) _ _ hpath)
        exact ⟨r.2, hr, (hinv.expanding.cases r (List.mem_reverse.mp hr)).complete (hdb ▸ hwf) hA₁
          hexact₁ (.inl hlimit) y hy⟩
    · -- (c)
      rw [List.countP_append, countP_definitions htrips]
      have := hexpanding.budget
      omega
    · -- (d)
      rintro ⟨k, hk, hpath⟩ hsuff
      cases hends with
      | found => rfl
      | @exhausted st hinv hqueue =>
        obtain ⟨level, cut, hlevel, -⟩ := hinv.search
        rw [hqueue] at hlevel
        refine absurd (hpath.mono fun a b => (leaves_congr hwf hA hdb htext a b).mpr)
          (hlevel.no_short_path (fun r hr y hy => ?_) hk)
        have hcold : coldReads engine w₁ events ≤ maxLspCalls := by
          rw [coldReads, readsOf_append, readsOf_definitions htrips, List.nil_append] at hsuff
          rwa [coldReads_congr hdb htext]
        exact ⟨r.2, hr, (hinv.expanding.cases r (List.mem_reverse.mp hr)).complete (hdb ▸ hwf) hA₁
          hexact₁ (.inr hcold) y hy⟩

/-! ## A server that knows one call -/

/-- The call hierarchy item of one of the two functions. -/
def appItem (name : String) (line : Nat) : CallHierarchyItem where
  name := name
  kind := 12
  uri := "file:///app.py"
  range := ⟨⟨line, 0⟩, ⟨line + 2, 0⟩⟩
  selectionRange := ⟨⟨line, 4⟩, ⟨line, 5⟩⟩
  raw := name

/-- `a` calls `b`, and that is all. -/
def appAnswers : Answers where
  answer := fun _ r =>
    match r with
    | .prepareCallHierarchy _ line _ => if line = 0 then [appItem "a" 0] else [appItem "b" 3]
    | .outgoingCalls item =>
      if item.name = "a" then [⟨appItem "b" 3, [⟨⟨1, 4⟩, ⟨1, 7⟩⟩]⟩] else []
    | .incomingCalls _ => []
    | .definition .. => []
    | .references .. => []
    | .implementation .. => []
    | .hover .. => none
    | .documentSymbol .. => []

/-- The server that answers so. -/
def appServers : Servers where
  reply := fun _ c r => .ok (appAnswers.answer c r)
  openReply := fun _ _ _ _ => .ok ()
  acquireReply := fun _ _ => .ok ()

/-- The graph of the example satisfies the tables' invariants. -/
theorem twoFunctions_stored : twoFunctions.Stored where
  ids_nodup := by decide
  id_pos := by decide
  id_le := by decide
  fqn_unique := by decide
  phys_unique := by decide
  container_ok := by simp [twoFunctions, appFunction]
  edge_ids_nodup := by decide
  edge_id_le := by decide
  edge_ok := by decide
  cache_ok := fun _ h => absurd rfl h
  materialized_ok := fun _ _ h => absurd h Bool.false_ne_true
  line_nonneg := by decide

/-- The materialization of `a` leaves its call of `b`, so the search answers with the path. -/
theorem find_call_path_correct_two : ∃ result timedOut w',
    (appEngine.findCallPath 3 (.fqn "app.a") (.fqn "app.b") 20 30 (some ⟨"python"⟩)).run
      appServers twoFunctionsWorld = (.ok (some (result, timedOut)), w') ∧
    result.reachable = true ∧
    (∃ path : List Node, result.path = path.map .fromNode ∧
      IsPath (EdgeRead (twoFunctionsWorld.since w')) 1 2 (path.map (·.id)) ∧
      path.length ≤ 21 ∧
      ∀ k, Steps (EdgeRead (twoFunctionsWorld.since w')) 1 k 2 → path.length ≤ k + 1) ∧
    (twoFunctionsWorld.since w').countP Event.isInvalidation ≤ 30 := by
  -- The servers of the example answer the same at every point of the call.
  have hA : appServers.Follows appAnswers twoFunctionsWorld.text := fun _ _ => fun _ _ => rfl
  obtain ⟨result, timedOut, w', hrun, ha, -, hc, hd⟩ := find_call_path_correct appEngine appServers
    appAnswers ⟨"python"⟩ twoFunctionsWorld (.fqn "app.a") (.fqn "app.b") (appFunction 1 "a" 0)
    (appFunction 2 "b" 3) 3 20 30 twoFunctions_stored hA
    (fun _ _ ⟨_, _, hcache⟩ => nomatch hcache) ⟨twoFunctionsWorld, rfl⟩ (.inl (by decide))
    (by decide)
  obtain rfl : ((appEngine.findCallPath 3 (.fqn "app.a") (.fqn "app.b") 20 30
    (some ⟨"python"⟩)).run appServers twoFunctionsWorld).2 = w' := congrArg Prod.snd hrun
  -- `a` calls `b` by the answers, and `b` is indexed.
  have hleaves : Leaves appEngine appServers ⟨"python"⟩ twoFunctionsWorld 1 2 :=
    (leaves_iff twoFunctions_stored.toWF hA 1 2).mpr
      ⟨appFunction 1 "a" 0, List.mem_cons_self, rfl, by decide⟩
  -- One round trip is enough, and one edge leads from the first node to the second.
  have hreach := hd ⟨1, by decide, .tail .refl hleaves⟩ (by decide)
  obtain ⟨path, hpath, -, hedges, hlength, hshortest⟩ := ha hreach
  exact ⟨result, timedOut, _, hrun, hreach, ⟨path, hpath, hedges, hlength, hshortest⟩, hc⟩

end Semnav.Query
