import Semnav.Spec.CallPathCorrect
import Semnav.Spec.History

/-!
# Definite answers of `find_call_path` after failures

A failed round trip leaves its node without callees, and the search goes on as if the server
had said so; the hash that is stored makes later searches do the same.  Whatever the servers
do, the answer is a definite no exactly when the target is not within the bound over the
edges that were read, and no limit cut the search.  With servers whose answers stay the same
during the call, these are the edges that the graph before it and the answers give.

## Key results

- `definite_no_iff`: when an answer is a definite no, over the edges read or others that agree with
  them at the nodes that were expanded
- `read_iff_finds`: the edges read, from the state before the call and the answers
- `no_unjustified_no_iff`: in every history, when a call keeps clear of an unjustified no
-/

namespace Semnav.Query

open Semnav.ForStd Semnav.Graph Semnav.Indexer QueryEngine

/-! ## Attempts -/

/-- What a log says about the outgoing materializations: the node of the one that is going
    on, and the nodes whose last one met a failure. -/
structure Attempts where
  current : Option RowId
  failed : RowId → Bool

/-- A materialization starts with its invalidation and is over when callees are read; a failed
    round trip of the call hierarchy is one of the materialization that is going on. -/
def Attempts.step (s : Attempts) (e : Event) : Attempts :=
  match e with
  | .invalidated id => ⟨some id, Function.update s.failed id false⟩
  | .neighbors .. => ⟨none, s.failed⟩
  | e =>
    if e.callFailure then
      match s.current with
      | some id => ⟨s.current, Function.update s.failed id true⟩
      | none => s
    else s

/-- Did the last outgoing materialization of the node, if any, meet a failure? -/
def lastAttemptFailed (log : List Event) (id : RowId) : Bool :=
  (log.foldl Attempts.step ⟨none, fun _ => false⟩).failed id

/-- The search expanded the node between the two states. -/
def Expanded (w w' : World) (id : RowId) : Prop :=
  ∃ rows, .neighbors id .calls .outgoing rows ∈ w.since w'

/-- Not `reachable`, and not for a limit. -/
def DefiniteNo (result : FindCallPathResult) : Prop :=
  result.reachable = false ∧ result.limitReached = false

/-- The call gives no definite no after expanding a node whose callees it never learned: the
    last materialization of the node, in this call or before it, met a failure. -/
def KeepsFromNo (w w' : World) (result : FindCallPathResult) : Prop :=
  (∃ id, Expanded w w' id ∧ lastAttemptFailed w'.log id = true) → ¬ DefiniteNo result

/-- What else can be an answer: the target is within the bound over the edges, or a limit cuts the
    search: no server, a node at the bound, or more nodes to materialize than the budget has. -/
def Answerable (edges : RowId → RowId → Prop) (engine : QueryEngine) (client : Option Client)
    (maxDepth maxLspCalls : Nat) (w w' : World) (fromId toId : RowId) : Prop :=
  (∃ k ≤ maxDepth, Steps edges fromId k toId) ∨
  (∃ v, (∃ k, Steps edges fromId k v) ∧ ∀ k, Steps edges fromId k v → maxDepth ≤ k) ∨
  client = none ∨ maxLspCalls < coldReads engine w (w.since w')

/-- The callees of a row by the state before the search and the answers: the stored ones where its
    cache row is fresh, and else those that the answers resolve to; what failed has none. -/
def Finds (engine : QueryEngine) (A : Answers) (client : Client) (w : World) (a b : RowId) : Prop :=
  ∃ n ∈ w.db.nodes, n.id = a ∧
    (CacheHit engine w n.id n ∧ w.db.ValidId b ∧ w.db.Calls n.id b ∨
      ¬ CacheHit engine w n.id n ∧ b ∈ outgoingTargets A w.db client n)

section DefiniteNo

variable {engine : QueryEngine} {S : Servers} {w w' : World} {client : Option Client}

/-- The edges contain those that were read, and no others at the nodes that were expanded, unless
    the search had no server or no budget left. -/
structure Agrees (edges : RowId → RowId → Prop) (engine : QueryEngine) (client : Option Client)
    (maxLspCalls : Nat) (w w' : World) : Prop where
  read : client ≠ none → coldReads engine w (w.since w') ≤ maxLspCalls →
    ∀ a b, EdgeRead (w.since w') a b → edges a b
  only : client ≠ none → coldReads engine w (w.since w') ≤ maxLspCalls →
    ∀ a b, Expanded w w' a → edges a b → EdgeRead (w.since w') a b

/-- The list that was read of a node holds the edges of the state before and the answers, if the
    budget was enough. -/
private theorem ReadCase.finds {A : Answers} {c : Client} {w₁ : World} {events : List Event}
    {limit : Bool} {maxLspCalls : Nat} {r : RowId × List RowId} (hwf : w.db.WF)
    (hA : S.Lists A w.text) (hdb : w₁.db = w.db) (htext : w₁.text = w.text)
    (hbudget : coldReads engine w₁ events ≤ maxLspCalls)
    (h : ReadCase S engine (some c) maxLspCalls w₁ events limit r) (b : RowId) :
    b ∈ r.2 ↔ Finds engine A c w r.1 b := by
  -- The call changes no text and no row, so the hits are those of the state before.
  have hhit : ∀ n : Node, CacheHit engine w₁ n.id n ↔ CacheHit engine w n.id n :=
    cacheHit_congr hdb htext
  cases h with
  | @hit n ys hn _ hfresh hys =>
    rw [hdb] at hn hys
    rw [hhit] at hfresh
    rw [hys b]
    constructor
    · exact fun hb => ⟨n, hn, rfl, .inl ⟨hfresh, hb⟩⟩
    · rintro ⟨m, hm, hid, hcase⟩
      obtain rfl := hwf.node_ext hm hn hid
      rcases hcase with ⟨-, hb⟩ | ⟨hmiss, -⟩
      · exact hb
      · exact absurd hfresh hmiss
  -- A node is refused for want of a client or of budget, and neither is the case.
  | refused _ _ hwhy =>
    rcases hwhy with hnone | hspent
    · cases hnone
    · omega
  | @made n ys targets c' hn hclient hmiss _ hys hanswers =>
    cases hclient
    rw [hdb] at hn
    rw [hhit] at hmiss
    -- The answers of the server are those of `A`, so the targets are read off the state before.
    have htargets : targets = outgoingTargets A w.db c n := by
      rw [hanswers A (htext ▸ hA), hdb]
    rw [hys b, htargets]
    constructor
    · exact fun hb => ⟨n, hn, rfl, .inr ⟨hmiss, hb⟩⟩
    · rintro ⟨m, hm, hid, hcase⟩
      obtain rfl := hwf.node_ext hm hn hid
      rcases hcase with ⟨hfresh, -⟩ | ⟨-, hb⟩
      · exact absurd hfresh hmiss
      · exact hb

/-- The edges read agree with themselves. -/
private theorem Agrees.edgeRead (engine : QueryEngine) (client : Option Client) (maxLspCalls : Nat)
    (w w' : World) : Agrees (EdgeRead (w.since w')) engine client maxLspCalls w w' where
  read := fun _ _ _ _ h => h
  only := fun _ _ _ _ _ h => h

/-- What was read was read of a node that was expanded. -/
private theorem neighbors_mem_of_reads {events : List Event} {r : RowId × List RowId}
    (hr : r ∈ readsOf events) : ∃ rows, .neighbors r.1 .calls .outgoing rows ∈ events := by
  obtain ⟨e, he, heq⟩ := List.mem_filterMap.mp hr
  split at heq
  · cases heq
    exact ⟨_, he⟩
  · cases heq

/-- Whatever the servers do: an answer is a definite no exactly when nothing else can be. -/
private theorem definite_no_iff {edges : RowId → RowId → Prop} {from_ to_ : SymbolRef}
    {fromNode toNode : Node} {fuel maxDepth maxLspCalls : Nat} {result : FindCallPathResult}
    {timedOut : Bool} (hwf : w.db.WF) (hres : ResolveTo S client w from_ to_ fromNode toNode)
    (hsize : maxDepth + 1 < 2 ^ 32 ∨ w.db.nodes.length < 2 ^ 32)
    (hfuel : w.db.nodes.length < fuel)
    (hrun : (engine.findCallPath fuel from_ to_ maxDepth maxLspCalls client).run S w =
      (.ok (some (result, timedOut)), w'))
    (hagrees : Agrees edges engine client maxLspCalls w w') :
    DefiniteNo result ↔
      ¬ Answerable edges engine client maxDepth maxLspCalls w w' fromNode.id toNode.id := by
  obtain ⟨w₁, resolving, t₁, hdb, htext, hlog, htrips, hfrom, hto, hrun'⟩ :=
    run_findCallPath hres fuel maxDepth maxLspCalls
  rw [hrun] at hrun'
  by_cases hne : fromNode.id = toNode.id
  · rw [if_pos hne] at hrun'
    cases hrun'
    constructor
    · intro h
      cases h.1
    · refine fun h => absurd (.inl ⟨0, Nat.zero_le _, ?_⟩) h
      rw [hne]
      exact .refl
  · rw [if_neg hne] at hrun'
    obtain ⟨_, w₂, hloop, r, t, events, rfl, hends⟩ := searchLoop_returns (S := S)
      (hdb ▸ hwf) (by rw [hdb]; exact hsize) fuel
      (.init (hdb ▸ hwf) (hdb ▸ hfrom) hne t₁) (by rw [hdb]; simpa [SearchState.init] using hfuel)
    cases hrun'.trans hloop
    have hexpanding : w'.log = w₁.log ++ events := by
      cases hends with
      | found hexp => exact hexp.log
      | exhausted hinv => exact hinv.expanding.log
    have hsince : w.since w' = resolving ++ events :=
      since_of_append (by rw [hexpanding, hlog, List.append_assoc])
    have hedge := edgeRead_append_definitions htrips events
    have hcold : coldReads engine w (w.since w') = coldReads engine w₁ events := by
      rw [coldReads_congr hdb htext, hsince, coldReads, coldReads, readsOf_append,
        readsOf_definitions htrips, List.nil_append]
    -- With a server and the budget for every node, the edges are those that were read.
    have hread : ¬ (client = none ∨ maxLspCalls < coldReads engine w₁ events) →
        ∀ a b, EdgeRead events a b → edges a b := by
      intro hlimits a b hab
      rw [not_or, not_lt] at hlimits
      refine hagrees.read hlimits.1 (hcold ▸ hlimits.2) a b ?_
      rw [hsince]
      exact (hedge a b).mpr hab
    have honly : ¬ (client = none ∨ maxLspCalls < coldReads engine w₁ events) →
        ∀ r ∈ readsOf events, ∀ b, edges r.1 b → EdgeRead events r.1 b := by
      intro hlimits r hr b hab
      rw [not_or, not_lt] at hlimits
      obtain ⟨rows, hrows⟩ := neighbors_mem_of_reads hr
      have hexpanded : Expanded w w' r.1 := ⟨rows, hsince ▸ List.mem_append_right _ hrows⟩
      have hab' := hagrees.only hlimits.1 (hcold ▸ hlimits.2) r.1 b hexpanded hab
      rw [hsince] at hab'
      exact (hedge r.1 b).mp hab'
    rw [Answerable, hcold]
    cases hends with
    | @found path remaining limit hexp hnodes hpath hlength hshortest =>
      refine iff_of_false (fun h => by cases h.1) (not_not.mpr ?_)
      by_cases hlimits : client = none ∨ maxLspCalls < coldReads engine w₁ events
      · exact .inr (.inr hlimits)
      · refine .inl ⟨path.length - 1, by omega, ?_⟩
        have hsteps := hpath.steps
        rw [List.length_map] at hsteps
        exact hsteps.mono (hread hlimits)
    | @exhausted st hinv hqueue =>
      obtain ⟨level, cut, hlevel, hcut, hwhy⟩ := hinv.search
      rw [hqueue] at hlevel
      have hedges : ∀ a b, Search.Read ⟨st.visited, [], (readsOf events).reverse, cut⟩ a b ↔
          EdgeRead events a b := fun a b => by
        rw [hinv.expanding.listed]
        simp [Search.Read]
      have hcomplete : ¬ (client = none ∨ maxLspCalls < coldReads engine w₁ events) →
          ∀ r ∈ (readsOf events).reverse, ∀ y, edges r.1 y →
            Search.Read ⟨st.visited, [], (readsOf events).reverse, cut⟩ r.1 y :=
        fun hlimits r hr y hy =>
          (hedges r.1 y).mpr (honly hlimits r (List.mem_reverse.mp hr) y hy)
      constructor
      · rintro ⟨-, hlimit⟩ hans
        -- Nothing was cut or refused, so everything reachable is visited and near.
        obtain rfl : cut = false := by
          cases cut with
          | false => rfl
          | true => cases hlimit.symm.trans (hcut rfl)
        have hlimits : ¬ (client = none ∨ maxLspCalls < coldReads engine w₁ events) := by
          rintro (hclient | hbudget)
          · rcases hlevel.settled _ hlevel.source_visited with hq | hr | hc
            · exact absurd hq List.not_mem_nil
            · obtain ⟨r, hr, -⟩ := List.mem_map.mp hr
              have hcase := hinv.expanding.cases r (List.mem_reverse.mp hr)
              cases hcase with
              | hit _ hsome =>
                rw [hclient] at hsome
                cases hsome
              | refused _ hl => cases hl.symm.trans hlimit
              | made _ hsome => cases hclient.symm.trans hsome
            · cases hc.1
          · have := hinv.expanding.cold_made hlimit
            have := hinv.expanding.budget
            omega
        rcases hans with ⟨k, hk, hsteps⟩ | ⟨v, ⟨k, hk⟩, hfar⟩ | hrefused
        · exact hlevel.no_short_path (hcomplete hlimits) hk hsteps
        · have hvisited := (hlevel.visited_of_steps (hcomplete hlimits) hk (.inl rfl)).1
          obtain ⟨j, hj, hsteps⟩ := hlevel.near_all hvisited
          have := hfar j (hsteps.mono fun a b hab => hread hlimits a b ((hedges a b).mp hab))
          omega
        · exact hlimits hrefused
      · intro hans
        refine ⟨rfl, ?_⟩
        cases hlimit : st.limitReached with
        | false => rfl
        | true =>
          -- A limit has a cause, and every cause is one of the other answers.
          refine absurd ?_ hans
          by_cases hlimits : client = none ∨ maxLspCalls < coldReads engine w₁ events
          · exact .inr (.inr hlimits)
          · rcases hwhy hlimit with rfl | hrefused
            · obtain ⟨v, hv, hbound⟩ := hlevel.cut_level rfl
              refine .inr (.inl ⟨v, ⟨_, (hlevel.reached v hv).mono fun a b hab =>
                hread hlimits a b ((hedges a b).mp hab)⟩, fun k hk => ?_⟩)
              by_contra hnear
              have := (hlevel.visited_of_steps (hcomplete hlimits) hk (.inr (by omega))).2
              omega
            · exact absurd hrefused hlimits

/-- With servers whose answers stay the same during the call, the edges read are those of the state
    before it and the answers, at every node that was expanded. -/
private theorem read_iff_finds {A : Answers} {c : Client} {from_ to_ : SymbolRef}
    {fromNode toNode : Node}
    {fuel maxDepth maxLspCalls : Nat} {result : FindCallPathResult} {timedOut : Bool}
    (hwf : w.db.WF) (hA : S.Lists A w.text)
    (hres : ResolveTo S (some c) w from_ to_ fromNode toNode)
    (hsize : maxDepth + 1 < 2 ^ 32 ∨ w.db.nodes.length < 2 ^ 32)
    (hfuel : w.db.nodes.length < fuel)
    (hrun : (engine.findCallPath fuel from_ to_ maxDepth maxLspCalls (some c)).run S w =
      (.ok (some (result, timedOut)), w')) :
    Agrees (Finds engine A c w) engine (some c) maxLspCalls w w' := by
  obtain ⟨w₁, resolving, t₁, hdb, htext, hlog, htrips, hfrom, hto, hrun'⟩ :=
    run_findCallPath hres fuel maxDepth maxLspCalls
  rw [hrun] at hrun'
  by_cases hne : fromNode.id = toNode.id
  · -- The search is not run, and nothing is read.
    rw [if_pos hne] at hrun'
    cases hrun'
    have hnone : ∀ a rows, .neighbors a .calls .outgoing rows ∉ w.since w' := by
      intro a rows hmem
      rw [since_of_append hlog] at hmem
      obtain ⟨outcome, heq⟩ := htrips _ hmem
      cases heq
    constructor
    · intro _ _ a b hab
      obtain ⟨rows, hrows, -⟩ := hab
      exact absurd hrows (hnone a rows)
    · intro _ _ a b hexpanded
      obtain ⟨rows, hrows⟩ := hexpanded
      exact absurd hrows (hnone a rows)
  · rw [if_neg hne] at hrun'
    obtain ⟨_, w₂, hloop, r, t, events, rfl, hends⟩ := searchLoop_returns (S := S)
      (hdb ▸ hwf) (by rw [hdb]; exact hsize) fuel
      (.init (hdb ▸ hwf) (hdb ▸ hfrom) hne t₁) (by rw [hdb]; simpa [SearchState.init] using hfuel)
    cases hrun'.trans hloop
    have hexpanding : ∃ remaining limit,
        Expanding S engine (some c) maxLspCalls w₁ events remaining limit w' := by
      cases hends with
      | found hexp => exact ⟨_, _, hexp⟩
      | exhausted hinv => exact ⟨_, _, hinv.expanding⟩
    obtain ⟨remaining, limit, hexpanding⟩ := hexpanding
    have hsince : w.since w' = resolving ++ events :=
      since_of_append (by rw [hexpanding.log, hlog, List.append_assoc])
    have hcold : coldReads engine w (w.since w') = coldReads engine w₁ events := by
      rw [coldReads_congr hdb htext, hsince, coldReads, coldReads, readsOf_append,
        readsOf_definitions htrips, List.nil_append]
    have hlist : coldReads engine w (w.since w') ≤ maxLspCalls → ∀ r ∈ readsOf events, ∀ b,
        b ∈ r.2 ↔ Finds engine A c w r.1 b := by
      intro hbudget r hr b
      rw [hcold] at hbudget
      exact (hexpanding.cases r hr).finds hwf hA hdb htext hbudget b
    have hedge : ∀ a b, EdgeRead (w.since w') a b ↔ ∃ ys, (a, ys) ∈ readsOf events ∧ b ∈ ys := by
      intro a b
      rw [hsince, edgeRead_append_definitions htrips, hexpanding.listed]
    constructor
    · intro _ hbudget a b hab
      obtain ⟨ys, hys, hb⟩ := (hedge a b).mp hab
      exact (hlist hbudget _ hys b).mp hb
    · intro _ hbudget a b hexpanded hfinds
      obtain ⟨rows, hrows⟩ := hexpanded
      have hevent : ∀ outcome,
          Event.neighbors a .calls .outgoing rows ≠ .trip .definition outcome := by
        intro outcome heq
        cases heq
      rw [hsince, mem_append_definitions htrips hevent] at hrows
      have hys : (a, (groupByNode rows).map (·.1.id)) ∈ readsOf events :=
        List.mem_filterMap.mpr ⟨_, hrows, rfl⟩
      exact (hedge a b).mpr ⟨_, hys, (hlist hbudget _ hys b).mpr hfinds⟩

/-- Without both ends the search is not run. -/
private theorem unresolved_expands_nothing {from_ to_ : SymbolRef} {fuel maxDepth maxLspCalls : Nat}
    {result : FindCallPathResult} {timedOut : Bool}
    (hres : ∀ fromNode toNode, ¬ ResolveTo S client w from_ to_ fromNode toNode)
    (hrun : (engine.findCallPath fuel from_ to_ maxDepth maxLspCalls client).run S w =
      (.ok (some (result, timedOut)), w')) (id : RowId) : ¬ Expanded w w' id := by
  obtain ⟨⟨a, ta⟩, wa, ha, hrest⟩ := run_bind_eq_ok.mp hrun
  obtain ⟨⟨b, tb⟩, wb, hb, hrest⟩ := run_bind_eq_ok.mp hrest
  -- A resolution that fails leads to the hints, none of which reads a node's neighbours.
  have hkinds : ∀ symref, OnlyKinds (fun k => k ≠ .neighbors) (resolveAnchor symref client) :=
    fun symref => resolveAnchor_onlyKinds (by simp) (by simp) symref client
  have hloga := (hkinds from_).logs_of_run ha
  have hlogb := (hkinds to_).logs_of_run hb
  have hhints : ∀ symref, OnlyKinds (fun k => k ≠ .neighbors) (engine.hintFqnsForSymref symref) :=
    fun symref => hintFqnsForSymref_onlyKinds (by simp) engine symref
  have hlog : Logs (fun k => k ≠ .neighbors) wb w' := by
    cases a with
    | some fromNode =>
      cases b with
      | some toNode =>
        -- Both ends resolved: the hypothesis excludes it.
        refine absurd ⟨wb, ?_⟩ (hres fromNode toNode)
        exact (run_bind_of_ok S w _ ha).trans (run_bind_of_ok S wa _ hb)
      | none =>
        have hq : OnlyKinds (fun k => k ≠ .neighbors) ((do
            let fromHints ← (pure [] : QueryM (List String))
            let toHints ← engine.hintFqnsForSymref to_
            pure (some (⟨false, [], false, fromHints, toHints⟩, ta || tb)) :
              QueryM (Option (FindCallPathResult × Bool)))) :=
          (onlyKinds_pure _).bind fun _ => (hhints to_).bind fun _ => onlyKinds_pure _
        exact hq.logs_of_run hrest
    | none =>
      have hq : ∀ q : QueryM (List String), OnlyKinds (fun k => k ≠ .neighbors) q →
          OnlyKinds (fun k => k ≠ .neighbors) ((do
            let fromHints ← engine.hintFqnsForSymref from_
            let toHints ← q
            pure (some (⟨false, [], false, fromHints, toHints⟩, ta || tb)) :
              QueryM (Option (FindCallPathResult × Bool)))) := fun q hq =>
        (hhints from_).bind fun _ => hq.bind fun _ => onlyKinds_pure _
      cases b with
      | some toNode => exact (hq _ (onlyKinds_pure [])).logs_of_run hrest
      | none => exact (hq _ (hhints to_)).logs_of_run hrest
  obtain ⟨new, hnew, hk⟩ := (hloga.trans hlogb).trans hlog
  -- An expanded node would be an event of that kind.
  rintro ⟨rows, hrows⟩
  rw [since_of_append hnew] at hrows
  exact hk _ hrows rfl

end DefiniteNo

/-- In every history: a call keeps clear of an unjustified no exactly when no node that it
    expands is one whose last materialization met a failure, or there is another answer over the
    edges that it reads.  Where the answers stay the same during the call, failures included, these
    may be taken to be the edges of the state before it and the answers. -/
theorem no_unjustified_no_iff {w : World} (h : History w) (engine : QueryEngine) (S : Servers)
    (client : Option Client) (from_ to_ : SymbolRef) (fuel maxDepth maxLspCalls : Nat)
    (hsize : maxDepth + 1 < 2 ^ 32 ∨ w.db.nodes.length < 2 ^ 32)
    (hfuel : w.db.nodes.length < fuel) (result : FindCallPathResult) (timedOut : Bool) (w' : World)
    (hrun : (engine.findCallPath fuel from_ to_ maxDepth maxLspCalls client).run S w =
      (.ok (some (result, timedOut)), w')) :
    (∀ fromNode toNode, ResolveTo S client w from_ to_ fromNode toNode →
      (KeepsFromNo w w' result ↔
        (∀ id, Expanded w w' id → lastAttemptFailed w'.log id = false) ∨
          Answerable (EdgeRead (w.since w')) engine client maxDepth maxLspCalls w w' fromNode.id
            toNode.id)) ∧
    ((∀ fromNode toNode, ¬ ResolveTo S client w from_ to_ fromNode toNode) →
      KeepsFromNo w w' result) ∧
    ∀ (A : Answers) (c : Client), S.Lists A w.text → client = some c → ∀ fromNode toNode,
      ResolveTo S client w from_ to_ fromNode toNode →
      (Answerable (EdgeRead (w.since w')) engine client maxDepth maxLspCalls w w' fromNode.id
          toNode.id ↔
        Answerable (Finds engine A c w) engine client maxDepth maxLspCalls w w' fromNode.id
          toNode.id) := by
  -- Both sides of the first equivalence come from `definite_no_iff`, once for each kind of edges.
  refine ⟨?_, ?_, ?_⟩
  · intro fromNode toNode hres
    have hno := definite_no_iff h.stored.toWF hres hsize hfuel hrun (.edgeRead ..)
    rw [KeepsFromNo, hno, not_not]
    constructor
    · intro hkeeps
      -- Some expanded node's last attempt failed, or none did.
      by_cases hfailed : ∃ id, Expanded w w' id ∧ lastAttemptFailed w'.log id = true
      · exact .inr (hkeeps hfailed)
      · refine .inl fun id hid => ?_
        rw [← Bool.not_eq_true]
        exact fun hlast => hfailed ⟨id, hid, hlast⟩
    · rintro (hclean | hans) ⟨id, hid, hlast⟩
      · exact absurd (hlast.symm.trans (hclean id hid)) nofun
      · exact hans
  · rintro hres ⟨id, hid, -⟩
    exact absurd hid (unresolved_expands_nothing hres hrun id)
  · intro A c hA hclient fromNode toNode hres
    subst hclient
    have hwf := h.stored.toWF
    have hread := definite_no_iff hwf hres hsize hfuel hrun (.edgeRead ..)
    have hfinds := definite_no_iff hwf hres hsize hfuel hrun
      -- The edges read are the ones found, so both relations give the same answer.
      (read_iff_finds hwf hA hres hsize hfuel hrun)
    exact not_iff_not.mp (hread.symm.trans hfinds)

/-! ## A failure at the start of the search -/

theorem no_unjustified_no_iff_broken :
    KeepsFromNo twoFunctionsWorld
        ((appEngine.findCallPath 3 (.fqn "app.a") (.fqn "app.b") 20 30 (some ⟨"python"⟩)).run
          brokenServers twoFunctionsWorld).2 (notFound false) ↔
      (∀ id, Expanded twoFunctionsWorld
          ((appEngine.findCallPath 3 (.fqn "app.a") (.fqn "app.b") 20 30 (some ⟨"python"⟩)).run
            brokenServers twoFunctionsWorld).2 id →
        lastAttemptFailed ((appEngine.findCallPath 3 (.fqn "app.a") (.fqn "app.b") 20 30
          (some ⟨"python"⟩)).run brokenServers twoFunctionsWorld).2.log id = false) ∨
      Answerable (EdgeRead (twoFunctionsWorld.since
          ((appEngine.findCallPath 3 (.fqn "app.a") (.fqn "app.b") 20 30 (some ⟨"python"⟩)).run
            brokenServers twoFunctionsWorld).2)) appEngine (some ⟨"python"⟩) 20 30 twoFunctionsWorld
        ((appEngine.findCallPath 3 (.fqn "app.a") (.fqn "app.b") 20 30 (some ⟨"python"⟩)).run
          brokenServers twoFunctionsWorld).2 1 2 :=
  (no_unjustified_no_iff (.start twoFunctions_stored rfl) appEngine brokenServers
    (some ⟨"python"⟩) (.fqn "app.a") (.fqn "app.b") 3 20 30 (.inl (by decide)) (by decide)
    (notFound false) false _ rfl).1 (appFunction 1 "a" 0) (appFunction 2 "b" 3)
    ⟨twoFunctionsWorld, rfl⟩

/-- `a` calls `b`, but the round trip for `a` gets an error response: the search says no for
    good, and so does the next one, although the server is back: the file is unchanged. -/
theorem broken_server_definite_no :
    let w' := ((appEngine.findCallPath 3 (.fqn "app.a") (.fqn "app.b") 20 30
      (some ⟨"python"⟩)).run brokenServers twoFunctionsWorld).2
    let w'' := ((appEngine.findCallPath 3 (.fqn "app.a") (.fqn "app.b") 20 30
      (some ⟨"python"⟩)).run appServers w').2
    ((appEngine.findCallPath 3 (.fqn "app.a") (.fqn "app.b") 20 30 (some ⟨"python"⟩)).run
      brokenServers twoFunctionsWorld).1.toOption = some (some (notFound false, false)) ∧
    ¬ KeepsFromNo twoFunctionsWorld w' (notFound false) ∧
    ((appEngine.findCallPath 3 (.fqn "app.a") (.fqn "app.b") 20 30 (some ⟨"python"⟩)).run
      appServers w').1.toOption = some (some (notFound false, false)) ∧
    ¬ KeepsFromNo w' w'' (notFound false) := by
  refine ⟨rfl, fun h => ?_, rfl, fun h => ?_⟩
  · exact h ⟨1, ⟨[], by decide⟩, by decide⟩ ⟨rfl, rfl⟩
  · exact h ⟨1, ⟨[], by decide⟩, by decide⟩ ⟨rfl, rfl⟩

end Semnav.Query
