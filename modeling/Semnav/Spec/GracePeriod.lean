import Mathlib.Data.List.Dedup
import Semnav.Spec.CallPathCorrect
import Semnav.Spec.DegradedFlag
import Semnav.Spec.Reachable

/-!
# Rows in their grace period

A symbol that vanished keeps its row, flagged as an orphan and invalid, until its second
strike.  Positions, listings and neighbors skip such rows; the lookup by fqn does not, so a
query shows one exactly when its target is named by the row's fqn.

## Key results

- `leakFree_iff`: a query shows no hidden row iff none of its targets names one
- `vanished_class_is_found`: after one strike, `find_definition` still answers with the row
-/

namespace Semnav.Query

open Semnav.ForStd Semnav.Graph Semnav.Indexer Semnav.Adapters

/-! ## What a query shows -/

/-- A row with `orphan = 1` or `valid = 0` has the fqn. -/
def Hidden (d : Db) (fqn : String) : Prop :=
  ∃ n ∈ d.nodes, n.fqn = fqn ∧ (n.orphan = true ∨ n.valid = false)

/-- Whether a name is hidden can be found out by looking at the rows. -/
instance (d : Db) (fqn : String) : Decidable (Hidden d fqn) :=
  inferInstanceAs (Decidable (∃ n ∈ d.nodes, _ ∧ _))

/-- The queries over the graph, with their arguments. -/
inductive ToolCall where
  | findSymbol (pattern : String) (mode : MatchMode) (ignoreCase : Bool)
      (options : FindSymbolOptions) (filter : Filter) (page : Page)
  | findDefinition (symref : SymbolRef)
  | findReferences (symref : SymbolRef) (filter : Filter) (page : Page)
  | findCallers (symref : SymbolRef) (filter : Filter) (page : Page) (withSignature : Bool)
  | findCallees (symref : SymbolRef) (filter : Filter) (page : Page) (withSignature : Bool)
  | findCallPath (fuel : Nat) (from_ to_ : SymbolRef) (maxDepth maxLspCalls : Nat)

/-- The targets of a query. -/
def ToolCall.targets : ToolCall → List SymbolRef
  | .findSymbol .. => []
  | .findDefinition symref | .findReferences symref .. | .findCallers symref ..
  | .findCallees symref .. => [symref]
  | .findCallPath _ from_ to_ .. => [from_, to_]

/-- The fqn by which a reference names its target, if it is no position. -/
def SymbolRef.name? : SymbolRef → Option String
  | .fqn name => some name
  | .at .. => none

/-- The fqns by which a query names its targets. -/
def ToolCall.names (call : ToolCall) : List String := call.targets.filterMap SymbolRef.name?

variable (rt : QueryRuntime)

/-- Run the query, and keep the fqns of the nodes it returns, of its path and of its hints. -/
def ToolCall.shown : ToolCall → QueryM (List String)
  | .findSymbol pattern mode ignoreCase options filter page => do
    let result ← rt.findSymbol pattern mode ignoreCase options filter page
    pure (result.nodes.map (·.fqn) ++ result.fqns)
  | .findDefinition symref => do
    let (result, _) ← rt.findDefinition symref
    pure (result.nodes.map (·.fqn))
  | .findReferences symref filter page => do
    let (result, _) ← rt.findReferences symref filter page
    pure (result.references.map (·.node.fqn) ++ result.hintFqns)
  | .findCallers symref filter page withSignature => do
    let (result, _) ← rt.findCallers symref filter page withSignature
    pure (result.items.map (·.node.fqn) ++ result.hintFqns)
  | .findCallees symref filter page withSignature => do
    let (result, _) ← rt.findCallees symref filter page withSignature
    pure (result.items.map (·.node.fqn) ++ result.hintFqns)
  | .findCallPath fuel from_ to_ maxDepth maxLspCalls => do
    match ← rt.findCallPath fuel from_ to_ maxDepth maxLspCalls with
    | some (result, _) =>
      pure (result.path.map (·.fqn) ++ result.fromHintFqns ++ result.toHintFqns)
    | none => pure []

/-- The first part of the query, which resolves its anchors. -/
def ToolCall.anchors : ToolCall → QueryM (List Node)
  | .findSymbol .. | .findDefinition .. => pure []
  | .findReferences symref .. | .findCallers symref .. | .findCallees symref .. => do
    let (client, _) ← rt.clientFor symref
    let (anchor, _) ← QueryEngine.resolveAnchor symref client
    pure anchor.toList
  | .findCallPath _ from_ to_ .. => do
    let (client, _) ← rt.clientFor from_
    let (fromAnchor, _) ← QueryEngine.resolveAnchor from_ client
    let (toAnchor, _) ← QueryEngine.resolveAnchor to_ client
    pure (fromAnchor.toList ++ toAnchor.toList)

/-- No row in its grace period is an anchor of the query or in its answer. -/
structure LeakFree (S : Servers) (w : World) (call : ToolCall) : Prop where
  anchors : ∀ anchors w', (call.anchors rt).run S w = (.ok anchors, w') →
    ∀ n ∈ anchors, n.orphan = false ∧ n.valid = true
  shown : ∀ fqns w', (call.shown rt).run S w = (.ok fqns, w') → ∀ fqn ∈ fqns, ¬ Hidden w.db fqn

/-! ## Live rows -/

/-- A row of the graph with this fqn is valid and no orphan. -/
def LiveFqn (d : Db) (fqn : String) : Prop :=
  ∃ n ∈ d.nodes, n.fqn = fqn ∧ n.valid = true ∧ n.orphan = false

/-- A node is live, and so is the row of its fqn. -/
structure LiveNode (d : Db) (n : Node) : Prop where
  valid : n.valid = true
  orphan : n.orphan = false
  fqn : LiveFqn d n.fqn

/-- The rows have the fqns and the flags of rows of `d`. -/
def FlagsOf (d : Db) (w : World) : Prop :=
  ∀ n ∈ w.db.nodes, ∃ m ∈ d.nodes, m.fqn = n.fqn ∧ m.valid = n.valid ∧ m.orphan = n.orphan

/-- The rows of a graph have the graph's flags. -/
private theorem flagsOf_self (w : World) : FlagsOf w.db w := fun n hn => ⟨n, hn, rfl, rfl, rfl⟩

/-- A name of a valid row is no name of an orphan. -/
private theorem LiveFqn.not_hidden {d : Db} (hwf : d.WF) {fqn : String} (h : LiveFqn d fqn) :
    ¬ Hidden d fqn := by
  obtain ⟨n, hn, hfqn, hvalid, horphan⟩ := h
  intro hhidden
  obtain ⟨m, hm, hfqn', hflags⟩ := hhidden
  obtain rfl := hwf.node_ext hm hn (hwf.fqn_unique m hm n hn (hfqn'.trans hfqn.symm))
  cases hflags with
  | inl h => exact Bool.noConfusion (horphan.symm.trans h)
  | inr h => exact Bool.noConfusion (hvalid.symm.trans h)

section Yields

variable {d : Db} {S : Servers} {w : World} {α β : Type}

/-- A valid row is live, for the graph has no valid orphans. -/
theorem FlagsOf.live_of_valid (hlive : LiveFlags d) (h : FlagsOf d w) {n : Node}
    (hn : n ∈ w.db.nodes) (hvalid : n.valid = true) : LiveNode d n := by
  obtain ⟨m, hm, hfqn, hv, ho⟩ := h n hn
  have horphan : m.orphan = false := by
    have hm' := hlive m hm
    rw [hv, hvalid] at hm'
    simpa using hm'.symm
  exact ⟨hvalid, ho ▸ horphan, m, hm, hfqn, hv.trans hvalid, horphan⟩

/-- A row whose name is no orphan's is live. -/
private theorem FlagsOf.live_of_named (h : FlagsOf d w) {n : Node} (hn : n ∈ w.db.nodes)
    (hnamed : ¬ Hidden d n.fqn) : LiveNode d n := by
  obtain ⟨m, hm, hfqn, hv, ho⟩ := h n hn
  have hvalid : m.valid = true := by
    by_contra hfalse
    exact hnamed ⟨m, hm, hfqn, .inr (by simpa using hfalse)⟩
  have horphan : m.orphan = false := by
    by_contra htrue
    exact hnamed ⟨m, hm, hfqn, .inl (by simpa using htrue)⟩
  exact ⟨hv ▸ hvalid, ho ▸ horphan, m, hm, hfqn, hvalid, horphan⟩

/-- No command of a query changes an fqn or a flag. -/
private theorem handle_flagsOf (c : Cmd β) (h : FlagsOf d w) : FlagsOf d (c.handle S w).2 := by
  intro n hn
  by_cases hc : c.kind = .storeHover
  · cases c with
    | db c =>
      cases c with
      | updateNodeConstruct | updateNodeSignature | updateNodeSignatureByFqn =>
        -- A hover writes the construct or the signature of a row.
        obtain ⟨m, hm, rfl⟩ := List.mem_map.mp hn
        split
        · exact h m hm
        · exact h m hm
      | _ => exact nomatch hc
    | _ => exact nomatch hc
  · rw [handle_nodes hc] at hn
    exact h n hn

/-- Whatever the servers answer: a run from a world with the flags of `d` ends in one, and its
    result has `Q`. -/
abbrev QueryM.Yields (S : Servers) (d : Db) (q : QueryM α) (Q : α → Prop) : Prop :=
  Prog.Yields (Cmd.handle S) (FlagsOf d) q Q

/-- What a command returns where the flags are as in the graph. -/
private theorem yields_perform {c : Cmd β} {Q : β → Prop}
    (hQ : ∀ w, FlagsOf d w → ∀ b, (c.handle S w).1 = .ok b → Q b) :
    QueryM.Yields S d (Prog.perform c) Q :=
  Prog.Yields.perform fun w hw => ⟨handle_flagsOf c hw, hQ w hw⟩

/-- A part of a query whose result does not matter. -/
theorem yields_any (q : QueryM α) : QueryM.Yields S d q fun _ => True := by
  intro w hw
  refine ⟨?_, fun _ _ => trivial⟩
  exact Prog.Issues.run_rel (Cmd.handle S) (fun a b => FlagsOf d a → FlagsOf d b)
    (fun _ h => h) (fun hab hbc ha => hbc (hab ha)) (fun _ c _ _ hs => handle_flagsOf c hs)
    (onlyKinds_true q) w hw

/-- A command of the graph yields what its result is known to be. -/
theorem yields_db {c : DbCmd β} {Q : β → Prop}
    (hQ : ∀ w, FlagsOf d w → ∀ b d', c.exec w.db = .ok (b, d') → Q b) :
    QueryM.Yields S d (db c) Q := by
  refine yields_perform fun w hw b hb => ?_
  simp only [Cmd.handle] at hb
  split at hb
  · rename_i b' d' hexec
    cases hb
    exact hQ w hw _ d' hexec
  · cases hb

/-! ## The reads -/

variable (hlive : LiveFlags d)

include hlive in
/-- A position finds live rows only. -/
theorem findNodeByPosition_yields (uri : String) (line col : Int) :
    QueryM.Yields S d (db (.findNodeByPosition uri line col))
      fun node => ∀ n, node = some n → LiveNode d n := by
  refine yields_db fun w hw b d' hexec n hn => ?_
  cases hexec
  have hmem := Db.findNodeByPosition_mem hn
  exact hw.live_of_valid hlive hmem.1 hmem.2.2.1

include hlive in
/-- Neighbors are live. -/
theorem getNeighbors_yields (id : RowId) (t : EdgeType) (dir : Direction) :
    QueryM.Yields S d (db (.getNeighbors id t dir)) fun rows => ∀ r ∈ rows, LiveNode d r.1 := by
  refine yields_db fun w hw b d' hexec r hr => ?_
  cases hexec
  have hrow := Db.getNeighbors_valid hr
  exact hw.live_of_valid hlive hrow.1 hrow.2

include hlive in
/-- Listed rows are live. -/
private theorem listNodes_yields (language : Option String) :
    QueryM.Yields S d (db (.listNodes language)) fun nodes => ∀ n ∈ nodes, LiveNode d n := by
  refine yields_db fun w hw b d' hexec n hn => ?_
  cases hexec
  have hmem := List.mem_filter.mp ((List.mem_insertionSort _).mp hn)
  have hvalid : n.valid = true := by
    have hboth := hmem.2
    simp only [Bool.and_eq_true] at hboth
    exact hboth.1
  exact hw.live_of_valid hlive hmem.1 hvalid

/-- The lookup by fqn looks at no flag. -/
private theorem getNodeByFqn_yields {fqn : String} (hnamed : ¬ Hidden d fqn) :
    QueryM.Yields S d (db (.getNodeByFqn fqn)) fun node => ∀ n, node = some n → LiveNode d n := by
  refine yields_db fun w hw b d' hexec n hn => ?_
  cases hexec
  have hfqn : n.fqn = fqn := by
    have hfound := List.find?_some hn
    simpa using hfound
  exact hw.live_of_named (getNodeByFqn_mem hn) (hfqn ▸ hnamed)

/-! ## Anchors -/

include hlive in
/-- The first location that is indexed is live. -/
private theorem firstResolved_yields (locs : List Location) :
    QueryM.Yields S d (firstResolved locs) fun node => ∀ n, node = some n → LiveNode d n := by
  induction locs with
  | nil =>
    refine Prog.Yields.pure fun n hn => ?_
    cases hn
  | cons loc rest ih =>
    refine Prog.Yields.bind (findNodeByPosition_yields hlive _ _ _) fun node hnode => ?_
    cases node with
    | some node => exact Prog.Yields.pure hnode
    | none => exact ih

include hlive in
/-- The anchor is live unless it was named by an orphan's fqn. -/
theorem resolveAnchor_yields {symref : SymbolRef} (client : Option Client)
    (hnamed : ∀ fqn, symref.name? = some fqn → ¬ Hidden d fqn) :
    QueryM.Yields S d (QueryEngine.resolveAnchor symref client)
      fun r => ∀ n, r.1 = some n → LiveNode d n := by
  cases symref with
  | fqn fqn =>
    exact Prog.Yields.bind (getNodeByFqn_yields (hnamed fqn rfl)) fun node hnode =>
      Prog.Yields.pure hnode
  | «at» uri line character =>
    cases client with
    | none =>
      exact Prog.Yields.bind (findNodeByPosition_yields hlive _ _ _) fun node hnode =>
        Prog.Yields.pure hnode
    | some client =>
      -- The server names the position; the tables are the fallback.
      refine Prog.Yields.bind (yields_any _) fun reply _ => ?_
      refine Prog.Yields.bind (firstResolved_yields hlive _) fun node hnode => ?_
      cases node with
      | some node => exact Prog.Yields.pure hnode
      | none =>
        exact Prog.Yields.bind (findNodeByPosition_yields hlive _ _ _) fun node hnode =>
          Prog.Yields.pure hnode

include hlive in
/-- Hints name live rows. -/
theorem hintFqnsForSymref_yields (engine : QueryEngine) (symref : SymbolRef) :
    QueryM.Yields S d (engine.hintFqnsForSymref symref) fun hints => ∀ f ∈ hints, LiveFqn d f := by
  cases symref with
  | «at» uri line character => exact Prog.Yields.pure fun f hf => nomatch hf
  | fqn fqn =>
    refine Prog.Yields.bind (listNodes_yields hlive none) fun nodes hnodes =>
      Prog.Yields.pure fun f hf => ?_
    have hmem := (List.mem_insertionSort _).mp (List.mem_dedup.mp (List.mem_of_mem_take hf))
    obtain ⟨n, hn, rfl⟩ := List.mem_map.mp hmem
    split at hn
    · exact (hnodes n (List.mem_filter.mp (List.mem_filter.mp hn).1).1).fqn
    · exact (hnodes n (List.mem_filter.mp (List.mem_filter.mp hn).1).1).fqn

/-! ## Definitions -/

/-- A hover leaves a node as live as it was. -/
private theorem refineByHover_yields {node : Node} (client : Client) (hnode : LiveNode d node) :
    QueryM.Yields S d (QueryEngine.refineByHover node client) fun n => LiveNode d n := by
  unfold QueryEngine.refineByHover
  split
  · exact Prog.Yields.pure hnode
  · refine Prog.Yields.bind (yields_any _) fun _ _ => ?_
    refine Prog.Yields.bind (yields_any _) fun reply _ => ?_
    split
    · -- A hover may store a signature; the row's name and flags, which liveness is about, stay.
      have hsignature : ∀ (node : Node) (signature : String), LiveNode d node →
          QueryM.Yields S d
            (if node.signature.isNone && !signature.isEmpty then do
              let _ ← db (.updateNodeSignature node.id signature)
              pure { node with signature := some signature }
            else pure node : QueryM Node) fun n => LiveNode d n := by
        intro node signature hnode
        split
        · exact Prog.Yields.bind (yields_any _) fun _ _ =>
            Prog.Yields.pure ⟨hnode.valid, hnode.orphan, hnode.fqn⟩
        · exact Prog.Yields.pure hnode
      dsimp only
      -- The hover's construct is stored first where it has one, the signature after it.
      split
      · exact Prog.Yields.bind (yields_any _) fun _ _ =>
          hsignature _ _ ⟨hnode.valid, hnode.orphan, hnode.fqn⟩
      · exact hsignature _ _ hnode
    · exact Prog.Yields.pure hnode

include hlive in
/-- The targets of a definition are live. -/
private theorem definitionNodes_yields (client : Client) (locs : List Location) :
    QueryM.Yields S d (QueryEngine.definitionNodes client locs)
      fun nodes => ∀ n ∈ nodes, LiveFqn d n.fqn := by
  induction locs with
  | nil =>
    refine Prog.Yields.pure fun n hn => ?_
    cases hn
  | cons loc rest ih =>
    refine Prog.Yields.bind (findNodeByPosition_yields hlive _ _ _) fun node hnode => ?_
    cases node with
    | none => exact ih
    | some node =>
      -- The hover may name the node of another row, found live as well.
      refine Prog.Yields.bind (refineByHover_yields client (hnode node rfl)) fun node hnode => ?_
      refine Prog.Yields.bind ih fun nodes hnodes => Prog.Yields.pure fun n hn => ?_
      cases List.mem_cons.mp hn with
      | inl h =>
        rw [h]
        exact hnode.fqn
      | inr h => exact hnodes n h

include hlive in
/-- A definition shows live rows, unless it was named by an orphan's fqn. -/
private theorem findDefinition_yields {symref : SymbolRef} (client : Option Client)
    (hnamed : ∀ fqn, symref.name? = some fqn → ¬ Hidden d fqn) :
    QueryM.Yields S d (QueryEngine.findDefinition symref client)
      fun r => ∀ n ∈ r.1.nodes, LiveFqn d n.fqn := by
  cases symref with
  | fqn fqn =>
    refine Prog.Yields.bind (getNodeByFqn_yields (hnamed fqn rfl)) fun node hnode =>
      Prog.Yields.pure fun n hn => ?_
    -- A name the orphan filter does not hide finds a live row or none.
    obtain ⟨m, hm, rfl⟩ := List.mem_map.mp hn
    exact (hnode m (Option.mem_toList.mp hm)).fqn
  | «at» uri line character =>
    cases client with
    | none => exact Prog.Yields.pure fun n hn => nomatch hn
    | some client =>
      refine Prog.Yields.bind (yields_any _) fun _ _ => ?_
      refine Prog.Yields.bind (yields_any _) fun reply _ => ?_
      exact Prog.Yields.bind (definitionNodes_yields hlive client _) fun nodes hnodes =>
        Prog.Yields.pure hnodes

/-! ## Pages -/

/-- A page holds items of the list. -/
theorem mem_of_mem_paginate {γ : Type} {items : List γ} {page : Page} {keyOf : γ → SortKey} {x : γ}
    (hx : x ∈ (paginate items page keyOf).1) : x ∈ items := by
  unfold paginate at hx
  cases hcursor : page.cursor with
  | none =>
    rw [hcursor] at hx
    exact List.mem_of_mem_take hx
  | some cur =>
    rw [hcursor] at hx
    exact (List.mem_filter.mp (List.mem_of_mem_take hx)).1

include hlive in
/-- A page of calls shows live rows and has no hints. -/
private theorem readCallsPage_yields (anchorId : RowId) (dir : Direction) (filter : Filter)
    (page : Page) :
    QueryM.Yields S d (QueryEngine.readCallsPage anchorId dir filter page)
      fun r => (∀ item ∈ r.items, LiveFqn d item.node.fqn) ∧ r.hintFqns = [] := by
  refine Prog.Yields.bind (getNeighbors_yields hlive _ _ _) fun rows hrows =>
    Prog.Yields.pure ⟨fun item hitem => ?_, rfl⟩
  obtain ⟨g, hg, rfl⟩ := List.mem_map.mp hitem
  obtain ⟨r, hr, heq⟩ := groupByNode_node (List.mem_filter.mp (mem_of_mem_paginate hg)).1
  exact heq ▸ (hrows r hr).fqn

include hlive in
/-- A page of references shows live rows. -/
private theorem referencesFromCache_yields (anchorId : RowId) (filter : Filter) (page : Page) :
    QueryM.Yields S d (QueryEngine.referencesFromCache anchorId filter page)
      fun r => (∀ group ∈ r.references, LiveFqn d group.node.fqn) ∧ r.hintFqns = [] := by
  refine Prog.Yields.bind (getNeighbors_yields hlive _ _ _) fun rows hrows =>
    Prog.Yields.pure ⟨fun group hgroup => ?_, rfl⟩
  obtain ⟨g, hg, rfl⟩ := List.mem_map.mp hgroup
  obtain ⟨r, hr, heq⟩ := groupByNode_node (List.mem_filter.mp (mem_of_mem_paginate hg)).1
  exact heq ▸ (hrows r hr).fqn

/-- Signatures change no name. -/
private theorem backfillSignatures_yields (client : Client) (opened : List String)
    {nodes : List NodeDto}
    (hnodes : ∀ n ∈ nodes, LiveFqn d n.fqn) :
    QueryM.Yields S d (QueryRuntime.backfillSignatures client opened nodes)
      fun nodes => ∀ n ∈ nodes, LiveFqn d n.fqn := by
  induction nodes generalizing opened with
  | nil => exact Prog.Yields.pure hnodes
  | cons node rest ih =>
    have hnode := hnodes node List.mem_cons_self
    have hrest : ∀ opened, QueryM.Yields S d (QueryRuntime.backfillSignatures client opened rest)
        fun nodes => ∀ n ∈ nodes, LiveFqn d n.fqn :=
      fun opened => ih opened fun n hn => hnodes n (List.mem_cons_of_mem _ hn)
    have hcons : ∀ (opened : List String) (node' : NodeDto), node'.fqn = node.fqn →
        QueryM.Yields S d (QueryRuntime.backfillSignatures client opened rest >>= fun rest =>
          pure (node' :: rest)) fun nodes => ∀ n ∈ nodes, LiveFqn d n.fqn := by
      intro opened node' hfqn
      refine Prog.Yields.bind (hrest opened) fun rest hrest => Prog.Yields.pure fun n hn => ?_
      cases List.mem_cons.mp hn with
      | inl h =>
        rw [h, hfqn]
        exact hnode
      | inr h => exact hrest n h
    unfold QueryRuntime.backfillSignatures
    split
    · exact hcons opened node rfl
    · dsimp only
      split
      -- With or without a `didOpen` first, the hover comes next.
      case' cons.isFalse.isTrue => refine Prog.Yields.bind (yields_any _) fun _ _ => ?_
      all_goals
        refine Prog.Yields.bind (yields_any _) fun reply _ => ?_
        split
        · split
          · exact hcons _ node rfl
          · exact Prog.Yields.bind (yields_any _) fun _ _ => hcons _ _ rfl
        · exact hcons _ node rfl

/-- With signatures or without, no name changes. -/
private theorem withSignatures_yields (withSignature : Bool) (client : Client)
    {result : CallGraphResult}
    (hresult : ∀ item ∈ result.items, LiveFqn d item.node.fqn) :
    QueryM.Yields S d (QueryRuntime.withSignatures withSignature client result)
      fun r => (∀ item ∈ r.items, LiveFqn d item.node.fqn) ∧ r.hintFqns = result.hintFqns := by
  unfold QueryRuntime.withSignatures
  split
  · have hnodes : ∀ n ∈ result.items.map (·.node), LiveFqn d n.fqn := fun n hn => by
      obtain ⟨item, hitem, rfl⟩ := List.mem_map.mp hn
      exact hresult item hitem
    refine Prog.Yields.bind (backfillSignatures_yields client [] hnodes) fun nodes hnodes =>
      Prog.Yields.pure ⟨fun item hitem => ?_, rfl⟩
    obtain ⟨⟨item, node⟩, hzip, rfl⟩ := List.mem_map.mp hitem
    exact hnodes node (List.of_mem_zip hzip).2
  · exact Prog.Yields.pure ⟨hresult, rfl⟩

/-- Filling in the signatures of every language changes no name. -/
private theorem backfillLanguages_yields (languages : List String) {nodes : List NodeDto}
    (hnodes : ∀ n ∈ nodes, LiveFqn d n.fqn) :
    QueryM.Yields S d (QueryRuntime.backfillLanguages languages nodes)
      fun nodes => ∀ n ∈ nodes, LiveFqn d n.fqn := by
  induction languages generalizing nodes with
  | nil => exact Prog.Yields.pure hnodes
  | cons language rest ih =>
    refine Prog.Yields.bind (yields_any _) fun acquired _ => ?_
    obtain ⟨client, degradation⟩ := acquired
    cases client with
    | none => exact ih hnodes
    | some client =>
      exact Prog.Yields.bind (backfillSignatures_yields client [] hnodes) fun nodes hnodes =>
        ih hnodes

/-! ## The search -/

/-- A path that is found is live if the paths in the queue are, and so are those that are queued. -/
private theorem scanCallees_live (toId : RowId) {path : List Node} {callees : List Node}
    (visited : List RowId) {queue : List QueryEngine.QueueItem}
    (hpath : ∀ n ∈ path, LiveNode d n) (hcallees : ∀ n ∈ callees, LiveNode d n)
    (hqueue : ∀ item ∈ queue, ∀ n ∈ item.path, LiveNode d n) :
    (∀ found, QueryEngine.scanCallees toId path callees visited queue = .inl found →
      ∀ n ∈ found, LiveNode d n) ∧
    ∀ visited' queue', QueryEngine.scanCallees toId path callees visited queue =
      .inr (visited', queue') → ∀ item ∈ queue', ∀ n ∈ item.path, LiveNode d n := by
  induction callees generalizing visited queue with
  | nil =>
    constructor
    · intro found h
      cases h
    · intro visited' queue' h
      cases h
      exact hqueue
  | cons callee rest ih =>
    -- The path through this callee is live because the path to the node is and the callee is.
    have hext : ∀ n ∈ path ++ [callee], LiveNode d n := by
      intro n hn
      cases List.mem_append.mp hn with
      | inl h => exact hpath n h
      | inr h =>
        rw [List.mem_singleton.mp h]
        exact hcallees callee List.mem_cons_self
    have hrest : ∀ n ∈ rest, LiveNode d n := fun n hn => hcallees n (List.mem_cons_of_mem _ hn)
    unfold QueryEngine.scanCallees
    split
    · constructor
      · intro found h
        cases h
        exact hext
      · intro visited' queue' h
        cases h
    · -- A callee seen before is skipped; a new one is queued with the longer path.
      split
      · exact ih _ hrest hqueue
      · refine ih _ hrest fun item hitem => ?_
        cases List.mem_append.mp hitem with
        | inl h => exact hqueue item h
        | inr h =>
          rw [List.mem_singleton.mp h]
          exact hext

include hlive in
/-- The path of the search is live, and the loop makes no hints. -/
private theorem searchLoop_yields (engine : QueryEngine) (toId : RowId) (maxDepth : Nat)
    (client : Option Client) (fuel : Nat) {st : QueryEngine.SearchState}
    (hqueue : ∀ item ∈ st.queue, ∀ n ∈ item.path, LiveNode d n) :
    QueryM.Yields S d (engine.searchLoop toId maxDepth client fuel st)
      fun found => ∀ r, found = some r → (∀ n ∈ r.1.path, LiveFqn d n.fqn) ∧
        r.1.fromHintFqns = [] ∧ r.1.toHintFqns = [] := by
  -- Induction on the fuel: what is queued has a live path, so every path found is live.
  induction fuel generalizing st with
  | zero => exact Prog.Yields.pure fun r hr => nomatch hr
  | succ fuel ih =>
    unfold QueryEngine.searchLoop
    split
    · refine Prog.Yields.pure fun r hr => ?_
      cases hr
      exact ⟨(fun n hn => nomatch hn), rfl, rfl⟩
    · rename_i item queue hq
      rw [hq] at hqueue
      have hrest : ∀ item ∈ queue, ∀ n ∈ item.path, LiveNode d n := fun item hitem =>
        hqueue item (List.mem_cons_of_mem _ hitem)
      split
      · exact ih hrest
      · -- The expansion may store edges, but no row becomes live or hidden by it,
        refine Prog.Yields.bind (yields_any _) fun expansion _ => ?_
        -- so the neighbours read after it are live.
        refine Prog.Yields.bind (getNeighbors_yields hlive _ _ _) fun rows hrows => ?_
        have hcallees : ∀ n ∈ (groupByNode rows).map (·.1), LiveNode d n := fun n hn => by
          obtain ⟨g, hg, rfl⟩ := List.mem_map.mp hn
          obtain ⟨r, hr, heq⟩ := groupByNode_node hg
          exact heq ▸ hrows r hr
        have hscan := scanCallees_live toId st.visited
          (hqueue item List.mem_cons_self) hcallees hrest
        -- Either the target is among the callees, or the search goes on with a longer queue.
        split
        · rename_i path hfound
          refine Prog.Yields.pure fun r hr => ?_
          cases hr
          refine ⟨fun n hn => ?_, rfl, rfl⟩
          obtain ⟨m, hm, rfl⟩ := List.mem_map.mp hn
          exact (hscan.1 path hfound m hm).fqn
        · rename_i visited queue hfound
          exact ih (hscan.2 visited queue hfound)

include hlive in
/-- The path between two anchors is of live rows; the hints name live rows. -/
private theorem engine_findCallPath_yields (engine : QueryEngine) (fuel : Nat)
    {from_ to_ : SymbolRef}
    (maxDepth maxLspCalls : Nat) (client : Option Client)
    (hfrom : ∀ fqn, from_.name? = some fqn → ¬ Hidden d fqn)
    (hto : ∀ fqn, to_.name? = some fqn → ¬ Hidden d fqn) :
    QueryM.Yields S d (engine.findCallPath fuel from_ to_ maxDepth maxLspCalls client)
      fun found => ∀ r, found = some r → (∀ n ∈ r.1.path, LiveFqn d n.fqn) ∧
        (∀ f ∈ r.1.fromHintFqns, LiveFqn d f) ∧ ∀ f ∈ r.1.toHintFqns, LiveFqn d f := by
  refine Prog.Yields.bind (resolveAnchor_yields hlive client hfrom) fun r₁ hr₁ => ?_
  obtain ⟨fromAnchor, fromTimedOut⟩ := r₁
  refine Prog.Yields.bind (resolveAnchor_yields hlive client hto) fun r₂ hr₂ => ?_
  obtain ⟨toAnchor, toTimedOut⟩ := r₂
  have hnone : ∀ f ∈ ([] : List String), LiveFqn d f := fun f hf => nomatch hf
  dsimp only
  split
  · rename_i fromNode toNode
    have hlivefrom := hr₁ fromNode rfl
    -- From an end to itself the path is that end alone.
    split
    · refine Prog.Yields.pure fun r hr => ?_
      cases hr
      refine ⟨fun n hn => ?_, hnone, hnone⟩
      rw [List.mem_singleton.mp hn]
      exact hlivefrom.fqn
    · -- Otherwise the queue starts with the first end, which is live.
      refine Prog.Yields.mono (searchLoop_yields hlive engine _ _ _ _ ?_) fun found hfound r hr => ?_
      · intro item hitem n hn
        rw [List.mem_singleton.mp hitem] at hn
        rw [List.mem_singleton.mp hn]
        exact hlivefrom
      · obtain ⟨hpath, hfrom, hto⟩ := hfound r hr
        rw [hfrom, hto]
        exact ⟨hpath, hnone, hnone⟩
  · -- An end that did not resolve gets hints, the other one gets none.
    have hpure : ∀ fromHints toHints : List String, (∀ f ∈ fromHints, LiveFqn d f) →
        (∀ f ∈ toHints, LiveFqn d f) →
        QueryM.Yields S d (pure (some (⟨false, [], false, fromHints, toHints⟩,
          fromTimedOut || toTimedOut)) : QueryM (Option (FindCallPathResult × Bool)))
          fun found => ∀ r, found = some r → (∀ n ∈ r.1.path, LiveFqn d n.fqn) ∧
            (∀ f ∈ r.1.fromHintFqns, LiveFqn d f) ∧ ∀ f ∈ r.1.toHintFqns, LiveFqn d f := by
      intro fromHints toHints hfromHints htoHints
      refine Prog.Yields.pure fun r hr => ?_
      cases hr
      exact ⟨(fun n hn => nomatch hn), hfromHints, htoHints⟩
    -- Hints are asked for the ends that did not resolve, one after the other.
    have hhints := hintFqnsForSymref_yields hlive engine (S := S)
    have hnil : QueryM.Yields S d (pure []) fun hints => ∀ f ∈ hints, LiveFqn d f :=
      Prog.Yields.pure hnone
    split
    · refine Prog.Yields.bind (hhints from_) fun fromHints hfromHints => ?_
      split
      · exact Prog.Yields.bind (hhints to_) fun toHints htoHints => hpure _ _ hfromHints htoHints
      · exact Prog.Yields.bind hnil fun toHints htoHints =>
          hpure _ _ hfromHints htoHints
    · refine Prog.Yields.bind hnil fun fromHints hfromHints => ?_
      split
      · exact Prog.Yields.bind (hhints to_) fun toHints htoHints => hpure _ _ hfromHints htoHints
      · exact Prog.Yields.bind hnil fun toHints htoHints =>
          hpure _ _ hfromHints htoHints

/-! ## The queries -/

include hlive in
/-- What a query resolves before it goes on. -/
private theorem anchors_yields (call : ToolCall) (hnamed : ∀ fqn ∈ call.names, ¬ Hidden d fqn) :
    -- Every reference of a call is named, so none of them names a hidden row.
    QueryM.Yields S d (call.anchors rt) fun anchors => ∀ n ∈ anchors, LiveNode d n := by
  have hname : ∀ symref ∈ call.targets, ∀ fqn, symref.name? = some fqn → ¬ Hidden d fqn :=
    fun symref hsymref fqn hfqn => hnamed fqn (List.mem_filterMap.mpr ⟨symref, hsymref, hfqn⟩)
  have hone : ∀ symref ∈ call.targets, QueryM.Yields S d (do
      let (client, _) ← rt.clientFor symref
      let (anchor, _) ← QueryEngine.resolveAnchor symref client
      pure anchor.toList) fun anchors => ∀ n ∈ anchors, LiveNode d n := by
    intro symref hsymref
    refine Prog.Yields.bind (yields_any _) fun acquired _ => ?_
    refine Prog.Yields.bind (resolveAnchor_yields hlive acquired.1 (hname symref hsymref))
      fun r hr => Prog.Yields.pure fun n hn => ?_
    exact hr n (Option.mem_toList.mp hn)
  -- The tools with one reference resolve it; a call path resolves both its ends.
  cases call with
  | findSymbol | findDefinition => exact Prog.Yields.pure fun n hn => nomatch hn
  | findReferences symref | findCallers symref | findCallees symref =>
    exact hone symref List.mem_cons_self
  | findCallPath fuel from_ to_ maxDepth maxLspCalls =>
    refine Prog.Yields.bind (yields_any _) fun acquired _ => ?_
    refine Prog.Yields.bind (resolveAnchor_yields hlive acquired.1
      (hname from_ List.mem_cons_self)) fun r₁ hr₁ => ?_
    refine Prog.Yields.bind (resolveAnchor_yields hlive acquired.1
      (hname to_ (List.mem_cons_of_mem _ List.mem_cons_self))) fun r₂ hr₂ => ?_
    refine Prog.Yields.pure fun n hn => ?_
    cases List.mem_append.mp hn with
    | inl h => exact hr₁ n (Option.mem_toList.mp h)
    | inr h => exact hr₂ n (Option.mem_toList.mp h)

include hlive in
/-- The tool `find_symbol` shows live rows. -/
private theorem findSymbol_yields (pattern : String) (mode : MatchMode) (ignoreCase : Bool)
    (options : FindSymbolOptions) (filter : Filter) (page : Page) :
    QueryM.Yields S d (rt.findSymbol pattern mode ignoreCase options filter page)
      fun r => (∀ n ∈ r.nodes, LiveFqn d n.fqn) ∧ ∀ f ∈ r.fqns, LiveFqn d f := by
  have hengine : QueryM.Yields S d
      (rt.toQueryEngine.findSymbol pattern mode ignoreCase options.brief filter page)
      fun r => (∀ n ∈ r.nodes, LiveFqn d n.fqn) ∧ ∀ f ∈ r.fqns, LiveFqn d f := by
    refine Prog.Yields.bind (listNodes_yields hlive _) fun nodes hnodes => ?_
    dsimp only
    split
    · -- The brief answer lists the fqns only, the full one the nodes only.
      refine Prog.Yields.pure ⟨(fun n hn => nomatch hn), fun f hf => ?_⟩
      obtain ⟨n, hn, rfl⟩ := List.mem_map.mp hf
      exact (hnodes n (List.mem_filter.mp (mem_of_mem_paginate hn)).1).fqn
    · refine Prog.Yields.pure ⟨fun dto hdto => ?_, fun f hf => nomatch hf⟩
      obtain ⟨n, hn, rfl⟩ := List.mem_map.mp hdto
      exact (hnodes n (List.mem_filter.mp (mem_of_mem_paginate hn)).1).fqn
  refine Prog.Yields.bind hengine fun result hresult => ?_
  split
  · exact Prog.Yields.bind (backfillLanguages_yields _ hresult.1) fun nodes hnodes =>
      Prog.Yields.pure ⟨hnodes, hresult.2⟩
  · exact Prog.Yields.pure hresult

include hlive in
/-- The tool `find_references` does so unless an orphan was named. -/
private theorem findReferences_yields {symref : SymbolRef} (filter : Filter) (page : Page)
    (hname : ∀ fqn, symref.name? = some fqn → ¬ Hidden d fqn) :
    QueryM.Yields S d (rt.findReferences symref filter page)
      fun r => (∀ group ∈ r.1.references, LiveFqn d group.node.fqn) ∧
        ∀ f ∈ r.1.hintFqns, LiveFqn d f := by
  -- Whatever is materialized, the page is read off live rows, and a found anchor has no hints.
  have hpage : ∀ id, QueryM.Yields S d (QueryEngine.referencesFromCache id filter page)
      fun r => (∀ group ∈ r.references, LiveFqn d group.node.fqn) ∧
        ∀ f ∈ r.hintFqns, LiveFqn d f :=
    fun id => (referencesFromCache_yields hlive id filter page).mono fun r hr =>
      ⟨hr.1, fun f hf => by rw [hr.2] at hf; exact nomatch hf⟩
  refine Prog.Yields.bind (yields_any _) fun acquired _ => ?_
  obtain ⟨client, degradation⟩ := acquired
  refine Prog.Yields.bind (resolveAnchor_yields hlive client hname) fun r hr => ?_
  obtain ⟨anchor, timedOut⟩ := r
  -- Without an anchor there are hints only; without a client the cache is read as it is.
  dsimp only
  split
  · exact Prog.Yields.bind (hintFqnsForSymref_yields hlive rt.toQueryEngine symref)
      fun hints hhints => Prog.Yields.pure ⟨(fun n hn => nomatch hn), hhints⟩
  · exact Prog.Yields.bind (hpage _) fun result hresult => Prog.Yields.pure hresult
  · refine Prog.Yields.bind (yields_any _) fun _ _ => ?_
    refine Prog.Yields.bind (yields_any _) fun warm _ => ?_
    -- Warm: the page, and a refresh in the background.  Cold: materialize, mark, then the page.
    split
    · exact Prog.Yields.bind (hpage _) fun result hresult =>
        Prog.Yields.bind (yields_any _) fun _ _ => Prog.Yields.pure hresult
    · refine Prog.Yields.bind (yields_any _) fun _ _ => ?_
      refine Prog.Yields.bind (yields_any _) fun _ _ => ?_
      exact Prog.Yields.bind (hpage _) fun result hresult =>
        Prog.Yields.bind (yields_any _) fun _ _ => Prog.Yields.pure hresult

include hlive in
/-- A page of callers or callees, with its signatures. -/
private theorem callsPage_yields (id : RowId) (dir : Direction) (filter : Filter) (page : Page) :
    QueryM.Yields S d (QueryEngine.readCallsPage id dir filter page)
      fun r => (∀ item ∈ r.items, LiveFqn d item.node.fqn) ∧ ∀ f ∈ r.hintFqns, LiveFqn d f :=
  (readCallsPage_yields hlive id dir filter page).mono fun r hr =>
    ⟨hr.1, fun f hf => by rw [hr.2] at hf; exact nomatch hf⟩

/-- With the hints of the page. -/
private theorem withSignatures_live (withSignature : Bool) (client : Client)
    {result : CallGraphResult}
    (hresult : (∀ item ∈ result.items, LiveFqn d item.node.fqn) ∧
      ∀ f ∈ result.hintFqns, LiveFqn d f) :
    QueryM.Yields S d (QueryRuntime.withSignatures withSignature client result)
      fun r => (∀ item ∈ r.items, LiveFqn d item.node.fqn) ∧ ∀ f ∈ r.hintFqns, LiveFqn d f :=
  (withSignatures_yields withSignature client hresult.1).mono fun _ hr =>
    ⟨hr.1, hr.2 ▸ hresult.2⟩

include hlive in
/-- The tool `find_callers`. -/
private theorem findCallers_yields {symref : SymbolRef} (filter : Filter) (page : Page)
    (withSignature : Bool) (hname : ∀ fqn, symref.name? = some fqn → ¬ Hidden d fqn) :
    QueryM.Yields S d (rt.findCallers symref filter page withSignature)
      fun r => (∀ item ∈ r.1.items, LiveFqn d item.node.fqn) ∧
        ∀ f ∈ r.1.hintFqns, LiveFqn d f := by
  refine Prog.Yields.bind (yields_any _) fun acquired _ => ?_
  obtain ⟨client, degradation⟩ := acquired
  refine Prog.Yields.bind (resolveAnchor_yields hlive client hname) fun r hr => ?_
  obtain ⟨anchor, timedOut⟩ := r
  -- The cases are those of `find_references`, with signatures asked for at the end.
  dsimp only
  split
  · exact Prog.Yields.bind (hintFqnsForSymref_yields hlive rt.toQueryEngine symref)
      fun hints hhints => Prog.Yields.pure ⟨(fun n hn => nomatch hn), hhints⟩
  · exact Prog.Yields.bind (callsPage_yields hlive _ _ _ _) fun result hresult =>
      Prog.Yields.pure hresult
  · refine Prog.Yields.bind (yields_any _) fun _ _ => ?_
    refine Prog.Yields.bind (yields_any _) fun warm _ => ?_
    -- Warm: the page, and a refresh in the background.  Cold: materialize, mark, then the page.
    split
    · refine Prog.Yields.bind (callsPage_yields hlive _ _ _ _) fun result hresult => ?_
      refine Prog.Yields.bind (withSignatures_live withSignature _ hresult) fun result hresult => ?_
      exact Prog.Yields.bind (yields_any _) fun _ _ => Prog.Yields.pure hresult
    · refine Prog.Yields.bind (yields_any _) fun _ _ => ?_
      refine Prog.Yields.bind (yields_any _) fun _ _ => ?_
      refine Prog.Yields.bind (callsPage_yields hlive _ _ _ _) fun result hresult => ?_
      refine Prog.Yields.bind (withSignatures_live withSignature _ hresult) fun result hresult => ?_
      exact Prog.Yields.bind (yields_any _) fun _ _ => Prog.Yields.pure hresult

include hlive in
/-- The tool `find_callees`. -/
private theorem findCallees_yields {symref : SymbolRef} (filter : Filter) (page : Page)
    (withSignature : Bool) (hname : ∀ fqn, symref.name? = some fqn → ¬ Hidden d fqn) :
    QueryM.Yields S d (rt.findCallees symref filter page withSignature)
      fun r => (∀ item ∈ r.1.items, LiveFqn d item.node.fqn) ∧
        ∀ f ∈ r.1.hintFqns, LiveFqn d f := by
  refine Prog.Yields.bind (yields_any _) fun acquired _ => ?_
  obtain ⟨client, degradation⟩ := acquired
  -- The query proper; the runtime adds signatures to what it returns.
  have hengine : QueryM.Yields S d (rt.toQueryEngine.findCallees symref filter page client)
      fun r => (∀ item ∈ r.1.items, LiveFqn d item.node.fqn) ∧
        ∀ f ∈ r.1.hintFqns, LiveFqn d f := by
    refine Prog.Yields.bind (resolveAnchor_yields hlive client hname) fun r hr => ?_
    obtain ⟨anchor, timedOut⟩ := r
    dsimp only
    split
    · exact Prog.Yields.bind (hintFqnsForSymref_yields hlive rt.toQueryEngine symref)
        fun hints hhints => Prog.Yields.pure ⟨(fun n hn => nomatch hn), hhints⟩
    · -- With a client the anchor is refreshed first.
      split
      all_goals
        refine Prog.Yields.bind (yields_any _) fun refreshed _ => ?_
        exact Prog.Yields.bind (callsPage_yields hlive _ _ _ _) fun result hresult =>
          Prog.Yields.pure hresult
  refine Prog.Yields.bind hengine fun found hfound => ?_
  obtain ⟨result, timedOut⟩ := found
  dsimp only
  split
  · exact Prog.Yields.bind (withSignatures_live withSignature _ hfound) fun result hresult =>
      Prog.Yields.pure hresult
  · exact Prog.Yields.pure hfound

/-- An answer shows the names of its items, and its hints. -/
private theorem forall_mem_named {α : Type} {P : String → Prop} {items : List α} {name : α → String}
    {hints : List String} (hitems : ∀ x ∈ items, P (name x)) (hhints : ∀ f ∈ hints, P f) :
    ∀ f ∈ items.map name ++ hints, P f :=
  List.forall_mem_append.mpr ⟨List.forall_mem_map.mpr hitems, hhints⟩

include hlive in
/-- What a query shows when none of its targets names a hidden row. -/
private theorem shown_yields (call : ToolCall) (hnamed : ∀ fqn ∈ call.names, ¬ Hidden d fqn) :
    QueryM.Yields S d (call.shown rt) fun fqns => ∀ f ∈ fqns, LiveFqn d f := by
  have hname : ∀ symref ∈ call.targets, ∀ fqn, symref.name? = some fqn → ¬ Hidden d fqn :=
    fun symref hsymref fqn hfqn => hnamed fqn (List.mem_filterMap.mpr ⟨symref, hsymref, hfqn⟩)
  -- Every tool but the path search shows the rows of one query and its hints.
  cases call with
  | findSymbol pattern mode ignoreCase options filter page =>
    exact Prog.Yields.bind (findSymbol_yields rt hlive _ _ _ _ _ _) fun result hresult =>
      Prog.Yields.pure (forall_mem_named hresult.1 hresult.2)
  | findDefinition symref =>
    refine Prog.Yields.bind (Q := fun r => ∀ n ∈ r.1.nodes, LiveFqn d n.fqn) ?_
      fun result hresult => Prog.Yields.pure (List.forall_mem_map.mpr hresult)
    refine Prog.Yields.bind (yields_any _) fun acquired _ => ?_
    exact Prog.Yields.bind (findDefinition_yields hlive acquired.1
      (hname symref List.mem_cons_self)) fun found hfound => Prog.Yields.pure hfound
  | findReferences symref filter page =>
    exact Prog.Yields.bind (findReferences_yields rt hlive filter page
      (hname symref List.mem_cons_self)) fun result hresult =>
        Prog.Yields.pure (forall_mem_named hresult.1 hresult.2)
  | findCallers symref filter page withSignature =>
    exact Prog.Yields.bind (findCallers_yields rt hlive filter page withSignature
      (hname symref List.mem_cons_self)) fun result hresult =>
        Prog.Yields.pure (forall_mem_named hresult.1 hresult.2)
  | findCallees symref filter page withSignature =>
    exact Prog.Yields.bind (findCallees_yields rt hlive filter page withSignature
      (hname symref List.mem_cons_self)) fun result hresult =>
        Prog.Yields.pure (forall_mem_named hresult.1 hresult.2)
  | findCallPath fuel from_ to_ maxDepth maxLspCalls =>
    refine Prog.Yields.bind (Q := fun found => ∀ r, found = some r →
      (∀ n ∈ r.1.path, LiveFqn d n.fqn) ∧ (∀ f ∈ r.1.fromHintFqns, LiveFqn d f) ∧
        ∀ f ∈ r.1.toHintFqns, LiveFqn d f) ?_ fun found hfound => ?_
    · -- A path search shows the path and the hints of both its ends.
      refine Prog.Yields.bind (yields_any _) fun acquired _ => ?_
      refine Prog.Yields.bind (engine_findCallPath_yields hlive rt.toQueryEngine fuel maxDepth
        maxLspCalls acquired.1 (hname from_ List.mem_cons_self)
        (hname to_ (List.mem_cons_of_mem _ List.mem_cons_self))) fun found hfound =>
          Prog.Yields.pure fun r hr => ?_
      obtain ⟨r', hr', rfl⟩ := Option.map_eq_some_iff.mp hr
      exact hfound r' hr'
    · cases found with
      | none => exact Prog.Yields.pure fun f hf => nomatch hf
      | some r =>
        obtain ⟨hpath, hfrom, hto⟩ := hfound r rfl
        exact Prog.Yields.pure (List.forall_mem_append.mpr ⟨forall_mem_named hpath hfrom, hto⟩)

end Yields

/-! ## When a hidden row shows -/

section Hidden

variable {S : Servers} {w : World}

/-- The lookup by fqn finds a hidden row like any other. -/
private theorem Hidden.found {fqn : String} (hwf : w.db.WF) (h : Hidden w.db fqn) :
    ∃ n, w.db.getNodeByFqn fqn = some n ∧ n.fqn = fqn ∧ (n.orphan = true ∨ n.valid = false) := by
  obtain ⟨m, hm, hfqn, hflags⟩ := h
  cases hfound : w.db.getNodeByFqn fqn with
  | none =>
    have hnone := List.find?_eq_none.mp hfound m hm
    simp [hfqn] at hnone
  | some n =>
    have hn : n.fqn = fqn := by
      have hn := List.find?_some hfound
      simpa using hn
    obtain rfl := hwf.node_ext (getNodeByFqn_mem hfound) hm
      (hwf.fqn_unique n (getNodeByFqn_mem hfound) m hm (hn.trans hfqn.symm))
    exact ⟨n, rfl, hn, hflags⟩

/-- Acquiring a server always ends, and keeps the graph. -/
private theorem acquireOpt_returns (language : Option String) :
    (QueryRuntime.acquireOpt language).Returns S w fun _ w' => w'.db = w.db := by
  cases language with
  | none => exact Prog.Returns.pure rfl
  | some language =>
    refine Prog.Returns.bind_run (Prog.run_perform (Cmd.handle S) (.acquire language) w) ?_
    split
    · exact Prog.Returns.pure rfl
    · exact Prog.Returns.pure rfl

/-- Acquiring the client of a reference leaves the graph. -/
private theorem clientFor_returns (symref : SymbolRef) :
    (rt.clientFor symref).Returns S w fun _ w' => w'.db = w.db := by
  cases symref with
  | fqn fqn => exact Prog.Returns.bind_run (run_getNodeByFqn S w fqn) (acquireOpt_returns _)
  | «at» uri line character => exact acquireOpt_returns _

/-- Resolving the anchors of a query ends, and what an fqn names is among them. -/
private theorem anchors_returns (call : ToolCall) : (call.anchors rt).Returns S w fun anchors _ =>
    call.names = [] ∨ (∃ fqn, call = .findDefinition (.fqn fqn)) ∨
      ∀ fqn ∈ call.names, ∀ n, w.db.getNodeByFqn fqn = some n → n ∈ anchors := by
  -- A reference that is an fqn resolves to the row of that fqn.
  have hresolve : ∀ (symref : SymbolRef) (client : Option Client) (w₁ : World), w₁.db = w.db →
      (QueryEngine.resolveAnchor symref client).Returns S w₁ fun r w' => w'.db = w.db ∧
        ∀ fqn, symref.name? = some fqn → r.1 = w.db.getNodeByFqn fqn := by
    intro symref client w₁ hw₁
    cases symref with
    | fqn fqn =>
      refine Prog.Returns.bind_run (run_getNodeByFqn S w₁ fqn) (Prog.Returns.pure ⟨hw₁, ?_⟩)
      intro name hname
      cases hname
      rw [hw₁]
    | «at» uri line character =>
      exact (resolveAnchor_returns (.at uri line character) client).mono fun r w' hr =>
        ⟨hr.1.trans hw₁, fun fqn hfqn => nomatch hfqn⟩
  have hone : ∀ symref, QueryM.Returns S (do
      let (client, _) ← rt.clientFor symref
      let (anchor, _) ← QueryEngine.resolveAnchor symref client
      pure anchor.toList) w fun anchors _ =>
        ∀ fqn, symref.name? = some fqn → ∀ n, w.db.getNodeByFqn fqn = some n → n ∈ anchors := by
    intro symref
    refine Prog.Returns.bind (clientFor_returns rt symref) fun acquired w₁ hw₁ => ?_
    refine Prog.Returns.bind (hresolve symref acquired.1 w₁ hw₁) fun r w₂ hr =>
      Prog.Returns.pure fun fqn hfqn n hn => ?_
    rw [hr.2 fqn hfqn, hn]
    exact List.mem_cons_self
  have hnames : ∀ (symref : SymbolRef) (anchors : List Node), (∀ fqn, symref.name? = some fqn → ∀ n,
      w.db.getNodeByFqn fqn = some n → n ∈ anchors) →
      ∀ fqn ∈ [symref].filterMap SymbolRef.name?, ∀ n,
        w.db.getNodeByFqn fqn = some n → n ∈ anchors := by
    intro symref anchors h fqn hfqn
    obtain ⟨symref', hmem, hname⟩ := List.mem_filterMap.mp hfqn
    rw [List.mem_singleton.mp hmem] at hname
    exact h fqn hname
  cases call with
  | findSymbol => exact Prog.Returns.pure (.inl rfl)
  | findDefinition symref =>
    cases symref with
    | fqn fqn => exact Prog.Returns.pure (.inr (.inl ⟨fqn, rfl⟩))
    | «at» => exact Prog.Returns.pure (.inl rfl)
  | findReferences symref | findCallers symref | findCallees symref =>
    exact (hone symref).mono fun anchors _ h => .inr (.inr (hnames symref anchors h))
  | findCallPath fuel from_ to_ maxDepth maxLspCalls =>
    refine Prog.Returns.bind (clientFor_returns rt from_) fun acquired w₁ hw₁ => ?_
    refine Prog.Returns.bind (hresolve from_ acquired.1 w₁ hw₁) fun r₁ w₂ hr₁ => ?_
    refine Prog.Returns.bind (hresolve to_ acquired.1 w₂ hr₁.1) fun r₂ w₃ hr₂ =>
      Prog.Returns.pure (.inr (.inr fun fqn hfqn n hn => ?_))
    obtain ⟨symref, hmem, hname⟩ := List.mem_filterMap.mp hfqn
    rw [List.mem_append]
    cases List.mem_cons.mp hmem with
    | inl h =>
      rw [h] at hname
      rw [hr₁.2 fqn hname, hn]
      exact .inl List.mem_cons_self
    | inr h =>
      rw [List.mem_singleton.mp h] at hname
      rw [hr₂.2 fqn hname, hn]
      exact .inr List.mem_cons_self

/-- Against any servers, a query on a reachable graph keeps the rows in their grace period out
    of its anchors and its answer exactly when none of its targets names one by fqn. -/
theorem leakFree_iff (S : Servers) {w : World} (h : Reachable rt.hasher w) (call : ToolCall) :
    LeakFree rt S w call ↔ ∀ fqn ∈ call.names, ¬ Hidden w.db fqn := by
  have hwf := h.stored.toWF
  constructor
  · intro hfree fqn hfqn hhidden
    obtain ⟨n, hfound, hn, hflags⟩ := hhidden.found hwf
    obtain ⟨anchors, w', hrun, hcases⟩ := anchors_returns rt call (S := S) (w := w)
    rcases hcases with hnone | ⟨name, rfl⟩ | hanchors
    · rw [hnone] at hfqn
      exact List.not_mem_nil hfqn
    · -- `find_definition` answers with the row itself.
      obtain rfl : fqn = name := List.mem_singleton.mp hfqn
      have hshown : ((ToolCall.findDefinition (.fqn fqn)).shown rt).run S w = (.ok [n.fqn], w) := by
        show QueryM.run S (db (.getNodeByFqn fqn) >>= fun node =>
          pure ((node.toList.map NodeDto.fromNode).map (·.fqn))) w = _
        rw [run_bind_of_ok S w _ (run_getNodeByFqn S w fqn), hfound]
        rfl
      exact hfree.shown _ w hshown fqn (hn ▸ List.mem_cons_self) hhidden
    · obtain ⟨horphan, hvalid⟩ := hfree.anchors anchors w' hrun n (hanchors fqn hfqn n hfound)
      cases hflags with
      | inl h => exact Bool.noConfusion (horphan.symm.trans h)
      | inr h => exact Bool.noConfusion (h.symm.trans hvalid)
  · intro hnamed
    have hlive := h.live_iff
    constructor
    · intro anchors w' hrun n hn
      have hyields := anchors_yields rt hlive call hnamed (S := S) w (flagsOf_self w)
      have hnode := hyields.2 anchors (congrArg Prod.fst hrun) n hn
      exact ⟨hnode.orphan, hnode.valid⟩
    · intro fqns w' hrun fqn hfqn
      have hyields := shown_yields rt hlive call hnamed (S := S) w (flagsOf_self w)
      exact (hyields.2 fqns (congrArg Prod.fst hrun) fqn hfqn).not_hidden hwf

end Hidden

/-! ## A class that vanished -/

/-- `app.py` was reconciled with a class `Foo`, and then without it. -/
def vanishedDb : Db :=
  match reconcileFileSymbols lengthHasher fooDb appPy [] with
  | .ok (tables, _) => tables
  | .error _ => .empty

/-- The file is readable and nothing else has happened. -/
def vanishedWorld : World := { twoFunctionsWorld with db := vanishedDb }

/-- The world with the orphan is reached. -/
private theorem vanishedWorld_reachable : Reachable appRuntime.hasher vanishedWorld := by
  have hstart : Reachable appRuntime.hasher { twoFunctionsWorld with db := .empty } := .start rfl
  have hfoo := hstart.env (.reconcile (by decide) fooDb_eq)
  have hvanished : reconcileFileSymbols lengthHasher fooDb appPy [] =
      .ok (vanishedDb, { orphaned := 2 }) := rfl
  exact hfoo.env (.reconcile (by decide) hvanished)

/-- A position where the orphan was. -/
theorem leakFree_iff_vanished :
    LeakFree appRuntime brokenServers vanishedWorld (.findDefinition (.at "file:///app.py" 0 0)) ↔
      ∀ fqn ∈ (ToolCall.findDefinition (.at "file:///app.py" 0 0)).names,
        ¬ Hidden vanishedDb fqn :=
  leakFree_iff appRuntime brokenServers vanishedWorld_reachable _

/-- In the grace period of the class, `find_definition` by its fqn still answers with its
    row, and `find_callees` resolves to it. -/
theorem vanished_class_is_found : Reachable appRuntime.hasher vanishedWorld ∧
    ¬ LeakFree appRuntime brokenServers vanishedWorld (.findDefinition (.fqn "app.Foo")) ∧
    ¬ LeakFree appRuntime brokenServers vanishedWorld
      (.findCallees (.fqn "app.Foo") anyFilter firstPage false) := by
  refine ⟨vanishedWorld_reachable, fun h => ?_, fun h => ?_⟩
  · exact h.shown ["app.Foo"] _ rfl "app.Foo" (by decide) (by decide)
  · have hanchor := h.anchors _ _ rfl _ List.mem_cons_self
    exact absurd hanchor (by decide)

end Semnav.Query
