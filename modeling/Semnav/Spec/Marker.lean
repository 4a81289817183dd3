import Semnav.ForStd.Tasks
import Semnav.Spec.GracePeriod

/-!
# The materialized marker

Who writes a row of `materialized`, in runs where queries, background refreshes, reconciles
and index passes interleave command by command: only a `find_references` or `find_callers`
whose own cold materialization has just ended.  That it ended says nothing about its round
trips, so the marker tells of a success only where no cold materialization fails.

## Key results

- `MarksAfter`, `shown_marksAfter`: a query marks nothing but what it has materialized
- `marker_after_success`: the marker tells of a success in every run whose cold
  materializations were answered
- `broken_server_marks`: one failed round trip is enough for a marker without a success
-/

namespace Semnav.Query

open Semnav.ForStd Semnav.Graph Semnav.Indexer Semnav.Adapters

/-! ## Exchanges of a task -/

/-- The command writes the marker of the anchor and the edge type. -/
def Cmd.Marks (anchorId : RowId) (t : EdgeType) {β : Type} : Cmd β → Prop
  | .db (.markMaterialized id t') => id = anchorId ∧ t' = t
  | _ => False

/-- Is the command a round trip? -/
def Cmd.isTrip {β : Type} : Cmd β → Bool
  | .request .. => true
  | _ => false

/-- Was the command no round trip, or one that was answered? -/
def Cmd.answered {β : Type} : Cmd β → β → Bool
  | .request _ _, reply => reply.isOk
  | _, _ => true

/-- Every round trip was answered without timeout or error. -/
def AllAnswered (trace : List (Exchange Cmd)) : Prop := ∀ e ∈ trace, e.cmd.answered e.reply = true

/-- Some exchange writes the marker. -/
def Marked (trace : List (Exchange Cmd)) (anchorId : RowId) (t : EdgeType) : Prop :=
  ∃ e ∈ trace, e.cmd.Marks anchorId t

/-- The incoming materialization of an edge type. -/
def materializeIncoming (rootUri : String) (t : EdgeType) (anchorId : RowId) (anchor : Node)
    (client : Client) : QueryM Bool :=
  if t = .references then materializeReferences anchorId anchor client
  else materializeCallEdges rootUri anchorId anchor .incoming client

/-- In its trace, the program got to an incoming materialization and through it, by the
    exchanges `seg`. -/
def Materializes {α : Type} (rootUri : String) (x : QueryM α) (trace : List (Exchange Cmd))
    (anchorId : RowId) (t : EdgeType) (seg : List (Exchange Cmd)) : Prop :=
  ∃ pre post anchor client k timedOut, trace = pre ++ seg ++ post ∧
    Prog.Path x pre (materializeIncoming rootUri t anchorId anchor client >>= k) ∧
    Prog.Path (materializeIncoming rootUri t anchorId anchor client) seg (pure timedOut)

/-- The program marks nothing but what it has materialized. -/
def MarksAfter {α : Type} (rootUri : String) (x : QueryM α) : Prop :=
  ∀ trace y, Prog.Path x trace y → ∀ anchorId t, Marked trace anchorId t →
    ∃ seg, Materializes rootUri x trace anchorId t seg

section Rules

variable {rootUri : String} {α β : Type}

/-- A command that marks is a mark. -/
private theorem Cmd.Marks.kind {anchorId : RowId} {t : EdgeType} {c : Cmd β}
    (h : c.Marks anchorId t) :
    c.kind = .mark := by
  cases c with
  | db c =>
    cases c with
    | markMaterialized => rfl
    | _ => exact absurd h id
  | _ => exact absurd h id

/-- A program that marks nothing leaves no mark. -/
theorem not_marked {x y : QueryM α} {trace : List (Exchange Cmd)} (hx : OnlyKinds (· ≠ .mark) x)
    (h : Prog.Path x trace y) (anchorId : RowId) (t : EdgeType) : ¬ Marked trace anchorId t := by
  intro hmarked
  obtain ⟨e, he, hmarks⟩ := hmarked
  exact (h.issued hx).1 e he hmarks.kind

/-- A program without marks marks only after success. -/
theorem MarksAfter.of_onlyKinds {x : QueryM α} (hx : OnlyKinds (· ≠ .mark) x) :
    MarksAfter rootUri x :=
  fun _ _ h anchorId t hmarked => absurd hmarked (not_marked hx h anchorId t)

/-- A part without marks, then the rest. -/
private theorem MarksAfter.bind {x : QueryM α} {f : α → QueryM β} (hx : OnlyKinds (· ≠ .mark) x)
    (hf : ∀ a, MarksAfter rootUri (f a)) : MarksAfter rootUri (x >>= f) := by
  intro trace y h anchorId t hmarked
  rcases h.bind_cases with ⟨z, hpath, -⟩ | ⟨first, rest, a, rfl, hfirst, hrest⟩
  · exact absurd hmarked (not_marked hx hpath anchorId t)
  · -- The mark lies in the rest.
    obtain ⟨e, he, hmarks⟩ := hmarked
    have hmarked : Marked rest anchorId t := by
      cases List.mem_append.mp he with
      | inl he => exact absurd ⟨e, he, hmarks⟩ (not_marked hx hfirst anchorId t)
      | inr he => exact ⟨e, he, hmarks⟩
    obtain ⟨seg, pre, post, anchor, client, k, timedOut, hsplit, hpre, hseg⟩ :=
      hf a rest y hrest anchorId t hmarked
    refine ⟨seg, first ++ pre, post, anchor, client, k, timedOut, ?_, hfirst.bind_pure hpre, hseg⟩
    rw [hsplit]
    simp only [List.append_assoc]

/-- A part that marks after it materialized, then a rest without marks. -/
private theorem MarksAfter.then_quiet {x : QueryM α} {f : α → QueryM β} (hx : MarksAfter rootUri x)
    (hf : ∀ a, OnlyKinds (· ≠ .mark) (f a)) : MarksAfter rootUri (x >>= f) := by
  -- What follows adds to the end of the trace and to the continuation alone.
  have hlift : ∀ {first rest : List (Exchange Cmd)} {anchorId : RowId} {t : EdgeType}
      {seg : List (Exchange Cmd)}, Materializes rootUri x first anchorId t seg →
      Materializes rootUri (x >>= f) (first ++ rest) anchorId t seg := by
    intro first rest anchorId t seg hmat
    obtain ⟨pre, post, anchor, client, k, timedOut, rfl, hpre, hseg⟩ := hmat
    refine ⟨pre, post ++ rest, anchor, client, fun timedOut => k timedOut >>= f, timedOut, ?_, ?_, hseg⟩
    · simp only [List.append_assoc]
    · rw [← bind_assoc]
      exact hpre.bind f
  -- A trace of the sequence stays in `x`, or ends `x` and goes on in `f`.
  intro trace y h anchorId t hmarked
  rcases h.bind_cases with ⟨z, hpath, -⟩ | ⟨first, rest, a, rfl, hfirst, hrest⟩
  · obtain ⟨seg, hmat⟩ := hx trace z hpath anchorId t hmarked
    refine ⟨seg, ?_⟩
    have hwhole : Materializes rootUri (x >>= f) (trace ++ []) anchorId t seg := hlift hmat
    rwa [List.append_nil] at hwhole
  · obtain ⟨e, he, hmarks⟩ := hmarked
    -- The mark is in the part of `x`, as what follows marks nothing.
    cases List.mem_append.mp he with
    | inl he =>
      obtain ⟨seg, hmat⟩ := hx first _ hfirst anchorId t ⟨e, he, hmarks⟩
      exact ⟨seg, hlift hmat⟩
    | inr he => exact absurd ⟨e, he, hmarks⟩ (not_marked (hf a) hrest anchorId t)

/-- A materialization, its marker, and a rest without marks. -/
private theorem MarksAfter.cold {t : EdgeType} {anchorId : RowId} {anchor : Node} {client : Client}
    (hquiet : OnlyKinds (· ≠ .mark) (materializeIncoming rootUri t anchorId anchor client))
    {g : Bool → QueryM α} (hg : ∀ timedOut, OnlyKinds (· ≠ .mark) (g timedOut)) :
    MarksAfter rootUri (materializeIncoming rootUri t anchorId anchor client >>= fun timedOut =>
      db (.markMaterialized anchorId t) >>= fun _ => g timedOut) := by
  intro trace y h anchorId' t' hmarked
  rcases h.bind_cases with ⟨z, hpath, -⟩ | ⟨seg, rest, timedOut, rfl, hseg, hrest⟩
  · exact absurd hmarked (not_marked hquiet hpath anchorId' t')
  · -- The only mark of the rest is that of the anchor.
    have hsame : anchorId' = anchorId ∧ t' = t := by
      obtain ⟨e, he, hmarks⟩ := hmarked
      cases List.mem_append.mp he with
      | inl he => exact absurd ⟨e, he, hmarks⟩ (not_marked hquiet hseg anchorId' t')
      | inr he =>
        cases hrest with
        | nil => exact nomatch he
        | cons b hrest =>
          cases List.mem_cons.mp he with
          | inl heq =>
            rw [heq] at hmarks
            exact ⟨hmarks.1.symm, hmarks.2.symm⟩
          | inr he =>
            exact absurd ⟨e, he, hmarks⟩ (not_marked (hg timedOut) hrest anchorId' t')
    rw [hsame.1, hsame.2]
    exact ⟨seg, [], rest, anchor, client, _, timedOut, rfl, .nil _, hseg⟩

end Rules

/-! ## The parts without marks and hovers -/

/-- The command writes no marker and stores no hover. -/
def CmdKind.plain (k : CmdKind) : Prop := k ≠ .mark ∧ k ≠ .storeHover

section Plain

/-- What an incoming materialization may do. -/
structure MaterializesIncoming (K : CmdKind → Prop) : Prop where
  read : K .read
  referencesRequest : K (.request .references)
  prepareCallHierarchy : K (.request .prepareCallHierarchy)
  incomingCalls : K (.request .incomingCalls)
  references : K (.upsertEdge .references)
  calls : K (.upsertEdge .calls)

/-- What materializing incoming edges issues. -/
theorem materializeIncoming_onlyKinds {K : CmdKind → Prop} (h : MaterializesIncoming K)
    (rootUri : String) (t : EdgeType) (anchorId : RowId) (anchor : Node) (client : Client) :
    OnlyKinds K (materializeIncoming rootUri t anchorId anchor client) := by
  unfold materializeIncoming
  split
  · refine (onlyKinds_request client h.referencesRequest).bind fun reply => ?_
    exact (addReferences_onlyKinds h.read h.references ..).bind fun _ => onlyKinds_pure _
  · refine (onlyKinds_request client h.prepareCallHierarchy).bind fun reply => ?_
    dsimp only
    split
    · exact onlyKinds_pure _
    · refine OnlyKinds.bind (onlyKinds_request client h.incomingCalls) fun reply => ?_
      exact (addIncoming_onlyKinds h.read h.calls ..).bind fun _ => onlyKinds_pure _

/-- Materializing incoming edges issues no mark. -/
theorem materializeIncoming_plain (rootUri : String) (t : EdgeType) (anchorId : RowId)
    (anchor : Node) (client : Client) :
    OnlyKinds CmdKind.plain (materializeIncoming rootUri t anchorId anchor client) :=
  materializeIncoming_onlyKinds ⟨⟨nofun, nofun⟩, ⟨nofun, nofun⟩, ⟨nofun, nofun⟩, ⟨nofun, nofun⟩,
    ⟨nofun, nofun⟩, ⟨nofun, nofun⟩⟩ ..

/-- Plain commands are among those an expansion may issue. -/
theorem plain_expands : ExpandsCalls CmdKind.plain where
  read := ⟨nofun, nofun⟩
  file := ⟨nofun, nofun⟩
  openDocument := ⟨nofun, nofun⟩
  implementation := ⟨nofun, nofun⟩
  implements := ⟨nofun, nofun⟩
  prepareCallHierarchy := ⟨nofun, nofun⟩
  outgoingCalls := ⟨nofun, nofun⟩
  calls := ⟨nofun, nofun⟩
  definition := ⟨nofun, nofun⟩
  neighbors := ⟨nofun, nofun⟩
  invalidate := ⟨nofun, nofun⟩
  setCache := ⟨nofun, nofun⟩

/-- A refresh in the background marks nothing. -/
theorem runRefresh_plain (rt : QueryRuntime) (r : Refresh) :
    OnlyKinds CmdKind.plain (rt.runRefresh r) := by
  obtain ⟨anchorId, edgeType, kind, anchor, client⟩ := r
  cases kind with
  | references => exact materializeIncoming_plain rt.rootUri .references anchorId anchor client
  | calls dir =>
    cases dir with
    | incoming => exact materializeIncoming_plain rt.rootUri .calls anchorId anchor client
    | outgoing =>
      exact materializeOutgoing_onlyKinds plain_expands.toMaterializesOutgoing rt.rootUri anchorId
        anchor client

end Plain

/-- Any command but a mark. -/
private abbrev NoMark (k : CmdKind) : Prop := k ≠ .mark

/-- A hover marks nothing. -/
theorem noMark_hovers : Hovers NoMark := ⟨nofun, nofun, nofun, nofun, nofun⟩

/-- A plain program marks nothing. -/
theorem OnlyKinds.noMark {α : Type} {x : QueryM α} (hx : OnlyKinds CmdKind.plain x) :
    OnlyKinds NoMark x := hx.mono fun _ hk => hk.1

/-- `find_callees` marks nothing. -/
private theorem findCallees_noMark (rt : QueryRuntime) (symref : SymbolRef) (filter : Filter)
    (page : Page)
    (withSignature : Bool) :
    OnlyKinds NoMark (rt.findCallees symref filter page withSignature) := by
  refine (clientFor_onlyKinds nofun nofun rt symref).bind fun acquired => ?_
  obtain ⟨client, degradation⟩ := acquired
  refine (engine_findCallees_onlyKinds plain_expands ..).noMark.bind fun found => ?_
  obtain ⟨result, timedOut⟩ := found
  cases client with
  | none => exact onlyKinds_pure _
  | some client => exact (withSignatures_onlyKinds noMark_hovers ..).bind fun _ => onlyKinds_pure _

/-! ## Every query marks what it has materialized -/

variable (rt : QueryRuntime)

/-- `find_references` -/
private theorem findReferences_marksAfter (symref : SymbolRef) (filter : Filter) (page : Page) :
    MarksAfter rt.rootUri (rt.findReferences symref filter page) := by
  have hspawn : ∀ refresh : Refresh, OnlyKinds NoMark (Prog.perform (.spawnRefresh refresh)) :=
    fun refresh => Prog.Issues.perform (c := Cmd.spawnRefresh refresh) nofun
  refine MarksAfter.bind (clientFor_onlyKinds nofun nofun rt symref) fun acquired => ?_
  obtain ⟨client, degradation⟩ := acquired
  refine MarksAfter.bind (resolveAnchor_onlyKinds nofun nofun ..) fun r => ?_
  obtain ⟨anchor, timedOut⟩ := r
  dsimp only
  split
  · -- Hints and cached answers materialize nothing, so they mark nothing.
    exact .of_onlyKinds ((hintFqnsForSymref_onlyKinds nofun ..).bind fun _ => onlyKinds_pure _)
  · exact .of_onlyKinds ((referencesFromCache_onlyKinds nofun ..).bind fun _ => onlyKinds_pure _)
  · rename_i anchor client
    refine MarksAfter.bind (ensureOpen_onlyKinds nofun nofun ..) fun _ => ?_
    refine MarksAfter.bind (onlyKinds_db nofun) fun warm => ?_
    -- A warm anchor is not marked again; a cold one is marked after its materialization.
    split
    · refine .of_onlyKinds ((referencesFromCache_onlyKinds nofun ..).bind fun result => ?_)
      exact (hspawn _).bind fun _ => onlyKinds_pure _
    · exact MarksAfter.cold (t := .references) (materializeIncoming_plain ..).noMark fun _ =>
        (referencesFromCache_onlyKinds nofun ..).bind fun result =>
          (hspawn _).bind fun _ => onlyKinds_pure _

/-- `find_callers` marks what it materialized before. -/
private theorem findCallers_marksAfter (symref : SymbolRef) (filter : Filter) (page : Page)
    (withSignature : Bool) :
    MarksAfter rt.rootUri (rt.findCallers symref filter page withSignature) := by
  have hspawn : ∀ refresh : Refresh, OnlyKinds NoMark (Prog.perform (.spawnRefresh refresh)) :=
    fun refresh => Prog.Issues.perform (c := Cmd.spawnRefresh refresh) nofun
  refine MarksAfter.bind (clientFor_onlyKinds nofun nofun rt symref) fun acquired => ?_
  obtain ⟨client, degradation⟩ := acquired
  refine MarksAfter.bind (resolveAnchor_onlyKinds nofun nofun ..) fun r => ?_
  obtain ⟨anchor, timedOut⟩ := r
  dsimp only
  -- By the resolution: hints, the page without a server, and the page with one.
  split
  · exact .of_onlyKinds ((hintFqnsForSymref_onlyKinds nofun ..).bind fun _ => onlyKinds_pure _)
  · exact .of_onlyKinds ((readCallsPage_onlyKinds nofun ..).bind fun _ => onlyKinds_pure _)
  · rename_i anchor client
    refine MarksAfter.bind (ensureOpen_onlyKinds nofun nofun ..) fun _ => ?_
    refine MarksAfter.bind (onlyKinds_db nofun) fun warm => ?_
    -- A warm anchor is not marked; a cold one is, after it was materialized.
    split
    · refine .of_onlyKinds ((readCallsPage_onlyKinds nofun ..).bind fun result => ?_)
      refine (withSignatures_onlyKinds noMark_hovers ..).bind fun _ => ?_
      exact (hspawn _).bind fun _ => onlyKinds_pure _
    · refine MarksAfter.cold (t := .calls) (materializeIncoming_plain ..).noMark fun _ => ?_
      refine (readCallsPage_onlyKinds nofun ..).bind fun result => ?_
      refine (withSignatures_onlyKinds noMark_hovers ..).bind fun _ => ?_
      exact (hspawn _).bind fun _ => onlyKinds_pure _

/-- No query marks an anchor that it has not materialized itself. -/
private theorem shown_marksAfter (call : ToolCall) : MarksAfter rt.rootUri (call.shown rt) := by
  cases call with
  | findSymbol =>
    exact .of_onlyKinds ((findSymbol_onlyKinds noMark_hovers nofun ..).bind fun _ =>
      onlyKinds_pure _)
  | findDefinition =>
    exact .of_onlyKinds ((findDefinition_onlyKinds noMark_hovers nofun nofun ..).bind fun _ =>
      onlyKinds_pure _)
  | findReferences symref filter page =>
    exact MarksAfter.then_quiet (findReferences_marksAfter rt symref filter page) fun _ =>
      onlyKinds_pure _
  | findCallers symref filter page withSignature =>
    exact MarksAfter.then_quiet (findCallers_marksAfter rt symref filter page withSignature) fun _ =>
      onlyKinds_pure _
  | findCallees => exact .of_onlyKinds ((findCallees_noMark ..).bind fun _ => onlyKinds_pure _)
  | findCallPath fuel from_ to_ maxDepth maxLspCalls =>
    refine .of_onlyKinds (OnlyKinds.bind ?_ fun found => ?_)
    · refine (clientFor_onlyKinds nofun nofun rt from_).bind fun acquired => ?_
      exact (engine_findCallPath_onlyKinds plain_expands ..).noMark.bind fun _ => onlyKinds_pure _
    · cases found with
      | none => exact onlyKinds_pure _
      | some found => exact onlyKinds_pure _

/-! ## Runs -/

/-- What a daemon runs as tasks: queries, and refreshes in the background. -/
inductive MayRun (rt : QueryRuntime) : QueryM (List String) → Prop where
  | call (call : ToolCall) : MayRun rt (call.shown rt)
  | refresh (r : Refresh) : MayRun rt (rt.runRefresh r >>= fun _ => pure [])

/-- A system that a daemon gets to, from an empty graph and no tasks: the tasks' commands, the
    starting of tasks, and everything else, in any order. -/
def DaemonRun (rt : QueryRuntime) (S : Servers) (sys : System Cmd World (List String)) : Prop :=
  ∃ w : World, w.db = .empty ∧
    System.Reaches (Cmd.handle S) (EnvStep rt.hasher) (MayRun rt) ⟨w, []⟩ sys

/-- A foreground materialization of the anchor, which is one of a query, had each of its round
    trips answered. -/
def ColdAnswered (sys : System Cmd World (List String)) (anchorId : RowId) (t : EdgeType) : Prop :=
  ∀ task ∈ sys.tasks, ∀ call : ToolCall, task.start = call.shown rt → ∀ seg,
    Materializes rt.rootUri task.start task.trace anchorId t seg → AllAnswered seg

/-- The marker of a command that succeeded. -/
private theorem exec_materialized {β : Type} {c : DbCmd β} {d d' : Db} {b : β}
    (hexec : c.exec d = .ok (b, d')) {anchorId : RowId} {t : EdgeType}
    (h : d'.materialized anchorId t = true) :
    d.materialized anchorId t = true ∨ (Cmd.db c).Marks anchorId t := by
  cases c with
  -- An upsert leaves the markers alone; only the marking command sets one.
  | upsertEdge e =>
    rw [(Db.upsertEdge_frame (exec_upsertEdge_iff.mp hexec)).2.2.2.1] at h
    exact .inl h
  | setCalleesCacheHash id hash =>
    obtain ⟨-, rfl⟩ := exec_setCalleesCacheHash_iff.mp hexec
    exact .inl h
  | markMaterialized id t' =>
    obtain ⟨-, rfl⟩ := exec_markMaterialized_iff.mp hexec
    by_cases hsame : anchorId = id ∧ t = t'
    · exact .inr ⟨hsame.1.symm, hsame.2.symm⟩
    · dsimp only at h
      rw [if_neg hsame] at h
      exact .inl h
  | _ =>
    cases hexec
    exact .inl h

/-- A row is marked by a mark that succeeds, or was before. -/
private theorem handle_materialized {β : Type} {S : Servers} {c : Cmd β} {w w' : World}
    {r : Except DbError β} (hc : c.handle S w = (r, w')) {anchorId : RowId} {t : EdgeType}
    (h : w'.db.materialized anchorId t = true) :
    w.db.materialized anchorId t = true ∨ (c.Marks anchorId t ∧ r.isOk = true) := by
  -- Of the database's commands the mark alone changes the markers, and only if it succeeds.
  cases c with
  | db c =>
    simp only [Cmd.handle] at hc
    split at hc
    · rename_i b d hexec
      cases hc
      cases exec_materialized hexec h with
      | inl h => exact .inl h
      | inr h => exact .inr ⟨h, rfl⟩
    · cases hc
      exact .inl h
  | spawnRefresh refresh =>
    simp only [Cmd.handle] at hc
    cases hc
    split at h
    · exact .inl h
    · exact .inl h
  | _ =>
    cases hc
    exact .inl h

/-- Nothing but a query or a refresh writes a marker. -/
private theorem EnvStep.materialized {H : Hasher} {w w' : World} (hs : EnvStep H w w')
    (h : w.db.Stored)
    {anchorId : RowId} {t : EdgeType} (hmark : w'.db.materialized anchorId t = true) :
    w.db.materialized anchorId t = true := by
  cases hs with
  | reconcile hline hok =>
    obtain ⟨ids, hr⟩ := reconcile_reconciled H h hline hok
    rw [setDb_db, hr.materialized, Bool.and_eq_true] at hmark
    exact hmark.2
  | upsertNode args containerId hline hok =>
    rw [setDb_db, (upsertNode_frame h.toWF hok).2.2.1] at hmark
    exact hmark
  | _ => exact hmark

/-- Whatever the servers answer and however the tasks interleave: a marker tells of an incoming
    materialization that completed with every round trip answered, in every run in which no
    cold materialization of a query for that anchor and edge type had a round trip fail. -/
theorem marker_after_success (S : Servers) {sys : System Cmd World (List String)}
    (hrun : DaemonRun rt S sys) (anchorId : RowId) (t : EdgeType)
    (hcold : ColdAnswered rt sys anchorId t)
    (hmark : sys.state.db.materialized anchorId t = true) :
    ∃ task ∈ sys.tasks, ∃ seg, Materializes rt.rootUri task.start task.trace anchorId t seg ∧
      AllAnswered seg := by
  obtain ⟨w, hempty, hrun⟩ := hrun
  -- The marker was written by a command of some task.
  obtain ⟨task, htask, e, he, hmarks⟩ := hrun.traced
    (I := fun w => w.db.Stored) (P := fun w => w.db.materialized anchorId t = true)
    (Q := fun e => e.cmd.Marks anchorId t)
    (by rw [hempty]; exact Db.empty_stored)
    (fun c w hw => handle_stored c hw)
    (fun w w' hs hw => hs.stored hw)
    (fun c w w' b _ hc hP => by
      cases handle_materialized hc hP with
      | inl h => exact .inl h
      | inr h => exact .inr h.1)
    (fun c w w' e _ hc hP => by
      cases handle_materialized hc hP with
      | inl h => exact h
      | inr h => exact nomatch h.2)
    (fun w w' hw hs hP => hs.materialized hw hP)
    (by rw [hempty]; exact Bool.false_ne_true) hmark
  obtain ⟨hmay, y, hpath, -⟩ := hrun.follows (fun t ht => nomatch ht) task htask
  have hmarked : Marked task.trace anchorId t := ⟨e, he, hmarks⟩
  generalize hstart : task.start = x at hmay
  rw [hstart] at hpath
  cases hmay with
  | call call =>
    obtain ⟨seg, hmat⟩ := shown_marksAfter rt call _ y hpath anchorId t hmarked
    rw [← hstart] at hmat
    exact ⟨task, htask, seg, hmat, hcold task htask call hstart seg hmat⟩
  | refresh r =>
    -- A refresh marks nothing.
    have hquiet := (runRefresh_plain rt r).noMark.bind fun _ => onlyKinds_pure ([] : List String)
    exact absurd hmarked (not_marked hquiet hpath anchorId t)

/-! ## A server that fails once -/

/-- A materialization starts with a round trip. -/
private theorem materializeIncoming_trip {rootUri : String} {t : EdgeType} {anchorId : RowId}
    {anchor : Node} {client : Client} {seg : List (Exchange Cmd)} {timedOut : Bool}
    (h : Prog.Path (materializeIncoming rootUri t anchorId anchor client) seg (pure timedOut)) :
    ∃ e ∈ seg, e.cmd.isTrip = true := by
  unfold materializeIncoming at h
  split at h
  · cases h with
    | cons reply _ => exact ⟨_, List.mem_cons_self, rfl⟩
  · cases h with
    | cons reply _ => exact ⟨_, List.mem_cons_self, rfl⟩

/-- `find_references` for a class that nobody has asked about. -/
def coldCall : ToolCall := .findReferences (.fqn "app.Foo") anyFilter firstPage

/-- The graph holds the class, and nothing else has happened. -/
def coldWorld : World := { twoFunctionsWorld with db := fooDb }

/-- The system once the query has run alone. -/
def coldSystem (S : Servers) : System Cmd World (List String) :=
  ⟨((coldCall.shown appRuntime).run S coldWorld).2,
    [⟨coldCall.shown appRuntime, (coldCall.shown appRuntime).exchanges (Cmd.handle S) coldWorld,
      some (pure [])⟩]⟩

/-- One cold call is a run of the daemon. -/
theorem coldSystem_run {S : Servers}
    (hrun : (coldCall.shown appRuntime).run S coldWorld =
      (.ok [], ((coldCall.shown appRuntime).run S coldWorld).2)) :
    DaemonRun appRuntime S (coldSystem S) := by
  refine ⟨{ twoFunctionsWorld with db := .empty }, rfl, ?_⟩
  refine .head (.env [] (.reconcile (by decide) fooDb_eq)) ?_
  refine .head (.start _ [] (.call coldCall)) ?_
  exact System.Reaches.run_alone [] [] _ [] hrun

/-- A cold `find_references` whose server answers. -/
theorem marker_after_success_foo : ∃ task ∈ (coldSystem appServers).tasks, ∃ seg,
    Materializes appRuntime.rootUri task.start task.trace 1 .references seg ∧ AllAnswered seg := by
  refine marker_after_success appRuntime appServers (coldSystem_run rfl) 1 .references ?_ rfl
  intro task htask call _ seg hmat e he
  obtain ⟨pre, post, _, _, _, _, htrace, -⟩ := hmat
  have hmem : e ∈ task.trace := by
    rw [htrace]
    simp [he]
  rw [List.mem_singleton.mp htask] at hmem
  have hall : (((coldCall.shown appRuntime).exchanges (Cmd.handle appServers) coldWorld).all fun e =>
      e.cmd.answered e.reply) = true := rfl
  exact List.all_eq_true.mp hall e hmem

/-- The only query ever run is a `find_references` whose round trip gets an error response; the
    class is marked all the same, and no materialization has completed without a failure. -/
theorem broken_server_marks : DaemonRun appRuntime brokenServers (coldSystem brokenServers) ∧
    (coldSystem brokenServers).state.db.materialized 1 .references = true ∧
    ¬ ∃ task ∈ (coldSystem brokenServers).tasks, ∃ seg,
      Materializes appRuntime.rootUri task.start task.trace 1 .references seg ∧
        AllAnswered seg := by
  refine ⟨coldSystem_run rfl, rfl, fun hsuccess => ?_⟩
  obtain ⟨task, htask, seg, hmat, hanswered⟩ := hsuccess
  obtain ⟨pre, post, _, _, _, _, htrace, -, hseg⟩ := hmat
  -- The one round trip of the run failed, and a materialization has at least one.
  have hfailed : (((coldCall.shown appRuntime).exchanges (Cmd.handle brokenServers) coldWorld).all
      fun e => !e.cmd.isTrip || !e.cmd.answered e.reply) = true := rfl
  obtain ⟨e, he, htrip⟩ := materializeIncoming_trip hseg
  have hmem : e ∈ task.trace := by
    rw [htrace]
    simp [he]
  rw [List.mem_singleton.mp htask] at hmem
  have hone := List.all_eq_true.mp hfailed e hmem
  rw [htrip, hanswered e he] at hone
  exact Bool.noConfusion hone

end Semnav.Query
