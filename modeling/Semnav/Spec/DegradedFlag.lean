import Semnav.Spec.FailedCalls

/-!
# The degraded flag

The runtime flags an answer as degraded when the acquisition failed, or when a round trip of
the foreground call missed its deadline.  A round trip that fails in any other way reads as
an empty reply and sets no flag.

## Key results

- `Reports`: which of its events a part of a query makes known to its caller
- `degraded_honest_iff`: when a failure of the language server reaches the response
-/

namespace Semnav.Query

open Semnav.ForStd Semnav.Graph Semnav.Indexer Semnav.Adapters

/-! ## Failures of the foreground call -/

/-- An acquisition that failed, or a round trip that did; signature hovers aside. -/
def Event.lspFailure : Event → Bool
  | .acquire _ ok => !ok
  | .trip method (.failed _) => method != .hover
  | _ => false

/-- The failures that the code looks at: the acquisition, and a missed deadline. -/
def Event.signalled : Event → Bool
  | .acquire _ ok => !ok
  | .trip method (.failed .timedOut) => method != .hover
  | _ => false

/-- Did the server fail the foreground call? -/
def LspFailed (w w' : World) : Prop := ∃ e ∈ w.since w', e.lspFailure = true

/-- Did it fail by a refused acquisition or a missed deadline? -/
def Signalled (w w' : World) : Prop := ∃ e ∈ w.since w', e.signalled = true

/-- The response tells about a failure. -/
def Honest (w w' : World) (degradation : Option Degradation) : Prop :=
  LspFailed w w' → degradation.isSome = true

/-! ## Parts of a query that report -/

/-- With `before` telling about the failures so far, `after` tells about those and the ones
    of this part. -/
def Reports {α : Type} (before : Bool) (q : QueryM α) (after : α → Bool) : Prop :=
  ∀ S w a w', q.run S w = (.ok a, w') →
    (after a = true ↔ before = true ∨ Signalled w w')

/-- The kinds of command that leave no signal. -/
def CmdKind.quiet : CmdKind → Prop
  | .request .hover => True
  | .request _ | .acquire => False
  | _ => True

/-- Quiet commands are among those a hover may issue. -/
private theorem quiet_hovers : Hovers CmdKind.quiet := ⟨trivial, trivial, trivial, trivial, trivial⟩

section Reports

variable {α β : Type} {before : Bool}

/-- A signal in two parts is a signal in one of them. -/
private theorem signalled_trans {K K' : CmdKind → Prop} {a b c : World} (hab : Logs K a b)
    (hbc : Logs K' b c) : Signalled a c ↔ Signalled a b ∨ Signalled b c := by
  obtain ⟨new, hnew, -⟩ := hab
  obtain ⟨new', hnew', -⟩ := hbc
  have hac : c.log = a.log ++ (new ++ new') := by rw [hnew', hnew, List.append_assoc]
  simp only [Signalled, since_of_append hnew, since_of_append hnew', since_of_append hac,
    List.mem_append, or_and_right, exists_or]

/-- An event signals by itself. -/
private theorem signalled_note (w : World) (e : Event) :
    Signalled w (w.note e) ↔ e.signalled = true := by
  simp only [Signalled, since_of_append (note_log w e), List.mem_singleton, exists_eq_left]

/-- Quiet commands signal nothing. -/
private theorem Logs.not_signalled {w w' : World} (h : Logs CmdKind.quiet w w') :
    ¬ Signalled w w' := by
  obtain ⟨new, hnew, hk⟩ := h
  rintro ⟨e, he, hsignal⟩
  rw [since_of_append hnew] at he
  have hquiet := hk e he
  cases e with
  | trip method outcome =>
    cases method with
    | hover => rcases outcome with _ | _ | _ <;> exact nomatch hsignal
    | _ => exact hquiet
  | acquire => exact hquiet
  | invalidated => exact nomatch hsignal
  | neighbors => exact nomatch hsignal

/-- A value reports what was known before. -/
theorem Reports.pure {after : α → Bool} (a : α) (h : after a = before) :
    Reports before (pure a : QueryM α) after := by
  intro S w b w' hrun
  cases hrun
  rw [h, or_iff_left]
  rintro ⟨e, he, -⟩
  rw [World.since, List.drop_length] at he
  exact absurd he List.not_mem_nil

/-- In sequence: what the second part starts from is what the first one told. -/
theorem Reports.bind {q : QueryM α} {f : α → QueryM β} {between : α → Bool} {after : β → Bool}
    (hq : Reports before q between) (hf : ∀ a, Reports (between a) (f a) after) :
    Reports before (q >>= f) after := by
  intro S w b w' hrun
  obtain ⟨a, w₁, hfirst, hsecond⟩ := run_bind_eq_ok.mp hrun
  have hlog := (onlyKinds_true q).run_log (S := S) w
  have hlog' := (onlyKinds_true (f a)).run_log (S := S) w₁
  rw [hfirst] at hlog
  rw [hsecond] at hlog'
  rw [hf a S w₁ b w' hsecond, hq S w a w₁ hfirst, signalled_trans hlog hlog', or_assoc]

/-- A part that leaves no signal changes nothing. -/
private theorem Reports.quiet {q : QueryM α} (hq : OnlyKinds CmdKind.quiet q) :
    Reports before q fun _ => before := by
  intro S w a w' hrun
  have hlog := hq.run_log (S := S) w
  rw [hrun] at hlog
  exact (or_iff_left hlog.not_signalled).symm

/-- A quiet part, then the rest. -/
theorem Reports.quiet_bind {q : QueryM α} {f : α → QueryM β} {after : β → Bool}
    (hq : OnlyKinds CmdKind.quiet q) (hf : ∀ a, Reports before (f a) after) :
    Reports before (q >>= f) after :=
  (Reports.quiet hq).bind hf

/-- A round trip whose reply is matched by `orTimedOut`. -/
theorem Reports.request (client : Client) (r : Request (List α)) (hr : (r.method != .hover) = true) :
    Reports before (client.request r) fun reply => before || (orTimedOut reply).2 := by
  intro S w reply w' hrun
  rw [run_request] at hrun
  cases hrun
  rw [signalled_note, Bool.or_eq_true]
  refine or_congr_right ?_
  rcases S.reply w client r with e | xs
  · cases e <;> simp [orTimedOut, Outcome.ofReply, Event.signalled, LspError.isTimeout, hr]
  · simp [orTimedOut, Outcome.ofReply, Event.signalled]

/-! ## The engine's parts -/

/-- Resolving a position reports the timeouts it met. -/
private theorem definitionAnchor_reports (uri : String) (line character : Nat) (client : Client) :
    Reports before (definitionAnchor uri line character client) fun r => before || r.2 := by
  refine (Reports.request client _ rfl).bind fun reply => ?_
  refine .quiet_bind (firstResolved_onlyKinds trivial _) fun node => ?_
  cases node with
  | some node => exact .pure _ rfl
  | none => exact .quiet_bind (onlyKinds_db trivial) fun _ => .pure _ rfl

/-- Resolving any reference reports the timeouts it met. -/
private theorem resolveAnchor_reports (symref : SymbolRef) (client : Option Client) :
    Reports before (QueryEngine.resolveAnchor symref client) fun r => before || r.2 := by
  cases symref with
  | fqn fqn => exact .quiet_bind (onlyKinds_db trivial) fun _ => .pure _ (Bool.or_false _)
  | «at» uri line character =>
    cases client with
    | some client => exact definitionAnchor_reports uri line character client
    | none => exact .quiet_bind (onlyKinds_db trivial) fun _ => .pure _ (Bool.or_false _)

/-- Materializing the references of an anchor reports the timeouts it met. -/
private theorem materializeReferences_reports (anchorId : RowId) (anchor : Node) (client : Client) :
    Reports before (materializeReferences anchorId anchor client) fun t => before || t := by
  refine (Reports.request client _ rfl).bind fun reply => ?_
  exact .quiet_bind (addReferences_onlyKinds trivial trivial ..) fun _ => .pure _ rfl

/-- Resolving one outgoing call reports the timeouts it met. -/
private theorem resolveOutgoingCallee_reports (anchor callee : Node) (client : Client) :
    Reports before (resolveOutgoingCallee anchor callee client) fun r => before || r.2 := by
  unfold resolveOutgoingCallee
  split
  · exact .pure _ (Bool.or_false _)
  · refine .quiet_bind (inInterface_onlyKinds trivial callee) fun interface => ?_
    split
    · exact .pure _ (Bool.or_false _)
    · refine .quiet_bind (ensureOpen_onlyKinds trivial trivial ..) fun _ => ?_
      refine (Reports.request client _ rfl).bind fun reply => ?_
      refine .quiet_bind (addImplementations_onlyKinds trivial trivial ..) fun ids => ?_
      split
      · exact .pure _ rfl
      · exact .pure _ rfl

/-- Adding the outgoing calls reports the timeouts it met. -/
private theorem addOutgoing_reports (anchorId : RowId) (anchor : Node) (client : Client)
    (calls : List OutgoingCall) :
    Reports before (addOutgoing anchorId anchor client calls) fun t => before || t := by
  induction calls generalizing before with
  | nil => exact .pure _ (Bool.or_false _)
  | cons call rest ih =>
    refine .quiet_bind (nodeAt_onlyKinds trivial ..) fun callee => ?_
    cases callee with
    | none => exact ih
    | some callee =>
      refine (resolveOutgoingCallee_reports anchor callee client).bind fun resolved => ?_
      refine .quiet_bind (addTargets_onlyKinds trivial ..) fun _ => ?_
      exact ih.bind fun t => .pure _ (Bool.or_assoc ..).symm

/-- Both directions of the call hierarchy: each round trip's deadline is reported, also where
    the second one shadows the flag of the first, which then was no timeout. -/
private theorem materializeCallEdges_reports (rootUri : String) (anchorId : RowId) (anchor : Node)
    (dir : Direction) (client : Client) :
    Reports before (materializeCallEdges rootUri anchorId anchor dir client)
      fun t => before || t := by
  refine (Reports.request client _ rfl).bind fun reply => ?_
  rcases reply with e | items
  · -- A failed request reports exactly its own timeout.
    exact .pure _ rfl
  · simp only [orTimedOut, Bool.or_false]
    rcases items with _ | ⟨item, items⟩
    · exact .pure _ (Bool.or_false _)
    · -- Incoming calls ask once; outgoing ones ask again for each callee's definition.
      cases dir with
      | incoming =>
        refine (Reports.request client _ rfl).bind fun reply => ?_
        exact .quiet_bind (addIncoming_onlyKinds trivial trivial ..) fun _ => .pure _ rfl
      | outgoing =>
        refine (Reports.request client _ rfl).bind fun reply => ?_
        exact (addOutgoing_reports anchorId anchor client _).bind fun t =>
          .pure _ (Bool.or_assoc ..).symm

/-- Refreshing the callees reports the timeouts it met. -/
private theorem refreshCallees_reports (engine : QueryEngine) (anchorId : RowId) (anchor : Node)
    (client : Client) :
    Reports before (engine.refreshCallees anchorId anchor client) fun t => before || t := by
  refine .quiet_bind (onlyKinds_readFileText trivial) fun text => ?_
  refine .quiet_bind (openText_onlyKinds trivial ..) fun _ => ?_
  refine .quiet_bind (isFresh_onlyKinds trivial ..) fun fresh => ?_
  split
  · exact .pure _ (Bool.or_false _)
  · have hremat : Reports before (engine.rematerialize anchorId anchor client)
        fun t => before || t :=
      .quiet_bind (onlyKinds_db trivial) fun _ =>
        materializeCallEdges_reports engine.rootUri anchorId anchor .outgoing client
    refine hremat.bind fun t => ?_
    refine .quiet_bind ?_ fun _ => .pure _ rfl
    cases text with
    | some text => exact onlyKinds_db trivial
    | none => exact onlyKinds_pure _

/-- The engine's `find_callees` reports the timeouts it met. -/
private theorem findCallees_reports (engine : QueryEngine) (symref : SymbolRef) (filter : Filter)
    (page : Page) (client : Option Client) :
    Reports before (engine.findCallees symref filter page client) fun r => before || r.2 := by
  refine (resolveAnchor_reports symref client).bind fun resolved => ?_
  rcases resolved with ⟨_ | anchor, timedOut⟩
  · exact .quiet_bind (hintFqnsForSymref_onlyKinds trivial ..) fun _ => .pure _ rfl
  · have hread : ∀ t, Reports (before || timedOut || t)
        (QueryEngine.readCallsPage anchor.id .outgoing filter page >>= fun result =>
          (pure (result, timedOut || t) : QueryM (CallGraphResult × Bool)))
        fun r => before || r.2 := fun t =>
      .quiet_bind (readCallsPage_onlyKinds trivial ..) fun _ => .pure _ (Bool.or_assoc ..).symm
    cases client with
    | some client => exact (refreshCallees_reports engine anchor.id anchor client).bind hread
    | none =>
      have hpure : Reports (before || timedOut) (pure false : QueryM Bool)
          fun t => before || timedOut || t := .pure false (Bool.or_false _)
      exact hpure.bind hread

/-- A position is asked for; the hovers that follow are not looked at. -/
private theorem findDefinition_reports (symref : SymbolRef) (client : Option Client) :
    Reports before (QueryEngine.findDefinition symref client) fun r => before || r.2 := by
  cases symref with
  | fqn fqn => exact .quiet_bind (onlyKinds_db trivial) fun _ => .pure _ (Bool.or_false _)
  | «at» uri line character =>
    cases client with
    | none => exact .pure _ (Bool.or_false _)
    | some client =>
      refine .quiet_bind (ensureOpen_onlyKinds trivial trivial ..) fun _ => ?_
      refine (Reports.request client _ rfl).bind fun reply => ?_
      exact .quiet_bind (definitionNodes_onlyKinds quiet_hovers client _) fun _ => .pure _ rfl

/-! ## The runtime -/

/-- There is a degradation when there was one or the call timed out. -/
theorem isSome_or_timeoutDegradation (degradation : Option Degradation) (timedOut : Bool) :
    (degradation.or (timeoutDegradation timedOut)).isSome = (degradation.isSome || timedOut) := by
  cases degradation <;> cases timedOut <;> rfl

/-- The acquisition reports itself, and hands out a client only when it succeeded. -/
private theorem acquireOpt_reports (language : Option String) :
    Reports false (QueryRuntime.acquireOpt language) fun r => r.2.isSome := by
  cases language with
  | none => exact .pure _ rfl
  | some language =>
    have hacquire : Reports false (Prog.perform (.acquire language) : QueryM _)
        fun reply => !reply.isOk := by
      intro S w reply w' hrun
      cases (Prog.run_perform (Cmd.handle S) _ w).symm.trans hrun
      rw [signalled_note]
      simp [Event.signalled]
    refine hacquire.bind fun reply => ?_
    rcases reply with e | _
    · exact .pure _ rfl
    · exact .pure _ rfl

/-- A supervisor that gives no client is reported. -/
private theorem clientFor_reports (rt : QueryRuntime) (symref : SymbolRef) :
    Reports false (rt.clientFor symref) fun r => r.2.isSome := by
  cases symref with
  | «at» uri line character => exact acquireOpt_reports _
  | fqn fqn => exact .quiet_bind (onlyKinds_db trivial) fun _ => acquireOpt_reports _

/-- Without a client the anchor is looked up in the graph, and nothing can time out. -/
private theorem resolveAnchor_none_reports {symref : SymbolRef} {f : Option Node × Bool → QueryM α}
    {after : α → Bool} (hf : ∀ anchor, Reports before (f (anchor, false)) after) :
    Reports before (QueryEngine.resolveAnchor symref none >>= f) after := by
  cases symref with
  | fqn fqn =>
    simp only [QueryEngine.resolveAnchor, bind_assoc, pure_bind]
    exact .quiet_bind (onlyKinds_db trivial) hf
  | «at» uri line character =>
    simp only [QueryEngine.resolveAnchor, bind_assoc, pure_bind]
    exact .quiet_bind (onlyKinds_db trivial) hf

/-- The tool `find_definition` reports the timeouts and a missing client. -/
private theorem runtime_findDefinition_reports (rt : QueryRuntime) (symref : SymbolRef) :
    Reports false (rt.findDefinition symref) fun r => r.2.isSome := by
  refine (acquireOpt_reports _).bind fun acquired => ?_
  refine (findDefinition_reports symref acquired.1).bind fun found => ?_
  exact .pure _ (isSome_or_timeoutDegradation ..)

/-- Both warm and cold: the hovers and the refresh that follow the read are quiet. -/
private theorem runtime_findReferences_reports (rt : QueryRuntime) (symref : SymbolRef)
    (filter : Filter) (page : Page) :
    Reports false (rt.findReferences symref filter page) fun r => r.2.1.isSome := by
  refine (clientFor_reports rt symref).bind fun acquired => ?_
  obtain ⟨client, degradation⟩ := acquired
  -- Without a client the acquisition has failed already, and the answer says so.
  cases client with
  | none =>
    refine resolveAnchor_none_reports fun anchor => ?_
    cases anchor with
    | none =>
      refine .quiet_bind (hintFqnsForSymref_onlyKinds trivial ..) fun _ => .pure _ ?_
      exact (isSome_or_timeoutDegradation ..).trans (Bool.or_false _)
    | some anchor => exact .quiet_bind (referencesFromCache_onlyKinds trivial ..) fun _ => .pure _ rfl
  | some client =>
    refine (resolveAnchor_reports symref (some client)).bind fun resolved => ?_
    obtain ⟨anchor, timedOut⟩ := resolved
    cases anchor with
    -- No anchor: the hints ask the database alone, so the flag is that of the resolution.
    | none =>
      refine .quiet_bind (hintFqnsForSymref_onlyKinds trivial ..) fun _ => .pure _ ?_
      exact isSome_or_timeoutDegradation ..
    | some anchor =>
      -- What follows the materialization asks no server, so `t` is all that it adds.
      have hrest : ∀ t (refresh : Refresh), Reports (degradation.isSome || t)
          (QueryEngine.referencesFromCache anchor.id filter page >>= fun result =>
            (Prog.perform (.spawnRefresh refresh) : QueryM Unit) >>= fun _ =>
              (pure (result, degradation.or (timeoutDegradation t), true) : QueryM _))
          fun r => r.2.1.isSome := by
        intro t refresh
        refine .quiet_bind (referencesFromCache_onlyKinds trivial ..) fun result => ?_
        refine .quiet_bind (Prog.Issues.perform trivial) fun _ => .pure _ ?_
        exact isSome_or_timeoutDegradation ..
      refine .quiet_bind (ensureOpen_onlyKinds trivial trivial ..) fun _ => ?_
      refine .quiet_bind (onlyKinds_db trivial) fun warm => ?_
      split
      · -- A warm anchor is read at once; for a cold one the materialization's timeouts count too.
        exact hrest timedOut _
      · refine (materializeReferences_reports anchor.id anchor client).bind fun t => ?_
        refine .quiet_bind (onlyKinds_db trivial) fun _ => ?_
        dsimp only
        rw [Bool.or_assoc]
        exact hrest (timedOut || t) _

/-- `find_callers` -/
private theorem runtime_findCallers_reports (rt : QueryRuntime) (symref : SymbolRef)
    (filter : Filter) (page : Page) (withSignature : Bool) :
    Reports false (rt.findCallers symref filter page withSignature) fun r => r.2.1.isSome := by
  refine (clientFor_reports rt symref).bind fun acquired => ?_
  obtain ⟨client, degradation⟩ := acquired
  -- Without a client the acquisition has failed already, and the answer says so.
  cases client with
  | none =>
    refine resolveAnchor_none_reports fun anchor => ?_
    cases anchor with
    | none =>
      refine .quiet_bind (hintFqnsForSymref_onlyKinds trivial ..) fun _ => .pure _ ?_
      exact (isSome_or_timeoutDegradation ..).trans (Bool.or_false _)
    | some anchor => exact .quiet_bind (readCallsPage_onlyKinds trivial ..) fun _ => .pure _ rfl
  | some client =>
    refine (resolveAnchor_reports symref (some client)).bind fun resolved => ?_
    obtain ⟨anchor, timedOut⟩ := resolved
    cases anchor with
    | none =>
      refine .quiet_bind (hintFqnsForSymref_onlyKinds trivial ..) fun _ => .pure _ ?_
      exact isSome_or_timeoutDegradation ..
    | some anchor =>
      -- What follows the materialization asks no server that it reports, so `t` is all that it
      -- adds.
      have hrest : ∀ t (refresh : Refresh), Reports (degradation.isSome || t)
          (QueryEngine.readCallsPage anchor.id .incoming filter page >>= fun result =>
            QueryRuntime.withSignatures withSignature client result >>= fun result =>
              (Prog.perform (.spawnRefresh refresh) : QueryM Unit) >>= fun _ =>
                (pure (result, degradation.or (timeoutDegradation t), true) : QueryM _))
          fun r => r.2.1.isSome := by
        intro t refresh
        refine .quiet_bind (readCallsPage_onlyKinds trivial ..) fun result => ?_
        refine .quiet_bind (withSignatures_onlyKinds quiet_hovers ..) fun result => ?_
        refine .quiet_bind (Prog.Issues.perform trivial) fun _ => .pure _ ?_
        exact isSome_or_timeoutDegradation ..
      refine .quiet_bind (ensureOpen_onlyKinds trivial trivial ..) fun _ => ?_
      refine .quiet_bind (onlyKinds_db trivial) fun warm => ?_
      split
      · -- A warm anchor is read at once; for a cold one the materialization's timeouts count too.
        exact hrest timedOut _
      · refine (materializeCallEdges_reports rt.rootUri anchor.id anchor .incoming client).bind
          fun t => ?_
        refine .quiet_bind (onlyKinds_db trivial) fun _ => ?_
        dsimp only
        rw [Bool.or_assoc]
        exact hrest (timedOut || t) _

/-- The tool `find_callees` reports the timeouts and a missing client. -/
private theorem runtime_findCallees_reports (rt : QueryRuntime) (symref : SymbolRef)
    (filter : Filter) (page : Page) (withSignature : Bool) :
    Reports false (rt.findCallees symref filter page withSignature) fun r => r.2.isSome := by
  refine (clientFor_reports rt symref).bind fun acquired => ?_
  refine (findCallees_reports rt.toQueryEngine symref filter page acquired.1).bind fun found => ?_
  obtain ⟨client, degradation⟩ := acquired
  have hflag := isSome_or_timeoutDegradation degradation found.2
  cases client with
  | some client => exact .quiet_bind (withSignatures_onlyKinds quiet_hovers ..) fun _ => .pure _ hflag
  | none => exact .pure _ hflag

/-- A flag that tells exactly about the signals is honest when every failure is one, or comes
    with one. -/
private theorem honest_iff {w w' : World} {degradation : Option Degradation}
    (h : degradation.isSome = true ↔ Signalled w w') :
    Honest w w' degradation ↔ (LspFailed w w' → Signalled w w') := by
  rw [Honest, h]

end Reports

/-- The response of each of the four tools tells about a failure of the server exactly when
    the failure is one that the code looks at: the acquisition was refused, or some foreground
    round trip of the call missed its deadline. -/
theorem degraded_honest_iff (rt : QueryRuntime) (S : Servers) (w w' : World)
    (degradation : Option Degradation) :
    (∀ uri line character result,
      (rt.findDefinition (.at uri line character)).run S w = (.ok (result, degradation), w') →
      (Honest w w' degradation ↔ (LspFailed w w' → Signalled w w'))) ∧
    (∀ symref filter page result refreshing,
      (rt.findReferences symref filter page).run S w =
        (.ok (result, degradation, refreshing), w') →
      (Honest w w' degradation ↔ (LspFailed w w' → Signalled w w'))) ∧
    (∀ symref filter page withSignature result refreshing,
      (rt.findCallers symref filter page withSignature).run S w =
        (.ok (result, degradation, refreshing), w') →
      (Honest w w' degradation ↔ (LspFailed w w' → Signalled w w'))) ∧
    (∀ symref filter page withSignature result,
      (rt.findCallees symref filter page withSignature).run S w =
        (.ok (result, degradation), w') →
      (Honest w w' degradation ↔ (LspFailed w w' → Signalled w w'))) := by
  -- Each tool reports exactly the failures of its requests, which is the left side as `Reports`.
  refine ⟨?_, ?_, ?_, ?_⟩
  · intro uri line character result hrun
    have h := runtime_findDefinition_reports rt (.at uri line character) S w _ w' hrun
    exact honest_iff (h.trans (or_iff_right nofun))
  · intro symref filter page result refreshing hrun
    have h := runtime_findReferences_reports rt symref filter page S w _ w' hrun
    exact honest_iff (h.trans (or_iff_right nofun))
  · intro symref filter page withSignature result refreshing hrun
    have h := runtime_findCallers_reports rt symref filter page withSignature S w _ w' hrun
    exact honest_iff (h.trans (or_iff_right nofun))
  · intro symref filter page withSignature result hrun
    have h := runtime_findCallees_reports rt symref filter page withSignature S w _ w' hrun
    exact honest_iff (h.trans (or_iff_right nofun))

/-! ## A server that crashes in mid-query -/

/-- The runtime of the concrete runs. -/
def appRuntime : QueryRuntime := ⟨appEngine, builtinAdapters []⟩

/-- On servers that answer with errors the flag is not honest. -/
theorem degraded_honest_iff_broken :
    (Honest twoFunctionsWorld
        ((appRuntime.findDefinition (.at "file:///app.py" 1 4)).run
          brokenServers twoFunctionsWorld).2 none ↔
      (LspFailed twoFunctionsWorld
          ((appRuntime.findDefinition (.at "file:///app.py" 1 4)).run
            brokenServers twoFunctionsWorld).2 →
        Signalled twoFunctionsWorld
          ((appRuntime.findDefinition (.at "file:///app.py" 1 4)).run
            brokenServers twoFunctionsWorld).2)) ∧
    (Honest twoFunctionsWorld
        ((appRuntime.findCallees (.fqn "app.a") anyFilter firstPage true).run
          brokenServers twoFunctionsWorld).2 none ↔
      (LspFailed twoFunctionsWorld
          ((appRuntime.findCallees (.fqn "app.a") anyFilter firstPage true).run
            brokenServers twoFunctionsWorld).2 →
        Signalled twoFunctionsWorld
          ((appRuntime.findCallees (.fqn "app.a") anyFilter firstPage true).run
            brokenServers twoFunctionsWorld).2)) :=
  ⟨(degraded_honest_iff appRuntime brokenServers twoFunctionsWorld _ none).1
      "file:///app.py" 1 4 _ rfl,
    (degraded_honest_iff appRuntime brokenServers twoFunctionsWorld _ none).2.2.2
      (.fqn "app.a") anyFilter firstPage true _ rfl⟩

/-- With an error response to every request, each of the four answers without a
    degradation. -/
theorem broken_server_not_degraded :
    (∃ result w', (appRuntime.findDefinition (.at "file:///app.py" 1 4)).run
        brokenServers twoFunctionsWorld = (.ok (result, none), w') ∧
      ¬ Honest twoFunctionsWorld w' none) ∧
    (∃ result refreshing w', (appRuntime.findReferences (.fqn "app.a") anyFilter firstPage).run
        brokenServers twoFunctionsWorld = (.ok (result, none, refreshing), w') ∧
      ¬ Honest twoFunctionsWorld w' none) ∧
    (∃ result refreshing w', (appRuntime.findCallers (.fqn "app.a") anyFilter firstPage true).run
        brokenServers twoFunctionsWorld = (.ok (result, none, refreshing), w') ∧
      ¬ Honest twoFunctionsWorld w' none) ∧
    (∃ result w', (appRuntime.findCallees (.fqn "app.a") anyFilter firstPage true).run
        brokenServers twoFunctionsWorld = (.ok (result, none), w') ∧
      ¬ Honest twoFunctionsWorld w' none) := by
  refine ⟨⟨_, _, rfl, fun h => ?_⟩, ⟨_, _, _, rfl, fun h => ?_⟩, ⟨_, _, _, rfl, fun h => ?_⟩,
    ⟨_, _, rfl, fun h => ?_⟩⟩
  · exact absurd (h ⟨.trip .definition (.failed .other), by decide, rfl⟩) nofun
  · exact absurd (h ⟨.trip .references (.failed .other), by decide, rfl⟩) nofun
  · exact absurd (h ⟨.trip .prepareCallHierarchy (.failed .other), by decide, rfl⟩) nofun
  · exact absurd (h ⟨.trip .prepareCallHierarchy (.failed .other), by decide, rfl⟩) nofun

end Semnav.Query
