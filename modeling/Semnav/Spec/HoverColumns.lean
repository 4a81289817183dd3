import Semnav.ForStd.Protocol
import Semnav.Spec.HeldRows

/-!
# The columns that a hover fills

`signature` and `construct` hold what a hover told about a row, and nothing asks again for a
column that is not null.  A reconcile that renames or updates a row leaves both as they were,
and an answer in flight is stored by id or by fqn, whatever the row has become.

## Key results

- `shown_storesHovers`: what a task stores is what its last hover told
- `hover_columns_fresh`: the columns are fresh in every run in which no row changes its fqn,
  name or signature hash while it holds an answer, or while one is in flight for it
- `updated_row_keeps_signature`: one reconcile is enough for a signature of another time
-/

namespace Semnav.Query

open Semnav.ForStd Semnav.Graph Semnav.Indexer Semnav.Adapters

/-! ## Fresh columns -/

/-- Two rows are versions of one, with nothing changed that a hover depends on. -/
structure SameVersion (m n : Node) : Prop where
  id : m.id = n.id
  fqn : m.fqn = n.fqn
  name : m.name = n.name
  signatureHash : m.signatureHash = n.signatureHash

/-- A row is of its own version. -/
theorem SameVersion.refl (n : Node) : SameVersion n n := ⟨rfl, rfl, rfl, rfl⟩

/-- Versions are compared by four columns. -/
theorem SameVersion.trans {l m n : Node} (h : SameVersion l m) (h' : SameVersion m n) :
    SameVersion l n :=
  ⟨h.id.trans h'.id, h.fqn.trans h'.fqn, h.name.trans h'.name,
    h.signatureHash.trans h'.signatureHash⟩

/-- A hover that was answered: what it told, and the rows of `nodes` when it was asked for. -/
structure HoverNote where
  text : String
  rows : List Node

/-- Take note of a hover. -/
def Cmd.noteHover {β : Type} : Cmd β → Except DbError β → World → List HoverNote → List HoverNote
  | .request _ (.hover ..), .ok (.ok (some text)), w, notes => notes ++ [⟨text, w.db.nodes⟩]
  | _, _, _, notes => notes

/-- A hover told `text`, and was asked for while the row had its present version. -/
def Told (notes : List HoverNote) (text : String) (n : Node) : Prop :=
  ∃ note ∈ notes, note.text = text ∧ ∃ m ∈ note.rows, SameVersion m n

/-- What the row holds was told by such hovers. -/
structure FreshRow (notes : List HoverNote) (n : Node) : Prop where
  signature : ∀ signature, n.signature = some signature →
    ∃ text, Told notes text n ∧ trim text = signature
  construct : ∀ construct, n.construct = some construct →
    ∃ text, Told notes text n ∧ NodeKind.constructFromHover text = some construct

/-- Every row is fresh. -/
def FreshColumns (s : World × List HoverNote) : Prop := ∀ n ∈ s.1.db.nodes, FreshRow s.2 n

/-- What was told stays told, of any row of the version. -/
theorem Told.mono {notes notes' : List HoverNote} (h : ∀ note ∈ notes, note ∈ notes') {text : String}
    {m n : Node} (hmn : SameVersion m n) (htold : Told notes text m) : Told notes' text n := by
  obtain ⟨note, hnote, htext, l, hl, hlm⟩ := htold
  exact ⟨note, h note hnote, htext, l, hl, hlm.trans hmn⟩

/-- No note is lost. -/
theorem Cmd.mem_noteHover {β : Type} (c : Cmd β) (result : Except DbError β) (w : World)
    (notes : List HoverNote) : ∀ note ∈ notes, note ∈ c.noteHover result w notes := by
  intro note hnote
  cases c with
  | request client r =>
    cases r with
    | hover =>
      rcases result with e | ⟨e | ⟨_ | text⟩⟩
      · exact hnote
      · exact hnote
      · exact hnote
      · exact List.mem_append_left _ hnote
    | _ => exact hnote
  | _ => exact hnote

/-- A command that fails is not noted. -/
@[simp] theorem Cmd.noteHover_error {β : Type} (c : Cmd β) (e : DbError) (w : World)
    (notes : List HoverNote) : c.noteHover (.error e) w notes = notes := by
  cases c with
  | request client r => cases r <;> rfl
  | _ => rfl

/-! ## What a command stores -/

/-- Is the command a hover request? -/
def Cmd.asksHover {β : Type} : Cmd β → Bool
  | .request _ (.hover ..) => true
  | _ => false

/-- The command stores something in the row. -/
def Cmd.Stores (n : Node) (β : Type) : Cmd β → Prop
  | .db (.updateNodeConstruct id _) => n.id = id
  | .db (.updateNodeSignature id _) => n.id = id
  | .db (.updateNodeSignatureByFqn fqn _) => n.fqn = fqn
  | _ => False

/-- The signature that a command stores. -/
def Cmd.signature? {β : Type} : Cmd β → Option String
  | .db (.updateNodeSignature _ signature) => some signature
  | .db (.updateNodeSignatureByFqn _ signature) => some signature
  | _ => none

/-- The construct that a command stores. -/
def Cmd.construct? {β : Type} : Cmd β → Option String
  | .db (.updateNodeConstruct _ construct) => some construct
  | _ => none

/-- What the command stores is what the hover says. -/
structure Cmd.Says {β : Type} (text : String) (c : Cmd β) : Prop where
  signature : ∀ signature, c.signature? = some signature → trim text = signature
  construct : ∀ construct, c.construct? = some construct →
    NodeKind.constructFromHover text = some construct

/-- What the last hover of a task told, after an exchange. -/
def Cmd.told {β : Type} : Cmd β → β → Option String → Option String
  | .request _ (.hover ..), .ok text, _ => text
  | .request _ (.hover ..), .error _, _ => none
  | _, _, last => last

/-- A task stores what its last hover told, and nothing else. -/
def hoverProtocol : Prog.Protocol Cmd (Option String) where
  replies := fun last c b last' => last' = c.told b last
  allowed := fun last c => c.kind = .storeHover → ∃ text, last = some text ∧ c.Says text

/-- A program that does so from its start. -/
structure StoresHovers {α : Type} (x : QueryM α) : Prop where
  obeys : ∀ last, Prog.Obeys hoverProtocol (fun _ _ => True) x last

/-- A task is about to store something in the row, without asking again. -/
abbrev AwaitsAnswer {α : Type} (n : Node) (x : QueryM α) : Prop :=
  Prog.MayIssue (Cmd.Stores n) (fun e => e.cmd.asksHover = true) x

section Commands

variable {β : Type} {S : Servers} {c : Cmd β} {w w' : World} {b : β}

/-- Only storing a hover writes a signature. -/
private theorem Cmd.kind_of_signature? {signature : String} (h : c.signature? = some signature) :
    c.kind = .storeHover := by
  cases c with
  | db c =>
    cases c with
    | updateNodeSignature | updateNodeSignatureByFqn => rfl
    | _ => exact nomatch h
  | _ => exact nomatch h

/-- Only storing a hover writes a construct. -/
private theorem Cmd.kind_of_construct? {construct : String} (h : c.construct? = some construct) :
    c.kind = .storeHover := by
  cases c with
  | db c =>
    cases c with
    | updateNodeConstruct => rfl
    | _ => exact nomatch h
  | _ => exact nomatch h

/-- The row is the target of the command by its id or its fqn. -/
theorem Cmd.Stores.congr {m n : Node} (hmn : SameVersion m n) (h : c.Stores n β) : c.Stores m β := by
  cases c with
  | db c =>
    cases c with
    | updateNodeConstruct | updateNodeSignature => exact hmn.id.trans h
    | updateNodeSignatureByFqn => exact hmn.fqn.trans h
    | _ => exact h
  | _ => exact h

/-- A query that waits about a row waits about all of its version. -/
theorem AwaitsAnswer.congr {α : Type} {x : QueryM α} {m n : Node} (hmn : SameVersion m n)
    (h : AwaitsAnswer n x) : AwaitsAnswer m x :=
  h.mono fun _ _ hc => hc.congr hmn

/-- Only a hover tells anything. -/
private theorem Cmd.told_of_not_asksHover (hc : ¬ c.asksHover = true) (b : β)
    (last : Option String) :
    c.told b last = last := by
  cases c with
  | request client r =>
    cases r with
    | hover => exact absurd rfl hc
    | _ => rfl
  | _ => rfl

/-- A row after a command: the version it had, and a column that the command stored, if any. -/
theorem handle_rows (hc : c.handle S w = (.ok b, w')) {n' : Node} (hn' : n' ∈ w'.db.nodes) :
    ∃ n ∈ w.db.nodes, SameVersion n n' ∧
      (n'.signature = n.signature ∨ (c.Stores n β ∧ n'.signature = c.signature?)) ∧
      (n'.construct = n.construct ∨ (c.Stores n β ∧ n'.construct = c.construct?)) := by
  -- Only the three updates store a hover; all other commands leave the rows as they are.
  by_cases hkind : c.kind = .storeHover
  · cases c with
    | db c =>
      cases c with
      | updateNodeConstruct id construct | updateNodeSignature id signature
      | updateNodeSignatureByFqn fqn signature =>
        cases hc
        obtain ⟨n, hn, rfl⟩ := List.mem_map.mp hn'
        refine ⟨n, hn, ?_⟩
        -- The row that is meant takes the stored column, any other row is as it was.
        split
        · rename_i htarget
          exact ⟨⟨rfl, rfl, rfl, rfl⟩, by simp [Cmd.Stores, Cmd.signature?, htarget],
            by simp [Cmd.Stores, Cmd.construct?, htarget]⟩
        · exact ⟨.refl n, .inl rfl, .inl rfl⟩
      | _ => exact nomatch hkind
    | _ => exact nomatch hkind
  · have hnodes := handle_nodes (S := S) hkind w
    rw [hc] at hnodes
    exact ⟨n', hnodes ▸ hn', .refl n', .inl rfl, .inl rfl⟩

end Commands

/-! ## What a task stores -/

section Parts

variable {α β : Type}

/-- A result stores nothing. -/
theorem StoresHovers.pure (a : α) : StoresHovers (Pure.pure a : QueryM α) := ⟨fun _ => trivial⟩

/-- One query after the other. -/
theorem StoresHovers.bind {x : QueryM α} {f : α → QueryM β} (hx : StoresHovers x)
    (hf : ∀ a, StoresHovers (f a)) : StoresHovers (x >>= f) :=
  ⟨fun last => Prog.Obeys.bind (hx.obeys last) fun a last' _ => (hf a).obeys last'⟩

/-- A part that stores nothing. -/
private theorem StoresHovers.of_onlyKinds {x : QueryM α} (hx : OnlyKinds (· ≠ .storeHover) x) :
    StoresHovers x := by
  induction x with
  | pure a => exact .pure a
  | op c k ih =>
    refine ⟨fun last => ⟨fun hkind => absurd hkind hx.1, fun b last' _ => ?_⟩⟩
    exact (ih b (hx.2 b)).obeys last'

/-- A query that stores nothing may come first. -/
theorem StoresHovers.bind_quiet {x : QueryM α} {f : α → QueryM β}
    (hx : OnlyKinds (· ≠ .storeHover) x) (hf : ∀ a, StoresHovers (f a)) : StoresHovers (x >>= f) :=
  (StoresHovers.of_onlyKinds hx).bind hf

/-- A store right after the hover that tells what is stored, and a rest that goes on as it likes. -/
private theorem obeys_store {c : DbCmd Unit} {f : Unit → QueryM β} {text : String}
    (htells : (Cmd.db c).Says text)
    (hf : Prog.Obeys hoverProtocol (fun _ _ => True) (f ()) (some text)) :
    Prog.Obeys hoverProtocol (fun _ _ => True) (db c >>= f) (some text) := by
  refine ⟨fun _ => ⟨text, rfl, htells⟩, fun b last' hlast => ?_⟩
  have hsame : last' = some text := hlast
  rw [hsame]
  exact hf

/-- A hover, and a rest that may store what it tells. -/
private theorem obeys_hover {client : Client} {uri : String} {line col : Nat}
    {f : Except LspError (Option String) → QueryM β} {last : Option String}
    (hf : ∀ reply, Prog.Obeys hoverProtocol (fun _ _ => True) (f reply)
      (Cmd.told (.request client (.hover uri line col)) reply last)) :
    Prog.Obeys hoverProtocol (fun _ _ => True)
      (client.request (.hover uri line col) >>= f) last := by
  refine ⟨nofun, fun reply last' hlast => ?_⟩
  have hsame : last' = Cmd.told (.request client (.hover uri line col)) reply last := hlast
  rw [hsame]
  exact hf reply

/-- What is stored of a definition is what its hover told. -/
private theorem refineByHover_storesHovers (node : Node) (client : Client) :
    StoresHovers (QueryEngine.refineByHover node client) := by
  -- The signature that is stored is the hover trimmed, if the row has none yet.
  have hsignature : ∀ (node : Node) (hover : String), Prog.Obeys hoverProtocol (fun _ _ => True)
      (if node.signature.isNone && !(trim hover).isEmpty then do
        let _ ← db (.updateNodeSignature node.id (trim hover))
        pure { node with signature := some (trim hover) }
      else pure node : QueryM Node) (some hover) := by
    intro node hover
    split
    · exact obeys_store ⟨fun _ h => Option.some.inj h, fun _ h => nomatch h⟩ trivial
    · exact trivial
  unfold QueryEngine.refineByHover
  split
  · exact .pure _
  · -- The hover is asked for after the document is opened, and stored if there was one.
    refine .bind_quiet (ensureOpen_onlyKinds nofun nofun ..) fun _ => ⟨fun last => ?_⟩
    refine obeys_hover fun reply => ?_
    rcases reply with e | ⟨_ | hover⟩
    · exact trivial
    · exact trivial
    · -- The hover may give a construct too, which is stored before the signature.
      dsimp only [Cmd.told]
      split
      · rename_i construct _ hconstruct
        refine obeys_store ⟨(fun _ h => nomatch h), fun _ h => ?_⟩ (hsignature _ hover)
        rw [← Option.some.inj h]
        exact hconstruct
      · exact hsignature node hover

/-- Refining every target of a definition stores what its hovers told. -/
private theorem definitionNodes_storesHovers (client : Client) (locs : List Location) :
    StoresHovers (QueryEngine.definitionNodes client locs) := by
  induction locs with
  | nil => exact .pure _
  | cons loc rest ih =>
    refine .bind_quiet (nodeAt_onlyKinds nofun ..) fun node => ?_
    cases node with
    | none => exact ih
    | some node => exact (refineByHover_storesHovers node client).bind fun _ => ih.bind fun _ => .pure _

/-- Filling in the signatures of a page stores what the hovers told. -/
private theorem backfillSignatures_storesHovers (client : Client) (opened : List String)
    (nodes : List NodeDto) :
    StoresHovers (QueryRuntime.backfillSignatures client opened nodes) := by
  induction nodes generalizing opened with
  | nil => exact .pure _
  | cons node rest ih =>
    have hrest : ∀ (opened : List String) (node' : NodeDto), StoresHovers
        (QueryRuntime.backfillSignatures client opened rest >>= fun rest => pure (node' :: rest)) :=
      fun opened _ => (ih opened).bind fun _ => .pure _
    unfold QueryRuntime.backfillSignatures
    split
    · exact hrest opened node
    · dsimp only
      split
      case' isTrue =>
        refine .bind_quiet (ensureOpen_onlyKinds (by decide) (by decide) ..) fun _ => ⟨fun last => ?_⟩
      case' isFalse => refine ⟨fun last => ?_⟩
      -- Whether the file was open or not, the hover follows.
      all_goals
        refine obeys_hover fun reply => ?_
        rcases reply with e | ⟨_ | hover⟩
        · exact (hrest _ node).obeys _
        · exact (hrest _ node).obeys _
        · dsimp only [Cmd.told]
          split
          · exact (hrest _ node).obeys _
          · refine obeys_store ⟨fun _ h => Option.some.inj h, fun _ h => ?_⟩ ((hrest _ _).obeys _)
            cases h

/-- Plain commands store no hover. -/
theorem noHover {x : QueryM α} (hx : OnlyKinds CmdKind.plain x) : OnlyKinds (· ≠ .storeHover) x :=
  hx.mono fun _ hk => hk.2

/-- A page of calls stores what its hovers told. -/
private theorem withSignatures_storesHovers (withSignature : Bool) (client : Client)
    (result : CallGraphResult) :
    StoresHovers (QueryRuntime.withSignatures withSignature client result) := by
  unfold QueryRuntime.withSignatures
  split
  · exact .bind (backfillSignatures_storesHovers ..) fun _ => .pure _
  · exact .pure _

/-- A page of symbols stores what the hovers of each language told. -/
private theorem backfillLanguages_storesHovers (languages : List String) (nodes : List NodeDto) :
    StoresHovers (QueryRuntime.backfillLanguages languages nodes) := by
  induction languages generalizing nodes with
  | nil => exact .pure _
  | cons language rest ih =>
    refine .bind_quiet (acquireOpt_onlyKinds nofun _) fun acquired => ?_
    obtain ⟨client, degradation⟩ := acquired
    cases client with
    | none => exact ih nodes
    | some client => exact .bind (backfillSignatures_storesHovers ..) fun nodes => ih nodes

variable (rt : QueryRuntime)

/-- The tool `find_symbol` as a whole. -/
private theorem findSymbol_storesHovers (pattern : String) (mode : MatchMode) (ignoreCase : Bool)
    (options : FindSymbolOptions) (filter : Filter) (page : Page) :
    StoresHovers (rt.findSymbol pattern mode ignoreCase options filter page) := by
  refine StoresHovers.bind ?_ fun result => ?_
  · refine .bind_quiet (onlyKinds_db nofun) fun nodes => ?_
    dsimp only
    split
    · exact .pure _
    · exact .pure _
  · split
    · exact .bind (backfillLanguages_storesHovers ..) fun _ => .pure _
    · exact .pure _

/-- The tool `find_definition` as a whole. -/
private theorem findDefinition_storesHovers (symref : SymbolRef) :
    StoresHovers (rt.findDefinition symref) := by
  refine .bind_quiet (acquireOpt_onlyKinds nofun _) fun acquired => ?_
  refine StoresHovers.bind ?_ fun found => .pure _
  cases symref with
  | fqn fqn => exact .bind_quiet (onlyKinds_db nofun) fun _ => .pure _
  | «at» uri line character =>
    obtain ⟨client, degradation⟩ := acquired
    cases client with
    | none => exact .pure _
    | some client =>
      refine .bind_quiet (ensureOpen_onlyKinds nofun nofun ..) fun _ => ?_
      refine .bind_quiet (onlyKinds_request client nofun) fun reply => ?_
      exact .bind (definitionNodes_storesHovers ..) fun _ => .pure _

/-- The tool `find_references` stores none. -/
private theorem findReferences_storesHovers (symref : SymbolRef) (filter : Filter) (page : Page) :
    StoresHovers (rt.findReferences symref filter page) := by
  have hspawn : ∀ r : Refresh, OnlyKinds (· ≠ .storeHover)
      (Prog.perform (.spawnRefresh r) : QueryM Unit) := fun r => Prog.Issues.perform nofun
  refine .bind_quiet (clientFor_onlyKinds nofun nofun rt symref) fun acquired => ?_
  obtain ⟨client, degradation⟩ := acquired
  refine .bind_quiet (resolveAnchor_onlyKinds nofun nofun ..) fun r => ?_
  obtain ⟨anchor, timedOut⟩ := r
  dsimp only
  split
  · -- No anchor gives hints; no client gives what is cached.
    exact .bind_quiet (hintFqnsForSymref_onlyKinds nofun ..) fun _ => .pure _
  · exact .bind_quiet (referencesFromCache_onlyKinds nofun ..) fun _ => .pure _
  · refine .bind_quiet (ensureOpen_onlyKinds nofun nofun ..) fun _ => ?_
    refine .bind_quiet (onlyKinds_db nofun) fun warm => ?_
    split
    · -- A warm anchor answers from the cache and refreshes behind the answer, a cold one asks
      -- first.
      refine .bind_quiet (referencesFromCache_onlyKinds nofun ..) fun _ => ?_
      exact .bind_quiet (hspawn _) fun _ => .pure _
    · refine .bind_quiet (noHover (materializeIncoming_plain rt.rootUri .references ..)) fun _ => ?_
      refine .bind_quiet (onlyKinds_db nofun) fun _ => ?_
      refine .bind_quiet (referencesFromCache_onlyKinds nofun ..) fun _ => ?_
      exact .bind_quiet (hspawn _) fun _ => .pure _

/-- The tool `find_callers` as a whole. -/
private theorem findCallers_storesHovers (symref : SymbolRef) (filter : Filter) (page : Page)
    (withSignature : Bool) : StoresHovers (rt.findCallers symref filter page withSignature) := by
  have hspawn : ∀ r : Refresh, OnlyKinds (· ≠ .storeHover)
      (Prog.perform (.spawnRefresh r) : QueryM Unit) := fun r => Prog.Issues.perform nofun
  refine .bind_quiet (clientFor_onlyKinds nofun nofun rt symref) fun acquired => ?_
  obtain ⟨client, degradation⟩ := acquired
  refine .bind_quiet (resolveAnchor_onlyKinds nofun nofun ..) fun r => ?_
  obtain ⟨anchor, timedOut⟩ := r
  dsimp only
  -- By the resolution: hints, the page without a server, and the page with one.
  split
  · exact .bind_quiet (hintFqnsForSymref_onlyKinds nofun ..) fun _ => .pure _
  · exact .bind_quiet (readCallsPage_onlyKinds nofun ..) fun _ => .pure _
  · refine .bind_quiet (ensureOpen_onlyKinds nofun nofun ..) fun _ => ?_
    refine .bind_quiet (onlyKinds_db nofun) fun warm => ?_
    -- Only the signatures store hovers, after the page was read.
    split
    · refine .bind_quiet (readCallsPage_onlyKinds nofun ..) fun _ => ?_
      refine .bind (withSignatures_storesHovers ..) fun _ => ?_
      exact .bind_quiet (hspawn _) fun _ => .pure _
    · refine .bind_quiet (noHover (materializeIncoming_plain rt.rootUri .calls ..)) fun _ => ?_
      refine .bind_quiet (onlyKinds_db nofun) fun _ => ?_
      refine .bind_quiet (readCallsPage_onlyKinds nofun ..) fun _ => ?_
      refine .bind (withSignatures_storesHovers ..) fun _ => ?_
      exact .bind_quiet (hspawn _) fun _ => .pure _

/-- The tool `find_callees` as a whole. -/
private theorem findCallees_storesHovers (symref : SymbolRef) (filter : Filter) (page : Page)
    (withSignature : Bool) : StoresHovers (rt.findCallees symref filter page withSignature) := by
  refine .bind_quiet (clientFor_onlyKinds nofun nofun rt symref) fun acquired => ?_
  obtain ⟨client, degradation⟩ := acquired
  refine .bind_quiet (noHover (engine_findCallees_onlyKinds plain_expands ..)) fun found => ?_
  obtain ⟨result, timedOut⟩ := found
  cases client with
  | none => exact .pure _
  | some client => exact .bind (withSignatures_storesHovers ..) fun _ => .pure _

/-- What a query stores is what its last hover told. -/
private theorem shown_storesHovers (call : ToolCall) : StoresHovers (call.shown rt) := by
  cases call with
  | findSymbol => exact .bind (findSymbol_storesHovers ..) fun _ => .pure _
  | findDefinition => exact .bind (findDefinition_storesHovers ..) fun _ => .pure _
  | findReferences => exact .bind (findReferences_storesHovers ..) fun _ => .pure _
  | findCallers => exact .bind (findCallers_storesHovers ..) fun _ => .pure _
  | findCallees => exact .bind (findCallees_storesHovers ..) fun _ => .pure _
  | findCallPath fuel from_ to_ maxDepth maxLspCalls =>
    refine StoresHovers.bind ?_ fun found => ?_
    · refine .bind_quiet (clientFor_onlyKinds nofun nofun rt from_) fun acquired => ?_
      exact .bind_quiet (noHover (engine_findCallPath_onlyKinds plain_expands ..)) fun _ => .pure _
    · cases found with
      | none => exact .pure _
      | some found => exact .pure _

/-- Whatever task the daemon runs. -/
private theorem mayRun_storesHovers {x : QueryM (List String)} (hx : MayRun rt x) :
    StoresHovers x := by
  cases hx with
  | call call => exact shown_storesHovers rt call
  | refresh r => exact .bind_quiet (noHover (runRefresh_plain rt r)) fun _ => .pure _

end Parts

/-! ## Runs -/

/-- Does the row hold something that a hover told? -/
def Answered (n : Node) : Prop := n.signature.isSome = true ∨ n.construct.isSome = true

/-- The step is a reconcile that matches the row with a symbol of another fqn, name or signature
    hash: it counts as renamed or updated. -/
def Rewrites (H : Hasher) (w w' : World) (old : Node) : Prop :=
  ∃ (args : FileArgs) (syms : List ReconcileSymbol) (db' : Db) (o : ReconcileOutcome) (i : Nat)
    (s : ReconcileSymbol), reconcileFileSymbols H w.db args syms = .ok (db', o) ∧
      w' = w.setDb db' ∧ syms[i]? = some s ∧ claimedRow (w.db.nodesByUri args.uri)
        (matchSymbols H (w.db.nodesByUri args.uri) syms) i = some old ∧
      ¬ (old.fqn = s.fqn ∧ old.name = s.name ∧ old.signatureHash = some s.signatureHash)

/-- A row after any other step: if it holds something, it held that before; and unless the step
    is a reconcile that renames or updates it, it is the same version. -/
private theorem EnvStep.columns {H : Hasher} {w w' : World} (hs : EnvStep H w w') (h : w.db.Stored)
    {n' : Node} (hn' : n' ∈ w'.db.nodes) : ¬ Answered n' ∨ ∃ n ∈ w.db.nodes,
      n'.signature = n.signature ∧ n'.construct = n.construct ∧
      (SameVersion n n' ∨ Rewrites H w w' n) := by
  have hself : n' ∈ w.db.nodes → ∃ n ∈ w.db.nodes, n'.signature = n.signature ∧
      n'.construct = n.construct ∧ (SameVersion n n' ∨ Rewrites H w w' n) :=
    fun hn => ⟨n', hn, rfl, rfl, .inl (.refl n')⟩
  cases hs with
  | edit text => exact .inr (hself hn')
  | setMeta key value => exact .inr (hself hn')
  | settle refreshes => exact .inr (hself hn')
  | upsertNode args containerId hline hok =>
    -- An upsert writes both columns, as null.
    cases ((upsertNode_rows h.toWF hok).1 n').mp hn' with
    | inl hwritten =>
      rw [hwritten]
      exact .inl fun hanswered => by simp [Answered, FlatSymbol.toNode] at hanswered
    | inr hother => exact .inr (hself hother.1)
  | @reconcile args syms hline db' o hok =>
    obtain ⟨ids, hr⟩ := reconcile_reconciled H h hline hok
    have hm := matched_of_stored H h args hline
    rcases (hr.nodes n').mp hn' with ⟨i, s, hs, -, hi, hcols⟩ | ⟨old, hold, -, -, rfl⟩ |
      ⟨y, hy, -, -, rfl⟩
    · unfold writtenCols at hcols
      split at hcols
      · -- A matched row keeps both columns, whatever the symbol is.
        rename_i old hclaim
        have hid : old.id = n'.id := Option.some.inj ((hr.claimed i old hclaim).symm.trans hi)
        refine .inr ⟨old, hm.old_mem_base (claimedRow_mem hclaim), ?_, ?_, ?_⟩
        · rw [hcols]
          rfl
        · rw [hcols]
          rfl
        · by_cases hsame : old.fqn = s.fqn ∧ old.name = s.name ∧
            old.signatureHash = some s.signatureHash
          · obtain ⟨hfqn, hname, hhash⟩ := hsame
            refine .inl ⟨hid, ?_, ?_, ?_⟩
            · rw [hcols]
              exact hfqn
            · rw [hcols]
              exact hname
            · rw [hcols]
              exact hhash
          · exact .inr ⟨args, syms, db', o, i, s, hok, rfl, hs, hclaim, hsame⟩
      · -- A new symbol writes null.
        refine .inl fun hanswered => ?_
        unfold Answered at hanswered
        rw [hcols] at hanswered
        simp [ReconcileSymbol.toNode] at hanswered
    · exact .inr ⟨old, hm.old_mem_base hold, rfl, rfl, .inl ⟨rfl, rfl, rfl, rfl⟩⟩
    · exact .inr ⟨y, hy, rfl, rfl, .inl ⟨(y.forget_id _).symm, rfl, rfl, rfl⟩⟩

/-- A step of everything else that renames and updates no row which holds what a hover told, and
    makes no new version of a row in which a task is about to store something. -/
structure KeepingStep (H : Hasher) (tasks : List (Task Cmd (List String))) (w w' : World) : Prop where
  step : EnvStep H w w'
  held : ∀ n ∈ w.db.nodes, Rewrites H w w' n → ¬ Answered n
  awaited : ∀ n' ∈ w'.db.nodes, ∀ t ∈ tasks, ∀ x, t.rest = some x → AwaitsAnswer n' x →
    ∃ n ∈ w.db.nodes, SameVersion n n'

/-- The runs of a daemon, with an account of the hovers that were answered. -/
abbrev HoverRun (rt : QueryRuntime) (S : Servers)
    (env : List (Task Cmd (List String)) → World → World → Prop) :
    System Cmd (World × List HoverNote) (List String) →
      System Cmd (World × List HoverNote) (List String) → Prop :=
  System.AwareReaches (System.observing Cmd.noteHover (Cmd.handle S)) (System.unobserved env)
    (MayRun rt)

/-- What is left of a task stores what its last hover told; and what it is about to store was
    told while the row had its present version. -/
def TellsRight (s : World × List HoverNote) (x : QueryM (List String)) : Prop :=
  ∃ last, Prog.Obeys hoverProtocol (fun _ _ => True) x last ∧
    ∀ text, last = some text → ∀ n ∈ s.1.db.nodes, AwaitsAnswer n x → Told s.2 text n

/-- The account of a hover that was answered. -/
private theorem Cmd.told_noteHover {β : Type} {c : Cmd β} (hc : c.asksHover = true) {b : β}
    {last : Option String} {text : String} (htext : c.told b last = some text) (w : World)
    (notes : List HoverNote) : ⟨text, w.db.nodes⟩ ∈ c.noteHover (.ok b) w notes := by
  cases c with
  | request client r =>
    cases r with
    | hover =>
      rcases b with e | ⟨_ | told⟩
      · exact nomatch htext
      · exact nomatch htext
      · obtain rfl := Option.some.inj htext
        exact List.mem_append_right _ List.mem_cons_self
    | _ => exact nomatch hc
  | _ => exact nomatch hc

/-- Asking is not storing. -/
private theorem Cmd.kind_of_asksHover {β : Type} {c : Cmd β} (hc : c.asksHover = true) :
    c.kind ≠ .storeHover := by
  cases c with
  | request client r => exact nofun
  | _ => exact nomatch hc

/-- A row stays fresh while its version and its two columns stay. -/
theorem FreshRow.mono {notes notes' : List HoverNote} (h : ∀ note ∈ notes, note ∈ notes')
    {m n : Node} (hmn : SameVersion m n) (hsignature : n.signature = m.signature)
    (hconstruct : n.construct = m.construct) (hm : FreshRow notes m) : FreshRow notes' n := by
  constructor
  · intro signature hsig
    obtain ⟨text, htold, htext⟩ := hm.signature signature (hsignature.symm.trans hsig)
    exact ⟨text, htold.mono h hmn, htext⟩
  · intro construct hcon
    obtain ⟨text, htold, htext⟩ := hm.construct construct (hconstruct.symm.trans hcon)
    exact ⟨text, htold.mono h hmn, htext⟩

/-- A row without either column is fresh. -/
private theorem FreshRow.of_not_answered {notes : List HoverNote} {n : Node} (hn : ¬ Answered n) :
    FreshRow notes n where
  signature := fun _ h => absurd (.inl (h ▸ rfl)) hn
  construct := fun _ h => absurd (.inr (h ▸ rfl)) hn

section Step

variable {rt : QueryRuntime} {S : Servers}

/-- Another task's command, or its failure, leaves what a task is about to store told. -/
theorem TellsRight.mono {s s' : World × List HoverNote}
    (hrows : ∀ n' ∈ s'.1.db.nodes, ∃ n ∈ s.1.db.nodes, SameVersion n n')
    (hnotes : ∀ note ∈ s.2, note ∈ s'.2) {x : QueryM (List String)} (hx : TellsRight s x) :
    TellsRight s' x := by
  obtain ⟨last, hobeys, htold⟩ := hx
  refine ⟨last, hobeys, fun text htext n' hn' hawaits => ?_⟩
  obtain ⟨n, hn, hnn'⟩ := hrows n' hn'
  exact (htold text htext n hn (hawaits.congr hnn')).mono hnotes hnn'

/-- A step of everything else. -/
private theorem KeepingStep.fresh {tasks : List (Task Cmd (List String))} {w w' : World}
    {notes : List HoverNote} (hs : KeepingStep rt.hasher tasks w w') (hstored : w.db.Stored)
    (hfresh : FreshColumns (w, notes)) : FreshColumns (w', notes) := by
  intro n' hn'
  cases EnvStep.columns hs.step hstored hn' with
  | inl hnull => exact .of_not_answered hnull
  | inr hbefore =>
    obtain ⟨n, hn, hsignature, hconstruct, hversion⟩ := hbefore
    cases hversion with
    | inl hsame => exact (hfresh n hn).mono (fun _ h => h) hsame hsignature hconstruct
    | inr hrewrites =>
      -- The row it rewrites held nothing, and so it holds nothing.
      apply FreshRow.of_not_answered
      intro hanswered
      apply hs.held n hn hrewrites
      unfold Answered at hanswered ⊢
      rw [hsignature, hconstruct] at hanswered
      exact hanswered

/-- A command of a task. -/
private theorem handle_fresh {β : Type} {c : Cmd β} {k : β → QueryM (List String)} {w w' : World}
    {b : β}
    {notes : List HoverNote} (hc : c.handle S w = (.ok b, w')) (hfresh : FreshColumns (w, notes))
    (hx : TellsRight (w, notes) (.op c k)) : FreshColumns (w', c.noteHover (.ok b) w notes) := by
  obtain ⟨last, ⟨hallowed, -⟩, htold⟩ := hx
  have hnotes := c.mem_noteHover (.ok b) w notes
  intro n' hn'
  obtain ⟨n, hn, hsame, hsignature, hconstruct⟩ := handle_rows hc hn'
  -- What it stores was told while the row had this version.
  have hstored : c.kind = .storeHover → c.Stores n β →
      ∃ text, Told (c.noteHover (.ok b) w notes) text n' ∧ c.Says text := by
    intro hkind hstores
    obtain ⟨text, hlast, htells⟩ := hallowed hkind
    exact ⟨text, (htold text hlast n hn (.inl hstores)).mono hnotes hsame, htells⟩
  constructor
  · intro signature hsig
    cases hsignature with
    | inl hkept =>
      obtain ⟨text, htext, heq⟩ := (hfresh n hn).signature signature (hkept.symm.trans hsig)
      exact ⟨text, htext.mono hnotes hsame, heq⟩
    | inr hwritten =>
      have hstores := hwritten.2.symm.trans hsig
      obtain ⟨text, htext, htells⟩ := hstored (Cmd.kind_of_signature? hstores) hwritten.1
      exact ⟨text, htext, htells.signature signature hstores⟩
  · intro construct hcon
    cases hconstruct with
    | inl hkept =>
      obtain ⟨text, htext, heq⟩ := (hfresh n hn).construct construct (hkept.symm.trans hcon)
      exact ⟨text, htext.mono hnotes hsame, heq⟩
    | inr hwritten =>
      have hstores := hwritten.2.symm.trans hcon
      obtain ⟨text, htext, htells⟩ := hstored (Cmd.kind_of_construct? hstores) hwritten.1
      exact ⟨text, htext, htells.construct construct hstores⟩

/-- What is left of the task after its command. -/
private theorem handle_tellsRight {β : Type} {c : Cmd β} {k : β → QueryM (List String)}
    {w w' : World}
    {b : β} {notes : List HoverNote} (hc : c.handle S w = (.ok b, w'))
    (hx : TellsRight (w, notes) (.op c k)) :
    TellsRight (w', c.noteHover (.ok b) w notes) (k b) := by
  obtain ⟨last, ⟨-, hobeys⟩, htold⟩ := hx
  refine ⟨c.told b last, hobeys b _ rfl, fun text htext n' hn' hawaits => ?_⟩
  obtain ⟨n, hn, hsame, -⟩ := handle_rows hc hn'
  by_cases hasks : c.asksHover = true
  · -- It has just been told, and a request changes no row.
    have hnodes := handle_nodes (S := S) (Cmd.kind_of_asksHover hasks) w
    rw [hc] at hnodes
    exact ⟨_, Cmd.told_noteHover hasks htext w notes, rfl, n', hnodes ▸ hn', .refl n'⟩
  · rw [Cmd.told_of_not_asksHover hasks] at htext
    have hbefore : AwaitsAnswer n (.op c k) := .inr ⟨b, hasks, hawaits.congr hsame⟩
    exact (htold text htext n hn hbefore).mono (c.mem_noteHover (.ok b) w notes) hsame

end Step

/-- The columns are fresh after every run in which no reconcile renames or updates a row that holds
    an answer, and no step makes a new version of a row for which one is in flight. -/
theorem hover_columns_fresh (rt : QueryRuntime) (S : Servers) {w : World} (hempty : w.db = .empty)
    {sys : System Cmd (World × List HoverNote) (List String)}
    (hrun : HoverRun rt S (KeepingStep rt.hasher) ⟨(w, []), []⟩ sys) : FreshColumns sys.state := by
  have hinv := System.AwareReaches.invariant
    (J := fun s : World × List HoverNote => s.1.db.Stored ∧ FreshColumns s) (T := TellsRight)
    ?_ ?_ ?_ ?_ hrun ?_ ?_
  · exact hinv.1.2
  · intro tasks s s' hs hJ hT
    obtain ⟨w, notes⟩ := s
    obtain ⟨w', notes'⟩ := s'
    obtain ⟨hstep, rfl⟩ := hs
    refine ⟨⟨hstep.step.stored hJ.1, hstep.fresh hJ.1 hJ.2⟩, fun t ht x hx => ?_⟩
    obtain ⟨last, hobeys, htold⟩ := hT t ht x hx
    refine ⟨last, hobeys, fun text htext n' hn' hawaits => ?_⟩
    obtain ⟨n, hn, hsame⟩ := hstep.awaited n' hn' t ht x hx hawaits
    exact (htold text htext n hn (hawaits.congr hsame)).mono (fun _ h => h) hsame
  · intro s x hx
    refine ⟨none, (mayRun_storesHovers rt hx).obeys none, fun _ h => ?_⟩
    cases h
  · intro γ c k s s' b hc hJ hx
    obtain ⟨w, notes⟩ := s
    obtain ⟨w', notes'⟩ := s'
    obtain ⟨hreply, hnotes⟩ := System.observing_eq Cmd.noteHover hc
    obtain rfl : notes' = c.noteHover (.ok b) w notes := hnotes
    refine ⟨⟨?_, handle_fresh hreply hJ.2 hx⟩, handle_tellsRight hreply hx, fun y hy => ?_⟩
    · have hstored := handle_stored (S := S) c hJ.1
      rw [hreply] at hstored
      exact hstored
    · refine hy.mono (fun n' hn' => ?_) (c.mem_noteHover _ w notes)
      obtain ⟨n, hn, hsame, -⟩ := handle_rows hreply hn'
      exact ⟨n, hn, hsame⟩
  · intro γ c s s' e hc hJ
    obtain ⟨w, notes⟩ := s
    obtain ⟨w', notes'⟩ := s'
    obtain ⟨hreply, hnotes⟩ := System.observing_eq Cmd.noteHover hc
    -- A command that failed has changed nothing.
    obtain rfl : w' = w := handle_error hreply
    obtain rfl : notes' = notes := hnotes.trans (c.noteHover_error e _ _)
    exact ⟨hJ, fun y hy => hy⟩
  · show w.db.Stored ∧ FreshColumns (w, [])
    refine ⟨hempty ▸ Db.empty_stored, fun n hn => ?_⟩
    rw [show w.db = .empty from hempty] at hn
    cases hn
  · exact fun t ht => absurd ht List.not_mem_nil

/-! ## A class that changes after a hover -/

/-- A server that tells what the class is. -/
def tellingServers : Servers where
  reply := fun _ c r =>
    match r with
    | .hover .. => .ok (some "class Foo")
    | r => .ok (appAnswers.answer c r)
  openReply := fun _ _ _ _ => .ok ()
  acquireReply := fun _ _ => .ok ()

/-- `find_symbol` for the class, with its signature. -/
def signatureCall : ToolCall := .findSymbol "app.Foo" .exact false ⟨false, true⟩ anyFilter firstPage

/-- The query has run to its end. -/
def toldQuery : List (Exchange Cmd) × QueryM (List String) × World × List HoverNote :=
  (signatureCall.shown appRuntime).advance
    (System.observing Cmd.noteHover (Cmd.handle tellingServers)) 10 (coldWorld, [])

/-- The call that stores the hover, as a run. -/
private theorem toldQuery_run {env : List (Task Cmd (List String)) → World → World → Prop}
    (hindexed : env [] emptyWorld coldWorld) :
    HoverRun appRuntime tellingServers env ⟨(emptyWorld, []), []⟩
      ⟨toldQuery.2.2, [⟨signatureCall.shown appRuntime, toldQuery.1, some toldQuery.2.1⟩]⟩ := by
  have hstep : System.AwareStep (System.observing Cmd.noteHover (Cmd.handle tellingServers))
      (System.unobserved env) (MayRun appRuntime) ⟨(emptyWorld, []), []⟩ ⟨(coldWorld, []), []⟩ :=
    .env [] ⟨hindexed, rfl⟩
  refine .head hstep ?_
  refine .head (.start _ [] (.call signatureCall)) ?_
  exact System.AwareReaches.advance [] [] _ [] 10

/-- The class holds its signature, and a hover told it. -/
theorem hover_columns_fresh_foo : FreshColumns toldQuery.2.2 ∧
    (toldQuery.2.2.1.db.nodes.map (·.signature)) = [some "class Foo", none] := by
  refine ⟨?_, rfl⟩
  have hindexed : KeepingStep appRuntime.hasher [] emptyWorld coldWorld := by
    refine ⟨indexed_step, fun n hn => ?_, fun _ _ t ht => ?_⟩
    · exact absurd hn List.not_mem_nil
    · exact absurd ht List.not_mem_nil
  exact hover_columns_fresh appRuntime tellingServers rfl (toldQuery_run hindexed)

/-- The class once more, with another signature hash. -/
def changedSymbols : List ReconcileSymbol :=
  (classSymbols "Foo").map fun s => { s with signatureHash := "7" }

/-- The graph once the file was reconciled after the change. -/
def changedDb : Db :=
  match reconcileFileSymbols lengthHasher toldQuery.2.2.1.db appPy changedSymbols with
  | .ok (db, _) => db
  | .error _ => .empty

/-- The file changes, and both rows are kept for its new symbols. -/
private theorem changedDb_eq :
    reconcileFileSymbols lengthHasher toldQuery.2.2.1.db appPy changedSymbols =
    .ok (changedDb, { updated := 2 }) := rfl

/-- The class is updated, and keeps the signature that a hover told before the update; nothing
    has been asked since. -/
theorem updated_row_keeps_signature : ∃ sys,
    HoverRun appRuntime tellingServers (AnyStep appRuntime.hasher) ⟨(emptyWorld, []), []⟩ sys ∧
      ¬ FreshColumns sys.state := by
  have hupdated : EnvStep appRuntime.hasher toldQuery.2.2.1 (toldQuery.2.2.1.setDb changedDb) :=
    @EnvStep.reconcile _ _ appPy changedSymbols (by decide) _ _ changedDb_eq
  refine ⟨⟨(toldQuery.2.2.1.setDb changedDb, toldQuery.2.2.2), _⟩,
    (toldQuery_run indexed_step).tail (.env _ ⟨hupdated, rfl⟩), fun hfresh => ?_⟩
  -- Every row of the account has a hash of its own, and the class now has another one.
  have hrows : ∀ note ∈ toldQuery.2.2.2, ∀ m ∈ note.rows, m.signatureHash ≠ some "7" := by decide
  have hheld : ∃ n ∈ changedDb.nodes, n.signature = some "class Foo" ∧
      n.signatureHash = some "7" := by decide
  obtain ⟨n, hn, hsignature, hhash⟩ := hheld
  obtain ⟨text, htold, -⟩ := (hfresh n hn).signature _ hsignature
  obtain ⟨note, hnote, -, m, hm, hmn⟩ := htold
  exact hrows note hnote m hm (hmn.signatureHash.trans hhash)

end Semnav.Query
