import Mathlib.Algebra.Group.Nat.Defs
import Semnav.ForStd.Interleaving
import Semnav.ForStd.List
import Semnav.Lsp.Documents

/-!
# The order of document versions

The map of open documents is updated under a lock, the notification is enqueued after it.  Two
callers may enqueue in the opposite order to their updates, and then the server is told an older
version last.

## Key results

- `senders_isPrefix_updaters`: in turn, the documents are announced in the order of their updates
- `place_of_inOrder`: versions in order are those of the updates in their order
- `last_text`: in turn, the server was told what is recorded
- `versions_in_order_iff`: when the versions of each document are enqueued in order
- `versions_swapped`: two calls that overtake each other
-/

namespace Semnav.Lsp

open Semnav.ForStd

/-! ## What a history tells -/

/-- The text that an update of the document has recorded, if it has. -/
def recordedText (u : String) : Exchange DocCmd → Option String
  | ⟨.updateDocs uri text, action⟩ => if uri = u ∧ action ≠ .skip then some text else none
  | _ => none

/-- The notification about the document, if it is one. -/
def notified (u : String) : Exchange DocCmd → Option DocNotification
  | ⟨.notify n, _⟩ => if n.uri = u then some n else none
  | _ => none

/-- The updates of the document, by their callers. -/
abbrev updates (u : String) (history : List (Nat × Exchange DocCmd)) : List (Nat × String) :=
  System.tagged (recordedText u) history

/-- The notifications about the document, by their callers. -/
abbrev sends (u : String) (history : List (Nat × Exchange DocCmd)) :
    List (Nat × DocNotification) := System.tagged (notified u) history

section Snoc

variable (u : String) (history : List (Nat × Exchange DocCmd)) (i : Nat)

/-- An update sends nothing. -/
@[simp] theorem sends_update (uri text : String) (action : DocAction) :
    sends u (history ++ [(i, ⟨.updateDocs uri text, action⟩)]) = sends u history := by
  rw [sends, System.tagged_append, System.tagged_cons_none rfl]
  exact List.append_nil _

/-- A notification updates nothing. -/
@[simp] theorem updates_notify (n : DocNotification) (b : Unit) :
    updates u (history ++ [(i, ⟨.notify n, b⟩)]) = updates u history := by
  rw [updates, System.tagged_append, System.tagged_cons_none rfl]
  exact List.append_nil _

/-- A notification is sent for its document. -/
@[simp] theorem sends_notify (n : DocNotification) (b : Unit) :
    sends n.uri (history ++ [(i, ⟨.notify n, b⟩)]) = sends n.uri history ++ [(i, n)] := by
  have hsome : notified n.uri ⟨.notify n, b⟩ = some n := by simp [notified]
  rw [sends, System.tagged_append, System.tagged_cons_some hsome]
  rfl

/-- A notification is sent for no other document. -/
private theorem sends_notify_of_ne {n : DocNotification} (hu : n.uri ≠ u) (b : Unit) :
    sends u (history ++ [(i, ⟨.notify n, b⟩)]) = sends u history := by
  have hnone : notified u ⟨.notify n, b⟩ = none := by simp [notified, hu]
  rw [sends, System.tagged_append, System.tagged_cons_none hnone]
  exact List.append_nil _

end Snoc

/-- The callers that have updated the document and not enqueued their notification yet. -/
def outstanding (u : String) (history : List (Nat × Exchange DocCmd)) : List Nat :=
  ((updates u history).map (·.1)).filter fun i => i ∉ (sends u history).map (·.1)

/-- Each notification is enqueued by the caller that is outstanding for longest. -/
def InTurn (history : List (Nat × Exchange DocCmd)) : Prop :=
  ∀ before i n after, history = before ++ (i, ⟨.notify n, ()⟩) :: after →
    (outstanding n.uri before).head? = some i

/-- The messages open the document with version 1 and then change it with versions 2, 3, ... -/
def InOrder (msgs : List DocNotification) : Prop :=
  ∀ (k : Nat) (n : DocNotification), msgs[k]? = some n →
    n.version.toInt = (k : Int) + 1 ∧ n.isOpen = decide (k = 0)

/-! ## One call -/

/-- What a call enqueues after its update. -/
def noteOf (call : DocCall) : DocAction → Option DocNotification
  | .skip => none
  | .open => some (.didOpen call.uri call.languageId call.text)
  | .change version => some (.didChange call.uri version call.text)

/-- A call notifies its own document of its own text, unless it may skip. -/
private theorem noteOf_eq_some {call : DocCall} {action : DocAction} {n : DocNotification}
    (h : noteOf call action = some n) : n.uri = call.uri ∧ n.text = call.text ∧ action ≠ .skip := by
  cases action with
  | skip => exact nomatch h
  | «open» =>
    cases h
    exact ⟨rfl, rfl, fun h => nomatch h⟩
  | change version =>
    cases h
    exact ⟨rfl, rfl, fun h => nomatch h⟩

/-- How far a call has got. -/
inductive CallPath (call : DocCall) : List (Exchange DocCmd) → Prog DocCmd Unit → Prop where
  | fresh : CallPath call [] (ensureDocument call)
  | updated {action : DocAction} {n : DocNotification} (hn : noteOf call action = some n) :
      CallPath call [⟨.updateDocs call.uri call.text, action⟩] (Prog.perform (.notify n))
  | skipped : CallPath call [⟨.updateDocs call.uri call.text, .skip⟩] (pure ())
  | sent {action : DocAction} {n : DocNotification} (hn : noteOf call action = some n) :
      CallPath call [⟨.updateDocs call.uri call.text, action⟩, ⟨.notify n, ()⟩] (pure ())

/-- The traces of `ensure_document` are those of a call. -/
private theorem callPath_of_path {call : DocCall} {trace : List (Exchange DocCmd)}
    {y : Prog DocCmd Unit}
    (h : Prog.Path (ensureDocument call) trace y) : CallPath call trace y := by
  cases h with
  | nil => exact .fresh
  | cons action hrest =>
    have hnotify : ∀ {n rest}, noteOf call action = some n →
        Prog.Path (Prog.perform (.notify n)) rest y →
        CallPath call (⟨.updateDocs call.uri call.text, action⟩ :: rest) y := by
      intro n rest hn hpath
      -- After the table is updated, the call's only further step is to send the note.
      cases hpath with
      | nil => exact .updated hn
      | cons u hdone =>
        cases hdone
        exact .sent hn
    cases action with
    | skip =>
      cases hrest
      exact .skipped
    | «open» => exact hnotify rfl hrest
    | change version => exact hnotify rfl hrest

/-- A notification is no update. -/
private theorem notify_ne_updateDocs {n : DocNotification} {uri text : String}
    {action : DocAction} :
    (⟨.notify n, ()⟩ : Exchange DocCmd) ≠ ⟨.updateDocs uri text, action⟩ := by
  intro h
  have hn := congrArg (notified n.uri) h
  simp [notified] at hn

/-- A call makes one update and one notification at most. -/
private theorem CallPath.lengths {call : DocCall} {trace : List (Exchange DocCmd)}
    {y : Prog DocCmd Unit} (h : CallPath call trace y) (u : String) :
    (trace.filterMap (recordedText u)).length ≤ 1 ∧
      (trace.filterMap (notified u)).length ≤ 1 := by
  have hle : ∀ {γ : Type} {g : Exchange DocCmd → Option γ} (e : Exchange DocCmd),
      ([e].filterMap g).length ≤ 1 := fun e => List.length_filterMap_le _ [e]
  cases h with
  | fresh => simp
  | updated hn => exact ⟨hle _, hle _⟩
  | skipped => exact ⟨hle _, hle _⟩
  | sent hn =>
    -- The exchange of the table records a text; the one of the server sends a note.
    constructor
    · rw [List.filterMap_cons]
      cases recordedText u _ with
      | none => exact hle _
      | some text => simp [recordedText]
    · rw [List.filterMap_cons_none (by rfl)]
      exact hle _

/-- Before its notification, a call has made its update and nothing else. -/
private theorem CallPath.before_notify {call : DocCall} {pre post : List (Exchange DocCmd)}
    {y : Prog DocCmd Unit} {n : DocNotification}
    (h : CallPath call (pre ++ ⟨.notify n, ()⟩ :: post) y) :
    ∃ action, pre = [⟨.updateDocs call.uri call.text, action⟩] ∧
      noteOf call action = some n := by
  generalize htrace : pre ++ (⟨.notify n, ()⟩ : Exchange DocCmd) :: post = trace at h
  -- Only a call that sends has a notification in its trace, and the update is what precedes it.
  cases h with
  | fresh => exact absurd htrace (by simp)
  | @updated action n' hn =>
    cases pre with
    | nil => exact absurd (List.cons.inj htrace).1 notify_ne_updateDocs
    | cons e pre => exact absurd htrace (by simp)
  | skipped =>
    cases pre with
    | nil => exact absurd (List.cons.inj htrace).1 notify_ne_updateDocs
    | cons e pre => exact absurd htrace (by simp)
  | @sent action n' hn =>
    cases pre with
    | nil => exact absurd (List.cons.inj htrace).1 notify_ne_updateDocs
    | cons e pre =>
      cases pre with
      | nil =>
        cases htrace
        exact ⟨action, rfl, hn⟩
      | cons e' pre => exact absurd htrace (by simp)

/-! ## What the history says about the state -/

/-- The channel holds what was notified, the map what was recorded last. -/
structure DocInv (history : List (Nat × Exchange DocCmd)) (w : DocWorld) : Prop where
  enqueued : ∀ u, w.enqueued.filter (·.uri = u) = (sends u history).map (·.2)
  openDocs : ∀ u, w.openDocs u =
    (updates u history).getLast?.map fun x => (Int32.ofNat (updates u history).length, x.2)

/-- An update that finds the document at some version. -/
private theorem openDocs_eq_some {history : List (Nat × Exchange DocCmd)} {w : DocWorld}
    {u : String}
    (h : DocInv history w) {version : Int32} {existing : String}
    (hentry : w.openDocs u = some (version, existing)) :
    updates u history ≠ [] ∧ version = Int32.ofNat (updates u history).length := by
  rw [h.openDocs, Option.map_eq_some_iff] at hentry
  obtain ⟨x, hlast, hx⟩ := hentry
  refine ⟨fun hnil => ?_, (Prod.mk.inj hx).1.symm⟩
  rw [hnil] at hlast
  exact nomatch hlast

/-- A document without an entry was never updated. -/
private theorem openDocs_eq_none {history : List (Nat × Exchange DocCmd)} {w : DocWorld}
    {u : String}
    (h : DocInv history w) (hentry : w.openDocs u = none) : updates u history = [] := by
  rw [h.openDocs, Option.map_eq_none_iff] at hentry
  exact List.getLast?_eq_none_iff.mp hentry

/-- The version and the kind of the update that is the next one for the document. -/
private theorem next_update {history : List (Nat × Exchange DocCmd)} {w : DocWorld}
    {u text : String}
    (h : DocInv history w) {action : DocAction} (haction : docAction text (w.openDocs u) = action)
    (hskip : action ≠ .skip) :
    docEntry text action = some (Int32.ofNat ((updates u history).length + 1), text) ∧
      (action = .open ↔ (updates u history).length = 0) := by
  -- Without an entry the document is opened; with one of another text it changes.
  cases hentry : w.openDocs u with
  | none =>
    rw [hentry] at haction
    subst haction
    rw [openDocs_eq_none h hentry]
    exact ⟨rfl, fun _ => rfl, fun _ => rfl⟩
  | some entry =>
    obtain ⟨version, existing⟩ := entry
    obtain ⟨hne, hversion⟩ := openDocs_eq_some h hentry
    rw [hentry] at haction
    by_cases htext : existing = text
    · rw [docAction, if_pos htext] at haction
      exact absurd haction.symm hskip
    · rw [docAction, if_neg htext] at haction
      subst haction
      refine ⟨?_, fun h => (nomatch h), fun h => absurd (List.length_eq_zero_iff.mp h) hne⟩
      rw [docEntry, hversion, Int32.ofNat_add]
      rfl

section Step

variable {history : List (Nat × Exchange DocCmd)} {w : DocWorld}

/-- An update keeps the versions in line with the history. -/
private theorem DocInv.update (h : DocInv history w) (i : Nat) (uri text : String) :
    DocInv (history ++ [(i, ⟨.updateDocs uri text, docAction text (w.openDocs uri)⟩)])
      (DocCmd.handle (.updateDocs uri text) w).2 := by
  constructor
  · intro u
    rw [sends_update]
    exact h.enqueued u
  · intro u
    rw [updates, System.tagged_append]
    simp only [DocCmd.handle]
    -- Only the document that was updated has a new entry.
    by_cases hu : u = uri
    · subst hu
      by_cases hskip : docAction text (w.openDocs u) = .skip
      · -- The text is the one that is recorded.
        have hnone : recordedText u ⟨.updateDocs u text, docAction text (w.openDocs u)⟩ = none := by
          simp [recordedText, hskip]
        rw [System.tagged_cons_none hnone, hskip]
        simpa [docEntry, System.tagged] using h.openDocs u
      · have hsome : recordedText u ⟨.updateDocs u text, docAction text (w.openDocs u)⟩ =
            some text := by
          simp [recordedText, hskip]
        rw [System.tagged_cons_some hsome, (next_update h rfl hskip).1]
        simp [System.tagged]
    · have hnone : ∀ action, recordedText u ⟨.updateDocs uri text, action⟩ = none := by
        intro action
        simp [recordedText, Ne.symm hu]
      rw [System.tagged_cons_none (hnone _), if_neg hu]
      simpa [System.tagged] using h.openDocs u

/-- A notification keeps the versions in line with the history. -/
private theorem DocInv.notify (h : DocInv history w) (i : Nat) (n : DocNotification) :
    DocInv (history ++ [(i, ⟨.notify n, ()⟩)]) { w with enqueued := w.enqueued ++ [n] } := by
  constructor
  · intro u
    by_cases hu : n.uri = u
    · subst hu
      rw [sends_notify, List.map_append, ← h.enqueued]
      simp
    · rw [sends_notify_of_ne u history i hu, ← h.enqueued]
      simp [hu]
  · intro u
    rw [updates_notify]
    exact h.openDocs u

/-- Every command keeps the versions in line with the history. -/
private theorem DocInv.handle {β : Type} (h : DocInv history w) (i : Nat) {c : DocCmd β} {b : β}
    {w' : DocWorld} (hc : c.handle w = (.ok b, w')) : DocInv (history ++ [(i, ⟨c, b⟩)]) w' := by
  cases c with
  | updateDocs uri text =>
    cases hc
    exact h.update i uri text
  | notify n =>
    by_cases hclosed : w.closed = true
    · simp [DocCmd.handle, hclosed] at hc
    · rw [DocCmd.handle, if_neg hclosed] at hc
      cases hc
      exact h.notify i n

/-- A command that fails changes nothing, and only a notification to an ended actor does. -/
private theorem DocCmd.handle_error {β : Type} {c : DocCmd β} {e : String} {w' : DocWorld}
    (hc : c.handle w = (.error e, w')) : w' = w ∧ w.closed = true := by
  cases c with
  | updateDocs uri text => cases hc
  | notify n =>
    by_cases hclosed : w.closed = true
    · simp only [DocCmd.handle, hclosed] at hc
      cases hc
      exact ⟨rfl, hclosed⟩
    · simp [DocCmd.handle, hclosed] at hc

end Step

/-! ## A run of calls -/

section Run

variable {calls : List DocCall} {history : List (Nat × Exchange DocCmd)}
  {sys : System DocCmd DocWorld Unit}

/-- The calls at work, from a client that was just spawned. -/
abbrev DocRun (calls : List DocCall) (history : List (Nat × Exchange DocCmd))
    (sys : System DocCmd DocWorld Unit) : Prop :=
  System.Ran DocCmd.handle ActorEnds (System.launch .spawn (calls.map ensureDocument)) history sys

/-- In every run the versions are in line with the history. -/
theorem DocRun.inv (hrun : DocRun calls history sys) : DocInv history sys.state := by
  have hissues : ∀ x : Prog DocCmd Unit, Prog.Issues (fun _ _ => True) x := by
    intro x
    induction x with
    | pure a => trivial
    | op c k ih => exact ⟨trivial, ih⟩
  refine (hrun.invariant (I := DocInv) (R := fun _ => True) (P := fun _ _ => True)
    (Q := fun _ => True) ?_ ?_ ?_ ?_ ?_).1
  · -- A command keeps the table and the queue in step with the history.
    intro γ history i c s s' b hinv _ hc
    exact ⟨trivial, hinv.handle i hc⟩
  · intro γ history c s s' e hinv _ hc
    rw [(DocCmd.handle_error hc).1]
    exact hinv
  · -- The end of the connection leaves both as they were.
    intro history s s' hinv hends
    cases hends with
    | mk => exact ⟨hinv.enqueued, hinv.openDocs⟩
  · exact ⟨fun u => rfl, fun u => rfl⟩
  · intro t _ x _
    exact (hissues x).under

/-- Each task is a call somewhere on its path. -/
theorem DocRun.call (hrun : DocRun calls history sys) {i : Nat} {t : Task DocCmd Unit}
    (ht : sys.tasks[i]? = some t) :
    ∃ call y, CallPath call (System.exchangesOf history i) y ∧ ∀ x, t.rest = some x → x = y := by
  obtain ⟨hstart, htrace, y, hpath, hy⟩ := hrun.progress ht
  rw [List.getElem?_map, Option.map_eq_some_iff] at hstart
  obtain ⟨call, -, hcall⟩ := hstart
  rw [← hcall, htrace] at hpath
  exact ⟨call, y, callPath_of_path hpath, hy⟩

/-- A call updates a document once. -/
theorem DocRun.nodup (hrun : DocRun calls history sys) (u : String) :
    ((updates u history).map (·.1)).Nodup := by
  apply System.tagged_nodup
  intro i
  by_cases hi : ∃ e, (i, e) ∈ history
  · obtain ⟨e, he⟩ := hi
    obtain ⟨t, ht⟩ := hrun.exists_task he
    obtain ⟨call, y, hpath, -⟩ := hrun.call ht
    exact (hpath.lengths u).1
  · have hnil : System.exchangesOf history i = [] := by
      apply List.eq_nil_iff_forall_not_mem.mpr
      intro e he
      exact hi ⟨e, System.mem_exchangesOf.mp he⟩
    simp [hnil]

/-- What is notified is the update that its caller has made before. -/
private theorem DocRun.sent (hrun : DocRun calls history sys)
    {pre post : List (Nat × Exchange DocCmd)}
    {i : Nat} {n : DocNotification} (hhistory : history = pre ++ (i, ⟨.notify n, ()⟩) :: post) :
    ∃ (k : Nat), (updates n.uri pre)[k]? = some (i, n.text) ∧
      n.version = Int32.ofNat (k + 1) ∧ n.isOpen = decide (k = 0) := by
  have hmem : (i, (⟨.notify n, ()⟩ : Exchange DocCmd)) ∈ history := by
    rw [hhistory]
    exact List.mem_append_right _ List.mem_cons_self
  obtain ⟨t, ht⟩ := hrun.exists_task hmem
  obtain ⟨call, y, hpath, -⟩ := hrun.call ht
  -- The call has made its update before, and nothing else.
  have hexchanges : System.exchangesOf history i =
      System.exchangesOf pre i ++ ⟨.notify n, ()⟩ :: System.exchangesOf post i := by
    simp [System.exchangesOf, hhistory]
  rw [hexchanges] at hpath
  obtain ⟨action, hpre, hnote⟩ := hpath.before_notify
  obtain ⟨huri, htext, hskip⟩ := noteOf_eq_some hnote
  have hupdate : (i, (⟨.updateDocs call.uri call.text, action⟩ : Exchange DocCmd)) ∈ pre := by
    rw [← System.mem_exchangesOf, hpre]
    exact List.mem_cons_self
  obtain ⟨first, rest, hsplit⟩ := List.append_of_mem hupdate
  have hhistory' : history = first ++ (i, ⟨.updateDocs call.uri call.text, action⟩) ::
      (rest ++ (i, ⟨.notify n, ()⟩) :: post) := by
    rw [hhistory, hsplit]
    simp
  obtain ⟨mid, s', hmid, hhandle⟩ := hrun.split hhistory'
  have haction : docAction call.text (mid.state.openDocs call.uri) = action :=
    Except.ok.inj (Prod.mk.inj hhandle).1
  have hnext := next_update (DocRun.inv hmid) haction hskip
  refine ⟨(updates n.uri first).length, ?_, ?_⟩
  · have hrecorded : recordedText n.uri ⟨.updateDocs call.uri call.text, action⟩ =
        some n.text := by
      simp [recordedText, huri, htext, hskip]
    rw [hsplit, updates, System.tagged_append, System.tagged_cons_some hrecorded]
    simp
  · rw [huri]
    cases action with
    | skip => exact absurd rfl hskip
    | «open» =>
      cases hnote
      have hzero := hnext.2.mp rfl
      rw [hzero]
      exact ⟨rfl, rfl⟩
    | change version =>
      cases hnote
      have hversion := (Prod.mk.inj (Option.some.inj hnext.1)).1
      refine ⟨hversion, ?_⟩
      have hne : (updates call.uri first).length ≠ 0 := by
        intro h
        cases hnext.2.mpr h
      simpa [DocNotification.isOpen] using hne

/-! ## In turn -/

/-- The callers that have updated the document, in the order of their updates. -/
abbrev updaters (u : String) (history : List (Nat × Exchange DocCmd)) : List Nat :=
  (updates u history).map (·.1)

/-- The callers that have notified, in the order of their notifications. -/
abbrev senders (u : String) (history : List (Nat × Exchange DocCmd)) : List Nat :=
  (sends u history).map (·.1)

/-- Once a prefix of the callers has notified, the others are outstanding. -/
private theorem outstanding_eq_rest {u : String} {rest : List Nat}
    (hnodup : (updaters u history).Nodup) (hinit : senders u history ++ rest = updaters u history) :
    outstanding u history = rest := by
  show (updaters u history).filter (fun i => i ∉ senders u history) = rest
  rw [← hinit] at hnodup ⊢
  exact List.filter_notMem_append hnodup

/-- What is in turn was in turn so far. -/
private theorem InTurn.prefix_history {later : List (Nat × Exchange DocCmd)}
    (h : InTurn (history ++ later)) : InTurn history := by
  intro pre i n post hhistory
  apply h pre i n (post ++ later)
  rw [hhistory, List.append_assoc, List.cons_append]

/-- In turn, the documents are announced in the order of their updates. -/
private theorem senders_isPrefix_updaters (hrun : DocRun calls history sys) (hturn : InTurn history)
    (u : String) :
    senders u history <+: updaters u history := by
  generalize hstart : System.launch DocWorld.spawn (calls.map ensureDocument) = start at hrun
  induction hrun with
  | refl => exact List.prefix_refl _
  | env hrun hs ih => exact ih hturn
  | fail hrun hc ih => exact ih hturn
  | @reply history s s' before after x trace γ c k b hrun hc ih =>
    have hold := ih hturn.prefix_history
    subst hstart
    -- An update adds a caller that is to send; a notification is of the caller whose turn it is.
    cases c with
    | updateDocs uri text =>
      rw [senders, sends_update, updaters, updates, System.tagged_append, List.map_append]
      exact hold.trans (List.prefix_append _ _)
    | notify n =>
      rw [updaters, updates_notify]
      by_cases hu : n.uri = u
      · -- The caller is the first one of those that are left.
        subst hu
        obtain ⟨rest, hrest⟩ := hold
        have hhead := hturn history before.length n [] rfl
        rw [outstanding_eq_rest (DocRun.nodup hrun n.uri) hrest] at hhead
        obtain ⟨rest', rfl⟩ := List.head?_eq_some_iff.mp hhead
        rw [senders, sends_notify, List.map_append]
        exact ⟨rest', (List.append_assoc _ _ _).trans hrest⟩
      · rw [senders, sends_notify_of_ne u history _ hu]
        exact hold

/-- The notification at some place is that of the update at that place. -/
private theorem send_at (hrun : DocRun calls history sys) {u : String}
    (hinit : senders u history <+: updaters u history) {k i : Nat} {n : DocNotification}
    (hk : (sends u history)[k]? = some (i, n)) :
    (updates u history)[k]? = some (i, n.text) ∧ n.version = Int32.ofNat (k + 1) ∧
      n.isOpen = decide (k = 0) := by
  obtain ⟨e, he, hn⟩ := System.mem_tagged.mp (List.mem_of_getElem? hk)
  obtain ⟨cmd, reply⟩ := e
  cases cmd with
  | updateDocs uri text => exact nomatch hn
  | notify n' =>
    have hmatch : n'.uri = u ∧ n' = n := by simpa [notified] using hn
    obtain ⟨huri, hn'⟩ := hmatch
    subst hn'
    subst huri
    obtain ⟨pre, post, hhistory⟩ := List.append_of_mem he
    obtain ⟨j, hj, hversion⟩ := hrun.sent hhistory
    -- No caller updates twice, so that it is the same place.
    have hupdate : (updates n'.uri history)[j]? = some (i, n'.text) := by
      rw [hhistory, updates, System.tagged_append]
      exact List.getElem?_append_of_some hj _
    have hsender : (senders n'.uri history)[k]? = some i := by
      rw [senders, List.getElem?_map, hk]
      rfl
    have hk' : (updaters n'.uri history)[k]? = some i := by
      obtain ⟨rest, hrest⟩ := hinit
      rw [← hrest]
      exact List.getElem?_append_of_some hsender _
    have hj' : (updaters n'.uri history)[j]? = some i := by
      rw [updaters, List.getElem?_map, hupdate]
      rfl
    have hlt : j < (updaters n'.uri history).length := (List.getElem?_eq_some_iff.mp hj').1
    have heq : j = k := (List.getElem?_inj hlt (hrun.nodup n'.uri)).mp (hj'.trans hk'.symm)
    subst heq
    exact ⟨hupdate, hversion⟩

/-- In turn, the versions of each document are enqueued in order. -/
private theorem inOrder_of_inTurn (hrun : DocRun calls history sys) (hturn : InTurn history)
    {u : String}
    (hfew : (updates u history).length < 2 ^ 31) :
    InOrder (sys.state.enqueued.filter (·.uri = u)) := by
  rw [hrun.inv.enqueued]
  intro k n hk
  rw [List.getElem?_map, Option.map_eq_some_iff] at hk
  obtain ⟨x, hx, hn⟩ := hk
  obtain ⟨i, n'⟩ := x
  subst hn
  obtain ⟨hupdate, hversion, hopen⟩ := send_at hrun (senders_isPrefix_updaters hrun hturn u) hx
  refine ⟨?_, hopen⟩
  have hlt : k < (updates u history).length := (List.getElem?_eq_some_iff.mp hupdate).1
  show n'.version.toInt = _
  rw [hversion, Int32.toInt_ofNat_of_lt (by omega)]
  rfl

/-- If the versions are in order, the callers before a notification are as many as those that have
    notified. -/
private theorem place_of_inOrder (hrun : DocRun calls history sys)
    {pre post : List (Nat × Exchange DocCmd)}
    {i : Nat} {n : DocNotification} (hhistory : history = pre ++ (i, ⟨.notify n, ()⟩) :: post)
    (hfew : (updates n.uri history).length < 2 ^ 31)
    (horder : InOrder (sys.state.enqueued.filter (·.uri = n.uri))) :
    (updaters n.uri pre)[(sends n.uri pre).length]? = some i := by
  obtain ⟨k, hk, hversion, -⟩ := hrun.sent hhistory
  have hsends : sends n.uri history = sends n.uri pre ++ (i, n) :: sends n.uri post := by
    have hsome : notified n.uri ⟨.notify n, ()⟩ = some n := by simp [notified]
    rw [hhistory, sends, System.tagged_append, System.tagged_cons_some hsome]
  -- The notes of the document, in the order they were put in the queue, are its sends.
  have hplace : (sys.state.enqueued.filter (·.uri = n.uri))[(sends n.uri pre).length]? = some n := by
    rw [hrun.inv.enqueued, hsends]
    simp
  have hin := (horder _ n hplace).1
  have hlt : k < (updates n.uri pre).length := (List.getElem?_eq_some_iff.mp hk).1
  have hle : (updates n.uri pre).length ≤ (updates n.uri history).length := by
    rw [hhistory, updates, updates, System.tagged_append, List.length_append]
    omega
  -- Below `2 ^ 31` the version has not wrapped, so it names the place of the update.
  rw [hversion, Int32.toInt_ofNat_of_lt (by omega)] at hin
  have hkeq : k = (sends n.uri pre).length := by omega
  rw [← hkeq, updaters, List.getElem?_map, hk]
  rfl

/-- Versions in order are those of the updates in their order. -/
private theorem inTurn_of_inOrder (hrun : DocRun calls history sys)
    (hfew : ∀ u, (updates u history).length < 2 ^ 31)
    (horder : ∀ u, InOrder (sys.state.enqueued.filter (·.uri = u))) : InTurn history := by
  intro pre i n post hhistory
  have hnext := place_of_inOrder hrun hhistory (hfew n.uri) (horder n.uri)
  -- So it was for all that were notified before.
  have hinit : senders n.uri pre <+: updaters n.uri pre := by
    apply List.prefix_iff_getElem?.mpr
    intro k hk
    obtain ⟨j, m, hjm⟩ : ∃ j m, (sends n.uri pre)[k]? = some (j, m) := by
      refine ⟨_, _, List.getElem?_eq_getElem ?_⟩
      simpa using hk
    obtain ⟨before, e, after, hsplit, he, hlength⟩ := System.tagged_split hjm
    obtain ⟨cmd, reply⟩ := e
    cases cmd with
    | updateDocs uri text => exact nomatch he
    | notify m' =>
      have hmatch : m'.uri = n.uri ∧ m' = m := by simpa [notified] using he
      obtain ⟨huri, -⟩ := hmatch
      have hhistory' : history =
          before ++ (j, ⟨.notify m', ()⟩) :: (after ++ (i, ⟨.notify n, ()⟩) :: post) := by
        rw [hhistory, hsplit]
        simp
      have hearlier := place_of_inOrder hrun hhistory' (hfew _) (horder _)
      rw [huri, hlength] at hearlier
      have hj : (senders n.uri pre)[k] = j := by
        apply Option.some.inj
        rw [← List.getElem?_eq_getElem hk, senders, List.getElem?_map, hjm]
        rfl
      rw [hj, hsplit, updaters, updates, System.tagged_append, List.map_append]
      exact List.getElem?_append_of_some hearlier _
  obtain ⟨rest, hrest⟩ := hinit
  have hnodup : (updaters n.uri pre).Nodup := by
    have hall := hrun.nodup n.uri
    rw [hhistory, updates, System.tagged_append, List.map_append] at hall
    exact (List.nodup_append.mp hall).1
  rw [outstanding_eq_rest hnodup hrest, List.head?_eq_getElem?, ← hnext, ← hrest]
  simp [List.getElem?_append_right]

/-! ## Once all calls have returned -/

/-- A call that ended after an update has notified. -/
private theorem mem_senders (hrun : DocRun calls history sys) {u : String} {i : Nat}
    {t : Task DocCmd Unit}
    (hi : i ∈ updaters u history) (ht : sys.tasks[i]? = some t) (hdone : t.rest = some (pure ())) :
    i ∈ senders u history := by
  obtain ⟨x, hx, rfl⟩ := List.mem_map.mp hi
  obtain ⟨i, text⟩ := x
  obtain ⟨e, he, htext⟩ := System.mem_tagged.mp hx
  obtain ⟨call, y, hpath, hy⟩ := hrun.call ht
  have hmem := System.mem_exchangesOf.mpr he
  have hend := hy _ hdone
  generalize htrace : System.exchangesOf history i = trace at hpath hmem
  -- A call that has ended has skipped, or has sent after its update.
  cases hpath with
  | fresh => exact absurd hmem List.not_mem_nil
  | updated hn => exact nomatch hend
  -- A skipped update records no text.
  | skipped =>
    obtain rfl := List.mem_singleton.mp hmem
    simp [recordedText] at htext
  | @sent action n hn =>
    have hupdate : e = ⟨.updateDocs call.uri call.text, action⟩ := by
      cases List.mem_cons.mp hmem with
      | inl h => exact h
      | inr h =>
        rw [List.mem_singleton.mp h] at htext
        exact nomatch htext
    have huri : call.uri = u := by
      rw [hupdate] at htext
      simp only [recordedText, Option.ite_none_right_eq_some] at htext
      exact htext.1.1
    -- The notification of that call is in the history, for this document.
    have hnotify : (i, (⟨.notify n, ()⟩ : Exchange DocCmd)) ∈ history := by
      rw [← System.mem_exchangesOf, htrace]
      simp
    have hnotified : notified u ⟨.notify n, ()⟩ = some n := by
      simp [notified, (noteOf_eq_some hn).1, huri]
    exact List.mem_map.mpr ⟨(i, n), System.mem_tagged.mpr ⟨_, hnotify, hnotified⟩, rfl⟩

/-- In turn, what each document was announced with last is what is recorded for it. -/
private theorem last_text (hrun : DocRun calls history sys) (hturn : InTurn history)
    (hdone : ∀ t ∈ sys.tasks, t.rest = some (pure ())) (u : String) :
    (sys.state.enqueued.filter (·.uri = u)).getLast?.map DocNotification.text =
      (sys.state.openDocs u).map (·.2) := by
  obtain ⟨rest, hrest⟩ := senders_isPrefix_updaters hrun hturn u
  -- All calls have ended, so no updater is left to send.
  have hnil : rest = [] := by
    apply List.eq_nil_iff_forall_not_mem.mpr
    intro i hi
    have hupdater : i ∈ updaters u history := by
      rw [← hrest]
      exact List.mem_append_right _ hi
    obtain ⟨x, hx, rfl⟩ := List.mem_map.mp hupdater
    obtain ⟨e, he, -⟩ := System.mem_tagged.mp hx
    obtain ⟨t, ht⟩ := hrun.exists_task he
    have hsender := mem_senders hrun hupdater ht (hdone t (List.mem_of_getElem? ht))
    have hnodup : (updaters u history).Nodup := hrun.nodup u
    rw [← hrest] at hnodup
    exact (List.nodup_append.mp hnodup).2.2 _ hsender _ hi rfl
  have hlength : (sends u history).length = (updates u history).length := by
    rw [hnil, List.append_nil] at hrest
    simpa using congrArg List.length hrest
  rw [hrun.inv.enqueued, hrun.inv.openDocs]
  -- The last send is of the last updater, with its text.
  cases hlast : (sends u history).getLast? with
  | none =>
    have hnone : updates u history = [] := by
      rw [List.getLast?_eq_none_iff.mp hlast] at hlength
      exact List.length_eq_zero_iff.mp hlength.symm
    simp [hlast, hnone]
  | some x =>
    obtain ⟨i, n⟩ := x
    have hupdate := (send_at hrun (senders_isPrefix_updaters hrun hturn u)
      (List.getLast?_eq_getElem? ▸ hlast)).1
    rw [hlength, ← List.getLast?_eq_getElem?] at hupdate
    simp [hlast, hupdate]

end Run

/-! ## When the versions are in order -/

/-- The versions of each document are enqueued in order if and only if each notification is
    enqueued in turn.  Then, once all calls have returned without an error, the server was told
    what is recorded. -/
theorem versions_in_order_iff {calls : List DocCall} {history : List (Nat × Exchange DocCmd)}
    {sys : System DocCmd DocWorld Unit} (hrun : DocRun calls history sys)
    (hfew : ∀ u, (updates u history).length < 2 ^ 31) :
    ((∀ u, InOrder (sys.state.enqueued.filter (·.uri = u))) ↔ InTurn history) ∧
      (InTurn history → (∀ t ∈ sys.tasks, t.rest = some (pure ())) →
        ∀ u, (sys.state.enqueued.filter (·.uri = u)).getLast?.map DocNotification.text =
          (sys.state.openDocs u).map (·.2)) := by
  constructor
  · constructor
    · exact inTurn_of_inOrder hrun hfew
    · intro hturn u
      exact inOrder_of_inTurn hrun hturn (hfew u)
  · intro hturn hdone
    exact last_text hrun hturn hdone

/-- Two texts of one document. -/
def twoCalls : List DocCall := [⟨"a.rs", "rust", "a"⟩, ⟨"a.rs", "rust", "b"⟩]

/-- The first call, then the second one. -/
def inTurnHistory : List (Nat × Exchange DocCmd) :=
  [(0, ⟨.updateDocs "a.rs" "a", .open⟩), (0, ⟨.notify (.didOpen "a.rs" "rust" "a"), ()⟩),
    (1, ⟨.updateDocs "a.rs" "b", .change 2⟩), (1, ⟨.notify (.didChange "a.rs" 2 "b"), ()⟩)]

/-- The second call between the update and the notification of the first one. -/
def overtakenHistory : List (Nat × Exchange DocCmd) :=
  [(0, ⟨.updateDocs "a.rs" "a", .open⟩), (1, ⟨.updateDocs "a.rs" "b", .change 2⟩),
    (1, ⟨.notify (.didChange "a.rs" 2 "b"), ()⟩), (0, ⟨.notify (.didOpen "a.rs" "rust" "a"), ()⟩)]

/-- A short history has few updates. -/
private theorem few_updates_of_length {history : List (Nat × Exchange DocCmd)}
    (h : history.length < 2 ^ 31) (u : String) : (updates u history).length < 2 ^ 31 :=
  Nat.lt_of_le_of_lt (List.length_filterMap_le _ history) h

/-- One call after the other. -/
theorem versions_in_order_twoCalls : ∃ sys, DocRun twoCalls inTurnHistory sys ∧
    sys.state.enqueued = [.didOpen "a.rs" "rust" "a", .didChange "a.rs" 2 "b"] ∧
    (((∀ u, InOrder (sys.state.enqueued.filter (·.uri = u))) ↔ InTurn inTurnHistory) ∧
      (InTurn inTurnHistory → (∀ t ∈ sys.tasks, t.rest = some (pure ())) →
        ∀ u, (sys.state.enqueued.filter (·.uri = u)).getLast?.map DocNotification.text =
          (sys.state.openDocs u).map (·.2))) := by
  have hstart : DocRun twoCalls [] (System.launch .spawn (twoCalls.map ensureDocument)) := .refl
  have hfirst := System.Ran.advance [] [_] hstart 2
  have hrun : DocRun twoCalls inTurnHistory _ := System.Ran.advance [_] [] hfirst 2
  exact ⟨_, hrun, rfl, versions_in_order_iff hrun (few_updates_of_length (by decide))⟩

/-- A call that is overtaken between its update and its notification: the document is changed
    before it is opened, and opened with the text that is older. -/
theorem versions_swapped : ∃ sys, DocRun twoCalls overtakenHistory sys ∧
    sys.state.closed = false ∧ (∀ t ∈ sys.tasks, t.rest = some (pure ())) ∧
    sys.state.enqueued = [.didChange "a.rs" 2 "b", .didOpen "a.rs" "rust" "a"] ∧
    sys.state.openDocs "a.rs" = some (2, "b") ∧
    ¬ InOrder (sys.state.enqueued.filter (·.uri = "a.rs")) ∧
    (sys.state.enqueued.filter (·.uri = "a.rs")).getLast?.map DocNotification.text ≠
      (sys.state.openDocs "a.rs").map (·.2) := by
  have hstart : DocRun twoCalls [] (System.launch .spawn (twoCalls.map ensureDocument)) := .refl
  have hupdate := System.Ran.advance [] [_] hstart 1
  have hovertake := System.Ran.advance [_] [] hupdate 2
  have hrun : DocRun twoCalls overtakenHistory _ := System.Ran.advance [] [_] hovertake 1
  refine ⟨_, hrun, rfl, ?_, rfl, rfl, fun horder => ?_, by decide⟩
  · intro t ht
    simp only [List.nil_append, List.mem_cons, List.not_mem_nil, or_false] at ht
    rcases ht with rfl | rfl <;> rfl
  · have hfirst := (horder 0 _ rfl).2
    exact nomatch hfirst

end Semnav.Lsp
