import Semnav.Indexer.Watcher
import Semnav.Spec.ReconcileCommits
import Semnav.Spec.TaskRuns

/-!
# The watcher loses no change

Events are folded into the pending set, a pause drains it, and while the batch is reconciled
further events queue up.  The invariant says of every event received where its uri is: pending,
in what is left of the batch, or reconciled by a call that started later; and that what such a
call reads is no older than what the event was about.

## Key results

- `WatchInv.step`: every step keeps the invariant
- `watcher_loses_nothing`: where each event is between two iterations of the loop
-/

namespace Semnav.Indexer

open Semnav.ForStd Semnav.Graph Semnav.Adapters

/-! ## The invariant -/

/-- The entry with this number. -/
def Logged (history : List WatchEntry) (i : Nat) (e : WatchEntry) : Prop := history[i]? = some e

/-- No call starts after the entry `j`. -/
def LastStart (history : List WatchEntry) (j : Nat) : Prop :=
  ∀ l u, j < l → ¬ Logged history l (.started u)

/-- The command reads the text of no other file. -/
def TaskCmd.ReadsFile (uri : String) {β : Type} : TaskCmd β → Prop
  | .readToString u => u = uri
  | _ => True

/-- What is left of the batch that was drained. -/
def WatcherPc.batch : WatcherPc → List String
  | .draining uris => uris
  | .reconciling _ _ uris => uris
  | _ => []

/-- The call under way reads its own file, and was the last to start. -/
def CallInv (history : List WatchEntry) : WatcherPc → Prop
  | .reconciling uri rest _ => Prog.Issues (fun _ c => TaskCmd.ReadsFile uri c) rest ∧
      ∃ j, Logged history j (.started uri) ∧ LastStart history j
  | _ => True

/-- What holds of the actor at every moment. -/
structure WatchInv (s : WatchState) : Prop where
  /-- The timer is armed while something is pending. -/
  armed : s.debounce = true ↔ s.pending ≠ []
  /-- The uri of an event is pending, or waits in the batch, or a later call took it up. -/
  covered : ∀ i uri v, Logged s.history i (.received uri v) →
    uri ∈ s.pending ∨ uri ∈ s.pc.batch ∨ ∃ j, i < j ∧ Logged s.history j (.started uri)
  version_le : ∀ i uri v, Logged s.history i (.received uri v) → v ≤ s.world.version uri
  /-- What is read after an event is no older than the file was then. -/
  reads : ∀ i k uri v text v', Logged s.history i (.received uri v) →
    Logged s.history k (.read uri text v') → i < k → v ≤ v'
  call : CallInv s.history s.pc
  /-- Every read is by the call that started last before it. -/
  within : ∀ k uri text v, Logged s.history k (.read uri text v) →
    ∃ j, j < k ∧ Logged s.history j (.started uri) ∧
      ∀ l u, j < l → l < k → ¬ Logged s.history l (.started u)

theorem Logged.lt {history : List WatchEntry} {i : Nat} {e : WatchEntry}
    (h : Logged history i e) : i < history.length := (List.getElem?_eq_some_iff.mp h).1

/-- The entries of a history one entry longer. -/
theorem logged_snoc {history : List WatchEntry} {e x : WatchEntry} {i : Nat} :
    Logged (history ++ [e]) i x ↔ Logged history i x ∨ (i = history.length ∧ x = e) := by
  simp only [Logged]
  constructor
  · intro h
    obtain ⟨hlt, hx⟩ := List.getElem?_eq_some_iff.mp h
    rw [List.length_append, List.length_singleton] at hlt
    -- The place is one of the old list or the one just past its end.
    by_cases hold : i < history.length
    · rw [List.getElem?_append_left hold] at h
      exact .inl h
    · have heq : i = history.length := by omega
      subst heq
      rw [List.getElem?_concat_length] at h
      exact .inr ⟨rfl, (Option.some.inj h).symm⟩
  · intro h
    cases h with
    | inl hold => rw [List.getElem?_append_left (Logged.lt hold), hold]
    | inr hnew =>
      obtain ⟨rfl, rfl⟩ := hnew
      exact List.getElem?_concat_length

private theorem WatchInv.spawn (w : WatchWorld) : WatchInv (.spawn w) where
  armed := by simp [WatchState.spawn]
  covered i uri v h := nomatch h
  version_le i uri v h := nomatch h
  reads i k uri v text v' h := nomatch h
  call := trivial
  within k uri text v h := nomatch h

/-- A watcher's reconcile reads its own file. -/
private theorem reconcileUri_reads (env : TaskEnv) (uri : String) :
    Prog.Issues (fun _ c => TaskCmd.ReadsFile uri c) (env.reconcileUri uri) := by
  have hfetch : Prog.Issues (fun _ c => TaskCmd.ReadsFile uri c) (env.fetchUriSymbols uri) := by
    unfold TaskEnv.fetchUriSymbols
    split
    · trivial
    · apply Prog.Issues.bind (.perform trivial)
      intro up
      -- With a server up the file is read, opened and asked for, all of it about this uri.
      split
      · apply Prog.Issues.bind (.perform rfl)
        intro read
        apply Prog.Issues.bind (.perform trivial)
        intro _
        exact Prog.Issues.bind (.perform trivial) fun symbols => trivial
      · trivial
  apply Prog.Issues.bind hfetch
  intro outcome
  cases outcome with
  | unsupported => trivial
  | lspUnavailable => trivial
  | fetched f => exact Prog.Issues.bind (.perform trivial) fun _ => trivial

/-! ## What a step preserves -/

section Steps

variable {actor : WatcherActor} {env : TaskEnv} {S : TaskServer} {s s' : WatchState}

/-- A step that records nothing: the world moves, or the actor goes to a place where at least as
    much is in hand. -/
private theorem WatchInv.silent (h : WatchInv s) (hhistory : s'.history = s.history)
    (harmed : s'.debounce = true ↔ s'.pending ≠ [])
    (hkeeps : ∀ uri, uri ∈ s.pending ∨ uri ∈ s.pc.batch → uri ∈ s'.pending ∨ uri ∈ s'.pc.batch)
    (hversion : ∀ uri, s.world.version uri ≤ s'.world.version uri)
    (hcall : CallInv s.history s'.pc) : WatchInv s' where
  armed := harmed
  covered i uri v hi := by
    rw [hhistory] at hi ⊢
    rw [← or_assoc]
    -- The notice is still held, or its reconcile has started; a silent step changes neither.
    cases or_assoc.mpr (h.covered i uri v hi) with
    | inl hheld => exact .inl (hkeeps uri hheld)
    | inr hstarted => exact .inr hstarted
  version_le i uri v hi := by
    rw [hhistory] at hi
    exact (h.version_le i uri v hi).trans (hversion uri)
  reads := by
    rw [hhistory]
    exact h.reads
  call := by
    rw [hhistory]
    exact hcall
  within := by
    rw [hhistory]
    exact h.within

/-- A step that records `e`. -/
theorem WatchInv.record (h : WatchInv s) {e : WatchEntry} (hhistory : s'.history = s.history ++ [e])
    (harmed : s'.debounce = true ↔ s'.pending ≠ [])
    (hkeeps : ∀ uri, uri ∈ s.pending ∨ uri ∈ s.pc.batch →
      (uri ∈ s'.pending ∨ uri ∈ s'.pc.batch) ∨ e = .started uri)
    (hversion : s'.world.version = s.world.version)
    (hreceived : ∀ uri v, e = .received uri v → uri ∈ s'.pending ∧ v = s.world.version uri)
    (hread : ∀ uri text v, e = .read uri text v → v = s.world.version uri ∧
      ∃ j, Logged s.history j (.started uri) ∧ LastStart s.history j)
    (hcall : CallInv (s.history ++ [e]) s'.pc) : WatchInv s' where
  armed := harmed
  covered i uri v hi := by
    rw [hhistory] at hi ⊢
    rw [← or_assoc]
    cases logged_snoc.mp hi with
    | inl hold =>
      cases or_assoc.mpr (h.covered i uri v hold) with
      | inl hheld =>
        cases hkeeps uri hheld with
        | inl hheld => exact .inl hheld
        | inr hstart => exact .inr ⟨_, hold.lt, logged_snoc.mpr (.inr ⟨rfl, hstart.symm⟩)⟩
      | inr hstarted =>
        obtain ⟨j, hij, hj⟩ := hstarted
        exact .inr ⟨j, hij, logged_snoc.mpr (.inl hj)⟩
    | inr hnew => exact .inl (.inl (hreceived uri v hnew.2.symm).1)
  version_le i uri v hi := by
    rw [hhistory] at hi
    rw [hversion]
    cases logged_snoc.mp hi with
    | inl hold => exact h.version_le i uri v hold
    | inr hnew => exact (hreceived uri v hnew.2.symm).2.le
  reads i k uri v text v' hi hk hik := by
    rw [hhistory] at hi hk
    cases logged_snoc.mp hk with
    | inl hkold =>
      cases logged_snoc.mp hi with
      | inl hiold => exact h.reads i k uri v text v' hiold hkold hik
      | inr hnew =>
        have := hkold.lt
        omega
    | inr hknew =>
      -- The read is of the file as it is now.
      obtain ⟨rfl, hread'⟩ := hknew
      cases logged_snoc.mp hi with
      | inl hiold =>
        rw [(hread uri text v' hread'.symm).1]
        exact h.version_le i uri v hiold
      | inr hnew => omega
  call := by
    rw [hhistory]
    exact hcall
  within k uri text v hk := by
    rw [hhistory] at hk ⊢
    cases logged_snoc.mp hk with
    | inl hold =>
      obtain ⟨j, hjk, hj, hbetween⟩ := h.within k uri text v hold
      refine ⟨j, hjk, logged_snoc.mpr (.inl hj), fun l u hjl hlk hl => ?_⟩
      cases logged_snoc.mp hl with
      | inl hl => exact hbetween l u hjl hlk hl
      | inr hnew =>
        have := hold.lt
        omega
    | inr hnew =>
      obtain ⟨rfl, heq⟩ := hnew
      obtain ⟨-, j, hj, hlast⟩ := hread uri text v heq.symm
      refine ⟨j, hj.lt, logged_snoc.mpr (.inl hj), fun l u hjl hlk hl => ?_⟩
      cases logged_snoc.mp hl with
      | inl hl => exact hlast l u hjl hl
      | inr hnew => omega

/-- An event is received. -/
private theorem WatchInv.receive (h : WatchInv s) (hpc : s.pc = .selecting) (path : Path) :
    WatchInv (s.receive actor env.adapters path) := by
  rw [WatchState.receive]
  -- An event the filter rejects is forgotten.
  cases hfilter : actor.filter env.adapters s.world.isDir path with
  | none => exact h
  -- One that passes is noted with the version of the file, and waits in `pending`.
  | some uri =>
    apply h.record rfl
    case harmed =>
      have hne : s.pending.insert uri ≠ [] := List.ne_nil_of_mem List.mem_insert_self
      simp [hne]
    case hkeeps =>
      intro u hheld
      cases hheld with
      | inl hpending => exact .inl (.inl (List.mem_insert_of_mem hpending))
      | inr hleft => exact .inl (.inr hleft)
    case hversion => rfl
    case hreceived =>
      intro u v heq
      cases heq
      exact ⟨List.mem_insert_self, rfl⟩
    case hread =>
      intro u text v heq
      exact nomatch heq
    case hcall =>
      show CallInv _ s.pc
      rw [hpc]
      trivial

/-- A call starts. -/
private theorem WatchInv.start (h : WatchInv s) {uri : String} {uris : List String}
    (hpc : s.pc = .draining (uri :: uris)) :
    WatchInv { s with
      pc := .reconciling uri (env.reconcileUri uri) uris
      history := s.history ++ [.started uri] } := by
  apply h.record rfl
  case harmed => exact h.armed
  case hkeeps =>
    -- The file is no longer held: its start is in the history now.
    intro u hheld
    cases hheld with
    | inl hpending => exact .inl (.inl hpending)
    | inr hleft =>
      rw [hpc] at hleft
      cases List.mem_cons.mp hleft with
      | inl heq => exact .inr (heq ▸ rfl)
      | inr hrest => exact .inl (.inr hrest)
  case hversion => rfl
  case hreceived =>
    intro u v heq
    exact nomatch heq
  case hread =>
    intro u text v heq
    exact nomatch heq
  -- From here on the task runs, and its start is the last one.
  case hcall =>
    refine ⟨reconcileUri_reads env uri, s.history.length, logged_snoc.mpr (.inr ⟨rfl, rfl⟩),
      fun l u hl hlogged => ?_⟩
    have := hlogged.lt
    rw [List.length_append, List.length_singleton] at this
    omega

/-- With the reply to its command the call goes on, and without one it ends. -/
private theorem perform_pc (env : TaskEnv) (S : TaskServer) (s : WatchState) (uri : String)
    {β : Type}
    (c : TaskCmd β) (k : β → TaskM Unit) (uris : List String) :
    (∃ b, (s.perform env.hasher S uri c k uris).pc = .reconciling uri (k b) uris) ∨
      (s.perform env.hasher S uri c k uris).pc = .draining uris := by
  unfold WatchState.perform
  cases c.handle env.hasher S s.world.toTaskWorld with
  | mk reply w' =>
    cases reply with
    | ok b => exact .inl ⟨b, rfl⟩
    | error e => exact .inr rfl

/-- The call under way issues a command. -/
private theorem WatchInv.perform (h : WatchInv s) {uri : String} {β : Type} {c : TaskCmd β}
    {k : β → TaskM Unit} {uris : List String} (hpc : s.pc = .reconciling uri (.op c k) uris) :
    WatchInv (s.perform env.hasher S uri c k uris) := by
  have hcall := h.call
  rw [hpc] at hcall
  -- The task under way reads its own file only, and goes on or fails.
  obtain ⟨⟨hreads, hrest⟩, j, hj, hlast⟩ := hcall
  have hgoes := perform_pc env S s uri c k uris
  -- What is held does not change while a command runs.
  have hkeeps : ∀ u, u ∈ s.pending ∨ u ∈ s.pc.batch →
      u ∈ (s.perform env.hasher S uri c k uris).pending ∨
        u ∈ (s.perform env.hasher S uri c k uris).pc.batch := by
    intro u hheld
    rw [hpc] at hheld
    cases hheld with
    | inl hpending => exact .inl hpending
    | inr hleft =>
      refine .inr ?_
      cases hgoes with
      | inl hok =>
        obtain ⟨b, hb⟩ := hok
        rw [hb]
        exact hleft
      | inr hfails =>
        rw [hfails]
        exact hleft
  have hnext : ∀ history j, Logged history j (.started uri) → LastStart history j →
      CallInv history (s.perform env.hasher S uri c k uris).pc := by
    intro history j hj hlast
    cases hgoes with
    | inl hok =>
      obtain ⟨b, hb⟩ := hok
      rw [hb]
      exact ⟨hrest b, j, hj, hlast⟩
    | inr hfails =>
      rw [hfails]
      trivial
  -- A command that reads nothing leaves the history alone.
  have hsilent : c.observed s.world = [] →
      WatchInv (s.perform env.hasher S uri c k uris) := by
    intro hnone
    refine h.silent ?_ h.armed hkeeps (fun u => le_rfl) (hnext s.history j hj hlast)
    show s.history ++ c.observed s.world = s.history
    rw [hnone, List.append_nil]
  -- Only the read of the file is logged, with the text and the version it found.
  cases c with
  | readToString u =>
    cases hreads
    have hhistory : (s.perform env.hasher S uri (.readToString uri) k uris).history =
        s.history ++ [.read uri ((s.world.files uri).bind decodeUtf8) (s.world.version uri)] := rfl
    apply h.record hhistory
    case harmed => exact h.armed
    case hkeeps => exact fun u hheld => .inl (hkeeps u hheld)
    case hversion => rfl
    case hreceived =>
      intro u v heq
      cases heq
    case hread =>
      intro u text v heq
      cases heq
      exact ⟨rfl, j, hj, hlast⟩
    case hcall =>
      apply hnext _ j (logged_snoc.mpr (.inl hj))
      intro l u hjl hl
      cases logged_snoc.mp hl with
      | inl hold => exact hlast l u hjl hold
      | inr hnew => cases hnew.2
  | acquire language => exact hsilent rfl
  | readBytes u => exact hsilent rfl
  | ensureDocument u language text => exact hsilent rfl
  | documentSymbols u => exact hsilent rfl
  | getMeta key => exact hsilent rfl
  | setMeta key value => exact hsilent rfl
  | countRealNodes u moduleFqn => exact hsilent rfl
  | reconcileFileSymbols args syms => exact hsilent rfl

/-- Every step keeps the invariant. -/
private theorem WatchInv.step (h : WatchInv s) (hstep : WatchStep actor env S s s') :
    WatchInv s' := by
  cases hstep with
  | world hmoves => exact h.silent rfl h.armed (fun _ => id) hmoves.version_le h.call
  -- An event waits in the channel; nothing is noted yet.
  | notify path hroom => exact h.silent rfl h.armed (fun _ => id) (fun _ => le_rfl) h.call
  | @receive path events hpc hevents =>
    have hpopped : WatchInv { s with events := events } :=
      h.silent rfl h.armed (fun _ => id) (fun _ => le_rfl) h.call
    exact hpopped.receive hpc path
  -- The debounce has expired: what was pending is the batch, in some order.
  | expire hpc hevents harmed hdrain =>
    refine h.silent rfl (by simp) (fun uri hheld => ?_) (fun _ => le_rfl) trivial
    rw [hpc] at hheld
    cases hheld with
    | inl hpending => exact .inr (hdrain.mem_iff.mpr hpending)
    | inr hleft => exact absurd hleft List.not_mem_nil
  | start hpc => exact h.start hpc
  | command hpc => exact h.perform hpc
  -- The ends of a reconcile, of a batch and of the loop drop nothing that is held.
  | reconciled hpc =>
    refine h.silent rfl h.armed (fun uri hheld => ?_) (fun _ => le_rfl) trivial
    rw [hpc] at hheld
    exact hheld
  | drained hpc =>
    refine h.silent rfl h.armed (fun uri hheld => ?_) (fun _ => le_rfl) trivial
    rw [hpc] at hheld
    exact hheld
  | shutdown hpc =>
    refine h.silent rfl h.armed (fun uri hheld => ?_) (fun _ => le_rfl) trivial
    rw [hpc] at hheld
    exact hheld

private theorem WatchInv.run (h : WatchInv s) (hrun : WatchRun actor env S s s') : WatchInv s' := by
  induction hrun with
  | refl => exact h
  | tail _ hstep ih => exact ih.step hstep

end Steps

/-- What is said of the actor between two iterations of its loop. -/
structure LosesNothing (s : WatchState) : Prop where
  armed : s.debounce = true ↔ s.pending ≠ []
  /-- An event's uri is pending, or a call for it started after the event was received; its last
      call did, and reads the file no older than it was then. -/
  held : ∀ i uri v, Logged s.history i (.received uri v) →
    uri ∈ s.pending ∨
      (∃ j, i < j ∧ Logged s.history j (.started uri)) ∧
        ∀ j, Logged s.history j (.started uri) →
          (∀ l, j < l → ¬ Logged s.history l (.started uri)) →
            i < j ∧ ∀ k text v', j < k → Logged s.history k (.read uri text v') → v ≤ v'
  /-- A read is by the call that started last before it. -/
  own : ∀ k uri text v, Logged s.history k (.read uri text v) →
    ∃ j, j < k ∧ Logged s.history j (.started uri) ∧
      ∀ l u, j < l → l < k → ¬ Logged s.history l (.started u)

/-- However events, the timer, the reconciles and the rest of the world take turns, the watcher
    loses no event that it received and that passed the filter. -/
theorem watcher_loses_nothing (actor : WatcherActor) (env : TaskEnv) (S : TaskServer)
    {w : WatchWorld} {s : WatchState} (hrun : WatchRun actor env S (.spawn w) s)
    (hpc : s.pc = .selecting) : LosesNothing s := by
  have h := (WatchInv.spawn w).run hrun
  refine ⟨h.armed, fun i uri v hi => ?_, h.within⟩
  obtain hpending | hleft | ⟨j', hij', hj'⟩ := h.covered i uri v hi
  · exact .inl hpending
  · rw [hpc] at hleft
    exact absurd hleft List.not_mem_nil
  · refine .inr ⟨⟨j', hij', hj'⟩, fun j hj hlast => ?_⟩
    have hle : j' ≤ j := by
      by_contra hlt
      exact hlast j' (by omega) hj'
    refine ⟨by omega, fun k text v' hjk hk => ?_⟩
    exact h.reads i k uri v text v' hi hk (by omega)

/-! ## An event during a batch -/

/-- `/app.py`. -/
def appPath : Path := [⟨"app.py", by decide, by decide⟩]

/-- A watcher of `/`, where nothing is ignored. -/
def rootActor : WatcherActor := ⟨[], [], fun _ _ => .none⟩

/-- No server is up. -/
def downServer : TaskServer := ⟨fun _ _ => false, fun _ _ => .error .lsp⟩

/-- The graph of `app.py`, and its file, now empty. -/
def editedWorld : WatchWorld where
  db := fooDb
  files uri := if uri = appPy.uri then some [] else none
  openDocs _ := none
  isDir _ := false
  version _ := 1

private theorem appPath_accepted :
    rootActor.filter rootEnv.adapters (fun _ => false) appPath = some appPy.uri := by decide

/-- Without its server a reconcile ends after one command. -/
private theorem reconcileUri_acquires : ∃ k : Bool → TaskM Unit,
    rootEnv.reconcileUri appPy.uri = .op (.acquire "python") k ∧ k false = .pure () := by
  have hselect : selectForUri rootEnv.adapters appPy.uri = some pythonAdapter := by decide
  rw [TaskEnv.reconcileUri, TaskEnv.fetchUriSymbols, hselect]
  exact ⟨_, rfl, rfl⟩

/-- One event is reconciled, and a second one comes in meanwhile. -/
private theorem burst_run : ∃ s, WatchRun rootActor rootEnv downServer (.spawn editedWorld) s ∧
    s.pc = .selecting ∧ s.pending = [appPy.uri] ∧
    Logged s.history 0 (.received appPy.uri 1) ∧ Logged s.history 2 (.received appPy.uri 1) := by
  obtain ⟨k, hreconcile, hk⟩ := reconcileUri_acquires
  -- An event received by the idle loop adds the file to `pending`.
  have hreceive : ∀ s : WatchState, s.world.isDir = (fun _ => false) →
      s.receive rootActor rootEnv.adapters appPath =
        { s with
          pending := s.pending.insert appPy.uri
          debounce := true
          history := s.history ++ [.received appPy.uri (s.world.version appPy.uri)] } := by
    intro s hdir
    rw [WatchState.receive, hdir, appPath_accepted]
  -- The file changes once; the watcher is told of it twice, before and during its reconcile.
  have hrun := Relation.ReflTransGen.refl (r := WatchStep rootActor rootEnv downServer)
    (a := .spawn editedWorld)
  replace hrun := hrun.tail (.notify appPath (by decide))
  replace hrun := hrun.tail (.receive rfl rfl)
  rw [hreceive _ rfl] at hrun
  replace hrun := hrun.tail (.expire rfl rfl rfl (.refl _))
  replace hrun := hrun.tail (.start rfl)
  replace hrun := hrun.tail (.notify appPath (by decide))
  replace hrun := hrun.tail (.command (congrArg (WatcherPc.reconciling appPy.uri · [])
    hreconcile))
  replace hrun := hrun.tail (.reconciled (congrArg (WatcherPc.reconciling appPy.uri · []) hk))
  replace hrun := hrun.tail (.drained rfl)
  replace hrun := hrun.tail (.receive rfl rfl)
  rw [hreceive _ rfl] at hrun
  exact ⟨_, hrun, rfl, rfl, rfl, rfl⟩

/-- The second event is pending again, with the timer armed. -/
theorem watcher_loses_nothing_burst :
    ∃ s, WatchRun rootActor rootEnv downServer (.spawn editedWorld) s ∧
      s.pending = [appPy.uri] ∧ Logged s.history 0 (.received appPy.uri 1) ∧
      Logged s.history 2 (.received appPy.uri 1) ∧ LosesNothing s := by
  obtain ⟨s, hrun, hpc, hpending, hfirst, hsecond⟩ := burst_run
  exact ⟨s, hrun, hpending, hfirst, hsecond,
    watcher_loses_nothing rootActor rootEnv downServer hrun hpc⟩

end Semnav.Indexer
