import Semnav.ForStd.List
import Semnav.Query.Supervisors
import Semnav.Spec.SupervisorState

/-!
# One server per language

Each supervisor starts a server only when it holds none.  But a process that it has handed over
may still be running then, and so may that of a supervisor that was removed from the pool.

## Key results

- `start_obeys`: what the factory leaves behind
- `advance_inv`: a step of a supervisor's loop keeps the invariant of all supervisors
- `one_server`: of the servers that nobody is shutting down there is one per language
- `servers_overlap`: a server that is started while its predecessor is shut down
-/

namespace Semnav.Query

open Semnav.ForStd Semnav.Adapters Semnav.Lsp

/-! ## The factory -/

/-- What the factory does to the process that it has started and not let go. -/
def factoryProtocol : Prog.Protocol FactoryCmd (Option ServerId) where
  replies live c b live' :=
    match c, b with
    | .provision, _ => live' = live
    | .spawn, .ok server => live' = some server
    | .spawn, .error _ => live' = live
    | .handshake _, _ => live' = live
    | .dropServer _, _ => live' = none
  allowed live c :=
    match c with
    | .spawn => live = none
    | .dropServer server => live = some server
    | _ => True

/-- A start that failed leaves no process behind. -/
def StartLeaves (res : Except StartError StartedServer) (live : Option ServerId) : Prop :=
  match res with
  | .ok server => live = server.keepAlive
  | .error _ => live = none

/-- A start owns the process it returns, and none when it fails. -/
private theorem start_obeys (factory : RealServerFactory) :
    Prog.Obeys factoryProtocol StartLeaves factory.start none := by
  unfold RealServerFactory.start
  -- Before the spawn there is no process to let go,
  cases adapterForLanguage factory.adapters factory.language with
  | none => rfl
  | some adapter =>
    refine ⟨trivial, fun provisioned live₁ h₁ => ?_⟩
    subst h₁
    cases provisioned with
    | error e => rfl
    | ok u =>
      refine ⟨rfl, fun spawned live₂ h₂ => ?_⟩
      -- and from then on the process is owned until it is returned or dropped.
      cases spawned with
      | error e => exact h₂
      | ok server =>
        have hlive : live₂ = some server := h₂
        subst hlive
        refine ⟨trivial, fun initialized live₃ h₃ => ?_⟩
        have hlive : live₃ = some server := h₃
        subst hlive
        cases initialized with
        | ok u => rfl
        | error e => exact ⟨rfl, fun _ live₄ h₄ => h₄⟩

/-! ## Whose processes are left -/

/-- The processes of supervisor `i` that it has not let go: `live`, if any. -/
def Owned (servers : List ServerProcess) (i : Nat) (live : Option ServerId) : Prop :=
  ∀ p server, servers[p]? = some server → server.owner = i → server.released = false →
    live = some p

section Owned

variable {servers : List ServerProcess} {i : Nat} {live : Option ServerId}

/-- Processes may end or be let go. -/
private theorem Owned.modify (h : Owned servers i live) (p : ServerId)
    {f : ServerProcess → ServerProcess} (howner : ∀ server, (f server).owner = server.owner)
    (hreleased : ∀ server, (f server).released = false → server.released = false) :
    Owned (servers.modify p f) i live := by
  intro q server hq hi hr
  rw [List.getElem?_modify, Option.map_eq_map, Option.map_eq_some_iff] at hq
  obtain ⟨old, hold, rfl⟩ := hq
  by_cases hpq : p = q
  · simp only [hpq, if_true] at hi hr
    exact h q old hold ((howner old).symm.trans hi) (hreleased old hr)
  · simp only [hpq, if_false] at hi hr
    exact h q old hold hi hr

/-- Releasing a process leaves a task no more than it owned. -/
private theorem Owned.release (h : Owned servers i live) (p : ServerId) :
    Owned (Lsp.release p servers) i live :=
  h.modify p (fun _ => rfl) fun _ hr => nomatch hr

/-- The process that is let go was the only one. -/
private theorem Owned.release_live {p : ServerId} (h : Owned servers i (some p)) :
    Owned (Lsp.release p servers) i none := by
  intro q server hq hi hr
  have hsame := h.release p q server hq hi hr
  obtain rfl : p = q := Option.some.inj hsame
  unfold Lsp.release at hq
  rw [List.getElem?_modify, Option.map_eq_map, Option.map_eq_some_iff] at hq
  obtain ⟨old, -, rfl⟩ := hq
  simp at hr

/-- A process that another supervisor spawns. -/
private theorem Owned.append_other (h : Owned servers i live) {server : ServerProcess}
    (hother : server.owner ≠ i) : Owned (servers ++ [server]) i live := by
  intro q old hq hi hr
  by_cases hlt : q < servers.length
  · rw [List.getElem?_append_left hlt] at hq
    exact h q old hq hi hr
  · rw [List.getElem?_append_right (Nat.le_of_not_lt hlt)] at hq
    have hmem := List.mem_of_getElem? hq
    rw [List.mem_singleton.mp hmem] at hi
    exact absurd hi hother

/-- The process that a supervisor without one spawns. -/
private theorem Owned.append_own (h : Owned servers i none) (server : ServerProcess) :
    Owned (servers ++ [server]) i (some servers.length) := by
  intro q old hq hi hr
  by_cases hlt : q < servers.length
  · rw [List.getElem?_append_left hlt] at hq
    exact nomatch h q old hq hi hr
  · have hbound := (List.getElem?_eq_some_iff.mp hq).1
    rw [List.length_append, List.length_singleton] at hbound
    exact congrArg some (Nat.le_antisymm (Nat.le_of_not_lt hlt) (Nat.le_of_lt_succ hbound))

end Owned

/-! ## One supervisor -/

/-- A supervisor's loop with the processes that it has not let go. -/
def PhaseInv (factory : RealServerFactory) (servers : List ServerProcess) (i : Nat)
    (sup : Supervisor) : Phase → Prop
  | .idle => ∃ a : SupervisorActor, a.sup = sup ∧ a.Inv factory.language .defaultReal ∧
      Owned servers i a.live
  | .busy event rest => ∃ a : SupervisorActor, a.sup = sup ∧
      Prog.Obeys supervisorProtocol (event.Leaves factory.language .defaultReal) rest a ∧
      Owned servers i a.live
  | .starting event k rest => ∃ (a : SupervisorActor) (live : Option ServerId), a.sup = sup ∧
      Prog.Obeys supervisorProtocol (event.Leaves factory.language .defaultReal) (.op .start k) a ∧
      Prog.Obeys factoryProtocol StartLeaves rest live ∧ Owned servers i live
  | .stopped => Owned servers i none

/-- What holds of one supervisor task. -/
abbrev TaskInv (servers : List ServerProcess) (i : Nat) (t : SupervisorTask) : Prop :=
  PhaseInv t.factory servers i t.sup t.phase

/-- The invariant depends on the processes that are not let go only. -/
theorem PhaseInv.mono {factory : RealServerFactory} {servers servers' : List ServerProcess}
    {i : Nat} {sup : Supervisor} {phase : Phase} (h : PhaseInv factory servers i sup phase)
    (howned : ∀ live, Owned servers i live → Owned servers' i live) :
    PhaseInv factory servers' i sup phase := by
  cases phase with
  | idle =>
    obtain ⟨a, hsup, hinv, hown⟩ := h
    exact ⟨a, hsup, hinv, howned _ hown⟩
  | busy event rest =>
    obtain ⟨a, hsup, hobeys, hown⟩ := h
    exact ⟨a, hsup, hobeys, howned _ hown⟩
  | starting event k rest =>
    obtain ⟨a, live, hsup, hobeys, hfactory, hown⟩ := h
    exact ⟨a, live, hsup, hobeys, hfactory, howned _ hown⟩
  | stopped => exact howned _ h

/-- Taking up an event leaves the supervisor's fields as they are. -/
private theorem begin_sup (a : SupervisorActor) (event : SupervisorEvent) :
    (a.begin event).sup = a.sup := by
  unfold SupervisorActor.begin
  split
  · split <;> rfl
  · split <;> rfl
  · rfl

/-- The beginning of an event leaves the live server as it is. -/
private theorem begin_live (a : SupervisorActor) (event : SupervisorEvent) :
    (a.begin event).live = a.live := by
  unfold SupervisorActor.begin
  split
  · split <;> rfl
  · split <;> rfl
  · rfl

/-- What a step of supervisor `i` does to the processes. -/
inductive Changed (i : Nat) (language : String) (servers : List ServerProcess) :
    List ServerProcess → Prop where
  | same : Changed i language servers servers
  | released (p : ServerId) : Changed i language servers (release p servers)
  | spawned : Changed i language servers (servers ++ [⟨language, i, true, false⟩])

section Task

variable {servers servers' : List ServerProcess} {i : Nat} {t t' : SupervisorTask}

/-- An event that is taken is ready, and a message is the next one. -/
private theorem take_cases {event : SupervisorEvent} (htake : t.take servers event = some t') :
    event.Ready t.sup ∧ ∃ inbox, t' = { t with inbox, phase := .busy event (Supervisor.handle event) } ∧
      ∀ m ∈ t.inbox, m ∈ inbox ∨ event = .msg m := by
  -- An event is ready when the field it comes from is set; a message is the first in the inbox.
  cases event with
  | childExit =>
    simp only [SupervisorTask.take, Option.ite_none_right_eq_some, Option.some.injEq] at htake
    obtain ⟨hexit, rfl⟩ := htake
    have hready : t.sup.currentExit.isSome := by
      cases hsome : t.sup.currentExit with
      | none => simp [hsome] at hexit
      | some server => rfl
    exact ⟨hready, t.inbox, rfl, fun m hm => .inl hm⟩
  | timer =>
    simp only [SupervisorTask.take, Option.ite_none_right_eq_some, Option.some.injEq] at htake
    obtain ⟨htimer, rfl⟩ := htake
    exact ⟨htimer, t.inbox, rfl, fun m hm => .inl hm⟩
  | closed => exact nomatch htake
  | msg m =>
    cases hinbox : t.inbox with
    | nil => simp [SupervisorTask.take, hinbox] at htake
    | cons next inbox =>
      simp only [SupervisorTask.take, hinbox, Option.ite_none_right_eq_some,
        Option.some.injEq] at htake
      obtain ⟨rfl, rfl⟩ := htake
      refine ⟨trivial, inbox, rfl, fun m hm => ?_⟩
      cases List.mem_cons.mp hm with
      | inl h => exact .inr (congrArg _ h.symm)
      | inr h => exact .inl h

/-- An idle loop takes an event. -/
theorem take_inv (h : TaskInv servers i t) (hidle : t.phase = .idle) {event : SupervisorEvent}
    (hready : event.Ready t.sup) :
    PhaseInv t.factory servers i t.sup (.busy event (Supervisor.handle event)) := by
  unfold TaskInv at h
  rw [hidle] at h
  obtain ⟨a, hsup, hinv, howned⟩ := h
  rw [← hsup] at hready
  refine ⟨a.begin event, (begin_sup a event).trans hsup, handle_leaves hinv hready, ?_⟩
  rw [begin_live]
  exact howned

/-- A command of the loop. -/
theorem exec_inv {β : Type} {event : SupervisorEvent} {now : Int} {c : SupervisorCmd β}
    {k : β → SupervisorM SupervisorReply}
    (h : PhaseInv t.factory servers i t.sup (.busy event (.op c k)))
    (hexec : t.exec event now servers c k = (t', servers')) :
    TaskInv servers' i t' ∧ Changed i t.factory.language servers servers' := by
  obtain ⟨a, hsup, ⟨hallowed, hobeys⟩, howned⟩ := h
  -- Most commands touch no process; the two shutdowns let the live one go.
  cases c with
  | get =>
    cases hexec
    exact ⟨⟨a, hsup, hobeys _ a ⟨hsup.symm, rfl⟩, howned⟩, .same⟩
  | update f =>
    cases hexec
    exact ⟨⟨{ a with sup := f a.sup }, congrArg f hsup, hobeys () _ rfl, howned⟩, .same⟩
  -- The start hands over to the factory, which owns nothing yet.
  | start =>
    cases hexec
    refine ⟨⟨a, none, hsup, ⟨hallowed, hobeys⟩, start_obeys t.factory, ?_⟩, .same⟩
    rw [← hallowed.2.2]
    exact howned
  | recordMeta key value =>
    cases hexec
    exact ⟨⟨a.write key value, hsup, hobeys () _ rfl, howned⟩, .same⟩
  | nowSecs =>
    cases hexec
    exact ⟨⟨a, hsup, hobeys now a rfl, howned⟩, .same⟩
  | spawnShutdown p =>
    cases hexec
    have hlive : a.live = some p := hallowed.2
    refine ⟨⟨{ a with live := none }, hsup, hobeys () _ rfl, ?_⟩, .released p⟩
    exact (hlive ▸ howned).release_live
  | shutdown p =>
    cases hexec
    have hlive : a.live = some p := hallowed.2
    refine ⟨⟨{ a with live := none }, hsup, hobeys () _ rfl, ?_⟩, .released p⟩
    exact (hlive ▸ howned).release_live
  -- The actor never drops a server itself.
  | dropServer p => exact hallowed.2.elim

/-- A command of the factory. -/
theorem factory_inv {β : Type} {outcome : Except String Unit} {language : String}
    {live : Option ServerId} {c : FactoryCmd β}
    {k : β → Prog FactoryCmd (Except StartError StartedServer)} {b : β}
    (h : Prog.Obeys factoryProtocol StartLeaves (.op c k) live) (howned : Owned servers i live)
    (hexec : c.exec outcome language i servers = (b, servers')) :
    (∃ live', Prog.Obeys factoryProtocol StartLeaves (k b) live' ∧ Owned servers' i live') ∧
      Changed i language servers servers' := by
  obtain ⟨hallowed, hobeys⟩ := h
  -- Only the spawn makes a process and only the drop releases one.
  cases c with
  | provision =>
    cases hexec
    exact ⟨⟨live, hobeys _ live rfl, howned⟩, .same⟩
  | spawn =>
    have hnone : live = none := hallowed
    subst hnone
    cases outcome with
    | error e =>
      cases hexec
      exact ⟨⟨none, hobeys _ none rfl, howned⟩, .same⟩
    | ok u =>
      cases hexec
      exact ⟨⟨_, hobeys _ _ rfl, howned.append_own _⟩, .spawned⟩
  | handshake p =>
    cases hexec
    exact ⟨⟨live, hobeys _ live rfl, howned⟩, .same⟩
  | dropServer p =>
    have hlive : live = some p := hallowed
    subst hlive
    cases hexec
    exact ⟨⟨none, hobeys _ none rfl, howned.release_live⟩, .released p⟩

/-- The event that a loop is at. -/
def Phase.event : Phase → Option SupervisorEvent
  | .busy event _ | .starting event _ _ => some event
  | _ => none

/-- A command changes neither factory nor inbox, and stays with its event. -/
private theorem exec_frame {β : Type} {event : SupervisorEvent} {now : Int} {c : SupervisorCmd β}
    {k : β → SupervisorM SupervisorReply} (hexec : t.exec event now servers c k = (t', servers')) :
    t'.factory = t.factory ∧ t'.inbox = t.inbox ∧ t'.phase.event = some event := by
  cases c <;> cases hexec <;> exact ⟨rfl, rfl, rfl⟩

/-- A step of the loop; a shutdown ends it. -/
theorem advance_inv {now : Int} {outcome : Except String Unit} (h : TaskInv servers i t)
    (hadvance : t.advance i now outcome servers = some (t', servers')) :
    TaskInv servers' i t' ∧ Changed i t.factory.language servers servers' ∧
      t'.factory = t.factory ∧ t'.inbox = t.inbox ∧
      (t.phase.event = some (.msg .shutdown) → t'.phase.event = some (.msg .shutdown) ∨
        t'.phase = .stopped) := by
  obtain ⟨factory, sup, inbox, phase⟩ := t
  cases phase with
  | idle => exact nomatch hadvance
  | stopped => exact nomatch hadvance
  | busy event rest =>
    cases rest with
    | op c k =>
      have hexec := Option.some.inj hadvance
      obtain ⟨hfactory, hinbox, hevent⟩ := exec_frame hexec
      obtain ⟨hinv, hchanged⟩ := exec_inv h hexec
      exact ⟨hinv, hchanged, hfactory, hinbox, fun hshutdown => .inl (hevent.trans hshutdown)⟩
    | pure reply =>
      obtain ⟨a, hsup, hleaves, howned⟩ := h
      have hleaves : event.Leaves factory.language .defaultReal reply a := hleaves
      -- The handler is done: the task stops after a shutdown, and takes its next event otherwise.
      by_cases hstops : event.stops = true
      · rw [SupervisorEvent.Leaves, if_pos hstops] at hleaves
        obtain ⟨rfl, hlive⟩ := hleaves
        cases hadvance
        rw [hlive] at howned
        exact ⟨howned, .same, rfl, rfl, fun _ => .inr rfl⟩
      · rw [SupervisorEvent.Leaves, if_neg hstops] at hleaves
        obtain ⟨hinv, hfits⟩ := hleaves
        have hidle : t' = ⟨factory, sup, inbox, .idle⟩ ∧ servers' = servers := by
          cases reply with
          | stopped => exact hfits.elim
          | none | acquired | reported =>
            cases hadvance
            exact ⟨rfl, rfl⟩
        obtain ⟨rfl, rfl⟩ := hidle
        refine ⟨⟨a, hsup, hinv, howned⟩, .same, rfl, rfl, fun hshutdown => ?_⟩
        cases hshutdown
        exact absurd rfl hstops
  | starting event k rest =>
    obtain ⟨a, live, hsup, hobeys, hfactory, howned⟩ := h
    cases rest with
    | op c rest =>
      cases hexec : c.exec outcome factory.language i servers with
      | mk b servers₁ =>
        simp only [SupervisorTask.advance, hexec, Option.some.injEq, Prod.mk.injEq] at hadvance
        obtain ⟨rfl, rfl⟩ := hadvance
        obtain ⟨⟨live', hrest, hown⟩, hchanged⟩ := factory_inv hfactory howned hexec
        exact ⟨⟨a, live', hsup, hobeys, hrest, hown⟩, hchanged, rfl, rfl, .inl⟩
    | pure res =>
      -- The factory is done: the handler goes on with the server, or with the failure.
      cases hadvance
      obtain ⟨hallowed, hk⟩ := hobeys
      cases res with
      | ok server =>
        have hlive : live = server.keepAlive := hfactory
        subst hlive
        exact ⟨⟨{ a with live := server.keepAlive }, hsup, hk (.ok server) _ rfl, howned⟩, .same, rfl,
          rfl, .inl⟩
      | error error =>
        have hlive : live = none := hfactory
        subst hlive
        refine ⟨⟨{ a with lastFailure := some error.failure }, hsup, hk (.error error) _ rfl, ?_⟩,
          .same, rfl, rfl, .inl⟩
        show Owned servers i a.live
        rw [hallowed.2.2]
        exact howned

end Task

/-! ## The pool -/

/-- A shutdown waits in the inbox, is at work, or is done. -/
def Ending (t : SupervisorTask) : Prop :=
  .shutdown ∈ t.inbox ∨ t.phase.event = some (.msg .shutdown) ∨ t.phase = .stopped

/-- A supervisor that `restart_language` has removed: its shutdown is about to be sent, waits in
    the inbox, is at work, or is done. -/
def Leaving (pool : Pool) (i : Nat) : Prop :=
  i ∈ pool.resets ∨ ∃ t, pool.tasks[i]? = some t ∧ Ending t

/-- What every reachable pool satisfies. -/
structure PoolInv (pool : Pool) : Prop where
  tasks : ∀ (i : Nat) (t : SupervisorTask), pool.tasks[i]? = some t → TaskInv pool.servers i t
  /-- Each supervisor is that of its language, or was removed. -/
  placed : ∀ (i : Nat) (t : SupervisorTask), pool.tasks[i]? = some t →
    pool.supervisors.lookup t.factory.language = some i ∨ Leaving pool i
  /-- Each process was started by one of them. -/
  owners : ∀ (p : ServerId) (server : ServerProcess), pool.servers[p]? = some server →
    ∃ t, pool.tasks[server.owner]? = some t ∧ t.factory.language = server.language

/-- A new pool has no tasks. -/
private theorem poolInv_new (adapters : List LanguageAdapter) : PoolInv (Pool.new adapters) :=
  ⟨fun _ _ h => (nomatch h), fun _ _ h => (nomatch h), fun _ _ h => nomatch h⟩

section Pool

variable {pool : Pool}

/-- A new supervisor for a language without one. -/
private theorem PoolInv.supervisorFor (h : PoolInv pool) (language : String) :
    PoolInv (pool.supervisorFor language) := by
  unfold Pool.supervisorFor
  split
  · exact h
  · next hnone =>
    have hcases : ∀ {i : Nat} {t new : SupervisorTask}, (pool.tasks ++ [new])[i]? = some t →
        pool.tasks[i]? = some t ∨ i = pool.tasks.length ∧ t = new := by
      intro i t new ht
      by_cases hlt : i < pool.tasks.length
      · rw [List.getElem?_append_left hlt] at ht
        exact .inl ht
      · have hbound := (List.getElem?_eq_some_iff.mp ht).1
        rw [List.length_append, List.length_singleton] at hbound
        obtain rfl : i = pool.tasks.length := by omega
        rw [List.getElem?_append_right (Nat.le_refl _), Nat.sub_self] at ht
        exact .inr ⟨rfl, (Option.some.inj ht).symm⟩
    refine ⟨fun i t ht => ?_, fun i t ht => ?_, fun p server hp => ?_⟩
    · cases hcases ht with
      | inl hold => exact h.tasks i t hold
      | inr hnew =>
        obtain ⟨rfl, rfl⟩ := hnew
        -- No process is older than its supervisor.
        refine ⟨.spawn language .defaultReal, rfl, spawn_inv, fun p server hp howner _ => ?_⟩
        obtain ⟨t, ht, -⟩ := h.owners p server hp
        have hlt := (List.getElem?_eq_some_iff.mp ht).1
        omega
    · cases hcases ht with
      | inl hold =>
        cases h.placed i t hold with
        | inl hlookup =>
          have hne : t.factory.language ≠ language := by
            intro heq
            rw [heq, hnone] at hlookup
            exact nomatch hlookup
          refine .inl ?_
          rw [List.lookup_cons, beq_eq_false_iff_ne.mpr hne]
          exact hlookup
        | inr hleaving =>
          refine .inr ?_
          cases hleaving with
          | inl hreset => exact .inl hreset
          | inr hleaving =>
            obtain ⟨t', ht', hleaving⟩ := hleaving
            exact .inr ⟨t', List.getElem?_append_of_some ht' _, hleaving⟩
      | inr hnew =>
        obtain ⟨rfl, rfl⟩ := hnew
        exact .inl List.lookup_cons_self
    · obtain ⟨t, ht, hlanguage⟩ := h.owners p server hp
      exact ⟨t, List.getElem?_append_of_some ht _, hlanguage⟩

/-- A step of one supervisor. -/
private theorem PoolInv.set (h : PoolInv pool) {i : Nat} {t t' : SupervisorTask}
    {servers : List ServerProcess} (ht : pool.tasks[i]? = some t) (hinv : TaskInv servers i t')
    (hchanged : Changed i t.factory.language pool.servers servers)
    (hfactory : t'.factory = t.factory) (hending : Ending t → Ending t') :
    PoolInv { pool with tasks := pool.tasks.set i t', servers } := by
  have hlt := (List.getElem?_eq_some_iff.mp ht).1
  have hself : (pool.tasks.set i t')[i]? = some t' := by
    rw [List.getElem?_set_self hlt]
  have hother : ∀ {j}, i ≠ j → (pool.tasks.set i t')[j]? = pool.tasks[j]? := by
    intro j hj
    rw [List.getElem?_set_ne hj]
  -- The processes of the others are as they were, or let go.
  have howned : ∀ {j}, i ≠ j → ∀ live, Owned pool.servers j live → Owned servers j live := by
    intro j hj live hown
    cases hchanged with
    | same => exact hown
    | released p => exact hown.release p
    | spawned => exact hown.append_other hj
  have hlanguage : ∀ {j : Nat} {u : SupervisorTask}, pool.tasks[j]? = some u →
      ∃ u', (pool.tasks.set i t')[j]? = some u' ∧ u'.factory = u.factory := by
    intro j u hu
    by_cases hj : i = j
    · subst hj
      obtain rfl := Option.some.inj (hu.symm.trans ht)
      exact ⟨t', hself, hfactory⟩
    · exact ⟨u, (hother hj).trans hu, rfl⟩
  refine ⟨fun j u hu => ?_, fun j u hu => ?_, fun p server hp => ?_⟩
  · by_cases hj : i = j
    · subst hj
      obtain rfl := Option.some.inj (hu.symm.trans hself)
      exact hinv
    · rw [hother hj] at hu
      exact (h.tasks j u hu).mono (howned hj)
  · by_cases hj : i = j
    · subst hj
      obtain rfl := Option.some.inj (hu.symm.trans hself)
      rw [hfactory]
      cases h.placed i t ht with
      | inl hlookup => exact .inl hlookup
      | inr hleaving =>
        cases hleaving with
        | inl hreset => exact .inr (.inl hreset)
        | inr hleaving =>
          obtain ⟨u', hu', hends⟩ := hleaving
          obtain rfl := Option.some.inj (hu'.symm.trans ht)
          exact .inr (.inr ⟨u, hself, hending hends⟩)
    · rw [hother hj] at hu
      cases h.placed j u hu with
      | inl hlookup => exact .inl hlookup
      | inr hleaving =>
        cases hleaving with
        | inl hreset => exact .inr (.inl hreset)
        | inr hleaving =>
          obtain ⟨u', hu', hends⟩ := hleaving
          exact .inr (.inr ⟨u', (hother hj).trans hu', hends⟩)
  · -- A new process is that of this supervisor.
    have hold : ∀ {q : ServerId} {old : ServerProcess}, pool.servers[q]? = some old →
        ∃ u, (pool.tasks.set i t')[old.owner]? = some u ∧ u.factory.language = old.language := by
      intro q old hq
      obtain ⟨u, hu, hlang⟩ := h.owners q old hq
      obtain ⟨u', hu', hsame⟩ := hlanguage hu
      exact ⟨u', hu', (congrArg _ hsame).trans hlang⟩
    cases hchanged with
    | same => exact hold hp
    | released q =>
      unfold release at hp
      rw [List.getElem?_modify, Option.map_eq_map, Option.map_eq_some_iff] at hp
      obtain ⟨old, hq, rfl⟩ := hp
      have hfields : (if q = p then { old with released := true } else old).owner = old.owner ∧
          (if q = p then { old with released := true } else old).language = old.language := by
        split <;> exact ⟨rfl, rfl⟩
      rw [hfields.1, hfields.2]
      exact hold hq
    | spawned =>
      by_cases hp' : p < pool.servers.length
      · rw [List.getElem?_append_left hp'] at hp
        exact hold hp
      · rw [List.getElem?_append_right (Nat.le_of_not_lt hp')] at hp
        have hmem := List.mem_singleton.mp (List.mem_of_getElem? hp)
        subst hmem
        exact ⟨t', hself, congrArg _ hfactory⟩

/-- An idle task that takes up an event keeps the pool's invariant. -/
private theorem PoolInv.take (h : PoolInv pool) {i : Nat} {t t' : SupervisorTask}
    (ht : pool.tasks[i]? = some t) (hidle : t.idle = true) {event : SupervisorEvent}
    (htake : t.take pool.servers event = some t') :
    PoolInv { pool with tasks := pool.tasks.set i t' } := by
  obtain ⟨hready, inbox, rfl, hinbox⟩ := take_cases htake
  have hphase : t.phase = .idle := by
    unfold SupervisorTask.idle at hidle
    split at hidle
    · assumption
    · exact nomatch hidle
  refine h.set ht (take_inv (h.tasks i t ht) hphase hready) .same rfl fun hending => ?_
  -- The event taken came off the inbox, so a shutdown in hand was one waiting before.
  rcases hending with hmem | hevent | hstopped
  · cases hinbox _ hmem with
    | inl hold => exact .inl hold
    | inr hnow => exact .inr (.inl (congrArg some hnow))
  · rw [hphase] at hevent
    exact nomatch hevent
  · rw [hphase] at hstopped
    exact nomatch hstopped

/-- A step of a busy task keeps the pool's invariant. -/
private theorem PoolInv.advance (h : PoolInv pool) {i : Nat} {t t' : SupervisorTask}
    {servers : List ServerProcess} (ht : pool.tasks[i]? = some t) {now : Int}
    {outcome : Except String Unit}
    (hadvance : t.advance i now outcome pool.servers = some (t', servers)) :
    PoolInv { pool with tasks := pool.tasks.set i t', servers } := by
  obtain ⟨hinv, hchanged, hfactory, hinbox, hshutdown⟩ := advance_inv (h.tasks i t ht) hadvance
  refine h.set ht hinv hchanged hfactory fun hending => ?_
  rcases hending with hmem | hevent | hstopped
  · rw [← hinbox] at hmem
    exact .inl hmem
  · exact .inr (hshutdown hevent)
  · -- A loop that has stopped takes no step.
    unfold SupervisorTask.advance at hadvance
    rw [hstopped] at hadvance
    exact nomatch hadvance

/-- What a message does to a supervisor. -/
private theorem send_cases {i j : Nat} {m : SupervisorMsg} {u : SupervisorTask}
    (hu : (pool.send i m).tasks[j]? = some u) : ∃ t, pool.tasks[j]? = some t ∧
      u.factory = t.factory ∧ u.sup = t.sup ∧ u.phase = t.phase ∧ (Ending t → Ending u) ∧
      (i = j → m = .shutdown → Ending u) := by
  unfold Pool.send at hu
  rw [List.getElem?_modify, Option.map_eq_map, Option.map_eq_some_iff] at hu
  obtain ⟨t, ht, rfl⟩ := hu
  -- Only the inbox of the receiver changes, and only while it lives.
  by_cases hij : i = j
  · rw [if_pos hij]
    by_cases hended : t.ended = true
    · have hstopped : t.phase = .stopped := by
        unfold SupervisorTask.ended at hended
        split at hended
        · assumption
        · exact nomatch hended
      rw [if_pos hended]
      exact ⟨t, ht, rfl, rfl, rfl, id, fun _ _ => .inr (.inr hstopped)⟩
    · rw [if_neg hended]
      refine ⟨t, ht, rfl, rfl, rfl, fun hending => ?_, fun _ hm => .inl ?_⟩
      · exact hending.imp (List.mem_append_left _) id
      · rw [hm]
        exact List.mem_append_right _ List.mem_cons_self
  · rw [if_neg hij]
    exact ⟨t, ht, rfl, rfl, rfl, id, fun h => absurd h hij⟩

/-- A message changes no task but its inbox. -/
private theorem send_get {i j : Nat} {m : SupervisorMsg} {t : SupervisorTask}
    (ht : pool.tasks[j]? = some t) : ∃ u, (pool.send i m).tasks[j]? = some u ∧
      u.factory = t.factory := by
  unfold Pool.send
  rw [List.getElem?_modify, Option.map_eq_map, ht]
  refine ⟨_, rfl, ?_⟩
  dsimp only
  by_cases hij : i = j
  · rw [if_pos hij]
    split <;> rfl
  · rw [if_neg hij]

/-- A message keeps the invariant, and with a shutdown in the inbox the supervisor need not be
    kept among those to be shut down. -/
private theorem PoolInv.send (h : PoolInv pool) (i : Nat) (m : SupervisorMsg) {resets : List Nat}
    (hresets : ∀ j ∈ pool.resets, j ∈ resets ∨ i = j ∧ m = .shutdown) :
    PoolInv { pool.send i m with resets } := by
  -- Phases and processes stand; only who is about to leave may grow.
  refine ⟨fun j u hu => ?_, fun j u hu => ?_, fun p server hp => ?_⟩
  · obtain ⟨t, ht, hfactory, hsup, hphase, -⟩ := send_cases hu
    show PhaseInv u.factory pool.servers j u.sup u.phase
    rw [hfactory, hsup, hphase]
    exact h.tasks j t ht
  · obtain ⟨t, ht, hfactory, -, -, hending, hshutdown⟩ := send_cases hu
    rw [hfactory]
    -- A task that is out of the map has its shutdown on the way: still to be sent, or in its inbox.
    cases h.placed j t ht with
    | inl hlookup => exact .inl hlookup
    | inr hleaving =>
      cases hleaving with
      | inl hreset =>
        cases hresets j hreset with
        | inl hmem => exact .inr (.inl hmem)
        | inr hsent => exact .inr (.inr ⟨u, hu, hshutdown hsent.1 hsent.2⟩)
      | inr hleaving =>
        obtain ⟨t', ht', hends⟩ := hleaving
        obtain rfl := Option.some.inj (ht'.symm.trans ht)
        exact .inr (.inr ⟨u, hu, hending hends⟩)
  · obtain ⟨t, ht, hlanguage⟩ := h.owners p server hp
    obtain ⟨u, hu, hfactory⟩ := send_get (i := i) (m := m) ht
    exact ⟨u, hu, (congrArg _ hfactory).trans hlanguage⟩

/-- Whoever is removed from the map is about to be shut down. -/
private theorem PoolInv.restart (h : PoolInv pool) {supervisors : List (String × Nat)}
    {resets : List Nat}
    (hlookup : ∀ language i, pool.supervisors.lookup language = some i →
      supervisors.lookup language = some i ∨ i ∈ resets)
    (hresets : ∀ i ∈ pool.resets, i ∈ resets) :
    PoolInv { pool with supervisors, resets } := by
  refine ⟨h.tasks, fun i t ht => ?_, h.owners⟩
  cases h.placed i t ht with
  | inl hl =>
    cases hlookup _ i hl with
    | inl hkept => exact .inl hkept
    | inr hreset => exact .inr (.inl hreset)
  | inr hleaving =>
    cases hleaving with
    | inl hreset => exact .inr (.inl (hresets i hreset))
    | inr hends => exact .inr (.inr hends)

/-- Removing one language leaves the others. -/
private theorem lookup_filter_ne (map : List (String × Nat)) {language other : String}
    (hne : other ≠ language) :
    (map.filter (·.1 ≠ language)).lookup other = map.lookup other := by
  induction map with
  | nil => rfl
  | cons entry map ih =>
    obtain ⟨key, i⟩ := entry
    by_cases hkey : key = language
    · have hother : (other == key) = false := by
        rw [hkey]
        exact beq_eq_false_iff_ne.mpr hne
      rw [List.filter_cons_of_neg (by simpa using hkey), List.lookup_cons, hother]
      exact ih
    · rw [List.filter_cons_of_pos (by simpa using hkey), List.lookup_cons, List.lookup_cons, ih]

/-- A restart keeps the pool's invariant. -/
private theorem PoolInv.restartLanguage (h : PoolInv pool) (language : Option String) :
    PoolInv (pool.restartLanguage language) := by
  have hresets : ∀ {more : List Nat}, ∀ i ∈ pool.resets, i ∈ pool.resets ++ more :=
    fun i hi => List.mem_append_left _ hi
  -- All languages, or the one given, leave the map; each gets a shutdown to be sent.
  cases language with
  | none =>
    refine h.restart (fun other i hlookup => .inr ?_) hresets
    obtain ⟨before, after, hsplit, -⟩ := List.lookup_eq_some_iff.mp hlookup
    apply List.mem_append_right
    rw [hsplit]
    simp
  | some language =>
    cases hremoved : pool.supervisors.lookup language with
    | none =>
      rw [Pool.restartLanguage, hremoved]
      exact h
    | some removed =>
      rw [Pool.restartLanguage, hremoved]
      refine h.restart (fun other i hlookup => ?_) hresets
      -- The other languages keep their supervisor.
      by_cases hother : other = language
      · subst hother
        obtain rfl := Option.some.inj (hlookup.symm.trans hremoved)
        exact .inr (List.mem_append_right _ List.mem_cons_self)
      · exact .inl ((lookup_filter_ne _ hother).trans hlookup)

/-- A process ends. -/
private theorem PoolInv.serverExit (h : PoolInv pool) (p : ServerId) :
    PoolInv { pool with
      servers := pool.servers.modify p fun server => { server with running := false } } := by
  refine ⟨fun i t ht => ?_, h.placed, fun q server hq => ?_⟩
  · exact (h.tasks i t ht).mono fun live hown => hown.modify p (fun _ => rfl) fun _ hr => hr
  · rw [List.getElem?_modify, Option.map_eq_map, Option.map_eq_some_iff] at hq
    obtain ⟨old, hold, rfl⟩ := hq
    obtain ⟨t, ht, hlanguage⟩ := h.owners q old hold
    refine ⟨t, ?_, ?_⟩
    · split
      · exact ht
      · exact ht
    · split
      · exact hlanguage
      · exact hlanguage

/-- Every action keeps the pool's invariant. -/
private theorem PoolInv.act (h : PoolInv pool) {action : PoolAction} {pool' : Pool}
    (hact : pool.act action = some pool') : PoolInv pool' := by
  -- Every action has its lemma; those of a task ask that it be idle or busy.
  cases action with
  | supervisorFor language =>
    cases hact
    exact h.supervisorFor language
  | acquire i =>
    cases hact
    exact h.send i .acquire fun j hj => .inl hj
  | reportFailure i kind =>
    cases hact
    exact h.send i (.reportFailure kind) fun j hj => .inl hj
  | restartLanguage language =>
    cases hact
    exact h.restartLanguage language
  | sendShutdown i =>
    simp only [Pool.act, Option.ite_none_right_eq_some, Option.some.injEq] at hact
    obtain ⟨-, rfl⟩ := hact
    -- The shutdown has been sent, so it is in the inbox.
    refine h.send i .shutdown fun j hj => ?_
    by_cases hij : i = j
    · exact .inr ⟨hij, rfl⟩
    · exact .inl ((List.mem_erase_of_ne (Ne.symm hij)).mpr hj)
  | take i event =>
    simp only [Pool.act] at hact
    split at hact
    · next t ht =>
      rw [Option.ite_none_right_eq_some] at hact
      obtain ⟨hidle, hact⟩ := hact
      obtain ⟨t', htake, rfl⟩ := Option.map_eq_some_iff.mp hact
      exact h.take ht hidle htake
    · exact nomatch hact
  | advance i now outcome =>
    simp only [Pool.act] at hact
    split at hact
    · next t ht =>
      obtain ⟨⟨t', servers⟩, hadvance, rfl⟩ := Option.map_eq_some_iff.mp hact
      exact h.advance ht hadvance
    · exact nomatch hact
  | serverExit p =>
    cases hact
    exact h.serverExit p

/-- Every run keeps the pool's invariant. -/
private theorem PoolInv.run (h : PoolInv pool) {actions : List PoolAction} {pool' : Pool}
    (hrun : pool.run actions = some pool') : PoolInv pool' := by
  induction actions generalizing pool with
  | nil =>
    cases hrun
    exact h
  | cons action actions ih =>
    unfold Pool.run at hrun
    split at hrun
    · next mid hact => exact ih (h.act hact) hrun
    · exact nomatch hrun

/-- A supervisor has one process at most that it has not let go. -/
private theorem PoolInv.owned (h : PoolInv pool) {i : Nat} {t : SupervisorTask}
    (ht : pool.tasks[i]? = some t) :
    ∃ live, Owned pool.servers i live ∧ (t.phase = .stopped → live = none) := by
  have htask := h.tasks i t ht
  -- In each phase the task's own invariant names the server it holds.
  unfold TaskInv at htask
  cases hphase : t.phase with
  | idle =>
    rw [hphase] at htask
    obtain ⟨a, -, -, howned⟩ := htask
    exact ⟨a.live, howned, fun h => nomatch h⟩
  | busy event rest =>
    rw [hphase] at htask
    obtain ⟨a, -, -, howned⟩ := htask
    exact ⟨a.live, howned, fun h => nomatch h⟩
  | starting event k rest =>
    rw [hphase] at htask
    obtain ⟨-, live, -, -, -, howned⟩ := htask
    exact ⟨live, howned, fun h => nomatch h⟩
  | stopped =>
    rw [hphase] at htask
    exact ⟨none, htask, fun _ => rfl⟩

end Pool

/-- In every run of the pool: of the processes that were started for a language, at most one is
    neither let go (handed to the shutdown escalation, or dropped after a failed start) nor that
    of a supervisor that `restart_language` has removed and is shutting down.  A supervisor has
    one such process at most, and none once it has stopped. -/
theorem one_server (adapters : List LanguageAdapter) (actions : List PoolAction) (pool : Pool)
    (hrun : (Pool.new adapters).run actions = some pool) :
    (∀ (p q : ServerId) (server server' : ServerProcess), pool.servers[p]? = some server →
      pool.servers[q]? = some server' → server.language = server'.language →
      server.released = false → server'.released = false →
      ¬ Leaving pool server.owner → ¬ Leaving pool server'.owner → p = q) ∧
    (∀ (p q : ServerId) (server server' : ServerProcess), pool.servers[p]? = some server →
      pool.servers[q]? = some server' → server.owner = server'.owner →
      server.released = false → server'.released = false → p = q) ∧
    ∀ (p : ServerId) (server : ServerProcess) (t : SupervisorTask),
      pool.servers[p]? = some server → pool.tasks[server.owner]? = some t →
      t.phase = .stopped → server.released = true := by
  -- By the run's invariant each task owns at most one live process.
  have h : PoolInv pool := (poolInv_new adapters).run hrun
  have hsame : ∀ (p q : ServerId) (server server' : ServerProcess),
      pool.servers[p]? = some server → pool.servers[q]? = some server' →
      server.owner = server'.owner → server.released = false → server'.released = false →
      p = q := by
    intro p q server server' hp hq howner hr hr'
    obtain ⟨t, ht, -⟩ := h.owners p server hp
    obtain ⟨live, howned, -⟩ := h.owned ht
    have hlive := howned p server hp rfl hr
    have hlive' := howned q server' hq howner.symm hr'
    exact Option.some.inj (hlive.symm.trans hlive')
  refine ⟨fun p q server server' hp hq hlanguage hr hr' hleaving hleaving' => ?_, hsame, ?_⟩
  · -- Both supervisors are that of the language in the map.
    obtain ⟨t, ht, hlang⟩ := h.owners p server hp
    obtain ⟨t', ht', hlang'⟩ := h.owners q server' hq
    have hplaced := (h.placed _ t ht).resolve_right hleaving
    have hplaced' := (h.placed _ t' ht').resolve_right hleaving'
    rw [hlang, hlanguage] at hplaced
    rw [hlang'] at hplaced'
    exact hsame p q server server' hp hq (Option.some.inj (hplaced.symm.trans hplaced')) hr hr'
  · -- A task that has stopped owns none.
    intro p server t hp ht hstopped
    obtain ⟨live, howned, hnone⟩ := h.owned ht
    cases hr : server.released with
    | true => rfl
    | false =>
      have hlive := howned p server hp rfl hr
      rw [hnone hstopped] at hlive
      exact nomatch hlive

/-- A caller gets a server, reports that it has timed out, and the restart timer fires while the
    server is being shut down. -/
def overlap : List PoolAction :=
  let advance := PoolAction.advance 0 7 (.ok ())
  [.supervisorFor "rust", .acquire 0, .take 0 (.msg .acquire)] ++ List.replicate 20 advance ++
    [.reportFailure 0 .timeout, .take 0 (.msg (.reportFailure .timeout))] ++
    List.replicate 10 advance ++ [.take 0 .timer] ++ List.replicate 5 advance

/-- The server that was handed over and the one that was started next are both running. -/
theorem servers_overlap : ∃ pool, (Pool.new (builtinAdapters [])).run overlap = some pool ∧
    pool.servers[0]? = some ⟨"rust", 0, true, true⟩ ∧
    pool.servers[1]? = some ⟨"rust", 0, true, false⟩ :=
  ⟨_, rfl, rfl, rfl⟩

/-- After that run the second server is the one that its supervisor has. -/
theorem one_server_overlap : ∃ pool, (Pool.new (builtinAdapters [])).run overlap = some pool ∧
    (∀ q server, pool.servers[q]? = some server → server.owner = 0 → server.released = false →
      1 = q) := by
  refine ⟨_, rfl, fun q server hq howner hr => ?_⟩
  exact (one_server (builtinAdapters []) overlap _ rfl).2.1 1 q _ server rfl hq howner.symm rfl hr

end Semnav.Query
