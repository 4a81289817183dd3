import Mathlib.Data.List.Basic
import Semnav.ForStd.Protocol
import Semnav.Lsp.Supervisor

/-!
# The supervisor's state machine

The fields of the supervisor are set in separate helpers, and between them it waits for a start
or for its records to be written.  An actor that handles any events, with any outcome of each
start, keeps the fields in step with its state.

## Key results

- `attemptStart_settles`: whatever comes of a start, it settles the state
- `handle_inv`: an event keeps the invariant
- `supervisor_invariant`: the fields and the records after every event
-/

namespace Semnav.Lsp

open Semnav.ForStd Supervisor

/-! ## The actor and what it leads to -/

/-- What led to a degraded state. -/
inductive Failure where
  /-- The runtime is missing. -/
  | provision
  /-- A failed spawn or handshake, a child that exited, or a reported failure. -/
  | anomaly
deriving DecidableEq

/-- What the state says of a failed start. -/
def StartError.failure : StartError → Failure
  | .provision _ => .provision
  | .spawnOrInit _ => .anomaly

/-- The supervisor with what it has recorded, what has failed last, and the process that it has
    started and neither dropped nor handed over. -/
structure SupervisorActor where
  sup : Supervisor
  recorded : String → Option String
  lastFailure : Option Failure
  live : Option ServerId

/-- The actor as it is spawned. -/
def SupervisorActor.spawn (language : String) (policy : RestartPolicy) : SupervisorActor :=
  ⟨.spawn language policy, fun _ => none, none, none⟩

/-- The servers that the fields belong to. -/
def heldServers (s : Supervisor) : List ServerId :=
  s.currentClient.toList ++ s.currentExit.toList ++ s.currentKeepalive.toList

/-- The fields belong to one server at most. -/
def HoldsOne (s : Supervisor) : Prop := ∀ a ∈ heldServers s, ∀ b ∈ heldServers s, a = b

/-- A meta write. -/
def SupervisorActor.write (a : SupervisorActor) (key value : String) : SupervisorActor :=
  { a with recorded := fun k => if k = key then some value else a.recorded k }

/-- The replies of a command: a start may have any outcome. -/
def SupervisorCmd.Replies {β : Type} (a : SupervisorActor) :
    SupervisorCmd β → β → SupervisorActor → Prop
  | .get, s, a' => s = a.sup ∧ a' = a
  | .update f, _, a' => a' = { a with sup := f a.sup }
  | .start, .ok server, a' => a' = { a with live := server.keepAlive }
  | .start, .error error, a' => a' = { a with lastFailure := some error.failure }
  | .recordMeta key value, _, a' => a' = a.write key value
  | .nowSecs, _, a' => a' = a
  | .spawnShutdown _, _, a' => a' = { a with live := none }
  | .shutdown _, _, a' => a' = { a with live := none }
  | .dropServer _, _, a' => a' = { a with live := none }

/-- What a command needs: a start that nothing is held; only the live process is shut down, and
    none is dropped. -/
def SupervisorCmd.Fits {β : Type} (a : SupervisorActor) : SupervisorCmd β → Prop
  | .start => heldServers a.sup = [] ∧ a.live = none
  | .spawnShutdown server => a.live = some server
  | .shutdown server => a.live = some server
  | .dropServer _ => False
  | _ => True

/-- What the supervisor keeps to: it holds one server at most whenever it issues a command. -/
def supervisorProtocol : Prog.Protocol SupervisorCmd SupervisorActor where
  replies := SupervisorCmd.Replies
  allowed a c := HoldsOne a.sup ∧ c.Fits a

/-- Does the event end the loop? -/
def SupervisorEvent.stops : SupervisorEvent → Bool
  | .msg .shutdown | .closed => true
  | _ => false

/-- An anomaly of a healthy server is a failure. -/
def SupervisorActor.begin (a : SupervisorActor) (event : SupervisorEvent) : SupervisorActor :=
  match event with
  | .childExit | .msg (.reportFailure _) =>
    if a.sup.state = .healthy then { a with lastFailure := some .anomaly } else a
  | _ => a

/-- The actor handles events, up to a shutdown. -/
inductive SupervisorRun (language : String) (policy : RestartPolicy) :
    List (SupervisorEvent × SupervisorReply) → SupervisorActor → Prop where
  | spawn : SupervisorRun language policy [] (.spawn language policy)
  | event {history : List (SupervisorEvent × SupervisorReply)} {a a' : SupervisorActor}
      {event : SupervisorEvent} {reply : SupervisorReply}
      (hrun : SupervisorRun language policy history a) (hready : event.Ready a.sup)
      (hstops : event.stops = false)
      (hsteps : Prog.Steps supervisorProtocol (handle event) (a.begin event) (pure reply) a') :
      SupervisorRun language policy (history ++ [(event, reply)]) a'

/-! ## The invariant -/

/-- What is recorded of the state. -/
structure Records (a : SupervisorActor) : Prop where
  status : a.recorded (a.sup.language ++ ".lsp_status") = some a.sup.state.asStr
  failures : a.recorded (a.sup.language ++ ".lsp_consecutive_failures") =
    some (toString a.sup.failures)
  lastSuccessAt : a.recorded (a.sup.language ++ ".lsp_last_success_at") =
    some (toString a.sup.lastSuccessAt)

/-- The fields that go with a state. -/
def Supervisor.Fields (s : Supervisor) (lastFailure : Option Failure) : Prop :=
  match s.state with
  | .notStarted => heldServers s = [] ∧ s.restartTimer = none ∧ s.failures = 0
  | .starting => False
  | .healthy => (∃ client, s.currentClient = some client) ∧ HoldsOne s ∧ s.failures = 0 ∧
      s.restartTimer = none
  | .restarting => heldServers s = [] ∧ s.restartTimer.isSome ∧ 1 ≤ s.failures ∧
      s.failures < s.policy.maxFailures
  | .down => heldServers s = [] ∧ (s.restartTimer.isSome ↔ lastFailure ≠ some .provision)

/-- The actor between two events. -/
structure SupervisorActor.Inv (language : String) (policy : RestartPolicy) (a : SupervisorActor) :
    Prop where
  language : a.sup.language = language
  policy : a.sup.policy = policy
  fields : a.sup.Fields a.lastFailure
  live : a.live = a.sup.currentKeepalive
  fresh : a.sup.state = .notStarted → a.recorded = fun _ => none
  records : a.sup.state ≠ .notStarted → Records a

/-! ## The helpers -/

/-- No server is held when no field holds one. -/
theorem heldServers_eq_nil {s : Supervisor} : heldServers s = [] ↔
    s.currentClient = none ∧ s.currentExit = none ∧ s.currentKeepalive = none := by
  simp [heldServers, Option.toList_eq_nil_iff]

/-- With no server held the fields agree. -/
theorem holdsOne_of_nil {s : Supervisor} (h : heldServers s = []) : HoldsOne s := by
  intro a ha
  rw [h] at ha
  exact absurd ha List.not_mem_nil

/-- The state with nothing held. -/
def Supervisor.cleared (s : Supervisor) : Supervisor :=
  { s with currentClient := none, currentExit := none, currentKeepalive := none }

/-- One failure more leads to a degraded state, with a timer. -/
theorem afterFailure_spec {s : Supervisor} (hheld : heldServers s = []) :
    heldServers (afterFailure s) = [] ∧ (afterFailure s).Fields (some .anomaly) ∧
      ((afterFailure s).state = .down ∨ (afterFailure s).state = .restarting) ∧
      (afterFailure s).language = s.language ∧ (afterFailure s).policy = s.policy := by
  -- At the limit of failures the supervisor goes down; below it a restart is scheduled.
  by_cases hmax : min (s.failures + 1) (2 ^ 32 - 1) ≥ s.policy.maxFailures
  · have hdown : afterFailure s = { s with
        failures := min (s.failures + 1) (2 ^ 32 - 1)
        state := .down
        restartTimer := some s.policy.downRetry } := if_pos hmax
    rw [hdown]
    exact ⟨hheld, ⟨hheld, by simp⟩, .inl rfl, rfl, rfl⟩
  · have hrestarting : afterFailure s = { s with
        failures := min (s.failures + 1) (2 ^ 32 - 1)
        state := .restarting
        restartTimer := some (s.policy.nthBackoff (min (s.failures + 1) (2 ^ 32 - 1) - 1)) } :=
      if_neg hmax
    rw [hrestarting]
    refine ⟨hheld, ⟨hheld, rfl, ?_, ?_⟩, .inr rfl, rfl, rfl⟩
    · show 1 ≤ min (s.failures + 1) (2 ^ 32 - 1)
      omega
    · exact Nat.lt_of_not_ge hmax

/-- The actor after its state was recorded. -/
def SupervisorActor.record (a : SupervisorActor) : SupervisorActor :=
  ((a.write (a.sup.language ++ ".lsp_status") a.sup.state.asStr).write
    (a.sup.language ++ ".lsp_consecutive_failures") (toString a.sup.failures)).write
    (a.sup.language ++ ".lsp_last_success_at") (toString a.sup.lastSuccessAt)

/-- Recording the state records it. -/
private theorem SupervisorActor.record_records (a : SupervisorActor) : Records a.record := by
  constructor
  · simp [record, write, String.append_right_inj]
  · simp [record, write, String.append_right_inj]
  · simp [record, write]

section Helpers

variable {a : SupervisorActor}

/-- A command that may be issued now, with its one reply. -/
theorem obeys_command {α β : Type} {c : SupervisorCmd β} {f : β → SupervisorM α}
    {Q : α → SupervisorActor → Prop} (hone : HoldsOne a.sup) (hfits : c.Fits a)
    (hf : ∀ b a', c.Replies a b a' → Prog.Obeys supervisorProtocol Q (f b) a') :
    Prog.Obeys supervisorProtocol Q (Prog.perform c >>= f) a :=
  ⟨⟨hone, hfits⟩, hf⟩

/-- `record_state` publishes what it computes. -/
theorem recordState_obeys (hone : HoldsOne a.sup) :
    Prog.Obeys supervisorProtocol (fun _ a' => a' = a.record) recordState a := by
  refine obeys_command hone trivial fun s a' hget => ?_
  obtain ⟨rfl, rfl⟩ := hget
  refine obeys_command hone trivial fun _ a₁ h₁ => ?_
  subst h₁
  refine obeys_command hone trivial fun _ a₂ h₂ => ?_
  subst h₂
  refine .perform ⟨hone, trivial⟩ fun _ a₃ h₃ => ?_
  subst h₃
  rfl

/-- A graceful drop shuts down the server that is held and clears the fields. -/
private theorem dropCurrentGracefully_obeys (hone : HoldsOne a.sup)
    (hlive : a.live = a.sup.currentKeepalive) :
    Prog.Obeys supervisorProtocol
      (fun _ a' => a' = { a with sup := a.sup.cleared, live := none }) dropCurrentGracefully a := by
  refine obeys_command hone trivial fun s a' hget => ?_
  obtain ⟨rfl, rfl⟩ := hget
  refine obeys_command hone trivial fun _ a₁ h₁ => ?_
  subst h₁
  cases hkeep : a'.sup.currentKeepalive with
  | none =>
    have hnone : a'.live = none := hlive.trans hkeep
    exact congrArg (fun l => ({ a' with sup := a'.sup.cleared, live := l } : SupervisorActor)) hnone
  | some server =>
    refine .perform ⟨holdsOne_of_nil rfl, hlive.trans hkeep⟩ fun _ a₂ h₂ => ?_
    exact h₂

/-- After an anomaly or a failed start. -/
theorem transitionAfterAnomaly_obeys (hone : HoldsOne a.sup)
    (hlive : a.live = a.sup.currentKeepalive) :
    Prog.Obeys supervisorProtocol (fun _ a' => a' = SupervisorActor.record
      { a with sup := afterFailure a.sup.cleared, live := none }) transitionAfterAnomaly a := by
  have hheld : HoldsOne (afterFailure a.sup.cleared) :=
    holdsOne_of_nil (afterFailure_spec rfl).1
  refine (dropCurrentGracefully_obeys hone hlive).bind fun _ a₁ h₁ => ?_
  subst h₁
  refine obeys_command (holdsOne_of_nil rfl) trivial fun _ a₂ h₂ => ?_
  subst h₂
  exact recordState_obeys hheld

/-- The state with a freshly started server. -/
def Supervisor.withServer (s : Supervisor) (server : StartedServer) (now : Int) : Supervisor :=
  { s with
    currentClient := some server.client
    currentExit := some server.exit
    currentKeepalive := server.keepAlive
    state := .healthy
    failures := 0
    lastSuccessAt := now }

/-- After a start all fields hold the one server. -/
private theorem holdsOne_withServer (s : Supervisor) (server : StartedServer) (now : Int) :
    HoldsOne (s.withServer server now) := by
  have hserver : ∀ p ∈ heldServers (s.withServer server now), p = server.client := by
    intro p hp
    simp only [heldServers, withServer, List.mem_append, Option.mem_toList,
      Option.some.injEq] at hp
    rcases hp with (rfl | rfl) | hp
    · rfl
    · exact server.same.1
    · exact server.same.2 p hp
  intro p hp q hq
  exact (hserver p hp).trans (hserver q hq).symm

/-- A start settles only where no server is held. -/
private theorem setHealthy_obeys {server : StartedServer} (hheld : heldServers a.sup = []) :
    Prog.Obeys supervisorProtocol (fun client a' => client = server.client ∧
      ∃ now, a' = { a with sup := a.sup.withServer server now }) (setHealthy server) a := by
  refine obeys_command (holdsOne_of_nil hheld) trivial fun s a' hget => ?_
  obtain ⟨rfl, rfl⟩ := hget
  refine obeys_command (holdsOne_of_nil hheld) trivial fun _ a₁ h₁ => ?_
  subst h₁
  rw [(heldServers_eq_nil.mp hheld).2.2]
  have hone := holdsOne_withServer a'.sup server a'.sup.lastSuccessAt
  refine obeys_command hone trivial fun now a₂ h₂ => ?_
  subst h₂
  refine obeys_command hone trivial fun _ a₃ h₃ => ?_
  subst h₃
  exact ⟨rfl, now, rfl⟩

/-- Without a server a drop only clears. -/
private theorem dropCurrent_obeys (hheld : heldServers a.sup = []) :
    Prog.Obeys supervisorProtocol (fun _ a' => a' = { a with sup := a.sup.cleared })
      dropCurrent a := by
  refine obeys_command (holdsOne_of_nil hheld) trivial fun s a' hget => ?_
  obtain ⟨rfl, rfl⟩ := hget
  refine obeys_command (holdsOne_of_nil hheld) trivial fun _ a₁ h₁ => ?_
  subst h₁
  rw [(heldServers_eq_nil.mp hheld).2.2]
  rfl

/-- What a start says of the state that it leads to. -/
def StartOutcome.Settles (s : Supervisor) : StartOutcome → Prop
  | .started client => s.state = .healthy ∧ s.currentClient = some client
  | .provisionFailed => s.state = .down
  | .spawnOrInitFailed => s.state = .down ∨ s.state = .restarting

/-- The actor after an anomaly or a failed start. -/
theorem degraded_inv {s : Supervisor} (hheld : heldServers s = []) (recorded : String → Option String) :
    (SupervisorActor.record ⟨afterFailure s, recorded, some .anomaly, none⟩).Inv s.language
      s.policy := by
  obtain ⟨hnil, hfields, hstate, hlanguage, hpolicy⟩ := afterFailure_spec hheld
  refine ⟨hlanguage, hpolicy, hfields, (heldServers_eq_nil.mp hnil).2.2.symm, ?_,
    fun _ => SupervisorActor.record_records _⟩
  intro hfresh
  cases hstate with
  | inl h => exact nomatch hfresh.symm.trans h
  | inr h => exact nomatch hfresh.symm.trans h

/-- Whatever comes of a start, it settles the state. -/
private theorem attemptStart_settles (hheld : heldServers a.sup = []) (hlive : a.live = none)
    (htimer : a.sup.restartTimer = none) :
    Prog.Obeys supervisorProtocol (fun outcome a' =>
      a'.Inv a.sup.language a.sup.policy ∧ outcome.Settles a'.sup) attemptStart a := by
  refine obeys_command (holdsOne_of_nil hheld) ⟨hheld, hlive⟩ fun res a₁ h₁ => ?_
  cases res with
  | ok server =>
    have hone := fun now => holdsOne_withServer a.sup server now
    subst h₁
    refine (setHealthy_obeys (a := { a with live := server.keepAlive }) hheld).bind
      fun client a₂ h₂ => ?_
    obtain ⟨rfl, now, rfl⟩ := h₂
    refine (recordState_obeys (hone now)).bind fun _ a₃ h₃ => ?_
    subst h₃
    refine ⟨⟨rfl, rfl, ?_, rfl, fun h => (nomatch h), fun _ => SupervisorActor.record_records _⟩,
      rfl, rfl⟩
    exact ⟨⟨_, rfl⟩, hone now, rfl, htimer⟩
  | error error =>
    cases error with
    | provision msg =>
      subst h₁
      refine (dropCurrent_obeys (a := { a with lastFailure := some .provision }) hheld).bind
        fun _ a₂ h₂ => ?_
      subst h₂
      refine obeys_command (holdsOne_of_nil rfl) trivial fun _ a₃ h₃ => ?_
      subst h₃
      refine (recordState_obeys (holdsOne_of_nil rfl)).bind fun _ a₄ h₄ => ?_
      subst h₄
      refine ⟨⟨rfl, rfl, ⟨rfl, ?_⟩, hlive, fun h => (nomatch h),
        fun _ => SupervisorActor.record_records _⟩, rfl⟩
      -- No timer, and the failure is that of the provisioning.
      simp [SupervisorActor.record, SupervisorActor.write]
    | spawnOrInit msg =>
      subst h₁
      have hkeep := (heldServers_eq_nil.mp hheld).2.2
      refine (transitionAfterAnomaly_obeys (a := { a with lastFailure := some .anomaly })
        (holdsOne_of_nil hheld) (hlive.trans hkeep.symm)).bind fun _ a₂ h₂ => ?_
      subst h₂
      exact ⟨degraded_inv (s := a.sup.cleared) rfl _, (afterFailure_spec rfl).2.2.1⟩

end Helpers

/-! ## The events -/

section Events

variable {language : String} {policy : RestartPolicy} {a : SupervisorActor}

/-- The invariant has at most one server held. -/
theorem SupervisorActor.Inv.holdsOne (h : a.Inv language policy) : HoldsOne a.sup := by
  have hfields := h.fields
  unfold Supervisor.Fields at hfields
  split at hfields
  · exact holdsOne_of_nil hfields.1
  · exact hfields.elim
  · exact hfields.2.1
  · exact holdsOne_of_nil hfields.1
  · exact holdsOne_of_nil hfields.1

/-- What an answer says of the state: a client is that of a healthy server.  The loop goes on. -/
def SupervisorReply.Fits (s : Supervisor) : SupervisorReply → Prop
  | .acquired (.ok client) => s.state = .healthy ∧ s.currentClient = some client
  | .stopped => False
  | _ => True

/-- A child that exited, or a reported failure. -/
private theorem anomalyIfHealthy_obeys (h : a.Inv language policy) {event : SupervisorEvent}
    (hevent : a.begin event =
      if a.sup.state = .healthy then { a with lastFailure := some .anomaly } else a) :
    Prog.Obeys supervisorProtocol (fun _ a' => a'.Inv language policy) anomalyIfHealthy
      (a.begin event) := by
  rw [hevent]
  -- Only a healthy server's anomaly counts.
  by_cases hhealthy : a.sup.state = .healthy
  · rw [if_pos hhealthy]
    refine obeys_command (a := { a with lastFailure := some .anomaly }) h.holdsOne trivial
      fun s a₁ h₁ => ?_
    obtain ⟨rfl, rfl⟩ := h₁
    rw [if_pos hhealthy]
    refine (transitionAfterAnomaly_obeys (a := { a with lastFailure := some .anomaly }) h.holdsOne
      h.live).mono fun _ a₂ h₂ => ?_
    -- The transition drops the server and counts one failure more.
    subst h₂
    rw [← h.language, ← h.policy]
    exact degraded_inv (s := a.sup.cleared) rfl _
  · rw [if_neg hhealthy]
    refine obeys_command h.holdsOne trivial fun s a₁ h₁ => ?_
    obtain ⟨rfl, rfl⟩ := h₁
    rw [if_neg hhealthy]
    exact h

/-- A timer is armed in a degraded state only. -/
private theorem SupervisorActor.Inv.of_timer (h : a.Inv language policy)
    (htimer : a.sup.restartTimer.isSome) :
    heldServers a.sup = [] ∧ a.live = none := by
  have hnone : ∀ {p : Prop}, a.sup.restartTimer = none → p := by
    intro p hn
    rw [hn] at htimer
    exact nomatch htimer
  have hheld : heldServers a.sup = [] := by
    have hfields := h.fields
    unfold Supervisor.Fields at hfields
    split at hfields
    · exact hfields.1
    · exact hfields.elim
    · exact hnone hfields.2.2.2
    · exact hfields.1
    · exact hfields.1
  exact ⟨hheld, h.live.trans (heldServers_eq_nil.mp hheld).2.2⟩

/-- The restart timer keeps the invariant. -/
private theorem timer_obeys (h : a.Inv language policy) (htimer : a.sup.restartTimer.isSome) :
    Prog.Obeys supervisorProtocol (fun reply a' => a'.Inv language policy ∧ reply.Fits a'.sup)
      (handle .timer) a := by
  obtain ⟨hheld, hlive⟩ := h.of_timer htimer
  refine obeys_command h.holdsOne trivial fun _ a₁ h₁ => ?_
  subst h₁
  refine Prog.Obeys.bind (Q := fun _ a' => a'.Inv language policy) ?_ fun _ a₂ h₂ => ⟨h₂, trivial⟩
  refine (attemptStart_settles (a := { a with sup := { a.sup with restartTimer := none } })
    hheld hlive rfl).bind fun _ a₂ h₂ => ?_
  rw [← h.language, ← h.policy]
  exact h₂.1

/-- A start keeps the invariant. -/
private theorem startAndSettle_obeys (hheld : heldServers a.sup = []) (hlive : a.live = none)
    (htimer : a.sup.restartTimer = none) :
    Prog.Obeys supervisorProtocol (fun res a' => a'.Inv a.sup.language a.sup.policy ∧
      (SupervisorReply.acquired res).Fits a'.sup) startAndSettle a := by
  refine (attemptStart_settles hheld hlive htimer).bind fun outcome a₁ h₁ => ?_
  obtain ⟨hinv, hsettles⟩ := h₁
  -- A failed start leaves the settled state behind, whose fields decide the reply.
  cases outcome with
  | started client => exact ⟨hinv, hsettles⟩
  | provisionFailed =>
    refine obeys_command hinv.holdsOne trivial fun s a₂ h₂ => ?_
    obtain ⟨rfl, rfl⟩ := h₂
    exact ⟨hinv, trivial⟩
  | spawnOrInitFailed =>
    refine obeys_command hinv.holdsOne trivial fun s a₂ h₂ => ?_
    obtain ⟨rfl, rfl⟩ := h₂
    -- The reply says whether the failures have reached the limit.
    by_cases hdown : a₂.sup.state = .down
    · rw [if_pos hdown]
      exact ⟨hinv, trivial⟩
    · rw [if_neg hdown]
      exact ⟨hinv, trivial⟩

/-- A client's request keeps the invariant, and is answered what the state says. -/
private theorem handleAcquire_obeys (h : a.Inv language policy) :
    Prog.Obeys supervisorProtocol (fun res a' => a'.Inv language policy ∧
      (SupervisorReply.acquired res).Fits a'.sup) handleAcquire a := by
  have hfields := h.fields
  refine obeys_command h.holdsOne trivial fun s a₁ h₁ => ?_
  obtain ⟨rfl, rfl⟩ := h₁
  -- Only a supervisor that did not start yet starts a server here.
  cases hstate : a₁.sup.state with
  | healthy =>
    simp only [Supervisor.Fields, hstate] at hfields
    obtain ⟨⟨client, hclient⟩, -⟩ := hfields
    rw [hclient]
    exact ⟨h, hstate, hclient⟩
  | restarting => exact ⟨h, trivial⟩
  | down => exact ⟨h, trivial⟩
  | starting => exact ⟨h, trivial⟩
  | notStarted =>
    simp only [Supervisor.Fields, hstate] at hfields
    obtain ⟨hheld, htimer, -⟩ := hfields
    -- It holds no server, so none is alive and the new one is alone.
    have hlive : a₁.live = none := h.live.trans (heldServers_eq_nil.mp hheld).2.2
    refine obeys_command h.holdsOne trivial fun _ a₂ h₂ => ?_
    subst h₂
    refine (recordState_obeys (a := { a₁ with sup := { a₁.sup with state := .starting } })
      h.holdsOne).bind fun _ a₃ h₃ => ?_
    subst h₃
    rw [← h.language, ← h.policy]
    exact startAndSettle_obeys (a := SupervisorActor.record
      { a₁ with sup := { a₁.sup with state := .starting } }) hheld hlive htimer

/-- An event keeps the invariant. -/
theorem handle_inv (h : a.Inv language policy) {event : SupervisorEvent}
    (hready : event.Ready a.sup) (hstops : event.stops = false) :
    Prog.Obeys supervisorProtocol (fun reply a' => a'.Inv language policy ∧ reply.Fits a'.sup)
      (handle event) (a.begin event) := by
  cases event with
  | childExit => exact (anomalyIfHealthy_obeys h rfl).bind fun _ a' h' => ⟨h', trivial⟩
  | timer => exact timer_obeys h hready
  | closed => exact nomatch hstops
  | msg m =>
    cases m with
    | acquire => exact (handleAcquire_obeys h).bind fun res a' h' => h'
    | reportFailure kind => exact (anomalyIfHealthy_obeys h rfl).bind fun _ a' h' => ⟨h', trivial⟩
    | shutdown => exact nomatch hstops

/-- A shutdown leaves no process behind. -/
private theorem shutdownGraceful_obeys (h : a.Inv language policy) :
    Prog.Obeys supervisorProtocol (fun _ a' => a'.live = none) shutdownGraceful a := by
  refine obeys_command h.holdsOne trivial fun s a₁ h₁ => ?_
  obtain ⟨rfl, rfl⟩ := h₁
  refine obeys_command h.holdsOne trivial fun _ a₂ h₂ => ?_
  subst h₂
  -- Giving up the keepalive takes away a server and adds none.
  have hone : HoldsOne { a₁.sup with currentKeepalive := none } := by
    intro p hp q hq
    refine h.holdsOne p ?_ q ?_
    · simp only [heldServers, Option.toList_none, List.append_nil] at hp
      exact List.mem_append_left _ hp
    · simp only [heldServers, Option.toList_none, List.append_nil] at hq
      exact List.mem_append_left _ hq
  -- The server that was kept is stopped, or there was none.
  cases hkeep : a₁.sup.currentKeepalive with
  | none =>
    refine .perform ⟨hone, trivial⟩ fun _ a₃ h₃ => ?_
    subst h₃
    exact h.live.trans hkeep
  | some server =>
    refine obeys_command hone (h.live.trans hkeep) fun _ a₃ h₃ => ?_
    subst h₃
    refine .perform ⟨hone, trivial⟩ fun _ a₄ h₄ => ?_
    subst h₄
    rfl

/-- What an event leaves: the loop goes on, or has stopped and left nothing behind. -/
def SupervisorEvent.Leaves (language : String) (policy : RestartPolicy) (event : SupervisorEvent)
    (reply : SupervisorReply) (a : SupervisorActor) : Prop :=
  if event.stops then reply = .stopped ∧ a.live = none
  else a.Inv language policy ∧ reply.Fits a.sup

/-- Every event leaves the supervisor in its invariant. -/
theorem handle_leaves (h : a.Inv language policy) {event : SupervisorEvent}
    (hready : event.Ready a.sup) : Prog.Obeys supervisorProtocol (event.Leaves language policy)
      (handle event) (a.begin event) := by
  cases hstops : event.stops with
  | false =>
    refine (handle_inv h hready hstops).mono fun reply a' h' => ?_
    rw [SupervisorEvent.Leaves, hstops]
    exact h'
  | true =>
    have hstopped : ∀ a', a'.live = none → event.Leaves language policy .stopped a' := by
      intro a' h'
      rw [SupervisorEvent.Leaves, hstops]
      exact ⟨rfl, h'⟩
    -- Only a shutdown and a closed channel stop the actor, and both shut it down.
    cases event with
    | childExit | timer => exact nomatch hstops
    | closed => exact (shutdownGraceful_obeys h).bind fun _ a' h' => hstopped a' h'
    | msg m =>
      cases m with
      | acquire | reportFailure => exact nomatch hstops
      | shutdown => exact (shutdownGraceful_obeys h).bind fun _ a' h' => hstopped a' h'

end Events

/-! ## Every run -/

section Run

variable {language : String} {policy : RestartPolicy}
  {history : List (SupervisorEvent × SupervisorReply)} {a : SupervisorActor}

/-- The spawned actor has the invariant. -/
theorem spawn_inv : (SupervisorActor.spawn language policy).Inv language policy where
  language := rfl
  policy := rfl
  fields := ⟨rfl, rfl, rfl⟩
  live := rfl
  fresh := fun _ => rfl
  records := fun h => absurd rfl h

/-- Every actor of a run has the invariant. -/
theorem SupervisorRun.inv (hrun : SupervisorRun language policy history a) :
    a.Inv language policy ∧
      ∀ event reply, history.getLast? = some (event, reply) → reply.Fits a.sup := by
  induction hrun with
  | spawn => exact ⟨spawn_inv, fun _ _ h => nomatch h⟩
  | event hrun hready hstops hsteps ih =>
    obtain ⟨hinv, hfits⟩ := hsteps.obeys (handle_inv ih.1 hready hstops)
    refine ⟨hinv, fun event reply hlast => ?_⟩
    rw [List.getLast?_concat] at hlast
    cases hlast
    exact hfits

/-- While an event is handled the supervisor holds one server at most. -/
private theorem SupervisorRun.holdsOne_within (hrun : SupervisorRun language policy history a)
    {event : SupervisorEvent} (hready : event.Ready a.sup) (hstops : event.stops = false)
    {rest : SupervisorM SupervisorReply} {a' : SupervisorActor}
    (hsteps : Prog.Steps supervisorProtocol (handle event) (a.begin event) rest a') :
    HoldsOne a'.sup := by
  have hrest := hsteps.obeys (handle_inv hrun.inv.1 hready hstops)
  cases rest with
  | pure reply => exact hrest.1.holdsOne
  | op c k => exact hrest.1.1

end Run

/-- After every event that a supervisor handles, its fields and records are those of its state;
    and at any time it holds one server at most. -/
theorem supervisor_invariant {language : String} {policy : RestartPolicy}
    {history : List (SupervisorEvent × SupervisorReply)} {a : SupervisorActor}
    (hrun : SupervisorRun language policy history a) :
    (a.sup.state = .healthy ↔ a.sup.currentClient.isSome) ∧
    (a.sup.state = .healthy → a.sup.failures = 0 ∧ a.sup.restartTimer = none) ∧
    (a.sup.state = .restarting → a.sup.restartTimer.isSome ∧ 1 ≤ a.sup.failures ∧
      a.sup.failures < policy.maxFailures ∧ a.sup.currentClient = none) ∧
    (a.sup.state = .down → a.sup.currentClient = none ∧
      (a.sup.restartTimer.isSome ↔ a.lastFailure ≠ some .provision)) ∧
    (HoldsOne a.sup ∧ ∀ event rest a', event.Ready a.sup → event.stops = false →
      Prog.Steps supervisorProtocol (handle event) (a.begin event) rest a' → HoldsOne a'.sup) ∧
    (∀ client, history.getLast? = some (.msg .acquire, .acquired (.ok client)) →
      a.sup.state = .healthy ∧ a.sup.currentClient = some client) ∧
    (∀ value, a.recorded (language ++ ".lsp_status") = some value →
      value = a.sup.state.asStr ∧
      a.recorded (language ++ ".lsp_consecutive_failures") = some (toString a.sup.failures)) := by
  obtain ⟨h, hanswer⟩ := hrun.inv
  have hfields := h.fields
  have hclient : heldServers a.sup = [] → a.sup.currentClient = none :=
    fun hheld => (heldServers_eq_nil.mp hheld).1
  -- One bullet a conjunct; the first four read the fields of the state.
  refine ⟨?_, ?_, ?_, ?_, ⟨h.holdsOne, ?_⟩, ?_, ?_⟩
  · cases hstate : a.sup.state with
    | healthy =>
      simp only [Supervisor.Fields, hstate] at hfields
      obtain ⟨⟨client, hsome⟩, -⟩ := hfields
      simp [hsome]
    | starting =>
      simp only [Supervisor.Fields, hstate] at hfields
    | notStarted | restarting | down =>
      simp only [Supervisor.Fields, hstate] at hfields
      simp [hclient hfields.1]
  · intro hstate
    simp only [Supervisor.Fields, hstate] at hfields
    exact hfields.2.2
  · intro hstate
    simp only [Supervisor.Fields, hstate, h.policy] at hfields
    obtain ⟨hheld, htimer, hone, hmax⟩ := hfields
    exact ⟨htimer, hone, hmax, hclient hheld⟩
  · intro hstate
    simp only [Supervisor.Fields, hstate] at hfields
    exact ⟨hclient hfields.1, hfields.2⟩
  · intro event rest a' hready hstops hsteps
    exact hrun.holdsOne_within hready hstops hsteps
  · intro client hlast
    exact hanswer _ _ hlast
  · -- A record that was read was written by the state before, unless nothing was written yet.
    intro value hvalue
    by_cases hstate : a.sup.state = .notStarted
    · rw [h.fresh hstate] at hvalue
      exact nomatch hvalue
    · obtain ⟨hstatus, hfailures, -⟩ := h.records hstate
      rw [h.language] at hstatus hfailures
      exact ⟨Option.some.inj (hvalue.symm.trans hstatus), hfailures⟩

/-- Starts succeed, at one time. -/
def SupervisorCmd.succeed {β : Type} :
    SupervisorCmd β → SupervisorActor → Except String β × SupervisorActor
  | .get, a => (.ok a.sup, a)
  | .update f, a => (.ok (), { a with sup := f a.sup })
  | .start, a => (.ok (.ok ⟨0, 0, some 0, rfl, fun _ h => (Option.some.inj h).symm⟩),
      { a with live := some 0 })
  | .recordMeta key value, a => (.ok (), a.write key value)
  | .nowSecs, a => (.ok 7, a)
  | .spawnShutdown _, a => (.ok (), { a with live := none })
  | .shutdown _, a => (.ok (), { a with live := none })
  | .dropServer _, a => (.ok (), { a with live := none })

/-- A command that is carried out replies as the protocol allows. -/
theorem succeed_replies {β : Type} (c : SupervisorCmd β) (a a' : SupervisorActor) (b : β)
    (h : c.succeed a = (.ok b, a')) : c.Replies a b a' := by
  cases c <;> cases h <;> first | rfl | exact ⟨rfl, rfl⟩

/-- A lazy start, and an anomaly. -/
theorem supervisor_invariant_restart :
    ∃ a, SupervisorRun "rust" .defaultReal [(.msg .acquire, .acquired (.ok 0)),
        (.msg (.reportFailure .timeout), .reported)] a ∧
      a.sup.state = .restarting ∧ a.sup.restartTimer = some 1000 ∧
      (a.sup.state = .healthy ↔ a.sup.currentClient.isSome) := by
  have hacquire : SupervisorRun "rust" .defaultReal [(.msg .acquire, .acquired (.ok 0))] _ :=
    .event .spawn trivial rfl (Prog.Steps.of_run (h := SupervisorCmd.succeed) succeed_replies rfl)
  have hrun : SupervisorRun "rust" .defaultReal [(.msg .acquire, .acquired (.ok 0)),
      (.msg (.reportFailure .timeout), .reported)] _ :=
    .event hacquire trivial rfl (Prog.Steps.of_run (h := SupervisorCmd.succeed) succeed_replies rfl)
  exact ⟨_, hrun, rfl, rfl, (supervisor_invariant hrun).1⟩

end Semnav.Lsp
