import Semnav.Lsp.Client
import Semnav.Spec.SupervisorState

/-!
# The clients that a supervisor hands out

The actor of a client ends with its stream, and its requests fail or time out, while the process
that it talks to lives on.  The supervisor learns of that by what is reported to it, and by the
exit of the process.  A supervisor is observed here with the clients of the servers that it has
started, whose actors go on while it handles an event.

## Key results

- `ClientRun.step`: the steps here are those of the client's runs
- `ClientStep.alive`: what a client's actor survives
- `handle_hands`: the client that the supervisor holds is the one that was handed over last
- `acquire_hands_running`: what an acquire hands out when trouble is reported
- `acquire_hands_dead`: trouble that nobody reports
-/

namespace Semnav.Lsp

open Semnav.ForStd Supervisor

/-! ## What happens to a client -/

/-- A step of a client, and who takes it. -/
inductive ClientAction where
  | request (method : String) (params : Option Json)
  | notify (method : String) (params : Option Json)
  /-- The actor receives an input. -/
  | receive (input : Input)
  /-- A requester gives up at its deadline. -/
  | timeout (channel : Channel)
  /-- A command is refused, since the actor has ended. -/
  | refused

/-- A communication error, a response timeout, or the end of the actor. -/
def ClientAction.trouble : ClientAction → Bool
  | .request .. | .notify .. => false
  | .receive (.inbound (some (.message _))) | .receive (.cmd (some _) (.ok ())) => false
  | .receive _ => true
  | .timeout _ | .refused => true

/-- A step of a client, its callers included. -/
inductive ClientStep (c : Client) : ClientAction → Client → Prop where
  | request (method : String) (params : Option Json) (halive : c.actor.alive = true)
      (hroom : c.cmds.length < cmdCapacity) :
      ClientStep c (.request method params)
        { c with
          cmds := c.cmds ++ [.request method params c.nextChannel]
          nextChannel := c.nextChannel + 1 }
  | notify (method : String) (params : Option Json) (halive : c.actor.alive = true)
      (hroom : c.cmds.length < cmdCapacity) :
      ClientStep c (.notify method params) { c with cmds := c.cmds ++ [.notify method params] }
  | receive {input : Input} {cmds : List Cmd} (halive : c.actor.alive = true)
      (hoffers : Offers c.cmds input cmds) : ClientStep c (.receive input) (c.advance input cmds)
  | timeout {channel : Channel} (hasked : channel < c.nextChannel)
      (hwaits : c.receivers channel = .waiting) :
      ClientStep c (.timeout channel)
        { c with receivers := fun ch => if ch = channel then .dropped else c.receivers ch }
  | refused (hended : c.actor.alive = false) : ClientStep c .refused c

section Clients

variable {c c' : Client} {action : ClientAction}

/-- A client that takes a step is still one of a run of the client model. -/
theorem ClientRun.step {inputs : List Input} {effects : List Effect}
    (h : ClientRun inputs effects c) (hstep : ClientStep c action c') :
    ∃ inputs' effects', ClientRun inputs' effects' c' := by
  cases hstep with
  | request method params halive hroom => exact ⟨_, _, h.request method params halive hroom⟩
  | notify method params halive hroom => exact ⟨_, _, h.notify method params halive hroom⟩
  | receive halive hoffers => exact ⟨_, _, h.actor halive hoffers⟩
  | timeout hasked hwaits => exact ⟨_, _, h.giveUp hasked hwaits⟩
  | refused hended => exact ⟨_, _, h⟩

/-- The actor survives a step without trouble. -/
private theorem ClientStep.alive (hstep : ClientStep c action c') (halive : c.actor.alive = true)
    (hcalm : action.trouble = false) : c'.actor.alive = true := by
  cases hstep with
  | request | notify | timeout | refused => exact halive
  | @receive input cmds _ _ =>
    show (actorLoop c.actor input).1.alive = true
    -- A message or a command that is written keeps the actor going; the other inputs count as
    -- trouble.
    have hstays : (actorStep c.actor input).1.alive = true := by
      cases input with
      | inbound event =>
        cases event with
        | none => exact nomatch hcalm
        | some event =>
          cases event with
          | message msg => exact halive
          | eof | failed => exact nomatch hcalm
      | cmd cmd written =>
        cases cmd with
        | none => exact nomatch hcalm
        | some cmd =>
          cases written with
          | error e => exact nomatch hcalm
          | ok u => cases cmd <;> exact halive
    rw [actorLoop]
    simp only [hstays, if_true]

end Clients

/-! ## A supervisor with its clients -/

/-- The server that a reply hands over. -/
def SupervisorCmd.hands {β : Type} : SupervisorCmd β → β → Option StartedServer
  | .start, .ok server => some server
  | _, _ => none

/-- A report, or the exit of a child. -/
def SupervisorEvent.reports : SupervisorEvent → Bool
  | .childExit | .msg (.reportFailure _) => true
  | _ => false

/-- A supervisor with what it is handling, its servers' clients, and the one that it handed out
    last. -/
structure Supervised where
  actor : SupervisorActor
  /-- The event that is being handled, and what is left to do. -/
  handling : Option (SupervisorEvent × SupervisorM SupervisorReply)
  /-- Of the servers that were started. -/
  clients : ServerId → Option Client
  /-- The server that was started last, up to a report. -/
  watched : Option ServerId
  /-- Its client has had trouble. -/
  unreported : Bool
  /-- The current client has had trouble, and the supervisor has not left `Healthy` since. -/
  due : Bool

/-- What happens to a supervisor or to one of the clients. -/
inductive SupervisedEvent where
  | take (event : SupervisorEvent)
  /-- The supervisor goes on with a command that hands nothing over. -/
  | command
  /-- The factory hands a server over, with its client. -/
  | started (server : StartedServer) (client : Client)
  /-- The event is handled; if it was an `acquire`, that is answered. -/
  | finish
  | client (server : ServerId) (action : ClientAction)

namespace Supervised

/-- Before the first event. -/
def spawn (language : String) (policy : RestartPolicy) : Supervised :=
  ⟨.spawn language policy, none, fun _ => none, none, false, false⟩

/-- The supervisor after a command. -/
def goOn (s : Supervised) (event : SupervisorEvent) (rest : SupervisorM SupervisorReply)
    (a : SupervisorActor) : Supervised :=
  { s with
    actor := a
    handling := some (event, rest)
    due := s.due && decide (a.sup.state = .healthy) }

/-- A step of the supervisor, or of a client. -/
inductive Step (s : Supervised) : SupervisedEvent → Supervised → Prop where
  | take {event : SupervisorEvent} (hidle : s.handling = none) (hready : event.Ready s.actor.sup)
      (hstops : event.stops = false) :
      Step s (.take event)
        { s with actor := s.actor.begin event, handling := some (event, handle event) }
  | command {β : Type} {event : SupervisorEvent} {c : SupervisorCmd β}
      {k : β → SupervisorM SupervisorReply} {b : β} {a : SupervisorActor}
      (hbusy : s.handling = some (event, .op c k)) (hreply : c.Replies s.actor b a)
      (hhands : c.hands b = none) : Step s .command (s.goOn event (k b) a)
  | started {β : Type} {event : SupervisorEvent} {c : SupervisorCmd β}
      {k : β → SupervisorM SupervisorReply} {b : β} {a : SupervisorActor}
      {server : StartedServer} {client : Client} {inputs : List Input} {effects : List Effect}
      (hbusy : s.handling = some (event, .op c k)) (hreply : c.Replies s.actor b a)
      (hhands : c.hands b = some server) (hfresh : s.clients server.client = none)
      (hclient : ClientRun inputs effects client) :
      Step s (.started server client)
        { s.goOn event (k b) a with
          clients := Function.update s.clients server.client (some client)
          watched := some server.client
          unreported := s.unreported || !client.actor.alive }
  | finish {event : SupervisorEvent} {reply : SupervisorReply}
      (hdone : s.handling = some (event, .pure reply)) :
      Step s .finish
        { s with
          handling := none
          watched := if event.reports then none else s.watched
          unreported := if event.reports then false else s.unreported }
  /-- The supervisor holds a handle of the current client. -/
  | client {server : ServerId} {action : ClientAction} {c c' : Client}
      (hclient : s.clients server = some c) (hstep : ClientStep c action c')
      (hheld : s.actor.sup.currentClient = some server →
        ∀ written, action ≠ .receive (.cmd none written)) :
      Step s (.client server action)
        { s with
          clients := Function.update s.clients server (some c')
          unreported := s.unreported || (action.trouble && decide (s.watched = some server))
          due := (s.due || (action.trouble && decide (s.actor.sup.currentClient = some server))) &&
            decide (s.actor.sup.state = .healthy) }

/-- The states that events with `ok` lead to. -/
inductive Run (ok : Supervised → SupervisedEvent → Prop) (language : String)
    (policy : RestartPolicy) : Supervised → Prop where
  | spawn : Run ok language policy (.spawn language policy)
  | step {s s' : Supervised} {ev : SupervisedEvent} (hrun : Run ok language policy s)
      (hok : ok s ev) (hstep : s.Step ev s') : Run ok language policy s'

/-- An `acquire` is being handled. -/
def answering (s : Supervised) : Bool := s.handling.any fun h => h.1 = .msg .acquire

/-- The actor of the server's client is running. -/
def Running (s : Supervised) (server : ServerId) : Prop :=
  ∃ c, s.clients server = some c ∧ c.actor.alive = true

/-! ## The condition -/

/-- When an `acquire` is taken up, no trouble of the server that was started last is unreported,
    and while it is handled there is none. -/
def Steady (s : Supervised) : SupervisedEvent → Prop
  | .take (.msg .acquire) => s.unreported = false
  | .started _ client => s.answering = true → client.actor.alive = true
  | .client server action =>
    s.answering = true → s.watched = some server → action.trouble = false
  | _ => True

end Supervised

/-! ## What the supervisor does with what is handed over -/

/-- Beside the program stands the server that was handed over to it, if any.  The current client is
    dropped, or becomes that of this server. -/
def handoverProtocol : Prog.Protocol SupervisorCmd (Option ServerId) where
  replies got c b got' := got' = ((c.hands b).map (·.client)).or got
  allowed got c :=
    match c with
    | .update f => ∀ s, (f s).currentClient = s.currentClient ∨ (f s).currentClient = none ∨
        (f s).currentClient = got
    | _ => True

section Handover

variable {got : Option ServerId}

/-- A command that keeps to the protocol, then the rest. -/
theorem hands_command {α β : Type} {c : SupervisorCmd β} {f : β → SupervisorM α}
    {Q : α → Option ServerId → Prop} (hc : handoverProtocol.allowed got c)
    (hf : ∀ b got', handoverProtocol.replies got c b got' →
      Prog.Obeys handoverProtocol Q (f b) got') :
    Prog.Obeys handoverProtocol Q (Prog.perform c >>= f) got :=
  ⟨hc, hf⟩

/-- Recording the state hands over no client. -/
theorem recordState_hands :
    Prog.Obeys handoverProtocol (fun _ got' => got' = got) recordState got := by
  refine hands_command trivial fun s got₁ h₁ => ?_
  refine hands_command trivial fun _ got₂ h₂ => ?_
  refine hands_command trivial fun _ got₃ h₃ => ?_
  refine .perform trivial fun _ got₄ h₄ => ?_
  subst h₁ h₂ h₃
  exact h₄

/-- A process is let go, or there is none. -/
theorem letGo_hands {keepalive : Option ServerId} {c : ServerId → SupervisorCmd Unit}
    (hc : ∀ server, handoverProtocol.allowed got (c server)) :
    Prog.Obeys handoverProtocol (fun _ _ => True)
      (match keepalive with
        | some server => Prog.perform (c server)
        | none => pure ()) got := by
  cases keepalive with
  | none => trivial
  | some server => exact .perform (hc server) fun _ _ _ => trivial

/-- Shutting a server down hands out no client. -/
private theorem dropCurrentGracefully_hands :
    Prog.Obeys handoverProtocol (fun _ _ => True) dropCurrentGracefully got := by
  refine hands_command trivial fun s got₁ _ => ?_
  refine hands_command (fun s => .inr (.inl rfl)) fun _ got₂ _ => ?_
  exact letGo_hands fun _ => trivial

/-- Dropping a server hands out no client. -/
private theorem dropCurrent_hands :
    Prog.Obeys handoverProtocol (fun _ _ => True) dropCurrent got := by
  refine hands_command trivial fun s got₁ _ => ?_
  refine hands_command (fun s => .inr (.inl rfl)) fun _ got₂ _ => ?_
  exact letGo_hands fun _ => trivial

/-- After an anomaly none is held. -/
private theorem transitionAfterAnomaly_hands :
    Prog.Obeys handoverProtocol (fun _ _ => True) transitionAfterAnomaly got := by
  refine dropCurrentGracefully_hands.bind fun _ got₁ _ => ?_
  refine hands_command (fun s => .inl ?_) fun _ got₂ _ => recordState_hands.mono fun _ _ _ => trivial
  by_cases hmax : min (s.failures + 1) (2 ^ 32 - 1) ≥ s.policy.maxFailures
  · rw [afterFailure, if_pos hmax]
  · rw [afterFailure, if_neg hmax]

/-- A supervisor becomes healthy with the client that was handed over. -/
private theorem setHealthy_hands (server : StartedServer) :
    Prog.Obeys handoverProtocol (fun _ _ => True) (setHealthy server) (some server.client) := by
  refine hands_command trivial fun s got₁ h₁ => ?_
  refine hands_command (fun s => .inr (.inr h₁.symm)) fun _ got₂ _ => ?_
  refine Prog.Obeys.bind (letGo_hands fun _ => trivial) fun _ got₃ _ => ?_
  refine hands_command trivial fun now got₄ _ => ?_
  exact hands_command (fun s => .inl rfl) fun _ got₅ _ => trivial

/-- A start hands over its client or fails. -/
private theorem attemptStart_hands :
    Prog.Obeys handoverProtocol (fun _ _ => True) attemptStart got := by
  refine hands_command trivial fun res got₁ h₁ => ?_
  cases res with
  | ok server =>
    cases h₁
    refine (setHealthy_hands server).bind fun client got₂ _ => ?_
    exact recordState_hands.bind fun _ _ _ => trivial
  | error error =>
    cases error with
    | provision msg =>
      refine dropCurrent_hands.bind fun _ got₂ _ => ?_
      refine hands_command (fun s => .inl rfl) fun _ got₃ _ => ?_
      exact recordState_hands.bind fun _ _ _ => trivial
    | spawnOrInit msg => exact transitionAfterAnomaly_hands.bind fun _ _ _ => trivial

/-- A start settles in the state that the outcome says. -/
private theorem startAndSettle_hands :
    Prog.Obeys handoverProtocol (fun _ _ => True) startAndSettle got := by
  refine attemptStart_hands.bind fun outcome got₁ _ => ?_
  cases outcome with
  | started client => trivial
  | provisionFailed => exact hands_command trivial fun _ _ _ => trivial
  | spawnOrInitFailed =>
    refine hands_command trivial fun s got₂ _ => ?_
    split
    · trivial
    · trivial

/-- An acquire hands out what the state says, also if it has to start a server. -/
private theorem handleAcquire_hands :
    Prog.Obeys handoverProtocol (fun _ _ => True) handleAcquire got := by
  refine hands_command trivial fun s got₁ _ => ?_
  split
  · split
    · trivial
    · trivial
  · trivial
  · trivial
  · refine hands_command (fun s => .inl rfl) fun _ got₂ _ => ?_
    exact recordState_hands.bind fun _ _ _ => startAndSettle_hands
  · trivial

/-- An anomaly takes the client away. -/
private theorem anomalyIfHealthy_hands :
    Prog.Obeys handoverProtocol (fun _ _ => True) anomalyIfHealthy got := by
  refine hands_command trivial fun s got₁ _ => ?_
  split
  · exact transitionAfterAnomaly_hands
  · trivial

/-- The client that the supervisor holds after an event is the one that it held before, or the one
    that was handed over to it. -/
private theorem handle_hands {event : SupervisorEvent} (hstops : event.stops = false) :
    Prog.Obeys handoverProtocol (fun _ _ => True) (handle event) got := by
  cases event with
  | childExit => exact anomalyIfHealthy_hands.bind fun _ _ _ => trivial
  | timer =>
    refine hands_command (fun s => .inl rfl) fun _ got₁ _ => ?_
    refine Prog.Obeys.bind (Q := fun _ _ => True) ?_ fun _ _ _ => trivial
    exact attemptStart_hands.bind fun _ _ _ => trivial
  | closed => exact nomatch hstops
  | msg m =>
    cases m with
    | acquire => exact handleAcquire_hands.bind fun _ _ _ => trivial
    | reportFailure kind => exact anomalyIfHealthy_hands.bind fun _ _ _ => trivial
    | shutdown => exact nomatch hstops

/-- A command that is allowed keeps the current client, drops it, or takes the one handed over. -/
private theorem currentClient_of_replies {β : Type} {c : SupervisorCmd β} {b : β}
    {a a' : SupervisorActor}
    (hallowed : handoverProtocol.allowed got c) (hreply : c.Replies a b a') :
    a'.sup.currentClient = a.sup.currentClient ∨ a'.sup.currentClient = none ∨
      a'.sup.currentClient = got := by
  cases c with
  | update f =>
    cases hreply
    exact hallowed a.sup
  | get =>
    obtain ⟨-, rfl⟩ := hreply
    exact .inl rfl
  | start =>
    cases b <;> cases hreply <;> exact .inl rfl
  | recordMeta | nowSecs | spawnShutdown | shutdown | dropServer =>
    cases hreply
    exact .inl rfl

end Handover

section Reports

variable {language : String} {policy : RestartPolicy} {a : SupervisorActor}

/-- After a report the supervisor is not healthy. -/
private theorem report_leaves_healthy (h : a.Inv language policy) {event : SupervisorEvent}
    (hreports : event.reports = true) :
    Prog.Obeys supervisorProtocol (fun _ a' => a'.sup.state ≠ .healthy) (handle event)
      (a.begin event) := by
  -- An anomaly of a healthy server leads to a restart or to `Down`; any other state stays what it
  -- is.
  have hanomaly : ∀ lastFailure, Prog.Obeys supervisorProtocol
      (fun _ a' => a'.sup.state ≠ .healthy) anomalyIfHealthy { a with lastFailure } := by
    intro lastFailure
    refine obeys_command h.holdsOne trivial fun s a₁ h₁ => ?_
    obtain ⟨rfl, rfl⟩ := h₁
    -- Only a healthy server is dropped.
    by_cases hhealthy : a.sup.state = .healthy
    · rw [if_pos hhealthy]
      refine (transitionAfterAnomaly_obeys (a := { a with lastFailure }) h.holdsOne h.live).mono
        fun _ a₂ h₂ => ?_
      subst h₂
      cases (afterFailure_spec (s := a.sup.cleared) rfl).2.2.1 with
      | inl hdown => exact fun hstill => nomatch hdown.symm.trans hstill
      | inr hrestarting => exact fun hstill => nomatch hrestarting.symm.trans hstill
    · rw [if_neg hhealthy]
      exact hhealthy
  have hbegin : ∃ lastFailure,
      (if a.sup.state = .healthy then { a with lastFailure := some .anomaly } else a) =
        { a with lastFailure } := by
    split
    · exact ⟨_, rfl⟩
    · exact ⟨_, rfl⟩
  obtain ⟨lastFailure, hbegin⟩ := hbegin
  -- Three events report an anomaly; the others are excluded.
  cases event with
  | childExit =>
    rw [SupervisorActor.begin, hbegin]
    exact (hanomaly lastFailure).bind fun _ a' h' => h'
  | timer | closed => exact nomatch hreports
  | msg m =>
    cases m with
    | reportFailure kind =>
      rw [SupervisorActor.begin, hbegin]
      exact (hanomaly lastFailure).bind fun _ a' h' => h'
    | acquire | shutdown => exact nomatch hreports

/-- What the handling of an event comes to. -/
def SupervisorEvent.Settles (language : String) (policy : RestartPolicy) (event : SupervisorEvent)
    (reply : SupervisorReply) (a : SupervisorActor) : Prop :=
  (a.Inv language policy ∧ reply.Fits a.sup) ∧ (event.reports = true → a.sup.state ≠ .healthy)

/-- Handling an event keeps the supervisor's invariant and settles it. -/
private theorem handle_settles (h : a.Inv language policy) {event : SupervisorEvent}
    (hready : event.Ready a.sup) (hstops : event.stops = false) :
    Prog.Obeys supervisorProtocol (event.Settles language policy) (handle event)
      (a.begin event) := by
  by_cases hreports : event.reports = true
  · exact ((handle_inv h hready hstops).and (report_leaves_healthy h hreports)).mono
      fun reply a' h' => ⟨h'.1, fun _ => h'.2⟩
  · exact (handle_inv h hready hstops).mono fun reply a' h' => ⟨h', fun hr => absurd hr hreports⟩

end Reports

/-! ## The invariant -/

/-- A healthy supervisor holds a client, and no other does. -/
private theorem SupervisorActor.Inv.currentClient_eq_none {language : String}
    {policy : RestartPolicy}
    {a : SupervisorActor} (h : a.Inv language policy) (hstate : a.sup.state ≠ .healthy) :
    a.sup.currentClient = none := by
  have hfields := h.fields
  unfold Supervisor.Fields at hfields
  split at hfields
  · exact (heldServers_eq_nil.mp hfields.1).1
  · exact hfields.elim
  · exact absurd ‹_› hstate
  · exact (heldServers_eq_nil.mp hfields.1).1
  · exact (heldServers_eq_nil.mp hfields.1).1

/-- Only a start hands a server over, and the supervisor holds none then. -/
private theorem SupervisorCmd.hands_eq_some {β : Type} {c : SupervisorCmd β} {b : β}
    {server : StartedServer} {a a' : SupervisorActor} (hhands : c.hands b = some server)
    (hfits : c.Fits a) (hreply : c.Replies a b a') : a'.sup.currentClient = none := by
  cases c with
  | start =>
    cases b with
    | error error => exact nomatch hhands
    | ok server =>
      cases hreply
      exact (heldServers_eq_nil.mp hfits.1).1
  | _ => exact nomatch hhands

namespace Supervised

/-- What is left of the handling keeps to what an event settles, and to the server that was handed
    over. -/
def Handled (language : String) (policy : RestartPolicy) (s : Supervised) : Prop :=
  match s.handling with
  | none => s.actor.Inv language policy
  | some (event, rest) =>
    Prog.Obeys supervisorProtocol (event.Settles language policy) rest s.actor ∧
      ∃ got, Prog.Obeys handoverProtocol (fun _ _ => True) rest got ∧
        ∀ server, got = some server → s.watched = some server

/-- What holds of a supervisor and its clients at every step. -/
structure Inv (language : String) (policy : RestartPolicy) (s : Supervised) : Prop where
  handled : s.Handled language policy
  current : ∀ server, s.actor.sup.currentClient = some server → s.watched = some server
  running : s.unreported = false → ∀ server, s.watched = some server → s.Running server
  due : s.due = true → s.unreported = true ∧ s.actor.sup.state = .healthy
  answering : s.answering = true → s.unreported = false

section Steps

variable {language : String} {policy : RestartPolicy} {s s' : Supervised}

/-- The invariant holds before the first event. -/
private theorem Inv.spawn : (spawn language policy).Inv language policy where
  handled := spawn_inv
  current _ h := nomatch h
  running _ _ h := nomatch h
  due h := nomatch h
  answering h := nomatch h

/-- While an event is handled, what is left of it obeys both protocols. -/
theorem Inv.busy (h : s.Inv language policy) {event : SupervisorEvent}
    {rest : SupervisorM SupervisorReply} (hbusy : s.handling = some (event, rest)) :
    Prog.Obeys supervisorProtocol (event.Settles language policy) rest s.actor ∧
      ∃ got, Prog.Obeys handoverProtocol (fun _ _ => True) rest got ∧
        ∀ server, got = some server → s.watched = some server := by
  have hhandled := h.handled
  rwa [Handled, hbusy] at hhandled

/-- An answer is prepared while an acquire is handled. -/
private theorem answering_eq {event : SupervisorEvent} {rest : SupervisorM SupervisorReply}
    (hbusy : s.handling = some (event, rest)) :
    s.answering = decide (event = .msg .acquire) := by
  rw [answering, hbusy]
  rfl

/-- After a command the same event is handled. -/
private theorem answering_goOn {event : SupervisorEvent} {rest rest' : SupervisorM SupervisorReply}
    {a : SupervisorActor} (hbusy : s.handling = some (event, rest)) :
    (s.goOn event rest' a).answering = s.answering :=
  (answering_eq rfl).trans (answering_eq hbusy).symm

/-- Taking an event keeps it. -/
private theorem Inv.take (h : s.Inv language policy) {event : SupervisorEvent}
    (hsteady : s.Steady (.take event)) (hidle : s.handling = none)
    (hready : event.Ready s.actor.sup) (hstops : event.stops = false) :
    Inv language policy
      { s with actor := s.actor.begin event, handling := some (event, handle event) } := by
  have hactor : s.actor.Inv language policy := by
    -- No event is handled, so the actor itself has its invariant.
    have hhandled := h.handled
    rwa [Handled, hidle] at hhandled
  have hsup : (s.actor.begin event).sup = s.actor.sup := by
    unfold SupervisorActor.begin
    split
    · split <;> rfl
    · split <;> rfl
    · rfl
  -- The event and its program are taken up; the server held and what is due stay the same.
  constructor
  · exact ⟨handle_settles hactor hready hstops, none, handle_hands hstops, fun _ hgot => nomatch hgot⟩
  · rw [hsup]
    exact h.current
  · exact h.running
  · rw [hsup]
    exact h.due
  · intro hanswering
    have hacquire : event = .msg .acquire := of_decide_eq_true hanswering
    subst hacquire
    exact hsteady

/-- A command that hands over no client keeps it. -/
private theorem Inv.command (h : s.Inv language policy) {β : Type} {event : SupervisorEvent}
    {c : SupervisorCmd β} {k : β → SupervisorM SupervisorReply} {b : β} {a : SupervisorActor}
    (hbusy : s.handling = some (event, .op c k)) (hreply : c.Replies s.actor b a)
    (hhands : c.hands b = none) : (s.goOn event (k b) a).Inv language policy := by
  obtain ⟨hobeys, got, hgot, hwatched⟩ := h.busy hbusy
  have hrest := hgot.2 b _ rfl
  rw [hhands] at hrest
  constructor
  · exact ⟨hobeys.2 b a hreply, got, hrest, hwatched⟩
  · intro server hserver
    change a.sup.currentClient = some server at hserver
    -- The server that is current after the command was so before, is gone, or is the one just
    -- handed out.
    obtain hsame | hnone | hnew := currentClient_of_replies hgot.1 hreply
    · exact h.current server (hsame.symm.trans hserver)
    · exact nomatch hnone.symm.trans hserver
    · exact hwatched server (hnew.symm.trans hserver)
  · exact h.running
  · intro hdue
    obtain ⟨hdue, hstate⟩ := Bool.and_eq_true_iff.mp hdue
    exact ⟨(h.due hdue).1, of_decide_eq_true hstate⟩
  · rw [answering_goOn hbusy]
    exact h.answering

/-- A start keeps it, with the new client watched. -/
private theorem Inv.started (h : s.Inv language policy) {β : Type} {event : SupervisorEvent}
    {c : SupervisorCmd β} {k : β → SupervisorM SupervisorReply} {b : β} {a : SupervisorActor}
    {server : StartedServer} {client : Client} (hsteady : s.Steady (.started server client))
    (hbusy : s.handling = some (event, .op c k)) (hreply : c.Replies s.actor b a)
    (hhands : c.hands b = some server) :
    Inv language policy
      { s.goOn event (k b) a with
        clients := Function.update s.clients server.client (some client)
        watched := some server.client
        unreported := s.unreported || !client.actor.alive } := by
  -- The start command hands the server out, which is watched from now on.
  obtain ⟨hobeys, got, hgot, hwatched⟩ := h.busy hbusy
  have hrest := hgot.2 b _ rfl
  rw [hhands] at hrest
  have hnone := SupervisorCmd.hands_eq_some hhands hobeys.1.2 hreply
  constructor
  · exact ⟨hobeys.2 b a hreply, _, hrest, fun _ hserver => hserver⟩
  · intro other hother
    exact nomatch hnone.symm.trans hother
  · -- The only server watched is the new one, and its client is the given one.
    intro hunreported other hother
    cases hother
    obtain ⟨-, halive⟩ := Bool.or_eq_false_iff.mp hunreported
    exact ⟨client, Function.update_self _ _ _, by simpa using halive⟩
  · intro hdue
    obtain ⟨hdue, hstate⟩ := Bool.and_eq_true_iff.mp hdue
    exact ⟨Bool.or_eq_true_iff.mpr (.inl (h.due hdue).1), of_decide_eq_true hstate⟩
  · -- Nobody is answering at a server's start unless the client is alive.
    intro hanswering
    have hbefore : s.answering = true := by
      change (s.goOn event (k b) a).answering = true at hanswering
      rwa [answering_goOn hbusy] at hanswering
    show (s.unreported || !client.actor.alive) = false
    rw [h.answering hbefore, hsteady hbefore]
    rfl

/-- The end of an event keeps it. -/
private theorem Inv.finish (h : s.Inv language policy) {event : SupervisorEvent}
    {reply : SupervisorReply}
    (hdone : s.handling = some (event, .pure reply)) :
    Inv language policy
      { s with
        handling := none
        watched := if event.reports then none else s.watched
        unreported := if event.reports then false else s.unreported } := by
  obtain ⟨⟨⟨hinv, -⟩, hleft⟩, -⟩ := h.busy hdone
  cases hreports : event.reports with
  | false => exact ⟨hinv, h.current, h.running, h.due, fun hanswering => nomatch hanswering⟩
  | true =>
    have hstate := hleft hreports
    refine ⟨hinv, fun server hserver => ?_, fun _ _ hserver => (nomatch hserver),
      fun hdue => absurd (h.due hdue).2 hstate, fun hanswering => (nomatch hanswering)⟩
    exact nomatch (hinv.currentClient_eq_none hstate).symm.trans hserver

/-- A step of a client keeps it. -/
private theorem Inv.client (h : s.Inv language policy) {server : ServerId} {action : ClientAction}
    {c c' : Client} (hsteady : s.Steady (.client server action))
    (hclient : s.clients server = some c) (hstep : ClientStep c action c') :
    Inv language policy
      { s with
        clients := Function.update s.clients server (some c')
        unreported := s.unreported || (action.trouble && decide (s.watched = some server))
        due := (s.due || (action.trouble && decide (s.actor.sup.currentClient = some server))) &&
          decide (s.actor.sup.state = .healthy) } := by
  constructor
  · exact h.handled
  · exact h.current
  · -- The client of the server watched still runs unless this was trouble with it.
    intro hunreported other hother
    obtain ⟨hbefore, hcalm⟩ := Bool.or_eq_false_iff.mp hunreported
    obtain ⟨d, hd, halive⟩ := h.running hbefore other hother
    by_cases hsame : other = server
    · subst hsame
      have hcd : c = d := Option.some.inj (hclient.symm.trans hd)
      subst hcd
      have htrouble : action.trouble = false := by
        simpa [show s.watched = some other from hother] using hcalm
      exact ⟨c', Function.update_self _ _ _, hstep.alive halive htrouble⟩
    · exact ⟨d, (Function.update_of_ne hsame _ _).trans hd, halive⟩
  · -- Trouble with the current server is due for a report while the state is healthy.
    intro hdue
    obtain ⟨hdue, hstate⟩ := Bool.and_eq_true_iff.mp hdue
    refine ⟨?_, of_decide_eq_true hstate⟩
    show (s.unreported || (action.trouble && decide (s.watched = some server))) = true
    cases Bool.or_eq_true_iff.mp hdue with
    | inl hbefore =>
      rw [(h.due hbefore).1]
      rfl
    | inr hnow =>
      obtain ⟨htrouble, hcurrent⟩ := Bool.and_eq_true_iff.mp hnow
      rw [htrouble, h.current server (of_decide_eq_true hcurrent)]
      simp
  · -- While a request is being answered there is no such trouble, as the run is steady.
    intro hanswering
    change s.answering = true at hanswering
    show (s.unreported || (action.trouble && decide (s.watched = some server))) = false
    rw [h.answering hanswering]
    by_cases hwatched : s.watched = some server
    · rw [hsteady hanswering hwatched]
      rfl
    · simp [hwatched]

/-- An event with the condition keeps the invariant. -/
private theorem Inv.step {ev : SupervisedEvent} (h : s.Inv language policy) (hsteady : s.Steady ev)
    (hstep : s.Step ev s') : s'.Inv language policy := by
  cases hstep with
  | take hidle hready hstops => exact h.take hsteady hidle hready hstops
  | command hbusy hreply hhands => exact h.command hbusy hreply hhands
  | started hbusy hreply hhands hfresh hclient => exact h.started hsteady hbusy hreply hhands
  | finish hdone => exact h.finish hdone
  | client hclient hstep hheld => exact h.client hsteady hclient hstep

/-- Every run keeps it. -/
theorem Run.inv (hrun : Run Steady language policy s) : s.Inv language policy := by
  induction hrun with
  | spawn => exact .spawn
  | step _ hok hstep ih => exact ih.step hok hstep

end Steps

end Supervised

/-- In a run in which trouble is reported before the next `acquire` is taken up, and none comes
    while one is handled, the client that an `acquire` hands out has a running actor, and the
    supervisor has left `Healthy` since its last client had trouble. -/
theorem acquire_hands_running {language : String} {policy : RestartPolicy} {s : Supervised}
    (hrun : Supervised.Run Supervised.Steady language policy s)
    {res : Except AcquireError ServerId}
    (hanswer : s.handling = some (.msg .acquire, .pure (.acquired res))) :
    (∀ server, res = .ok server → s.Running server) ∧ s.due = false := by
  have h := hrun.inv
  obtain ⟨⟨⟨-, hfits⟩, -⟩, -⟩ := h.busy hanswer
  have hreported : s.unreported = false := h.answering (Supervised.answering_eq hanswer)
  constructor
  · rintro server rfl
    exact h.running hreported server (h.current server hfits.2)
  · cases hdue : s.due with
    | false => rfl
    | true => exact nomatch hreported.symm.trans (h.due hdue).1

/-! ## Runs -/

namespace Supervised

/-- The supervisor goes on; starts succeed, and hand over a client that was just spawned. -/
def advance (s : Supervised) : Option Supervised :=
  match s.handling with
  | some (event, .op c k) =>
    match c.succeed s.actor with
    | (.ok b, a) =>
      match c.hands b with
      | none => some (s.goOn event (k b) a)
      | some server =>
        if s.clients server.client = none then
          some { s.goOn event (k b) a with
            clients := Function.update s.clients server.client (some .spawn)
            watched := some server.client
            unreported := s.unreported || false }
        else none
    | (.error _, _) => none
  | _ => none

/-- The supervisor is healthy with this client. -/
def Holds (s : Supervised) (server : ServerId) (c : Client) : Prop :=
  s.actor.sup.state = .healthy ∧ s.actor.sup.currentClient = some server ∧
    s.clients server = some c

/-- This many commands. -/
def advances : Nat → Supervised → Option Supervised
  | 0, s => some s
  | n + 1, s => s.advance.bind (advances n)

section Runs

variable {ok : Supervised → SupervisedEvent → Prop} {language : String} {policy : RestartPolicy}
  {s s' : Supervised}

/-- The supervisor may go on with what it is handling. -/
private theorem Run.advance (hrun : Run ok language policy s) (hcommand : ∀ s, ok s .command)
    (hstarted : ∀ s server, ok s (.started server .spawn)) (h : s.advance = some s') :
    Run ok language policy s' := by
  unfold Supervised.advance at h
  split at h
  · rename_i event β c k hbusy
    -- The command may fail in this state, and then `advance` takes no step.
    split at h
    · rename_i b a hsucceed
      have hreply := succeed_replies c s.actor a b hsucceed
      split at h
      · -- A command that hands out a server starts a watcher for it, which is a step of its own.
        rename_i hhands
        cases h
        exact hrun.step (hcommand s) (.command hbusy hreply hhands)
      · rename_i server hhands
        split at h
        · rename_i hfresh
          cases h
          exact hrun.step (hstarted s server) (.started hbusy hreply hhands hfresh .spawn)
        · exact nomatch h
    · exact nomatch h
  · exact nomatch h

/-- The supervisor may go on for as many steps as its handling needs. -/
private theorem Run.advances (hcommand : ∀ s, ok s .command)
    (hstarted : ∀ s server, ok s (.started server .spawn)) (n : Nat)
    (hrun : Run ok language policy s) (h : advances n s = some s') : Run ok language policy s' := by
  induction n generalizing s with
  | zero =>
    cases h
    exact hrun
  | succ n ih =>
    obtain ⟨s₁, hadvance, hrest⟩ := Option.bind_eq_some_iff.mp h
    exact ih (hrun.advance hcommand hstarted hadvance) hrest

/-- The first `acquire`, up to its answer. -/
private theorem Run.first_acquire (ok : Supervised → SupervisedEvent → Prop)
    (hok : ∀ s ev, Steady s ev → ok s ev) :
    ∃ s, Run ok "python" .defaultReal s ∧
      s.handling = some (.msg .acquire, .pure (.acquired (.ok 0))) ∧ s.Holds 0 .spawn := by
  have hstart : Run ok "python" .defaultReal _ := .spawn
  have htaken := hstart.step (hok _ (.take (.msg .acquire)) rfl) (.take rfl trivial rfl)
  have hdone := htaken.advances (fun s => hok s _ trivial) (fun s server => hok s _ fun _ => rfl) 15
    rfl
  exact ⟨_, hdone, rfl, rfl, rfl, rfl⟩

variable {server : ServerId} {c : Client}

/-- A healthy supervisor stays as it is when something happens to its client. -/
private theorem Run.client (hrun : Run (fun _ _ => True) language policy s)
    (hholds : s.Holds server c)
    {action : ClientAction} {c' : Client} (hstep : ClientStep c action c')
    (hheld : ∀ written, action ≠ .receive (.cmd none written)) :
    ∃ s', Run (fun _ _ => True) language policy s' ∧ s'.handling = s.handling ∧
      s'.Holds server c' ∧ s'.due = (s.due || action.trouble) := by
  obtain ⟨hstate, hcurrent, hclient⟩ := hholds
  refine ⟨_, hrun.step trivial (.client hclient hstep fun _ => hheld), rfl,
    ⟨hstate, hcurrent, Function.update_self _ _ _⟩, ?_⟩
  simp [hstate, hcurrent]

/-- The next `acquire` of a healthy supervisor gets the current client, whatever became of it. -/
private theorem Run.next_acquire (hrun : Run (fun _ _ => True) language policy s)
    (hidle : s.handling = none) (hholds : s.Holds server c) :
    ∃ s', Run (fun _ _ => True) language policy s' ∧
      s'.handling = some (.msg .acquire, .pure (.acquired (.ok server))) ∧
      s'.clients server = some c ∧ s'.due = s.due := by
  obtain ⟨hstate, hcurrent, hclient⟩ := hholds
  obtain ⟨⟨⟨language, policy, state, current, exit, keepalive, failures, last, timer⟩, recorded,
    lastFailure, live⟩, handling, clients, watched, unreported, due⟩ := s
  cases hidle
  cases hstate
  cases hcurrent
  have htaken := hrun.step trivial (.take rfl trivial rfl : Step _ (.take (.msg .acquire)) _)
  have hdone := htaken.step trivial (.command rfl ⟨rfl, rfl⟩ rfl)
  exact ⟨_, hdone, rfl, hclient, Bool.and_true due⟩

end Runs

end Supervised

/-- A lazy start. -/
theorem acquire_hands_running_first : ∃ s : Supervised,
    s.handling = some (.msg .acquire, .pure (.acquired (.ok 0))) ∧ s.Running 0 ∧ s.due = false := by
  obtain ⟨s, hrun, hanswer, -⟩ := Supervised.Run.first_acquire Supervised.Steady fun _ _ h => h
  have h := acquire_hands_running hrun hanswer
  exact ⟨s, hanswer, h.1 0 rfl, h.2⟩

/-- A client whose server has sent what cannot be parsed is handed out again, and so is one whose
    request has timed out: nobody reports it. -/
theorem acquire_hands_dead :
    (∃ s : Supervised, Supervised.Run (fun _ _ => True) "python" .defaultReal s ∧
      s.handling = some (.msg .acquire, .pure (.acquired (.ok 0))) ∧ ¬ s.Running 0) ∧
    (∃ s : Supervised, Supervised.Run (fun _ _ => True) "python" .defaultReal s ∧
      s.handling = some (.msg .acquire, .pure (.acquired (.ok 0))) ∧ s.Running 0 ∧
        s.due = true) := by
  obtain ⟨s, hrun, hanswer, hholds⟩ :=
    Supervised.Run.first_acquire (fun _ _ => True) fun _ _ _ => trivial
  have hidle := hrun.step trivial (.finish hanswer)
  constructor
  · -- First: the stream fails, the actor ends, and a request comes before the exit is reported.
    obtain ⟨s₁, hrun₁, hidle₁, hdead, -⟩ := hidle.client hholds
      (.receive rfl (.inbound [] (some (.failed "unparseable message")))) nofun
    obtain ⟨s₂, hrun₂, hanswer₂, hclient₂, -⟩ := hrun₁.next_acquire hidle₁ hdead
    refine ⟨s₂, hrun₂, hanswer₂, fun hrunning => ?_⟩
    obtain ⟨c, hc, halive⟩ := hrunning
    cases hclient₂.symm.trans hc
    exact nomatch halive
  · -- Second: a request times out, which the client survives but reports, and one comes before
    -- that.
    obtain ⟨s₁, hrun₁, hidle₁, hasked, -⟩ := hidle.client hholds
      (.request "textDocument/references" none rfl (by decide)) nofun
    obtain ⟨s₂, hrun₂, hidle₂, hlate, hdue₂⟩ := hrun₁.client hasked
      (.timeout (by decide) rfl : ClientStep _ (.timeout 0) _) nofun
    obtain ⟨s₃, hrun₃, hanswer₃, hclient₃, hdue₃⟩ :=
      hrun₂.next_acquire (hidle₂.trans hidle₁) hlate
    refine ⟨s₃, hrun₃, hanswer₃, ⟨_, hclient₃, rfl⟩, ?_⟩
    rw [hdue₃, hdue₂]
    exact Bool.or_true _

end Semnav.Lsp
