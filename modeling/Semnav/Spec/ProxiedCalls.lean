import Semnav.Daemon.Dispatch
import Semnav.Spec.Reconnect
import Semnav.Spec.SessionAnswers

/-!
# The tools of a serve process

A tool of `ProxyServer` answers what the method of `SemnavServer` answers behind the daemon: an
output goes through the protocol unchanged, and an error keeps its message but not its code.  Where
the connection is lost the tool's error is one of the client.

## Key results

- `dispatch_request`: the daemon answers a tool's request with what its method returns
- `disconnected_of_done`: an error that no daemon has answered comes of a lost connection, or of one
  that was not made
- `proxied_tool`: every run
-/

namespace Semnav.Daemon

open Semnav.ForStd Semnav.Mcp
open Semnav.Query (CursorCodec)

variable {σ : Type} {R : Runtime σ} {E : CursorCodec}

/-- A tool's request is dispatched to its method. -/
private theorem dispatch_request (tool : Tool) (input : tool.Input) (s s' : σ)
    (result : Except String Value) :
    dispatch R E (tool.request input) s result s' ↔
      ∃ outcome, tool.method R E input s outcome s' ∧ result = ofMethod tool outcome := by
  cases tool <;> exact Iff.rfl

/-- A tool's request is not answered as a `Shutdown`. -/
private theorem stop_request (tool : Tool) (input : tool.Input) :
    (semnavService R E).stop (tool.request input) = none := by
  cases tool <;> rfl

/-- What the server computes for it is what the method returns. -/
private theorem computes_request {tool : Tool} {input : tool.Input} {s : σ}
    {result : Except String Value}
    (h : (semnavService R E).Computes (tool.request input) s result) :
    ∃ outcome s', tool.method R E input s outcome s' ∧ result = ofMethod tool outcome := by
  cases h with
  | inl h =>
    obtain ⟨-, s', hdispatch⟩ := h
    obtain ⟨outcome, hmethod, hresult⟩ := (dispatch_request tool input s s' result).mp hdispatch
    exact ⟨outcome, s', hmethod, hresult⟩
  | inr h =>
    obtain ⟨value, hstop, -⟩ := h
    rw [stop_request] at hstop
    exact nomatch hstop

/-- An output that a method has returned is what the proxy returns. -/
private theorem call_ofMethod (why : Value → String) {tool : Tool}
    {outcome : Except ErrorData tool.Output}
    {value : Value} (h : .ok value = ofMethod tool outcome) :
    ∃ output, outcome = .ok output ∧ ProxyServer.call why tool (.ok value) = .ok output := by
  cases outcome with
  | error err => exact nomatch h
  | ok output =>
    cases h
    refine ⟨output, rfl, ?_⟩
    simp only [ProxyServer.call, proxyResult, Codec.fromValue_toValue]

/-- An error carries the method's message. -/
private theorem ofMethod_error {tool : Tool} {outcome : Except ErrorData tool.Output} {msg : String}
    (h : .error msg = ofMethod tool outcome) : ∃ err, outcome = .error err ∧ err.message = msg := by
  cases outcome with
  | error err =>
    cases h
    exact ⟨err, rfl, rfl⟩
  | ok output => exact nomatch h

variable {env : σ → σ → Prop} {s : σ} {S : Session DaemonRequest Value σ}

/-- The tool's method has come to this outcome in the run, for this very input and after the tool
    was called with it. -/
def MethodRan (R : Runtime σ) (E : CursorCodec) (env : σ → σ → Prop) (s : σ)
    (S : Session DaemonRequest Value σ) (n : Nat) (tool : Tool) (input : tool.Input)
    (outcome : Except ErrorData tool.Output) : Prop :=
  ∃ mid s', SessionRun (semnavService R E) env (.boot s) mid ∧
    SessionRun (semnavService R E) env mid S ∧ mid.asked n = some (tool.request input) ∧
    tool.method R E input mid.daemon outcome s'

/-- The answer to a caller is the outcome of a run of the method. -/
private theorem methodRan {n : Nat} {tool : Tool} {input : tool.Input}
    {result : Except String Value}
    (hasked : S.asked n = some (tool.request input))
    (h : AnswerOf (semnavService R E) env s S n result) :
    ∃ outcome, MethodRan R E env s S n tool input outcome ∧ result = ofMethod tool outcome := by
  obtain ⟨mid, d, hmid, hrest, -, -, hmasked, hown, hcomputes⟩ := h
  obtain hrequest : d.request = tool.request input := Option.some.inj (hown.symm.trans hasked)
  rw [hrequest] at hmasked hcomputes
  obtain ⟨outcome, s', hmethod, hresult⟩ := computes_request hcomputes
  exact ⟨outcome, ⟨mid, s', hmid, hrest, hmasked, hmethod⟩, hresult⟩

/-! ## Lost connections -/

section Lost

variable {Req Val : Type} {D : Service Req Val σ} {S S' : Session Req Val σ}

/-- The tasks take a step of their own, or none. -/
private theorem SessionStep.tasks (h : SessionStep D env S S') :
    S'.tasks = S.tasks ∨ ∃ t e, S.tasks.step taskStep t e = some S'.tasks := by
  cases h with
  | silent _ hstep => exact .inr ⟨_, _, hstep⟩
  | call hstep => exact .inr ⟨_, _, hstep⟩
  | send _ _ hstep => exact .inr ⟨_, _, hstep⟩
  | write _ _ hstep => exact .inr ⟨_, _, hstep⟩
  | deliver _ hstep => exact .inr ⟨_, _, hstep⟩
  | _ => exact .inl rfl

/-- The tasks of a session keep their invariant. -/
theorem session_tasks_inv (hrun : SessionRun D env (.boot s) S) : S.tasks.Inv := by
  induction hrun with
  | refl => exact inv_boot
  | tail _ hstep ih =>
    cases hstep.tasks with
    | inl hsame => exact hsame ▸ ih
    | inr htask =>
      obtain ⟨t, e, htask⟩ := htask
      obtain ⟨s, l, hmove, hafter⟩ := Processes.step_eq_some htask
      rw [hafter]
      exact inv_step ih hmove

/-- An error that no daemon has answered, with its text: the actor of a connection has left its loop,
    or no new connection was made. -/
inductive Disconnected (T : Tasks Req Val) : CallError → String → Prop where
  | closed {k : LinkId} (hk : T.stopping k) : Disconnected T .closed "daemon client closed"
  | droppedReply {k : LinkId} (hk : T.stopping k) :
      Disconnected T .droppedReply "daemon client dropped reply"
  | lost {k : LinkId} (hk : T.stopping k) (reason : String) :
      Disconnected T (.lost reason) ("daemon error: " ++ reason)
  | reconnectFailed (msg : String) :
      Disconnected T (.reconnectFailed msg) ("daemon reconnect failed: " ++ msg)

/-- The error of a lost connection carries its text. -/
private theorem Disconnected.text_eq {T : Tasks Req Val} {err : CallError} {text : String}
    (h : Disconnected T err text) : err.text = text := by
  cases h <;> rfl

/-- A call that has no answer ends with the text of a lost connection. -/
private theorem disconnected_of_done {T : Tasks Req Val} (hT : T.Inv) {n : Nat} {attempt : Try}
    {err : CallError} (hdone : T.procs (.caller n) = .caller (.done attempt (.error err)))
    (hunanswered : ∀ msg, err ≠ .answered msg) : ∃ text, Disconnected T err text := by
  obtain ⟨pc, hpc, hok⟩ := hT.caller n
  cases hpc.symm.trans hdone
  -- An error that tells of a dead connection comes from a link whose actor is stopping.
  have hstopping : err.died = true → ∃ k, T.stopping k := hok.returned attempt err rfl
  cases err with
  | closed =>
    obtain ⟨k, hk⟩ := hstopping rfl
    exact ⟨_, .closed hk⟩
  | droppedReply =>
    obtain ⟨k, hk⟩ := hstopping rfl
    exact ⟨_, .droppedReply hk⟩
  | lost reason =>
    obtain ⟨k, hk⟩ := hstopping rfl
    exact ⟨_, .lost hk reason⟩
  | answered msg => exact absurd rfl (hunanswered msg)
  | reconnectFailed msg => exact ⟨_, .reconnectFailed msg⟩

end Lost

/-! ## The tools -/

/-- What the proxy's tool returns when its call of the daemon has returned. -/
structure Proxied (R : Runtime σ) (E : CursorCodec) (env : σ → σ → Prop) (s : σ)
    (S : Session DaemonRequest Value σ) (n : Nat) (why : Value → String) (tool : Tool)
    (input : tool.Input) : Prop where
  /-- An answer is the method's output, never malformed. -/
  output : ∀ attempt value, S.tasks.procs (.caller n) = .caller (.done attempt (.ok value)) →
    ∃ output, MethodRan R E env s S n tool input (.ok output) ∧
      ProxyServer.call why tool (.ok value) = .ok output
  /-- An error that the daemon answered is the method's, as an internal error. -/
  refused : ∀ attempt msg,
    S.tasks.procs (.caller n) = .caller (.done attempt (.error (.answered msg))) →
      ∃ err, MethodRan R E env s S n tool input (.error err) ∧
        ProxyServer.call why tool (.error (.answered msg)) =
          .error (internalError ("daemon error: " ++ err.message))
  /-- Any other error is the client's own: a connection was lost, or could not be made again. -/
  disconnected : ∀ attempt err,
    S.tasks.procs (.caller n) = .caller (.done attempt (.error err)) →
    (∀ msg, err ≠ .answered msg) → ∃ text, Disconnected S.tasks err text ∧
      ProxyServer.call why tool (.error err) = .error (internalError text)
  /-- And the daemons have begun to serve the call twice at most. -/
  twice : ∀ ds : List (Dispatched DaemonRequest), ds.Sublist S.dispatched →
    (∀ d ∈ ds, S.Owns n d) → ds.length ≤ 2

/-- A tool of `serve` answers what the method of the daemon has come to for that input, the same
    output or an internal error with its message; or, where the connection was lost or could not be
    made again, an internal error of the client. -/
theorem proxied_tool (hrun : SessionRun (semnavService R E) env (.boot s) S) {n : Nat} {tool : Tool}
    {input : tool.Input} (hasked : S.asked n = some (tool.request input)) (why : Value → String) :
    Proxied R E env s S n why tool input := by
  have hS := session_inv hrun
  obtain ⟨pc, hn⟩ := hS.callers n
  -- One bullet a field: the output, the method's error, any other error, and the dispatches.
  refine ⟨?_, ?_, ?_, ?_⟩
  · intro attempt value hdone
    obtain ⟨outcome, hran, hresult⟩ := methodRan hasked (answerOf hrun hdone rfl)
    obtain ⟨output, rfl, hcall⟩ := call_ofMethod why hresult
    exact ⟨output, hran, hcall⟩
  · intro attempt msg hdone
    obtain ⟨outcome, hran, hresult⟩ := methodRan hasked (answerOf hrun hdone rfl)
    obtain ⟨err, rfl, hmessage⟩ := ofMethod_error hresult
    refine ⟨err, hran, ?_⟩
    rw [hmessage]
    rfl
  · intro attempt err hdone hunanswered
    -- An error that no answer gave is that of a lost connection or of a failed reconnect.
    obtain ⟨text, hdisconnected⟩ :=
      disconnected_of_done (session_tasks_inv hrun) hdone hunanswered
    refine ⟨text, hdisconnected, ?_⟩
    rw [← hdisconnected.text_eq]
    rfl
  · intro ds hds howns
    exact Nat.le_trans (Nat.le_trans (hS.dispatches hds howns) hn.sends) pc.sends_le

/-- Has one server, and counts its restarts. -/
def restartRuntime : Runtime Nat where
  findSymbol _ _ _ _ _ _ _ _ _ := False
  findDefinition _ _ _ _ := False
  findReferences _ _ _ _ _ _ := False
  findCallers _ _ _ _ _ _ _ := False
  findCallees _ _ _ _ _ _ _ := False
  findCallPath _ _ _ _ _ _ _ := False
  readRange _ _ _ _ _ _ := False
  restartLanguage _ n restarted n' := restarted = ["python"] ∧ n' = n + 1

/-- No cursors. -/
def noCursors : CursorCodec where
  toVec _ := .ok []
  fromSlice _ := .error "EOF while parsing a value"
  encode _ := ""
  decode _ := .ok []

/-- A restart through the proxy. -/
theorem proxied_restart : ∃ S : Session DaemonRequest Value Nat,
    SessionRun (semnavService restartRuntime noCursors) (fun _ _ => False) (.boot 0) S ∧
      (∃ value, S.tasks.procs (.caller 0) = .caller (.done .first (.ok value))) ∧
      Proxied restartRuntime noCursors (fun _ _ => False) 0 S 0 (fun _ => "") .restartLsp ⟨none⟩ := by
  -- The call is sent, written, read by the daemon, answered, delivered and returned.
  have hrun : SessionRun (semnavService restartRuntime noCursors) (fun _ _ => False) (.boot 0) _ :=
    .single (.call (show Processes.step taskStep _ (.caller 0) (.call (.restartLsp ⟨none⟩)) = some _
      from rfl))
  have hrun := hrun.tail (.silent (t := .caller 0) (e := .go) trivial rfl)
  have hrun := hrun.tail (.silent (t := .caller 0) (e := .go) trivial rfl)
  have hrun := hrun.tail (.send (n := 0) rfl rfl rfl)
  have hrun := hrun.tail (.silent (t := .actor 0) (e := .go) trivial rfl)
  have hrun := hrun.tail (.write (k := 0) rfl rfl rfl)
  have hrun := hrun.tail (.silent (t := .actor 0) (e := .wrote) trivial rfl)
  have hrun := hrun.tail (.read (k := 0) rfl rfl rfl)
  have hrun := hrun.tail (.answer (k := 0) rfl rfl ⟨_, ⟨["python"], ⟨rfl, rfl⟩, rfl⟩, rfl⟩)
  have hrun := hrun.tail (.deliver (k := 0) rfl rfl)
  have hrun := hrun.tail (.silent (t := .actor 0) (e := .go) trivial rfl)
  have hrun := hrun.tail (.silent (t := .caller 0) (e := .go) trivial rfl)
  exact ⟨_, hrun, ⟨_, rfl⟩, proxied_tool hrun rfl fun _ => ""⟩

end Semnav.Daemon
