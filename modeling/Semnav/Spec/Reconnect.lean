import Semnav.Daemon.Client

/-!
# Lost daemon connections

`ReconnectingDaemonClient::call` tells a lost connection from an error of the daemon by
`is_closed()`, that is, by whether the actor has dropped its receiver.  But the actor fails the
pending calls before it does.

## Key results

- `inv_step`: what every step keeps of the actors and the callers
- `first_error_kept`: what the first call of a caller has failed with is no loss of its connection
- `lost_connection_retried`: a call that failed because its connection died is retried once, as
  long as no caller judges between these two steps of the actor
- `lost_connection_returned`: a run in which one does, and returns the error
-/

namespace Semnav.Daemon

open Semnav.ForStd

variable {Req Val : Type}

/-! ## The actor -/

/-- Does the actor fail calls, its receiver still there? -/
def ActorPc.failing : ActorPc Req → Bool
  | .draining _ _ | .dropping => true
  | _ => false

/-- Has the actor dropped its receiver? -/
def ActorPc.ended : ActorPc Req → Bool
  | .emptying | .gone => true
  | _ => false

/-- What an actor's place says about the channels of its connection. -/
structure LinkOk (pc : ActorPc Req) (link : Link Req Val) : Prop where
  closed : link.closed = pc.ended
  /-- Only an actor that has left its loop fails a call. -/
  lost : ∀ i r, link.replies i = .sent r false → pc.failing = true ∨ pc.ended = true
  dropped : ∀ i, link.replies i = .dropped → link.closed = true

/-- A fresh link agrees with an actor that loops. -/
private theorem linkOk_fresh (id : Nat) :
    LinkOk (.looping [] id : ActorPc Req) (Link.fresh : Link Req Val) :=
  ⟨rfl, nofun, nofun⟩

/-- A step that only moves messages. -/
theorem LinkOk.moved {pc pc' : ActorPc Req} {link link' : Link Req Val} (h : LinkOk pc link)
    (hclosed : link'.closed = link.closed) (hreplies : link'.replies = link.replies)
    (hfailing : pc.failing = true → pc'.failing = true) (hended : pc'.ended = pc.ended) :
    LinkOk pc' link' where
  closed := by rw [hclosed, hended, h.closed]
  lost i r hi := by
    rw [hreplies] at hi
    cases h.lost i r hi with
    | inl hf => exact .inl (hfailing hf)
    | inr he => exact .inr (hended.trans he)
  dropped i hi := by
    rw [hreplies] at hi
    rw [hclosed]
    exact h.dropped i hi

/-- A reply answers its own call. -/
theorem Link.reply_replies (link : Link Req Val) (i j : Nat) (r : Reply Val) :
    (link.reply i r).replies j = if j = i then r else link.replies j := by
  show Function.update link.replies i r j = _
  by_cases hji : j = i
  · subst hji
    rw [Function.update_self, if_pos rfl]
  · rw [Function.update_of_ne hji, if_neg hji]

/-- A reply that the place of the actor accounts for. -/
private theorem LinkOk.reply {pc : ActorPc Req} {link : Link Req Val} (h : LinkOk pc link) {i : Nat}
    {r : Reply Val}
    (hlost : ∀ res, r = .sent res false → pc.failing = true ∨ pc.ended = true)
    (hdropped : r = .dropped → link.closed = true) : LinkOk pc (link.reply i r) where
  closed := h.closed
  lost j res hj := by
    rw [Link.reply_replies] at hj
    split at hj
    next => exact hlost res hj
    next => exact h.lost j res hj
  dropped j hj := by
    rw [Link.reply_replies] at hj
    split at hj
    next => exact hdropped hj
    next => exact h.dropped j hj

/-- Changing a link leaves the calls alone. -/
@[simp] theorem setLink_calls (s : Shared Req Val) (k : LinkId) (link : Link Req Val) :
    (s.setLink k link).calls = s.calls := rfl

/-- Changing a link changes that link. -/
@[simp] theorem setLink_self (s : Shared Req Val) (k : LinkId) (link : Link Req Val) :
    (s.setLink k link).links k = link := by
  show Function.update s.links k link k = link
  exact Function.update_self k link s.links

/-- Changing a link changes no other. -/
theorem setLink_of_ne (s : Shared Req Val) {j k : LinkId} (link : Link Req Val) (hjk : j ≠ k) :
    (s.setLink k link).links j = s.links j := by
  show Function.update s.links k link j = s.links j
  exact Function.update_of_ne hjk link s.links

/-- A step of an actor concerns its own connection. -/
theorem actorStep_frame {k : LinkId} {e : TaskStep Req Val} {s s' : Shared Req Val}
    {pc pc' : ActorPc Req} (h : actorStep k e s pc = some (s', pc')) :
    s'.calls = s.calls ∧ ∀ j, j ≠ k → s'.links j = s.links j := by
  have hsame : s.calls = s.calls ∧ ∀ j, j ≠ k → s.links j = s.links j := ⟨rfl, fun _ _ => rfl⟩
  have hset : ∀ link, (s.setLink k link).calls = s.calls ∧
      ∀ j, j ≠ k → (s.setLink k link).links j = s.links j :=
    fun link => ⟨rfl, fun j hj => setLink_of_ne s link hj⟩
  cases pc <;> simp only [actorStep] at h <;> (try contradiction) <;> repeat' split at h
  all_goals first
    | contradiction
    | (cases h; exact hset _)
    | (cases h; exact hsame)

/-- A step of an actor keeps its connection in order, and goes no way back. -/
private theorem actorStep_linkOk {k : LinkId} {e : TaskStep Req Val} {s s' : Shared Req Val}
    {pc pc' : ActorPc Req} (h : actorStep k e s pc = some (s', pc')) (hok : LinkOk pc (s.links k)) :
    LinkOk pc' (s'.links k) ∧ (pc.ended = true → pc'.ended = true) ∧
      (pc.failing = true → pc'.failing = true ∨ pc'.ended = true) := by
  cases pc with
  | looping pending nextId =>
    simp only [actorStep] at h
    split at h
    next =>
      -- nothing inbound: it turns to its commands
      cases h
      exact ⟨hok.moved rfl rfl nofun rfl, nofun, nofun⟩
    next id result rest hinbound =>
      -- a response, to a call that it has pending or to none
      split at h
      next i hi =>
        cases h
        rw [setLink_self]
        have hmoved : LinkOk (.looping (pending.filter (·.1 != id)) nextId)
            { s.links k with inbound := rest } := hok.moved rfl rfl nofun rfl
        exact ⟨hmoved.reply nofun nofun, nofun, nofun⟩
      next =>
        cases h
        rw [setLink_self]
        exact ⟨hok.moved rfl rfl nofun rfl, nofun, nofun⟩
    next =>
      -- the end of the stream, or a line that does not parse: it leaves its loop
      cases h
      rw [setLink_self]
      exact ⟨hok.moved rfl rfl nofun rfl, nofun, nofun⟩
    next =>
      cases h
      rw [setLink_self]
      exact ⟨hok.moved rfl rfl nofun rfl, nofun, nofun⟩
    next => exact nomatch h
  | selecting pending nextId =>
    simp only [actorStep] at h
    split at h
    next =>
      cases h
      exact ⟨hok.moved rfl rfl nofun rfl, nofun, nofun⟩
    next =>
      cases h
      rw [setLink_self]
      exact ⟨hok.moved rfl rfl nofun rfl, nofun, nofun⟩
    next => exact nomatch h
  | writing pending id cmd =>
    simp only [actorStep] at h
    split at h
    next =>
      cases h
      exact ⟨hok.moved rfl rfl nofun rfl, nofun, nofun⟩
    next err =>
      cases h
      rw [setLink_self]
      -- it has left its loop when it fails the call that it could not write
      have hdraining : LinkOk (.draining ("write failed: " ++ err) pending) (s.links k) :=
        hok.moved rfl rfl nofun rfl
      exact ⟨hdraining.reply (fun _ _ => .inl rfl) nofun, nofun, nofun⟩
    next => exact nomatch h
  | draining reason pending =>
    simp only [actorStep] at h
    split at h
    next id =>
      split at h
      next i hi =>
        cases h
        rw [setLink_self]
        have hmoved : LinkOk (.draining reason (pending.filter (·.1 != id))) (s.links k) :=
          hok.moved rfl rfl (fun _ => rfl) rfl
        exact ⟨hmoved.reply (fun _ _ => .inl rfl) nofun, nofun, fun _ => .inl rfl⟩
      next => exact nomatch h
    next =>
      split at h
      next =>
        cases h
        exact ⟨hok.moved rfl rfl (fun _ => rfl) rfl, nofun, fun _ => .inl rfl⟩
      next => exact nomatch h
    next => exact nomatch h
  | dropping =>
    simp only [actorStep] at h
    split at h
    next =>
      cases h
      rw [setLink_self]
      exact ⟨⟨rfl, fun _ _ _ => .inr rfl, fun _ _ => rfl⟩, nofun, fun _ => .inr rfl⟩
    next => exact nomatch h
  | emptying =>
    simp only [actorStep] at h
    split at h
    next =>
      cases h
      exact ⟨hok.moved rfl rfl nofun rfl, fun _ => rfl, nofun⟩
    next cmd rest _ =>
      cases h
      rw [setLink_self]
      have hmoved : LinkOk .emptying { s.links k with queue := rest } :=
        hok.moved rfl rfl nofun rfl
      exact ⟨hmoved.reply (fun _ _ => .inr rfl) (fun _ => hok.closed), fun _ => rfl, nofun⟩
    next => exact nomatch h
  | gone => exact nomatch h

/-! ## The reader -/

/-- A reader only adds to what the actor will receive. -/
private theorem readerStep_frame {k : LinkId} {e : TaskStep Req Val} {s s' : Shared Req Val}
    {ended ended' : Bool} (h : readerStep k e s ended = some (s', ended')) :
    s'.calls = s.calls ∧ ∀ j, (s'.links j).closed = (s.links j).closed ∧
      (s'.links j).replies = (s.links j).replies := by
  -- The reader only ever appends to what is inbound on its own connection.
  have hset : ∀ inbound, (s.setLink k { s.links k with inbound := inbound }).calls = s.calls ∧
      ∀ j, ((s.setLink k { s.links k with inbound := inbound }).links j).closed =
          (s.links j).closed ∧
        ((s.setLink k { s.links k with inbound := inbound }).links j).replies =
          (s.links j).replies := by
    intro inbound
    refine ⟨rfl, fun j => ?_⟩
    by_cases hjk : j = k
    · subst hjk
      rw [setLink_self]
      exact ⟨rfl, rfl⟩
    · rw [setLink_of_ne s _ hjk]
      exact ⟨rfl, rfl⟩
  cases ended with
  | true => exact nomatch h
  | false =>
    simp only [readerStep] at h
    split at h
    next =>
      cases h
      exact hset _
    next =>
      cases h
      exact hset _
    next =>
      cases h
      exact hset _
    next => exact nomatch h

/-! ## The callers -/

/-- The calls that are over when an attempt begins. -/
def Try.before : Try → Nat
  | .first => 0
  | .again _ _ => 1

/-- The connection and the error that led to this attempt. -/
def Try.cause : Try → Option (LinkId × CallError)
  | .first => none
  | .again k err => some (k, err)

/-- How many `DaemonClient::call`s a caller has entered. -/
def CallPc.callsMade : CallPc Req Val → Nat
  | .unstarted | .reading _ | .checking _ _ => 0
  | .locking _ attempt | .rechecking _ attempt | .connecting _ attempt
  | .done attempt (.error (.reconnectFailed _)) => attempt.before
  | .sending _ attempt _ | .awaiting _ attempt _ _ | .done attempt _ => attempt.before + 1
  | .judging _ _ _ => 1

/-- The first attempt's connection and error, while the second is under way. -/
def CallPc.retryOf : CallPc Req Val → Option (LinkId × CallError)
  | .locking _ attempt | .rechecking _ attempt | .connecting _ attempt | .sending _ attempt _
  | .awaiting _ attempt _ _ | .done attempt _ => attempt.cause
  | _ => none

/-- What a caller's place says; `stopping` are the connections whose actor has left its loop. -/
structure CallerOk (s : Shared Req Val) (stopping : LinkId → Prop) (n : Nat)
    (pc : CallPc Req Val) : Prop where
  calls : s.calls n = pc.callsMade
  /-- What is judged as lost was failed by an actor that has left its loop. -/
  lost : ∀ r k err, pc = .judging r k err → err.died = true → stopping k
  called : ∀ r k err, pc = .judging r k err → ∀ msg, err ≠ .reconnectFailed msg
  /-- And so was what is returned as lost. -/
  returned : ∀ attempt err, pc = .done attempt (.error err) → err.died = true → ∃ k, stopping k
  again : ∀ k err, pc.retryOf = some (k, err) → (s.links k).closed = true

/-- A caller changes neither the replies nor whether a receiver is there. -/
private theorem callerStep_frame {n : Nat} {e : TaskStep Req Val} {s s' : Shared Req Val}
    {pc pc' : CallPc Req Val} (h : callerStep n e s pc = some (s', pc')) :
    (∀ m, m ≠ n → s'.calls m = s.calls m) ∧ ∀ j, (s'.links j).closed = (s.links j).closed ∧
      -- A caller changes its own count of attempts, and on a connection only the queue and the
      -- count of sends.
      (s'.links j).replies = (s.links j).replies := by
  have hcalls : ∀ m, m ≠ n → Function.update s.calls n (s.calls n + 1) m = s.calls m :=
    fun m hm => Function.update_of_ne hm _ _
  have hlinks : ∀ j, (s.links j).closed = (s.links j).closed ∧
      (s.links j).replies = (s.links j).replies := fun _ => ⟨rfl, rfl⟩
  cases pc with
  | sending request attempt k =>
    simp only [callerStep] at h
    split at h
    next =>
      split at h
      next =>
        cases h
        exact ⟨fun _ _ => rfl, hlinks⟩
      -- A closed connection is not sent on; on an open one the command is queued.
      next =>
        split at h
        next =>
          cases h
          refine ⟨fun _ _ => rfl, fun j => ?_⟩
          by_cases hjk : j = k
          · subst hjk
            rw [setLink_self]
            exact ⟨rfl, rfl⟩
          · rw [setLink_of_ne s _ hjk]
            exact ⟨rfl, rfl⟩
        next => exact nomatch h
    next => exact nomatch h
  -- At the other program points nothing of a connection is touched.
  | _ =>
    simp only [callerStep] at h
    repeat' split at h
    all_goals first
      | contradiction
      | (cases h; exact ⟨fun _ _ => rfl, hlinks⟩)
      | (cases h; exact ⟨hcalls, hlinks⟩)

/-- The caller has entered `DaemonClient::call`, once more than it had. -/
private theorem CallerOk.enter {s : Shared Req Val} {stopping : LinkId → Prop} {n : Nat}
    {request : Req}
    {attempt : Try} {k : LinkId} (hcalls : s.calls n = attempt.before)
    (hagain : ∀ k err, attempt.cause = some (k, err) → (s.links k).closed = true) :
    CallerOk (enterCall s n request attempt k).1 stopping n (enterCall s n request attempt k).2 where
  calls := by
    show Function.update s.calls n (s.calls n + 1) n = attempt.before + 1
    rw [Function.update_self, hcalls]
  lost := nofun
  called := nofun
  returned := nofun
  again := hagain

/-- The call has failed with an error that the actor accounts for. -/
private theorem CallerOk.fail {s : Shared Req Val} {stopping : LinkId → Prop} {n : Nat}
    {request : Req}
    {attempt : Try} {k : LinkId} {err : CallError} (hcalls : s.calls n = attempt.before + 1)
    (hagain : ∀ k err, attempt.cause = some (k, err) → (s.links k).closed = true)
    (hstop : err.died = true → stopping k) (herr : ∀ msg, err ≠ .reconnectFailed msg) :
    CallerOk s stopping n (failCall request attempt k err : CallPc Req Val) := by
  -- The first error is kept and judged; the second is what the caller is told.
  cases attempt with
  | first =>
    refine ⟨hcalls, ?_, ?_, nofun, nofun⟩
    · intro r k' err' heq hdied
      cases heq
      exact hstop hdied
    · intro r k' err' heq
      cases heq
      exact herr
  | again k' err' =>
    refine ⟨?_, nofun, nofun, ?_, hagain⟩
    · -- A failed reconnection is not what `request` fails with.
      cases err with
      | reconnectFailed msg => exact absurd rfl (herr msg)
      | _ => exact hcalls
    · intro attempt err₁ heq hdied
      cases heq
      exact ⟨k, hstop hdied⟩

/-- A caller's step keeps what is known of the caller, when failed links are being stopped. -/
private theorem callerStep_ok {n : Nat} {e : TaskStep Req Val} {s s' : Shared Req Val}
    {pc pc' : CallPc Req Val} {stopping : LinkId → Prop}
    (h : callerStep n e s pc = some (s', pc')) (hok : CallerOk s stopping n pc)
    (hlost : ∀ k i r, (s.links k).replies i = .sent r false → stopping k)
    (hdropped : ∀ k i, (s.links k).replies i = .dropped → stopping k)
    (hclosed : ∀ k, (s.links k).closed = true → stopping k) : CallerOk s' stopping n pc' := by
  have hframe := callerStep_frame h
  have hagain : ∀ k err, pc.retryOf = some (k, err) → (s'.links k).closed = true :=
    fun k err hk => (hframe.2 k).1.trans (hok.again k err hk)
  have hcalls := hok.calls
  cases pc with
  | unstarted =>
    simp only [callerStep] at h
    split at h
    next =>
      cases h
      exact ⟨hcalls, nofun, nofun, nofun, nofun⟩
    next => exact nomatch h
  | reading request =>
    simp only [callerStep] at h
    split at h
    next =>
      cases h
      exact ⟨hcalls, nofun, nofun, nofun, nofun⟩
    next => exact nomatch h
  | checking request k =>
    simp only [callerStep] at h
    split at h
    next =>
      split at h
      next =>
        cases h
        exact ⟨hcalls, nofun, nofun, nofun, nofun⟩
      next =>
        cases h
        exact .enter hcalls nofun
    next => exact nomatch h
  | locking request attempt =>
    simp only [callerStep] at h
    split at h
    next =>
      cases h
      exact ⟨hcalls, nofun, nofun, nofun, hagain⟩
    next => exact nomatch h
  | rechecking request attempt =>
    simp only [callerStep] at h
    split at h
    next =>
      split at h
      next =>
        cases h
        exact ⟨hcalls, nofun, nofun, nofun, hagain⟩
      next =>
        cases h
        exact .enter (s := { s with writer := none }) hcalls hagain
    next => exact nomatch h
  | connecting request attempt =>
    simp only [callerStep] at h
    split at h
    next =>
      cases h
      exact .enter (s := { s with made := s.made + 1, current := s.made, writer := none }) hcalls
        hagain
    next =>
      -- No daemon can be started, and the call ends with that.
      cases h
      refine ⟨hcalls, nofun, nofun, ?_, hagain⟩
      intro attempt' err herr hdied
      cases herr
      exact nomatch hdied
    next => exact nomatch h
  | sending request attempt k =>
    simp only [callerStep] at h
    split at h
    next =>
      split at h
      next hk =>
        cases h
        exact .fail hcalls hagain (fun _ => hclosed k hk) nofun
      next =>
        split at h
        next =>
          cases h
          exact ⟨hcalls, nofun, nofun, nofun, hagain⟩
        next => exact nomatch h
    next => exact nomatch h
  | awaiting request attempt k i =>
    simp only [callerStep] at h
    split at h
    next =>
      cases h
      exact ⟨hcalls, nofun, nofun, nofun, hagain⟩
    next =>
      cases h
      exact .fail hcalls hagain nofun nofun
    next hreply =>
      cases h
      exact .fail hcalls hagain (fun _ => hlost k i _ hreply) nofun
    next hreply =>
      cases h
      exact .fail hcalls hagain (fun _ => hdropped k i hreply) nofun
    next => exact nomatch h
  | judging request k err =>
    simp only [callerStep] at h
    split at h
    next =>
      split at h
      next hk =>
        -- The connection is dead: the request goes out again, on another one.
        cases h
        refine ⟨hcalls, nofun, nofun, nofun, ?_⟩
        intro k' err' hcause
        cases hcause
        exact hk
      next hk =>
        -- Its receiver is still there, and the error is the result.
        cases h
        refine ⟨?_, nofun, nofun, ?_, nofun⟩
        · cases err with
          | reconnectFailed msg => exact absurd rfl (hok.called request k _ rfl msg)
          | _ => exact hcalls
        · intro attempt err' herr hdied
          cases herr
          exact ⟨k, hok.lost request k err rfl hdied⟩
    next => exact nomatch h
  | done attempt result => exact nomatch h

/-- The first call's error is returned where it is judged by a receiver that is still there, or no
    call was made. -/
private theorem callerStep_returns {n : Nat} {e : TaskStep Req Val} {s s' : Shared Req Val}
    {pc : CallPc Req Val} {err : CallError}
    (h : callerStep n e s pc = some (s', .done .first (.error err))) :
    (∃ r k, pc = .judging r k err ∧ (s.links k).closed = false) ∨ ∃ msg, err = .reconnectFailed msg := by
  -- Neither the first failure nor the second ends the call with the first attempt.
  have hfail : ∀ request attempt k err', some (s, failCall request attempt k err') ≠
      some (s', (.done .first (.error err) : CallPc Req Val)) := by
    intro request attempt k err' heq
    cases attempt with
    | first => cases heq
    | again _ _ => cases heq
  -- A first attempt ends with an error in two places: judged not to be worth a retry, or not
  -- reconnected.
  cases pc with
  | judging request k err' =>
    simp only [callerStep] at h
    split at h
    next =>
      split at h
      next => cases h
      next hk =>
        cases h
        exact .inl ⟨request, k, rfl, Bool.not_eq_true _ ▸ hk⟩
    next => cases h
  -- Without a connection there is nothing to retry.
  | connecting request attempt =>
    simp only [callerStep] at h
    split at h
    next => cases h
    next msg =>
      cases h
      exact .inr ⟨msg, rfl⟩
    next => cases h
  | sending request attempt k =>
    simp only [callerStep] at h
    split at h
    next =>
      split at h
      next => exact absurd h (hfail request attempt k _)
      next =>
        split at h
        next => cases h
        next => cases h
    next => cases h
  | awaiting request attempt k i =>
    simp only [callerStep] at h
    split at h
    next => cases h
    next => exact absurd h (hfail request attempt k _)
    next => exact absurd h (hfail request attempt k _)
    next => exact absurd h (hfail request attempt k _)
    next => cases h
  -- No other program point ends a call.
  | _ =>
    simp only [callerStep] at h
    repeat' split at h
    all_goals cases h

/-! ## All tasks -/

/-- The actor of the connection has left its loop. -/
def Tasks.stopping (S : Tasks Req Val) (k : LinkId) : Prop :=
  ∀ pc, S.procs (.actor k) = .actor pc → pc.failing = true ∨ pc.ended = true

/-- What every reachable state satisfies. -/
structure Tasks.Inv (S : Tasks Req Val) : Prop where
  actor : ∀ k, ∃ pc, S.procs (.actor k) = .actor pc ∧ LinkOk pc (S.shared.links k)
  caller : ∀ n, ∃ pc, S.procs (.caller n) = .caller pc ∧ CallerOk S.shared S.stopping n pc

/-- The invariant holds at the start. -/
theorem inv_boot : Tasks.Inv (Tasks.boot Req Val) where
  actor _ := ⟨_, rfl, linkOk_fresh 0⟩
  caller _ := ⟨_, rfl, rfl, nofun, nofun, nofun, nofun⟩

/-- The actor of the connection fails calls, and has not dropped its receiver. -/
def Tasks.failing (S : Tasks Req Val) (k : LinkId) : Bool :=
  match S.procs (.actor k) with
  | .actor pc => pc.failing
  | _ => false

/-- No caller whose call failed for its connection evaluates `is_closed()` while the actor of that
    connection fails its calls and has not dropped its receiver. -/
def JudgesAfterClose (S : Tasks Req Val) (t : TaskId) (e : TaskStep Req Val) : Prop :=
  match S.procs t, e with
  | .caller (.judging _ k err), .go => err.died = true → S.failing k = false
  | _, _ => True

instance (S : Tasks Req Val) (t : TaskId) (e : TaskStep Req Val) :
    Decidable (JudgesAfterClose S t e) := by
  unfold JudgesAfterClose
  split <;> infer_instance

/-- Another view of the same connections and actors. -/
theorem CallerOk.mono {s s' : Shared Req Val} {stopping stopping' : LinkId → Prop} {n : Nat}
    {pc : CallPc Req Val} (h : CallerOk s stopping n pc) (hcalls : s'.calls n = s.calls n)
    (hclosed : ∀ k, (s.links k).closed = true → (s'.links k).closed = true)
    (hstopping : ∀ k, stopping k → stopping' k) : CallerOk s' stopping' n pc where
  calls := hcalls.trans h.calls
  lost r k err hpc hdied := hstopping k (h.lost r k err hpc hdied)
  called := h.called
  returned attempt err hpc hdied := (h.returned attempt err hpc hdied).imp hstopping
  again k err hk := hclosed k (h.again k err hk)

/-- A link is stopping when its actor is failing or has ended. -/
private theorem Tasks.Inv.stopping_iff {S : Tasks Req Val} {k : LinkId} {pc : ActorPc Req}
    (hpc : S.procs (.actor k) = .actor pc) :
    S.stopping k ↔ pc.failing = true ∨ pc.ended = true := by
  constructor
  · exact fun h => h pc hpc
  · intro h pc' hpc'
    cases hpc.symm.trans hpc'
    exact h

/-- The only step of a caller that judges is the judgement. -/
private theorem callerStep_judging {n : Nat} {e : TaskStep Req Val} {s : Shared Req Val} {r : Req}
    {k : LinkId} {err : CallError} {res : Shared Req Val × CallPc Req Val}
    (h : callerStep n e s (.judging r k err) = some res) : e = .go := by
  cases e with
  | go => rfl
  | _ => exact nomatch h

/-- A judgement that is admitted finds the receiver gone: the actor has left its loop, and does not
    fail calls any more. -/
private theorem Tasks.Inv.closed_of_judging {S : Tasks Req Val} (hS : S.Inv) {n : Nat} {r : Req}
    {k : LinkId} {err : CallError} (hpc : S.procs (.caller n) = .caller (.judging r k err))
    (hdied : err.died = true) (hok : JudgesAfterClose S (.caller n) .go) :
    (S.shared.links k).closed = true := by
  obtain ⟨pc, hpc', hcaller⟩ := hS.caller n
  cases hpc.symm.trans hpc'
  obtain ⟨pcₐ, hpcₐ, hlink⟩ := hS.actor k
  simp only [JudgesAfterClose, hpc, Tasks.failing, hpcₐ] at hok
  cases hcaller.lost r k err rfl hdied pcₐ hpcₐ with
  | inl hf => exact nomatch (hok hdied).symm.trans hf
  | inr he => exact hlink.closed.trans he

/-- A caller's step leaves the actors where they are, and what it relies on of them it finds in
    their own state. -/
private theorem Tasks.Inv.callerStep {S : Tasks Req Val} {n : Nat} {e : TaskStep Req Val}
    {s : Shared Req Val} {pc pc' : CallPc Req Val} (hS : S.Inv)
    (hpc : S.procs (.caller n) = .caller pc)
    (hstep : callerStep n e S.shared pc = some (s, pc')) :
    Tasks.Inv (S.after (.caller n) s (.caller pc')) := by
  -- Only the caller's own entry and the queue of one connection have changed.
  obtain ⟨pc₀, hpc₀, hcaller⟩ := hS.caller n
  cases hpc.symm.trans hpc₀
  have hframe := callerStep_frame hstep
  have hactors : ∀ k, (S.after (.caller n) s (.caller pc')).procs (.actor k) =
      S.procs (.actor k) := fun k => Processes.after_of_ne S s _ nofun
  have hstopping : ∀ k, S.stopping k → Tasks.stopping (S.after (.caller n) s (.caller pc')) k :=
    fun k hk pc hpc => hk pc ((hactors k).symm.trans hpc)
  -- The actors and their connections stand as they did;
  refine ⟨fun k => ?_, fun m => ?_⟩
  · obtain ⟨pcₐ, hpcₐ, hlink⟩ := hS.actor k
    exact ⟨pcₐ, (hactors k).trans hpcₐ, hlink.moved (hframe.2 k).1 (hframe.2 k).2 id rfl⟩
  · -- of the callers, the one that moves satisfies its invariant anew,
    by_cases hmn : m = n
    · subst hmn
      refine ⟨pc', Processes.after_self S _ s _, ?_⟩
      have hok' : CallerOk s S.stopping m pc' := by
        -- because what it learns of a connection follows from the state of its actor.
        apply callerStep_ok hstep hcaller
        · intro k i r hi
          obtain ⟨pcₐ, hpcₐ, hlink⟩ := hS.actor k
          exact (Tasks.Inv.stopping_iff hpcₐ).mpr (hlink.lost i r hi)
        · intro k i hi
          obtain ⟨pcₐ, hpcₐ, hlink⟩ := hS.actor k
          have hended : pcₐ.ended = true := hlink.closed.symm.trans (hlink.dropped i hi)
          exact (Tasks.Inv.stopping_iff hpcₐ).mpr (.inr hended)
        · intro k hk
          obtain ⟨pcₐ, hpcₐ, hlink⟩ := hS.actor k
          exact (Tasks.Inv.stopping_iff hpcₐ).mpr (.inr (hlink.closed.symm.trans hk))
      exact hok'.mono rfl (fun _ => id) hstopping
    · -- and the others see the same connections.
      obtain ⟨pcₘ, hpcₘ, hm⟩ := hS.caller m
      refine ⟨pcₘ, ?_, hm.mono (hframe.1 m hmn) (fun k hk => (hframe.2 k).1.trans hk) hstopping⟩
      rw [Processes.after_of_ne S s _ (fun heq => hmn (TaskId.caller.inj heq))]
      exact hpcₘ

/-- An actor's step keeps its connection in order; the callers keep theirs, since an actor that has
    left its loop does not come back. -/
private theorem Tasks.Inv.actorStep {S : Tasks Req Val} {k : LinkId} {e : TaskStep Req Val}
    {s : Shared Req Val} {pc pc' : ActorPc Req} (hS : S.Inv)
    (hpc : S.procs (.actor k) = .actor pc) (hstep : actorStep k e S.shared pc = some (s, pc')) :
    Tasks.Inv (S.after (.actor k) s (.actor pc')) := by
  obtain ⟨pc₀, hpc₀, hlink⟩ := hS.actor k
  cases hpc.symm.trans hpc₀
  obtain ⟨hcalls, hframe⟩ := actorStep_frame hstep
  obtain ⟨hlink', hended, hfailing⟩ := actorStep_linkOk hstep hlink
  -- The actor that moves keeps its connection in order; the other connections are untouched.
  refine ⟨fun j => ?_, fun m => ?_⟩
  · by_cases hjk : j = k
    · subst hjk
      exact ⟨pc', Processes.after_self S _ s _, hlink'⟩
    · obtain ⟨pcⱼ, hpcⱼ, hlinkⱼ⟩ := hS.actor j
      refine ⟨pcⱼ, ?_, ?_⟩
      · rw [Processes.after_of_ne S s _ (fun heq => hjk (TaskId.actor.inj heq))]
        exact hpcⱼ
      · rw [Processes.after_shared, hframe j hjk]
        exact hlinkⱼ
  · -- A caller knows of an actor's end only that it does not come back.
    obtain ⟨pcₘ, hpcₘ, hm⟩ := hS.caller m
    refine ⟨pcₘ, ?_, hm.mono (congrFun hcalls m) ?_ ?_⟩
    · rw [Processes.after_of_ne S s _ (nofun : TaskId.caller m ≠ .actor k)]
      exact hpcₘ
    · intro j hj
      by_cases hjk : j = k
      · subst hjk
        exact hlink'.closed.trans (hended (hlink.closed.symm.trans hj))
      · rw [Processes.after_shared, hframe j hjk]
        exact hj
    · intro j hj
      by_cases hjk : j = k
      · subst hjk
        apply (Tasks.Inv.stopping_iff (Processes.after_self S _ s _)).mpr
        cases hj pc hpc with
        | inl hf => exact hfailing hf
        | inr he => exact .inr (hended he)
      · intro pcⱼ hpcⱼ
        rw [Processes.after_of_ne S s _ (fun heq => hjk (TaskId.actor.inj heq))] at hpcⱼ
        exact hj pcⱼ hpcⱼ

/-- A reader's step changes nothing that the actors' and the callers' places speak of. -/
private theorem Tasks.Inv.readerStep {S : Tasks Req Val} {k : LinkId} {e : TaskStep Req Val}
    {s : Shared Req Val} {ended ended' : Bool} (hS : S.Inv)
    (hstep : readerStep k e S.shared ended = some (s, ended')) :
    Tasks.Inv (S.after (.reader k) s (.reader ended')) := by
  obtain ⟨hcalls, hframe⟩ := readerStep_frame hstep
  have hactors : ∀ j, (S.after (.reader k) s (.reader ended')).procs (.actor j) =
      S.procs (.actor j) := fun j => Processes.after_of_ne S s _ nofun
  refine ⟨fun j => ?_, fun m => ?_⟩
  · obtain ⟨pcⱼ, hpcⱼ, hlink⟩ := hS.actor j
    exact ⟨pcⱼ, (hactors j).trans hpcⱼ, hlink.moved (hframe j).1 (hframe j).2 id rfl⟩
  · obtain ⟨pcₘ, hpcₘ, hm⟩ := hS.caller m
    refine ⟨pcₘ, ?_, hm.mono (congrFun hcalls m) (fun j hj => (hframe j).1.trans hj)
      (fun j hj pc hpc => hj pc ((hactors j).symm.trans hpc))⟩
    rw [Processes.after_of_ne S s _ (nofun : TaskId.caller m ≠ .reader k)]
    exact hpcₘ

/-- Every step keeps the invariant. -/
theorem inv_step {S : Tasks Req Val} {t : TaskId} {e : TaskStep Req Val} {s : Shared Req Val}
    {l : TaskPc Req Val} (hS : S.Inv)
    (h : taskStep t e S.shared (S.procs t) = some (s, l)) : Tasks.Inv (S.after t s l) := by
  -- Each kind of task has its own step lemma.
  cases t with
  | caller n =>
    obtain ⟨pc, hpc, _⟩ := hS.caller n
    rw [hpc] at h
    obtain ⟨⟨s₁, pc'⟩, hstep, heq⟩ := Option.map_eq_some_iff.mp h
    cases heq
    exact hS.callerStep hpc hstep
  | actor k =>
    obtain ⟨pc, hpc, _⟩ := hS.actor k
    rw [hpc] at h
    simp only [taskStep] at h
    split at h
    next =>
      obtain ⟨⟨s₁, pc'⟩, hstep, heq⟩ := Option.map_eq_some_iff.mp h
      cases heq
      exact hS.actorStep hpc hstep
    next => exact nomatch h
  | reader k =>
    cases hl : S.procs (.reader k) with
    | reader ended =>
      rw [hl] at h
      simp only [taskStep] at h
      split at h
      next =>
        obtain ⟨⟨s₁, ended'⟩, hstep, heq⟩ := Option.map_eq_some_iff.mp h
        cases heq
        exact hS.readerStep hstep
      next => exact nomatch h
    | _ =>
      rw [hl] at h
      exact nomatch h

/-- A task that has returned the error of its first call has not lost the connection of it. -/
def FirstErrorKept (S : Tasks Req Val) (t : TaskId) : Prop :=
  ∀ err, S.procs t = .caller (.done .first (.error err)) → err.died = false

/-- A first error is kept in every run that keeps the condition. -/
private theorem first_error_kept {events : List (TaskId × TaskStep Req Val)} {S : Tasks Req Val}
    (hrun : Processes.Runs taskStep JudgesAfterClose (Tasks.boot Req Val) events S) :
    S.Inv ∧ ∀ t, FirstErrorKept S t := by
  apply hrun.everyone inv_boot
  case hT =>
    intro t err hdone
    cases t <;> cases hdone
  case keeps => exact fun _ _ _ _ _ hS _ h => inv_step hS h
  case own =>
    intro S t e s l hS hok _ hmove err hdone
    rw [Processes.after_self] at hdone
    subst hdone
    cases t with
    | caller n =>
      obtain ⟨pc, hpc, -⟩ := hS.caller n
      rw [hpc] at hmove
      obtain ⟨⟨s₁, pc'⟩, hstep, heq⟩ := Option.map_eq_some_iff.mp hmove
      cases heq
      cases callerStep_returns hstep with
      | inl hjudged =>
        obtain ⟨r, k, rfl, hk⟩ := hjudged
        obtain rfl := callerStep_judging hstep
        -- an admitted judgement of a lost connection finds its receiver gone
        rw [← Bool.not_eq_true]
        intro hdied
        cases hk.symm.trans (hS.closed_of_judging hpc hdied hok)
      | inr hrefused =>
        obtain ⟨msg, rfl⟩ := hrefused
        rfl
    | actor k =>
      obtain ⟨pc, hpc, -⟩ := hS.actor k
      rw [hpc] at hmove
      simp only [taskStep] at hmove
      split at hmove
      next =>
        obtain ⟨r, -, heq⟩ := Option.map_eq_some_iff.mp hmove
        cases heq
      next => cases hmove
    | reader k =>
      cases hpc : S.procs (.reader k) with
      | reader ended =>
        rw [hpc] at hmove
        simp only [taskStep] at hmove
        split at hmove
        next =>
          obtain ⟨r, -, heq⟩ := Option.map_eq_some_iff.mp hmove
          cases heq
        next => cases hmove
      | _ =>
        rw [hpc] at hmove
        cases hmove
  case other =>
    intro S t e s l j _ _ hj hne _ err hdone
    rw [Processes.after_of_ne S s l hne] at hdone
    exact hj err hdone

/-! ## Which calls are retried -/

/-- What a caller may rely on. -/
structure Retried (S : Tasks Req Val) (n : Nat) : Prop where
  /-- An admitted judgement of a call that failed for its connection finds `is_closed()` true. -/
  closed : ∀ r k err, S.procs (.caller n) = .caller (.judging r k err) → err.died = true →
    JudgesAfterClose S (.caller n) .go → (S.shared.links k).closed = true
  /-- No call that failed for its connection is returned as it is. -/
  retried : ∀ err, S.procs (.caller n) = .caller (.done .first (.error err)) → err.died = false
  /-- A retry is one further call, after a reconnect; or the reconnect has failed. -/
  once : ∀ k err res, S.procs (.caller n) = .caller (.done (.again k err) res) →
    S.shared.calls n = 2 ∨ S.shared.calls n = 1 ∧ ∃ msg, res = .error (.reconnectFailed msg)
  /-- Nothing is retried over a connection that is alive. -/
  alive : ∀ pc k err, S.procs (.caller n) = .caller pc → pc.retryOf = some (k, err) →
    (S.shared.links k).closed = true

/-- A call whose first error is kept was retried on a new connection. -/
private theorem Tasks.Inv.retried {S : Tasks Req Val} (hS : S.Inv) {n : Nat}
    (hfirst : FirstErrorKept S (.caller n)) : Retried S n := by
  obtain ⟨pc, hpc, hok⟩ := hS.caller n
  constructor
  · exact fun r k err => hS.closed_of_judging
  · exact hfirst
  · intro k err res hdone
    cases hpc.symm.trans hdone
    have hcalls := hok.calls
    -- Only a failed reconnect leaves the second call out.
    cases res with
    | ok value => exact .inl hcalls
    | error e =>
      cases e with
      | reconnectFailed msg => exact .inr ⟨hcalls, msg, rfl⟩
      | _ => exact .inl hcalls
  · intro pc' k err hpc' hretry
    cases hpc.symm.trans hpc'
    exact hok.again k err hretry

/-- A call that failed because its connection died is retried, and once; an error of a daemon whose
    connection stays alive is not: as long as no caller judges while the actor of its connection
    fails the pending calls and has not dropped its receiver. -/
theorem lost_connection_retried {events : List (TaskId × TaskStep Req Val)} {S : Tasks Req Val}
    (hrun : Processes.Runs taskStep JudgesAfterClose (Tasks.boot Req Val) events S) (n : Nat) :
    Retried S n := by
  obtain ⟨hS, hfirst⟩ := first_error_kept hrun
  exact hS.retried (hfirst (.caller n))

/-- A call is sent and written; then the reader comes to the end of the stream, and the actor fails
    the call. -/
def lostEvents : List (TaskId × TaskStep String String) :=
  [(.caller 0, .call "RestartLsp"), (.caller 0, .go), (.caller 0, .go), (.caller 0, .go),
   (.actor 0, .go), (.actor 0, .go), (.actor 0, .wrote),
   (.reader 0, .eof), (.actor 0, .go), (.actor 0, .drain 0)]

/-- The caller comes to its judgement after the actor has ended; its second call is answered. -/
def retriedEvents : List (TaskId × TaskStep String String) :=
  lostEvents ++
    [(.actor 0, .go), (.actor 0, .go), (.caller 0, .go), (.caller 0, .go), (.caller 0, .go),
     (.caller 0, .go), (.caller 0, .connected), (.caller 0, .go),
     (.actor 1, .go), (.actor 1, .go), (.actor 1, .wrote),
     (.reader 1, .line 0 (.ok "restarted")), (.actor 1, .go), (.caller 0, .go)]

/-- A connection that ends between request and reply. -/
theorem lost_connection_retried_eof : ∃ S : Tasks String String,
    S.procs (.caller 0) =
        .caller (.done (.again 0 (.lost "daemon connection closed")) (.ok "restarted")) ∧
      Retried S 0 := by
  have hexec : (Processes.exec taskStep JudgesAfterClose (Tasks.boot String String)
      retriedEvents).map (fun S => S.procs (.caller 0)) =
        some (.caller (.done (.again 0 (.lost "daemon connection closed")) (.ok "restarted"))) := by
    rfl
  obtain ⟨S, hrun, hS⟩ := Processes.Runs.exists_of_exec hexec
  exact ⟨S, hS, lost_connection_retried hrun 0⟩

/-- The caller judges before the actor has dropped its receiver, and returns the error. -/
theorem lost_connection_returned : ∃ events, ∃ S : Tasks String String,
    Processes.Runs taskStep Processes.anyStep (Tasks.boot String String) events S ∧
      S.procs (.caller 0) = .caller (.done .first (.error (.lost "daemon connection closed"))) ∧
      ¬ Retried S 0 := by
  have hexec : (Processes.exec taskStep Processes.anyStep (Tasks.boot String String)
      (lostEvents ++ [(.caller 0, .go), (.caller 0, .go)])).map (fun S => S.procs (.caller 0)) =
        some (.caller (.done .first (.error (.lost "daemon connection closed")))) := by
    rfl
  obtain ⟨S, hrun, hS⟩ := Processes.Runs.exists_of_exec hexec
  exact ⟨_, S, hrun, hS, fun hretried => nomatch hretried.retried _ hS⟩

end Semnav.Daemon
