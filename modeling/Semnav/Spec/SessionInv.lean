import Semnav.Spec.SessionEnds

/-!
# The sessions of a serve process: what every step keeps

The two ends of each connection, and of each caller what was sent for it and what it was given.

## Key results

- `callerStep_quiet`: a caller's step that sends nothing
- `Session.Inv.step`: the invariant of both ends and of the callers
-/

namespace Semnav.Daemon

open Semnav.ForStd

variable {Req Val σ : Type}

/-! ## The callers -/

/-- What the caller was asked. -/
def CallPc.request : CallPc Req Val → Option Req
  | .reading request | .checking request _ | .locking request _ | .rechecking request _
  | .connecting request _ | .sending request _ _ | .awaiting request _ _ _ | .judging request _ _ =>
    some request
  | .unstarted | .done _ _ => none

/-- How many commands it has sent at most. -/
def CallPc.sends : CallPc Req Val → Nat
  | .unstarted | .reading _ | .checking _ _ => 0
  | .locking _ attempt | .rechecking _ attempt | .connecting _ attempt | .sending _ attempt _ =>
    attempt.before
  | .awaiting _ attempt _ _ | .done attempt _ => attempt.before + 1
  | .judging _ _ _ => 1

/-- What a daemon has answered: the result of the call, or an error that may become it. -/
def CallPc.answer : CallPc Req Val → Option (Except String Val)
  | .done _ (.ok value) => some (.ok value)
  | .done _ (.error (.answered msg)) | .judging _ _ (.answered msg) => some (.error msg)
  | _ => none

/-- Does the caller wait on a reply channel? -/
def CallPc.isAwaiting : CallPc Req Val → Bool
  | .awaiting _ _ _ _ => true
  | _ => false

/-- A caller that awaits nothing is not at that place. -/
theorem CallPc.ne_awaiting {pc : CallPc Req Val} (h : pc.isAwaiting = false) (request : Req)
    (attempt : Try) (k : LinkId) (i : Nat) : pc ≠ .awaiting request attempt k i := by
  rintro rfl
  cases h

/-- A call is sent twice at most. -/
theorem CallPc.sends_le (pc : CallPc Req Val) : pc.sends ≤ 2 := by
  have hbefore : ∀ attempt : Try, attempt.before ≤ 1 := by
    intro attempt
    cases attempt with
    | first => exact Nat.zero_le 1
    | again k err => exact Nat.le_refl 1
  cases pc with
  | unstarted | reading _ | checking _ _ => exact Nat.zero_le 2
  | locking _ attempt | rechecking _ attempt | connecting _ attempt | sending _ attempt _ =>
    exact Nat.le_succ_of_le (hbefore attempt)
  | awaiting _ attempt _ _ | done attempt _ => exact Nat.succ_le_succ (hbefore attempt)
  | judging _ _ _ => exact Nat.le_succ 1

/-- A caller's step that sends nothing. -/
structure QuietCall (s s' : Shared Req Val) (pc pc' : CallPc Req Val) : Prop where
  links : s'.links = s.links
  request : ∀ request, pc'.request = some request → pc.request = some request
  sends : pc.sends ≤ pc'.sends
  awaiting : ∀ request attempt k i, pc' ≠ .awaiting request attempt k i
  /-- An answer comes from the reply channel that it waits on. -/
  answer : ∀ result, pc'.answer = some result → pc.answer = some result ∨
    ∃ request attempt k i answered, pc = .awaiting request attempt k i ∧
      (s.links k).replies i = .sent result answered ∧ (answered = true ∨ ∃ value, result = .ok value)

/-- A step to a place without an answer. -/
private theorem QuietCall.moves {s : Shared Req Val} {s' : Shared Req Val} {pc pc' : CallPc Req Val}
    (hlinks : s'.links = s.links) (hrequest : pc'.request = pc.request) (hsends : pc.sends ≤ pc'.sends)
    (hawaiting : pc'.isAwaiting = false) (hanswer : pc'.answer = none) : QuietCall s s' pc pc' where
  links := hlinks
  request _ h := hrequest ▸ h
  sends := hsends
  awaiting := CallPc.ne_awaiting hawaiting
  answer result h := by cases hanswer.symm.trans h

/-- A step to the end of the call. -/
private theorem QuietCall.ends {s : Shared Req Val} {s' : Shared Req Val} {pc : CallPc Req Val}
    {attempt : Try} {res : Except CallError Val} (hlinks : s'.links = s.links)
    (hsends : pc.sends ≤ attempt.before + 1)
    (hanswer : ∀ result, (CallPc.done attempt res : CallPc Req Val).answer = some result →
      pc.answer = some result ∨
      ∃ request attempt k i answered, pc = .awaiting request attempt k i ∧
        (s.links k).replies i = .sent result answered ∧
        (answered = true ∨ ∃ value, result = .ok value)) :
    QuietCall s s' pc (.done attempt res) where
  links := hlinks
  request r h := by cases h
  sends := hsends
  awaiting := CallPc.ne_awaiting rfl
  answer := hanswer

/-- A failed call keeps its request. -/
private theorem failCall_request {request r : Req} {attempt : Try} {k : LinkId} {err : CallError}
    (h : (failCall request attempt k err : CallPc Req Val).request = some r) : r = request := by
  cases attempt with
  | first => exact (Option.some.inj h).symm
  | again _ _ => cases h

/-- A failed call has been sent once more than before. -/
private theorem failCall_sends (request : Req) (attempt : Try) (k : LinkId) (err : CallError) :
    (failCall request attempt k err : CallPc Req Val).sends = attempt.before + 1 := by
  cases attempt <;> rfl

/-- A failed call has no answer but its error. -/
private theorem failCall_answer (request : Req) (attempt : Try) (k : LinkId) (err : CallError) :
    (failCall request attempt k err : CallPc Req Val).answer =
      (CallPc.done attempt (.error err) : CallPc Req Val).answer := by
  cases attempt <;> cases err <;> rfl

/-- A failed call awaits no answer. -/
private theorem failCall_ne_awaiting (request : Req) (attempt : Try) (k : LinkId) (err : CallError)
    (r : Req) (a : Try) (j : LinkId) (i : Nat) :
    (failCall request attempt k err : CallPc Req Val) ≠ .awaiting r a j i := by
  cases attempt <;> exact CallPc.ne_awaiting rfl r a j i

/-- The call has failed before it had an answer, or with one. -/
private theorem QuietCall.fail {s : Shared Req Val} {pc : CallPc Req Val} {request : Req}
    {attempt : Try}
    {k : LinkId} {err : CallError} (hrequest : pc.request = some request)
    (hsends : pc.sends ≤ attempt.before + 1)
    (herr : ∀ msg, err = .answered msg → ∃ i, pc = .awaiting request attempt k i ∧
      (s.links k).replies i = .sent (.error msg) true) :
    QuietCall s s pc (failCall request attempt k err) where
  links := rfl
  request r hr := by rw [failCall_request hr, hrequest]
  sends := by rw [failCall_sends]; exact hsends
  awaiting := failCall_ne_awaiting request attempt k err
  answer result hresult := by
    rw [failCall_answer] at hresult
    -- Only an error the daemon answered is an answer; the other errors are the connection's.
    cases err with
    | answered msg =>
      cases hresult
      obtain ⟨i, hpc, hreply⟩ := herr msg rfl
      exact .inr ⟨request, attempt, k, i, true, hpc, hreply, .inl rfl⟩
    | _ => cases hresult

/-- A caller that is asked nothing new, and sends nothing. -/
private theorem callerStep_quiet {n : Nat} {e : TaskStep Req Val} {s s' : Shared Req Val}
    {pc pc' : CallPc Req Val} (h : callerStep n e s pc = some (s', pc'))
    (hstarted : pc ≠ .unstarted)
    (hclosed : ∀ request attempt k, pc = .sending request attempt k → (s.links k).closed = true) :
    QuietCall s s' pc pc' := by
  -- Every step of a caller but the first and a send is quiet: nothing is sent, and an answer it
  -- gets was sent to it.
  cases pc with
  | unstarted => exact absurd rfl hstarted
  | reading request =>
    simp only [callerStep] at h
    split at h
    next =>
      cases h
      exact .moves rfl rfl (Nat.le_refl _) rfl rfl
    next => cases h
  | checking request k =>
    simp only [callerStep] at h
    split at h
    next =>
      split at h
      next =>
        cases h
        exact .moves rfl rfl (Nat.le_refl _) rfl rfl
      next =>
        cases h
        exact .moves rfl rfl (Nat.le_refl _) rfl rfl
    next => cases h
  | locking request attempt =>
    simp only [callerStep] at h
    split at h
    next =>
      cases h
      exact .moves rfl rfl (Nat.le_refl _) rfl rfl
    next => cases h
  | rechecking request attempt =>
    simp only [callerStep] at h
    split at h
    next =>
      split at h
      next =>
        cases h
        exact .moves rfl rfl (Nat.le_refl _) rfl rfl
      next =>
        cases h
        exact .moves rfl rfl (Nat.le_refl _) rfl rfl
    next => cases h
  | connecting request attempt =>
    simp only [callerStep] at h
    split at h
    next =>
      cases h
      exact .moves rfl rfl (Nat.le_refl _) rfl rfl
    next =>
      cases h
      exact .ends rfl (Nat.le_succ _) fun _ h => by cases h
    next => cases h
  -- On a closed connection the send fails.
  | sending request attempt k =>
    simp only [callerStep] at h
    split at h
    next =>
      rw [if_pos (hclosed request attempt k rfl)] at h
      cases h
      exact .fail rfl (Nat.le_succ _) fun _ h => by cases h
    next => cases h
  -- The four ends of an await: an answer, an error of the method, and two kinds of a lost
  -- connection.
  | awaiting request attempt k i =>
    simp only [callerStep] at h
    split at h
    next value answered hreply =>
      cases h
      refine .ends rfl (Nat.le_refl _) ?_
      intro result hresult
      cases hresult
      exact .inr ⟨request, attempt, k, i, answered, rfl, hreply, .inr ⟨value, rfl⟩⟩
    next msg hreply =>
      cases h
      apply QuietCall.fail rfl (Nat.le_refl _)
      intro msg' heq
      cases heq
      exact ⟨i, rfl, hreply⟩
    next =>
      cases h
      exact .fail rfl (Nat.le_refl _) fun _ h => by cases h
    next =>
      cases h
      exact .fail rfl (Nat.le_refl _) fun _ h => by cases h
    next => cases h
  | judging request k err =>
    simp only [callerStep] at h
    split at h
    -- Judged: a retry where the connection has closed, otherwise the error is the answer.
    next =>
      split at h
      next =>
        cases h
        exact .moves rfl rfl (Nat.le_refl _) rfl rfl
      next =>
        cases h
        refine .ends rfl (Nat.le_refl _) ?_
        intro result hresult
        left
        cases err with
        | answered msg => exact hresult
        | _ => cases hresult
    next => cases h
  | done attempt result => cases h

/-! ## The session -/

/-- A command was sent on the connection. -/
def Session.Issued (S : Session Req Val σ) (k : LinkId) (i : Nat) (request : Req) : Prop :=
  ∃ x ∈ S.sent, x.link = k ∧ x.slot = i ∧ x.request = request

/-- The requests that were read from it. -/
def Session.taken (S : Session Req Val σ) (k : LinkId) : List (Nat × Req) :=
  (S.dispatched.filter (·.link == k)).map fun d => (d.id, d.request)

/-- An answer was written to it. -/
def Session.Given (S : Session Req Val σ) (k : LinkId) (id : Nat) (result : Except String Val) :
    Prop :=
  ∃ x ∈ S.answered, x.1.link = k ∧ x.1.id = id ∧ x.2 = result

/-- The commands of one caller. -/
def Session.sentBy (S : Session Req Val σ) (n : Nat) : List (Sent Req) :=
  S.sent.filter (·.caller == n)

/-- What holds of a connection and its actor. -/
structure Session.LinkInv (S : Session Req Val σ) (k : LinkId) (pc : ActorPc Req) : Prop where
  actor : S.tasks.procs (.actor k) = .actor pc
  client : ClientEnd (S.Issued k) (S.Given k) pc (S.tasks.shared.links k)
  daemon : DaemonEnd (S.Issued k) (S.taken k) (S.Given k) pc.next (S.connections k)

/-- What holds of a caller. -/
structure Session.CallerInv (S : Session Req Val σ) (n : Nat) (pc : CallPc Req Val) : Prop where
  caller : S.tasks.procs (.caller n) = .caller pc
  asked : ∀ request, pc.request = some request → S.asked n = some request
  own : ∀ x ∈ S.sentBy n, S.asked n = some x.request
  sends : (S.sentBy n).length ≤ pc.sends
  awaiting : ∀ request attempt k i, pc = .awaiting request attempt k i →
    ⟨n, k, i, request⟩ ∈ S.sentBy n
  answer : ∀ result, pc.answer = some result → ∃ x ∈ S.sentBy n, S.Given x.link x.slot result

/-- What holds of a session. -/
structure Session.Inv (S : Session Req Val σ) : Prop where
  unique : (S.sent.map fun x => (x.link, x.slot)).Nodup
  answered : ∀ x ∈ S.answered, x.1 ∈ S.dispatched
  links : ∀ k, ∃ pc, S.LinkInv k pc
  callers : ∀ n, ∃ pc, S.CallerInv n pc

/-- The invariant holds at the start. -/
theorem session_inv_boot (s : σ) : Session.Inv (.boot s : Session Req Val σ) where
  unique := List.nodup_nil
  answered _ h := absurd h List.not_mem_nil
  links k := by
    have hnone : ∀ i request, False ↔ Session.Issued (.boot s : Session Req Val σ) k i request := by
      intro i request
      refine ⟨False.elim, fun h => ?_⟩
      obtain ⟨x, hx, -⟩ := h
      exact List.not_mem_nil hx
    exact ⟨.looping [] 0, rfl, clientEnd_fresh.mono hnone fun _ _ => id, daemonEnd_fresh⟩
  callers n := ⟨.unstarted, rfl, fun _ h => (by cases h), fun _ h => absurd h List.not_mem_nil,
    Nat.le_refl 0, fun r a k i h => absurd h (CallPc.ne_awaiting rfl r a k i),
    fun _ h => by cases h⟩

section Frame

variable {S S' : Session Req Val σ}

/-- Nothing has happened to the connection. -/
theorem Session.LinkInv.frame {k : LinkId} {pc : ActorPc Req} (h : S.LinkInv k pc)
    (hactor : S'.tasks.procs (.actor k) = S.tasks.procs (.actor k))
    (hlink : S'.tasks.shared.links k = S.tasks.shared.links k)
    (hconn : S'.connections k = S.connections k)
    (hissued : ∀ i request, S.Issued k i request ↔ S'.Issued k i request)
    (htaken : S'.taken k = S.taken k)
    (hgiven : ∀ id result, S.Given k id result → S'.Given k id result) : S'.LinkInv k pc where
  actor := hactor.trans h.actor
  client := by
    rw [hlink]
    exact h.client.mono hissued hgiven
  daemon := by
    rw [hconn, htaken]
    exact h.daemon.mono (fun i request => (hissued i request).mp) hgiven (fun _ => id)

/-- Nothing has happened to the caller. -/
theorem Session.CallerInv.frame {n : Nat} {pc : CallPc Req Val} (h : S.CallerInv n pc)
    (hcaller : S'.tasks.procs (.caller n) = S.tasks.procs (.caller n))
    (hasked : S'.asked n = S.asked n) (hsent : S'.sentBy n = S.sentBy n)
    (hgiven : ∀ k id result, S.Given k id result → S'.Given k id result) : S'.CallerInv n pc where
  caller := hcaller.trans h.caller
  -- The caller's own entries are untouched, and what was given it stays given.
  asked request hr := hasked.trans (h.asked request hr)
  own := by
    rw [hsent, hasked]
    exact h.own
  sends := by
    rw [hsent]
    exact h.sends
  awaiting := by
    rw [hsent]
    exact h.awaiting
  answer result hr := by
    rw [hsent]
    obtain ⟨x, hx, hg⟩ := h.answer result hr
    exact ⟨x, hx, hgiven _ _ _ hg⟩

end Frame

section TaskSteps

variable {S T : Tasks Req Val} {e : TaskStep Req Val}

/-- A step of a caller moves no actor. -/
private theorem after_caller_actor (S : Tasks Req Val) (n : Nat) (s : Shared Req Val)
    (l : TaskPc Req Val)
    (k : LinkId) : (S.after (.caller n) s l).procs (.actor k) = S.procs (.actor k) :=
  Processes.after_of_ne S s l fun heq => by cases heq

/-- A step of a caller moves no other caller. -/
private theorem after_caller_ne (S : Tasks Req Val) {m n : Nat} (hmn : m ≠ n) (s : Shared Req Val)
    (l : TaskPc Req Val) : (S.after (.caller n) s l).procs (.caller m) = S.procs (.caller m) :=
  Processes.after_of_ne S s l fun heq => hmn (TaskId.caller.inj heq)

/-- A step of a caller, taken apart. -/
private theorem caller_step {n : Nat} {pc : CallPc Req Val} (hpc : S.procs (.caller n) = .caller pc)
    (h : S.step taskStep (.caller n) e = some T) :
    ∃ s pc', callerStep n e S.shared pc = some (s, pc') ∧ T = S.after (.caller n) s (.caller pc') := by
  obtain ⟨s, l, hmove, rfl⟩ := Processes.step_eq_some h
  rw [hpc] at hmove
  obtain ⟨⟨s₁, pc'⟩, hstep, heq⟩ := Option.map_eq_some_iff.mp hmove
  cases heq
  exact ⟨s₁, pc', hstep, rfl⟩

/-- A step of an actor, taken apart. -/
private theorem actor_step {k : LinkId} {pc : ActorPc Req} (hpc : S.procs (.actor k) = .actor pc)
    (h : S.step taskStep (.actor k) e = some T) :
    ∃ s pc', actorStep k e S.shared pc = some (s, pc') ∧ T = S.after (.actor k) s (.actor pc') := by
  obtain ⟨s, l, hmove, rfl⟩ := Processes.step_eq_some h
  rw [hpc] at hmove
  simp only [taskStep] at hmove
  split at hmove
  next =>
    obtain ⟨⟨s₁, pc'⟩, hstep, heq⟩ := Option.map_eq_some_iff.mp hmove
    cases heq
    exact ⟨s₁, pc', hstep, rfl⟩
  next => cases hmove

/-- A reader adds what it has read to what the actor will receive. -/
private theorem reader_step {k : LinkId} (h : S.step taskStep (.reader k) e = some T) :
    ∃ x ended ended', S.procs (.reader k) = .reader ended ∧
      T = S.after (.reader k)
        (S.shared.setLink k { S.shared.links k with inbound := (S.shared.links k).inbound ++ [x] })
        (.reader ended') ∧
      ∀ id result, x = .response id result → e = .line id result := by
  obtain ⟨s, l, hmove, rfl⟩ := Processes.step_eq_some h
  -- Only a reader that has not ended moves, and it appends what it read.
  cases hpc : S.procs (.reader k) with
  | reader ended =>
    rw [hpc] at hmove
    simp only [taskStep] at hmove
    split at hmove
    next =>
      obtain ⟨⟨s₁, ended'⟩, hstep, heq⟩ := Option.map_eq_some_iff.mp hmove
      cases heq
      cases ended with
      | true => cases hstep
      | false =>
        simp only [readerStep] at hstep
        split at hstep
        next id result =>
          cases hstep
          refine ⟨_, _, _, rfl, rfl, fun id' result' heq => ?_⟩
          cases heq
          rfl
        next =>
          cases hstep
          exact ⟨_, _, _, rfl, rfl, fun _ _ heq => by cases heq⟩
        next =>
          cases hstep
          exact ⟨_, _, _, rfl, rfl, fun _ _ heq => by cases heq⟩
        next => cases hstep
    next => cases hmove
  | _ =>
    rw [hpc] at hmove
    cases hmove

end TaskSteps

section Steps

variable {S : Session Req Val σ} {T : Tasks Req Val} {e : TaskStep Req Val}

/-- A caller takes a step of its own. -/
private theorem Session.Inv.quiet (hS : S.Inv) {n : Nat} {pc pc' : CallPc Req Val}
    {s : Shared Req Val}
    (hpc : S.CallerInv n pc) (hquiet : QuietCall S.tasks.shared s pc pc') :
    Session.Inv { S with tasks := S.tasks.after (.caller n) s (.caller pc') } where
  unique := hS.unique
  answered := hS.answered
  links k := by
    obtain ⟨pcₐ, hk⟩ := hS.links k
    exact ⟨pcₐ, hk.frame (after_caller_actor S.tasks n s _ k) (congrFun hquiet.links k) rfl
      (fun _ _ => Iff.rfl) rfl fun _ _ => id⟩
  callers m := by
    by_cases hmn : m = n
    · subst hmn
      refine ⟨pc', Processes.after_self S.tasks _ s _, fun r hr => hpc.asked r (hquiet.request r hr),
        hpc.own, Nat.le_trans hpc.sends hquiet.sends, fun r a k i h => absurd h (hquiet.awaiting r a k i), ?_⟩
      intro result hresult
      cases hquiet.answer result hresult with
      | inl hold => exact hpc.answer result hold
      | inr hnew =>
        -- the reply that it waited for was given under the number of its command
        obtain ⟨request, attempt, k, i, answered, rfl, hreply, hres⟩ := hnew
        obtain ⟨pcₐ, hk⟩ := hS.links k
        exact ⟨_, hpc.awaiting request attempt k i rfl, hk.client.replies i result answered hreply hres⟩
    · obtain ⟨pcₘ, hm⟩ := hS.callers m
      exact ⟨pcₘ, hm.frame (after_caller_ne S.tasks hmn s _) rfl rfl fun _ _ _ => id⟩

/-- A task of a connection takes a step, and the daemon's end may follow. -/
private theorem Session.Inv.link (hS : S.Inv) {k : LinkId} {t : TaskId} {s : Shared Req Val}
    {l : TaskPc Req Val} {conn : Connection Req Val} {pc : ActorPc Req}
    (ht : t = .actor k ∨ t = .reader k)
    (hlinks : ∀ j, j ≠ k → s.links j = S.tasks.shared.links j)
    (hactor : (S.tasks.after t s l).procs (.actor k) = .actor pc)
    (hclient : ClientEnd (S.Issued k) (S.Given k) pc (s.links k))
    (hdaemon : DaemonEnd (S.Issued k) (S.taken k) (S.Given k) pc.next conn) :
    Session.Inv (Session.connect { S with tasks := S.tasks.after t s l } k conn) where
  unique := hS.unique
  answered := hS.answered
  -- Only connection `k` changes; of the others and of the callers nothing moves.
  links j := by
    by_cases hjk : j = k
    · subst hjk
      refine ⟨pc, hactor, hclient, ?_⟩
      show DaemonEnd _ _ _ _ (Function.update S.connections j conn j)
      rw [Function.update_self]
      exact hdaemon
    · obtain ⟨pcⱼ, hj⟩ := hS.links j
      refine ⟨pcⱼ, hj.frame ?_ (hlinks j hjk) ?_ (fun _ _ => Iff.rfl) rfl fun _ _ => id⟩
      · apply Processes.after_of_ne S.tasks s l
        rintro rfl
        cases ht with
        | inl h => exact hjk (TaskId.actor.inj h)
        | inr h => cases h
      · exact Function.update_of_ne hjk conn S.connections
  callers m := by
    obtain ⟨pcₘ, hm⟩ := hS.callers m
    refine ⟨pcₘ, hm.frame (Processes.after_of_ne S.tasks s l ?_) rfl rfl fun _ _ _ => id⟩
    rintro rfl
    cases ht with
    | inl h => cases h
    | inr h => cases h

/-- The reader of a connection receives something, and may have taken it from the daemon's end. -/
private theorem Session.Inv.receive (hS : S.Inv) {k : LinkId} {x : Inbound Val} {l : TaskPc Req Val}
    {conn : Connection Req Val} (hx : ∀ id result, x = .response id result → S.Given k id result)
    (hdaemon : ∀ taken next, DaemonEnd (S.Issued k) taken (S.Given k) next (S.connections k) →
      DaemonEnd (S.Issued k) taken (S.Given k) next conn) :
    Session.Inv (Session.connect { S with
      tasks := S.tasks.after (.reader k) (S.tasks.shared.setLink k { S.tasks.shared.links k with
        inbound := (S.tasks.shared.links k).inbound ++ [x] }) l } k conn) := by
  obtain ⟨pc, hk⟩ := hS.links k
  refine hS.link (.inr rfl) (fun j hj => setLink_of_ne _ _ hj)
    ((Processes.after_of_ne S.tasks _ l ?_).trans hk.actor) ?_ ?_
  · exact fun heq => by cases heq
  · rw [setLink_self]
    exact hk.client.receive hx
  · exact hdaemon _ _ hk.daemon

/-- The daemon's end of a connection takes a step. -/
theorem Session.Inv.daemon (hS : S.Inv) {k : LinkId} {S₁ : Session Req Val σ}
    {conn : Connection Req Val} (htasks : S₁.tasks = S.tasks) (hasked : S₁.asked = S.asked)
    (hsent : S₁.sent = S.sent) (hconns : S₁.connections = S.connections)
    (htaken : ∀ j, j ≠ k → S₁.taken j = S.taken j)
    (hgiven : ∀ j id result, S.Given j id result → S₁.Given j id result)
    (hanswered : ∀ x ∈ S₁.answered, x.1 ∈ S₁.dispatched)
    (hdaemon : ∀ pc, S.LinkInv k pc →
      DaemonEnd (S.Issued k) (S₁.taken k) (S₁.Given k) pc.next conn) :
    Session.Inv (S₁.connect k conn) where
  unique := by
    show (S₁.sent.map fun x => (x.link, x.slot)).Nodup
    rw [hsent]
    exact hS.unique
  answered := hanswered
  -- What was issued is what the calls sent, which the daemon's step leaves alone.
  links j := by
    obtain ⟨pc, hj⟩ := hS.links j
    have hissued : ∀ i request, S.Issued j i request ↔ (S₁.connect k conn).Issued j i request := by
      intro i request
      show _ ↔ ∃ x ∈ S₁.sent, _
      rw [hsent]
      exact Iff.rfl
    have hactor : (S₁.connect k conn).tasks.procs (.actor j) = S.tasks.procs (.actor j) := by
      show S₁.tasks.procs _ = _
      rw [htasks]
    have hlink : (S₁.connect k conn).tasks.shared.links j = S.tasks.shared.links j := by
      show S₁.tasks.shared.links j = _
      rw [htasks]
    -- Only the daemon's end of connection `k` changes.
    by_cases hjk : j = k
    · subst hjk
      refine ⟨pc, hactor.trans hj.actor, ?_, ?_⟩
      · rw [hlink]
        exact hj.client.mono hissued (hgiven j)
      · show DaemonEnd _ _ _ _ (Function.update S₁.connections j conn j)
        rw [Function.update_self]
        exact (hdaemon pc hj).mono (fun i request => (hissued i request).mp) (fun _ _ => id)
          fun _ => id
    · refine ⟨pc, hj.frame hactor hlink ?_ hissued (htaken j hjk) (hgiven j)⟩
      show Function.update S₁.connections k conn j = S.connections j
      rw [Function.update_of_ne hjk, hconns]
  callers m := by
    obtain ⟨pc, hm⟩ := hS.callers m
    refine ⟨pc, hm.frame ?_ (congrFun hasked m) ?_ hgiven⟩
    · show S₁.tasks.procs _ = _
      rw [htasks]
    · show S₁.sent.filter _ = S.sent.filter _
      rw [hsent]

/-- A connection that is not changed. -/
private theorem Session.connect_self (S : Session Req Val σ) (k : LinkId) :
    S.connect k (S.connections k) = S := by
  unfold Session.connect
  rw [Function.update_eq_self]

/-- A step that neither asks, sends nor delivers keeps it. -/
private theorem Session.Inv.silent (hS : S.Inv) {t : TaskId} (hsilent : S.Silent t e)
    (hstep : S.tasks.step taskStep t e = some T) : Session.Inv { S with tasks := T } := by
  unfold Session.Silent at hsilent
  -- A silent step is a caller's without a send, an actor's with an empty queue, or a reader's that
  -- is not a line.
  cases t with
  | caller n =>
    obtain ⟨pc, hn⟩ := hS.callers n
    rw [hn.caller] at hsilent
    obtain ⟨s, pc', hcall, rfl⟩ := caller_step hn.caller hstep
    apply hS.quiet hn
    apply callerStep_quiet hcall
    · intro heq
      rw [heq] at hsilent
      exact hsilent
    · intro request attempt k heq
      rw [heq] at hsilent
      exact hsilent
  | actor k =>
    obtain ⟨pc, hk⟩ := hS.links k
    rw [hk.actor] at hsilent
    obtain ⟨s, pc', hact, rfl⟩ := actor_step hk.actor hstep
    have hquiet : ∀ pending nextId, pc = .selecting pending nextId →
        (S.tasks.shared.links k).queue = [] := by
      intro pending nextId heq
      rw [heq] at hsilent
      exact hsilent k rfl
    -- The client's end moves on, and the daemon's end is told nothing.
    obtain ⟨hclient, hnext⟩ := actorStep_clientEnd hact hk.client hquiet
    have hinv : Session.Inv (Session.connect { S with tasks := _ } k (S.connections k)) :=
      hS.link (.inl rfl) (actorStep_frame hact).2 (Processes.after_self S.tasks (.actor k) s _)
        hclient (hk.daemon.mono (fun _ _ => id) (fun _ _ => id) hnext)
    rwa [Session.connect_self { S with tasks := _ }] at hinv
  | reader k =>
    obtain ⟨x, ended, ended', hpc, rfl, hx⟩ := reader_step hstep
    rw [hpc] at hsilent
    have hline : ∀ id result, e ≠ .line id result := hsilent
    have hinv : Session.Inv (Session.connect { S with tasks := _ } k (S.connections k)) :=
      -- A line would have carried a response.
      hS.receive (l := .reader ended') (fun id result heq => absurd (hx id result heq) (hline id result))
        fun _ _ => id
    rwa [Session.connect_self { S with tasks := _ }] at hinv

/-- A new call keeps it. -/
private theorem Session.Inv.call (hS : S.Inv) {n : Nat} {request : Req}
    (hstep : S.tasks.step taskStep (.caller n) (.call request) = some T) :
    Session.Inv
      { S with tasks := T, asked := Function.update S.asked n (some request) } := by
  obtain ⟨pc, hn⟩ := hS.callers n
  obtain ⟨s, pc', hcall, rfl⟩ := caller_step hn.caller hstep
  cases pc with
  | unstarted =>
    cases hcall
    -- nothing was sent for it
    have hnone : S.sentBy n = [] := List.eq_nil_of_length_eq_zero (Nat.le_zero.mp hn.sends)
    refine ⟨hS.unique, hS.answered, fun k => ?_, fun m => ?_⟩
    · obtain ⟨pcₐ, hk⟩ := hS.links k
      exact ⟨pcₐ, hk.frame (after_caller_actor S.tasks n _ _ k) rfl rfl (fun _ _ => Iff.rfl) rfl
        fun _ _ => id⟩
    · by_cases hmn : m = n
      · subst hmn
        refine ⟨.reading request, Processes.after_self S.tasks _ _ _, ?_, ?_, hn.sends,
          fun r a k i h => absurd h (CallPc.ne_awaiting rfl r a k i), fun _ h => by cases h⟩
        · intro r hr
          cases hr
          exact Function.update_self m _ S.asked
        · intro x hx
          exact absurd (hnone ▸ hx : x ∈ []) List.not_mem_nil
      · obtain ⟨pcₘ, hm⟩ := hS.callers m
        exact ⟨pcₘ, hm.frame (after_caller_ne S.tasks hmn _ _) (Function.update_of_ne hmn _ _) rfl
          fun _ _ _ => id⟩
  | reading _ | checking _ _ | locking _ _ | rechecking _ _ | connecting _ _ | sending _ _ _
  | judging _ _ _ | done _ _ => cases hcall
  | awaiting r a k i =>
    simp only [callerStep] at hcall
    cases hcall

/-- What sending a request does to its link. -/
private theorem callerStep_send {n : Nat} {s s' : Shared Req Val} {request : Req} {attempt : Try}
    {k : LinkId} {pc' : CallPc Req Val}
    (h : callerStep n .go s (.sending request attempt k) = some (s', pc'))
    (hclosed : (s.links k).closed = false) :
    s' = s.setLink k { s.links k with
        queue := (s.links k).queue ++ [⟨request, (s.links k).sent⟩], sent := (s.links k).sent + 1 } ∧
      pc' = .awaiting request attempt k (s.links k).sent := by
  simp only [callerStep] at h
  rw [if_neg (by rw [hclosed]; exact Bool.false_ne_true)] at h
  split at h
  next =>
    cases h
    exact ⟨rfl, rfl⟩
  next => cases h

section Append

variable {S' : Session Req Val σ} {x : Sent Req} (hsent : S'.sent = S.sent ++ [x])
include hsent

/-- The requests issued afterwards: one more. -/
theorem issued_append (k : LinkId) (i : Nat) (request : Req) :
    S'.Issued k i request ↔ S.Issued k i request ∨
      x.link = k ∧ x.slot = i ∧ x.request = request := by
  unfold Session.Issued
  rw [hsent]
  simp only [List.mem_append, List.mem_singleton, or_and_right, exists_or, exists_eq_left]

/-- The requests sent by a caller: one more for the one that sends. -/
theorem sentBy_append (n : Nat) :
    S'.sentBy n = if x.caller = n then S.sentBy n ++ [x] else S.sentBy n := by
  unfold Session.sentBy
  rw [hsent, List.filter_append]
  split
  next hx => simp [hx]
  next hx => simp [hx]

end Append

/-- The caller waits on the reply channel of the command that it has sent. -/
private theorem Session.CallerInv.send {S' : Session Req Val σ} {n : Nat} {request : Req}
    {attempt : Try}
    {k : LinkId} {i : Nat} (h : S.CallerInv n (.sending request attempt k))
    (hsent : S'.sent = S.sent ++ [⟨n, k, i, request⟩]) (hasked : S'.asked = S.asked)
    (hpc : S'.tasks.procs (.caller n) = .caller (.awaiting request attempt k i)) :
    S'.CallerInv n (.awaiting request attempt k i) := by
  have hby := (sentBy_append hsent n).trans (if_pos rfl)
  -- The new send is the caller's last, of the request it was asked for.
  refine ⟨hpc, ?_, ?_, ?_, ?_, fun _ h => by cases h⟩
  · intro r hr
    rw [hasked]
    exact h.asked r hr
  · rw [hby, hasked]
    intro x hx
    cases List.mem_append.mp hx with
    | inl hold => exact h.own x hold
    | inr hnew =>
      rw [List.mem_singleton.mp hnew]
      exact h.asked request rfl
  · rw [hby, List.length_append]
    exact Nat.succ_le_succ h.sends
  · intro r a j i' heq
    cases heq
    rw [hby]
    exact List.mem_append_right _ List.mem_cons_self

/-- Sending keeps it. -/
private theorem Session.Inv.send (hS : S.Inv) {n : Nat} {request : Req} {attempt : Try} {k : LinkId}
    (hpc : S.tasks.procs (.caller n) = .caller (.sending request attempt k))
    (hclosed : (S.tasks.shared.links k).closed = false)
    (hstep : S.tasks.step taskStep (.caller n) .go = some T) :
    Session.Inv
      { S with tasks := T, sent := S.sent ++ [⟨n, k, (S.tasks.shared.links k).sent, request⟩] } := by
  obtain ⟨pc, hn⟩ := hS.callers n
  cases hn.caller.symm.trans hpc
  obtain ⟨s, pc', hcall, rfl⟩ := caller_step hpc hstep
  obtain ⟨rfl, rfl⟩ := callerStep_send hcall hclosed
  obtain ⟨pcₐ, hk⟩ := hS.links k
  refine ⟨?_, hS.answered, fun j => ?_, fun m => ?_⟩
  · -- its reply channel is a new one
    show ((S.sent ++ [_]).map _).Nodup
    rw [List.map_append, List.map_singleton]
    apply List.nodup_append_comm.mp
    rw [List.singleton_append, List.nodup_cons]
    refine ⟨fun hmem => ?_, hS.unique⟩
    obtain ⟨x, hx, heq⟩ := List.mem_map.mp hmem
    obtain ⟨hlink, hslot⟩ := Prod.mk.inj heq
    exact Nat.lt_irrefl _ (hk.client.slots _ x.request ⟨x, hx, hlink, hslot, rfl⟩)
  · -- The command is queued on its connection, where it is new; the other connections are as they
    -- were.
    by_cases hjk : j = k
    · subst hjk
      refine ⟨pcₐ, (after_caller_actor S.tasks n _ _ j).trans hk.actor, ?_, ?_⟩
      · show ClientEnd _ _ _ ((S.tasks.shared.setLink j _).links j)
        rw [setLink_self]
        have hreply : (Cmd.mk request (S.tasks.shared.links j).sent).reply =
          (S.tasks.shared.links j).sent := rfl
        apply hk.client.send hreply
        intro i r
        refine (issued_append (S := S) (by rfl) j i r).trans ?_
        simp [eq_comm]
      · exact hk.daemon.mono (fun i r h => (issued_append (S := S) (by rfl) j i r).mpr (.inl h))
          (fun _ _ => id) fun _ => id
    · obtain ⟨pcⱼ, hj⟩ := hS.links j
      refine ⟨pcⱼ, hj.frame (after_caller_actor S.tasks n _ _ j) (setLink_of_ne _ _ hjk) rfl ?_ rfl
        fun _ _ => id⟩
      intro i r
      refine Iff.symm ((issued_append (S := S) (by rfl) j i r).trans ?_)
      simp [Ne.symm hjk]
  · -- The caller that sends awaits its slot; the sends of the others are those of before.
    by_cases hmn : m = n
    · subst hmn
      exact ⟨_, hn.send rfl rfl (Processes.after_self S.tasks _ _ _)⟩
    · obtain ⟨pcₘ, hm⟩ := hS.callers m
      refine ⟨pcₘ, hm.frame (after_caller_ne S.tasks hmn _ _) rfl ?_ fun _ _ _ => id⟩
      exact (sentBy_append (S := S) (by rfl) m).trans (if_neg (Ne.symm hmn))

/-- The actor takes a command and begins to write it. -/
private theorem Session.Inv.write (hS : S.Inv) {k : LinkId} {pending : Pending} {nextId : Nat}
    {cmd : Cmd Req} {rest : List (Cmd Req)}
    (hpc : S.tasks.procs (.actor k) = .actor (.selecting pending nextId))
    (hqueue : (S.tasks.shared.links k).queue = cmd :: rest)
    (hstep : S.tasks.step taskStep (.actor k) .go = some T) :
    Session.Inv (Session.connect { S with tasks := T } k { S.connections k with
      requests := (S.connections k).requests ++ [(nextId, cmd.request)] }) := by
  obtain ⟨pc, hk⟩ := hS.links k
  cases hk.actor.symm.trans hpc
  obtain ⟨s, pc', hact, rfl⟩ := actor_step hpc hstep
  simp only [actorStep, hqueue] at hact
  cases hact
  obtain ⟨hclient, hissued⟩ := hk.client.dequeue hqueue
  refine hS.link (.inl rfl) (fun j hj => setLink_of_ne _ _ hj) (Processes.after_self S.tasks _ _ _)
    ?_ (hk.daemon.write hissued)
  rw [setLink_self]
  exact hclient

/-- Delivering a response keeps it. -/
private theorem Session.Inv.deliver (hS : S.Inv) {k : LinkId} {id : Nat}
    {result : Except String Val}
    {rest : List (Nat × Except String Val)}
    (hresponses : (S.connections k).responses = (id, result) :: rest)
    (hstep : S.tasks.step taskStep (.reader k) (.line id result) = some T) :
    Session.Inv (Session.connect { S with tasks := T } k { S.connections k with
      responses := rest }) := by
  obtain ⟨pc, hk⟩ := hS.links k
  obtain ⟨x, ended, ended', -, rfl, hx⟩ := reader_step hstep
  apply hS.receive
  · intro id' result' heq
    cases hx id' result' heq
    exact hk.daemon.responses (id, result) (hresponses ▸ List.mem_cons_self)
  · intro taken next h
    exact h.lessened (List.Sublist.refl _) (fun _ hx => hx)
      fun y hy => hresponses ▸ List.mem_cons_of_mem _ hy

/-- The requests of a connection that the daemon has begun to serve. -/
theorem mem_taken {k : LinkId} {id : Nat} {request : Req} :
    (id, request) ∈ S.taken k ↔ ⟨k, id, request⟩ ∈ S.dispatched := by
  constructor
  · intro h
    obtain ⟨d, hd, heq⟩ := List.mem_map.mp h
    obtain ⟨hmem, hlink⟩ := List.mem_filter.mp hd
    cases heq
    cases eq_of_beq hlink
    exact hmem
  · intro h
    exact List.mem_map.mpr ⟨_, List.mem_filter.mpr ⟨h, beq_self_eq_true k⟩, rfl⟩

/-- A request that is read keeps it. -/
private theorem Session.Inv.read (hS : S.Inv) {k : LinkId} {id : Nat} {request : Req}
    {rest : List (Nat × Req)} (hrequests : (S.connections k).requests = (id, request) :: rest) :
    Session.Inv (Session.connect { S with dispatched := S.dispatched ++ [⟨k, id, request⟩] } k
      { S.connections k with requests := rest, serving := some (id, request) }) := by
  have htaken : ∀ j, Session.taken { S with dispatched := S.dispatched ++ [⟨k, id, request⟩] } j =
      if k = j then S.taken j ++ [(id, request)] else S.taken j := by
    intro j
    show ((S.dispatched ++ [_]).filter _).map _ = _
    rw [List.filter_append, List.map_append]
    -- The request is counted on its own connection only.
    split
    next hkj => simp [hkj, Session.taken]
    next hkj => simp [hkj, Session.taken]
  refine hS.daemon rfl rfl rfl rfl ?_ (fun _ _ _ h => h) ?_ ?_
  · intro j hjk
    rw [htaken, if_neg (Ne.symm hjk)]
  · intro x hx
    exact List.mem_append_left _ (hS.answered x hx)
  · intro pc hk
    rw [htaken, if_pos rfl]
    exact hk.daemon.read hrequests

/-- The daemon has an answer to what it serves. -/
private theorem Session.Inv.answer (hS : S.Inv) {k : LinkId} {id : Nat} {request : Req}
    {result : Except String Val} (hserving : (S.connections k).serving = some (id, request))
    (s : σ) (ended : Bool) :
    Session.Inv (Session.connect
      { S with daemon := s, answered := S.answered ++ [(⟨k, id, request⟩, result)] } k
      { S.connections k with
        serving := none, ended := ended,
        responses := (S.connections k).responses ++ [(id, result)] }) := by
  -- One more answer has been given, for the request that was served,
  have hgiven : ∀ j i r, S.Given j i r → Session.Given
      { S with daemon := s, answered := S.answered ++ [(⟨k, id, request⟩, result)] } j i r := by
    intro j i r h
    obtain ⟨x, hx, hrest⟩ := h
    exact ⟨x, List.mem_append_left _ hx, hrest⟩
  refine hS.daemon rfl rfl rfl rfl (fun _ _ => rfl) hgiven ?_ ?_
  · intro x hx
    cases List.mem_append.mp hx with
    | inl hold => exact hS.answered x hold
    | inr hnew =>
      rw [List.mem_singleton.mp hnew]
      obtain ⟨pc, hk⟩ := hS.links k
      exact mem_taken.mp (hk.daemon.serving _ hserving)
  · -- which stands now among the responses of its connection.
    intro pc hk
    apply (hk.daemon.mono (fun _ _ h => h) (hgiven k) fun _ h => h).answered
    intro x hx
    rw [List.mem_singleton.mp hx]
    exact ⟨_, List.mem_append_right _ List.mem_cons_self, rfl, rfl, rfl⟩

/-- The daemon's end loses what it has, and some of its responses. -/
private theorem Session.Inv.lose (hS : S.Inv) {k : LinkId} {conn : Connection Req Val} (s : σ)
    (hrequests : conn.requests.Sublist (S.connections k).requests) (hserving : conn.serving = none)
    (hresponses : ∀ x ∈ conn.responses, x ∈ (S.connections k).responses) :
    Session.Inv (Session.connect { S with daemon := s } k conn) := by
  refine hS.daemon rfl rfl rfl rfl (fun _ _ => rfl) (fun _ _ _ h => h) hS.answered ?_
  intro pc hk
  refine hk.daemon.lessened hrequests ?_ hresponses
  intro x hx
  cases hserving.symm.trans hx

variable {D : Service Req Val σ} {env : σ → σ → Prop} {S' : Session Req Val σ}

/-- Every step of a session keeps the invariant. -/
private theorem Session.Inv.step (hS : S.Inv) (h : SessionStep D env S S') : S'.Inv := by
  cases h with
  | silent hsilent hstep => exact hS.silent hsilent hstep
  | call hstep => exact hS.call hstep
  | send hpc hclosed hstep => exact hS.send hpc hclosed hstep
  | write hpc hqueue hstep => exact hS.write hpc hqueue hstep
  | deliver hresponses hstep => exact hS.deliver hresponses hstep
  | read _ _ hrequests => exact hS.read hrequests
  | answer hserving _ _ => exact hS.answer hserving _ _
  | stop hserving _ => exact hS.answer hserving _ _
  | unanswered _ _ _ => exact hS.lose _ (List.Sublist.refl _) rfl fun _ h => h
  | lost kept =>
    exact hS.lose S.daemon (List.nil_sublist _) rfl fun x hx => List.mem_of_mem_take hx
  | @env s hs =>
    have hinv : Session.Inv (Session.connect { S with daemon := s } 0 (S.connections 0)) :=
      hS.daemon rfl rfl rfl rfl (fun _ _ => rfl) (fun _ _ _ h => h) hS.answered fun _ hk => hk.daemon
    rwa [Session.connect_self { S with daemon := s }] at hinv

/-- Every run of a session keeps the invariant. -/
theorem session_inv {s : σ} (hrun : SessionRun D env (.boot s) S) : S.Inv := by
  induction hrun with
  | refl => exact session_inv_boot s
  | tail _ hstep ih => exact ih.step hstep

end Steps

end Semnav.Daemon
