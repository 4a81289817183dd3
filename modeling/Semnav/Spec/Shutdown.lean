import Semnav.Lsp.Shutdown

/-!
# The shutdown escalation

`ServerProcess::shutdown` asks the server to end, then signals it, and each stage waits for one grace
at most.  The `notify` between the request and the first wait is not bounded.

## Key results

- `Teardown.Place.step`: which signals were sent, and when, by the place of `shutdown`
- `Teardown.Within.step`: how long it has taken
- `shutdown_escalates`: every run
-/

namespace Semnav.Lsp

variable {grace : Nat} {s s' : Teardown} {e : TeardownEvent}

/-! ## Signals -/

namespace Teardown

/-- No signal is sent any more. -/
def Skipped (s : Teardown) : Prop := s.isExited = true ∨ s.pid = false

/-- When it is here without having sent a signal. -/
def Unsent (grace : Nat) (s : Teardown) : Prop :=
  match s.pc with
  | .uncalled | .entered | .requesting _ | .notifying => True
  | .checking .exit => s.notifiedAt ≤ s.clock
  | .waiting .exit deadline => s.notifiedAt + grace ≤ deadline
  | .signalling .term | .killing .term => s.notifiedAt + grace ≤ s.clock
  | .killing .kill => False
  | _ => s.Skipped

/-- When it is here after a SIGTERM at this time. -/
def TermSent (grace : Nat) (s : Teardown) (t : Nat) : Prop :=
  match s.pc with
  | .checking (.signal .term) => t ≤ s.clock
  | .waiting (.signal .term) deadline => t + grace ≤ deadline
  | .signalling .kill | .killing .kill => t + grace ≤ s.clock
  | .checking (.signal .kill) | .waiting (.signal .kill) _ | .returned => s.Skipped
  | _ => False

/-- The places where the teardown may be after both signals. -/
def KillSent (s : Teardown) : Prop :=
  match s.pc with
  | .checking (.signal .kill) | .waiting (.signal .kill) _ | .returned => True
  | _ => False

/-- What was sent, and when, by the place of `shutdown`. -/
inductive Place (grace : Nat) (s : Teardown) : Prop where
  | unsent (hsignals : s.signals = []) (h : s.Unsent grace)
  | term (x : SentSignal) (hsignals : s.signals = [x]) (hterm : x.signal = .term)
      (hat : s.notifiedAt + grace ≤ x.sentAt) (h : s.TermSent grace x.sentAt)
  | kill (x y : SentSignal) (hsignals : s.signals = [x, y]) (hterm : x.signal = .term)
      (hat : s.notifiedAt + grace ≤ x.sentAt) (hkill : y.signal = .kill)
      (hlater : x.sentAt + grace ≤ y.sentAt) (h : s.KillSent)

/-- What happens beside `shutdown` takes no signal back. -/
private theorem Place.beside (h : s.Place grace) (hpc : s'.pc = s.pc)
    (hsignals : s'.signals = s.signals)
    (hnotified : s'.notifiedAt = s.notifiedAt) (hclock : s.clock ≤ s'.clock)
    (hskipped : s.Skipped → s'.Skipped) : s'.Place grace := by
  cases h with
  | unsent hnone h =>
    refine .unsent (hsignals.trans hnone) ?_
    unfold Unsent at h ⊢
    rw [hpc, hnotified]
    -- The place is the old one, and the clock only runs on.
    split at h <;> first | exact h | exact Nat.le_trans h hclock | exact hskipped h
  | term x hone hterm hat h =>
    refine .term x (hsignals.trans hone) hterm (hnotified ▸ hat) ?_
    unfold TermSent at h ⊢
    rw [hpc]
    split at h <;> first | exact h | exact Nat.le_trans h hclock | exact hskipped h
  | kill x y hboth hterm hat hkill hlater h =>
    refine .kill x y (hsignals.trans hboth) hterm (hnotified ▸ hat) hkill hlater ?_
    unfold KillSent at h ⊢
    rw [hpc]
    exact h

/-- Nothing was sent at a place that no signal comes before. -/
private theorem Place.early (h : s.Place grace) (hterm : ∀ t, ¬ s.TermSent grace t)
    (hkill : ¬ s.KillSent) :
    s.signals = [] ∧ s.Unsent grace := by
  cases h with
  | unsent hnone h => exact ⟨hnone, h⟩
  | term x _ _ _ h => exact absurd h (hterm x.sentAt)
  | kill _ _ _ _ _ _ _ h => exact absurd h hkill

/-- The teardown returns when it has seen the exit. -/
private theorem Place.exited (h : s.Place grace) (hexited : s.isExited = true) :
    Place grace { s with pc := .returned } := by
  cases h with
  | unsent hnone _ => exact .unsent hnone (.inl hexited)
  | term x hone hterm hat _ => exact .term x hone hterm hat (.inl hexited)
  | kill x y hboth hterm hat hkill hlater _ => exact .kill x y hboth hterm hat hkill hlater trivial

/-- A stage that is still running waits out its grace. -/
private theorem Place.wait {stage : Stage} (h : s.Place grace) (hpc : s.pc = .checking stage) :
    Place grace { s with pc := .waiting stage (s.clock + grace) } := by
  -- How many signals have been sent says which bound is to be kept: none, SIGTERM, or both.
  cases h with
  | unsent hnone h =>
    refine .unsent hnone ?_
    simp only [Unsent, hpc] at h ⊢
    cases stage with
    | exit => exact Nat.add_le_add_right h grace
    | signal sig => cases sig <;> exact h
  | term x hone hterm hat h =>
    refine .term x hone hterm hat ?_
    -- After SIGTERM the wait lasts a grace at least;
    simp only [TermSent, hpc] at h ⊢
    cases stage with
    | exit => exact h
    | signal sig =>
      cases sig with
      | term => exact Nat.add_le_add_right h grace
      | kill => exact h
  | kill x y hboth hterm hat hkill hlater h =>
    refine .kill x y hboth hterm hat hkill hlater ?_
    -- after SIGKILL there is no bound left to keep.
    simp only [KillSent, hpc] at h ⊢
    cases stage with
    | exit => exact h
    | signal sig => cases sig <;> exact h

/-- The grace is over. -/
private theorem Place.timeout {stage : Stage} {deadline : Nat} (h : s.Place grace)
    (hpc : s.pc = .waiting stage deadline) (hdue : deadline ≤ s.clock) :
    Place grace { s with pc := stage.next } := by
  -- The deadline has passed, which is the bound the next stage asks for.
  cases h with
  | unsent hnone h =>
    refine .unsent hnone ?_
    simp only [Unsent, hpc] at h ⊢
    cases stage with
    | exit => exact Nat.le_trans h hdue
    | signal sig => cases sig <;> exact h
  | term x hone hterm hat h =>
    refine .term x hone hterm hat ?_
    simp only [TermSent, hpc] at h ⊢
    cases stage with
    | exit => exact h
    | signal sig =>
      cases sig with
      | term => exact Nat.le_trans h hdue
      | kill => exact h
  | kill x y hboth hterm hat hkill hlater h =>
    refine .kill x y hboth hterm hat hkill hlater ?_
    simp only [KillSent, hpc] at h ⊢
    cases stage with
    | exit => exact h
    | signal sig => cases sig <;> exact h

/-- `signal` sends nothing. -/
private theorem Place.skip {sig : Signal} (h : s.Place grace) (hpc : s.pc = .signalling sig)
    (hskipped : s.Skipped) : Place grace { s with pc := .checking (.signal sig) } := by
  cases h with
  | unsent hnone h =>
    refine .unsent hnone ?_
    cases sig <;> exact hskipped
  | term x hone hterm hat h =>
    refine .term x hone hterm hat ?_
    simp only [TermSent, hpc] at h ⊢
    cases sig with
    | term => exact h.elim
    | kill => exact hskipped
  | kill x y _ _ _ _ _ h =>
    simp only [KillSent, hpc] at h

/-- A signal is sent only to a process not known to have exited. -/
private theorem Place.check {sig : Signal} (h : s.Place grace) (hpc : s.pc = .signalling sig)
    (hskipped : ¬ s.Skipped) : Place grace { s with pc := .killing sig } := by
  cases h with
  | unsent hnone h =>
    refine .unsent hnone ?_
    simp only [Unsent, hpc] at h ⊢
    cases sig with
    | term => exact h
    | kill => exact hskipped h
  | term x hone hterm hat h =>
    refine .term x hone hterm hat ?_
    simp only [TermSent, hpc] at h ⊢
    cases sig <;> exact h
  | kill x y _ _ _ _ _ h =>
    simp only [KillSent, hpc] at h

/-- After a signal the next stage is checked. -/
private theorem Place.send {sig : Signal} (h : s.Place grace) (hpc : s.pc = .killing sig) :
    Place grace { s with
      pc := .checking (.signal sig), signals := s.signals ++ [⟨sig, s.clock, s.holder⟩] } := by
  cases h with
  | unsent hnone h =>
    simp only [Unsent, hpc] at h
    -- With nothing sent yet the signal is the first; the kill has to wait for it.
    cases sig with
    | term =>
      refine .term ⟨.term, s.clock, s.holder⟩ ?_ rfl h (Nat.le_refl _)
      show s.signals ++ _ = _
      rw [hnone, List.nil_append]
    | kill => exact h.elim
  | term x hone hterm hat h =>
    simp only [TermSent, hpc] at h
    -- After the first signal only the kill can follow.
    cases sig with
    | term => exact h.elim
    | kill =>
      refine .kill x ⟨.kill, s.clock, s.holder⟩ ?_ hterm hat rfl h trivial
      show s.signals ++ _ = _
      rw [hone, List.singleton_append]
  -- After the kill nothing is sent.
  | kill x y _ _ _ _ _ h =>
    simp only [KillSent, hpc] at h

/-- What the code tests before it signals. -/
private theorem skipped_iff (s : Teardown) : (s.isExited || !s.pid) = true ↔ s.Skipped := by
  simp [Skipped]

/-- The teardown's own step keeps the place in the escalation. -/
private theorem Place.advance (h : s.Place grace) (hstep : s.advance grace = some s') :
    s'.Place grace := by
  -- One case for each point of the program.
  unfold Teardown.advance at hstep
  cases hpc : s.pc with
  | uncalled =>
    rw [hpc] at hstep
    cases hstep
    -- Early on no signal has been sent.
    have hearly := h.early (by simp [TermSent, hpc]) (by simp [KillSent, hpc])
    exact .unsent hearly.1 trivial
  | entered =>
    rw [hpc] at hstep
    simp only at hstep
    split at hstep
    next hexited =>
      cases hstep
      exact h.exited hexited
    next =>
      cases hstep
      have hearly := h.early (by simp [TermSent, hpc]) (by simp [KillSent, hpc])
      exact .unsent hearly.1 trivial
  | requesting deadline =>
    rw [hpc] at hstep
    simp only at hstep
    split at hstep
    next =>
      cases hstep
      have hearly := h.early (by simp [TermSent, hpc]) (by simp [KillSent, hpc])
      exact .unsent hearly.1 trivial
    next => exact nomatch hstep
  -- The clock is noted here: the graces are counted from this moment on.
  | notifying =>
    rw [hpc] at hstep
    cases hstep
    have hearly := h.early (by simp [TermSent, hpc]) (by simp [KillSent, hpc])
    exact .unsent hearly.1 (Nat.le_refl _)
  | checking stage =>
    rw [hpc] at hstep
    -- Exited: the teardown is over.  Still running: the stage waits.
    simp only at hstep
    split at hstep
    next hexited =>
      cases hstep
      exact h.exited hexited
    next =>
      cases hstep
      exact h.wait hpc
  | waiting stage deadline =>
    rw [hpc] at hstep
    simp only at hstep
    split at hstep
    next hexited =>
      cases hstep
      exact h.exited hexited
    next =>
      -- The wait goes on until the deadline, which leads to the next stage.
      split at hstep
      next hdue =>
        cases hstep
        exact h.timeout hpc hdue
      next => exact nomatch hstep
  | signalling sig =>
    rw [hpc] at hstep
    simp only at hstep
    -- No pid, or already reaped: the signal is not sent.
    split at hstep
    next hskipped =>
      cases hstep
      exact h.skip hpc ((skipped_iff s).mp hskipped)
    next hskipped =>
      cases hstep
      exact h.check hpc fun hs => hskipped ((skipped_iff s).mpr hs)
  | killing sig =>
    rw [hpc] at hstep
    cases hstep
    exact h.send hpc
  | returned =>
    rw [hpc] at hstep
    exact nomatch hstep

/-- A step beside `shutdown`, but for the answer to its request. -/
structure Beside (s s' : Teardown) : Prop where
  pc : s'.pc = s.pc
  signals : s'.signals = s.signals
  notifiedAt : s'.notifiedAt = s.notifiedAt
  enteredAt : s'.enteredAt = s.enteredAt
  clock : s.clock ≤ s'.clock
  skipped : s.Skipped → s'.Skipped

/-- The other events leave program and signals as they were. -/
private theorem step_beside (hstep : s.step grace e = some s') (hgo : e ≠ .go)
    (hanswered : e ≠ .answered) :
    Beside s s' := by
  cases e with
  | go => exact absurd rfl hgo
  | answered => exact absurd rfl hanswered
  | tick =>
    cases hstep
    exact ⟨rfl, rfl, rfl, rfl, Nat.le_succ _, id⟩
  | exit =>
    simp only [Teardown.step] at hstep
    split at hstep
    next =>
      cases hstep
      exact ⟨rfl, rfl, rfl, rfl, Nat.le_refl _, id⟩
    next => exact nomatch hstep
  -- The watcher takes the child's status; the pid is free from then on, or still held.
  | reap ok =>
    simp only [Teardown.step] at hstep
    split at hstep
    next hwaiting =>
      have hskipped : ∀ holder, s.Skipped →
          Skipped { s with holder := holder, watch := .publishing } := by
        intro holder h
        cases h with
        | inl h => exact absurd h (by simp [isExited, hwaiting])
        | inr h => exact .inr h
      split at hstep
      next =>
        split at hstep
        next =>
          cases hstep
          exact ⟨rfl, rfl, rfl, rfl, Nat.le_refl _, hskipped .free⟩
        next => exact nomatch hstep
      next =>
        cases hstep
        exact ⟨rfl, rfl, rfl, rfl, Nat.le_refl _, hskipped s.holder⟩
    next => exact nomatch hstep
  -- The exit is published, so no signal is sent any more.
  | publish =>
    simp only [Teardown.step] at hstep
    split at hstep
    next =>
      cases hstep
      exact ⟨rfl, rfl, rfl, rfl, Nat.le_refl _, fun _ => .inl rfl⟩
    next => exact nomatch hstep
  -- The number of the process may be given to another.
  | reuse held =>
    simp only [Teardown.step] at hstep
    split at hstep
    next =>
      cases hstep
      exact ⟨rfl, rfl, rfl, rfl, Nat.le_refl _, id⟩
    next => exact nomatch hstep

/-- The request is answered. -/
theorem step_answered (hstep : s.step grace .answered = some s') :
    ∃ deadline, s.pc = .requesting deadline ∧ s' = { s with pc := .notifying } := by
  simp only [Teardown.step] at hstep
  split at hstep
  next deadline hpc =>
    cases hstep
    exact ⟨deadline, hpc, rfl⟩
  next => exact nomatch hstep

/-- Every step keeps the place. -/
private theorem Place.step (h : s.Place grace) (hstep : s.step grace e = some s') :
    s'.Place grace := by
  by_cases hgo : e = .go
  · subst hgo
    exact h.advance hstep
  · by_cases hanswered : e = .answered
    · subst hanswered
      obtain ⟨deadline, hpc, rfl⟩ := step_answered hstep
      have hearly := h.early (by simp [TermSent, hpc]) (by simp [KillSent, hpc])
      exact .unsent hearly.1 trivial
    · have hbeside := step_beside hstep hgo hanswered
      exact h.beside hbeside.pc hbeside.signals hbeside.notifiedAt hbeside.clock hbeside.skipped

end Teardown

/-! ## Time -/

/-- How many graces pass before a signal. -/
def Signal.graces : Signal → Nat
  | .term => 2
  | .kill => 3

/-- How many pass before a wait. -/
def Stage.graces : Stage → Nat
  | .exit => 1
  | .signal sig => sig.graces

namespace Teardown

/-- The clock does not move while `shutdown` can go on. -/
def Prompt (s : Teardown) (e : TeardownEvent) : Prop := e = .tick → s.ready = false

/-- At most this many graces have passed since it was called, besides what `notify` has waited. -/
def After (s : Teardown) (grace n : Nat) : Prop := s.clock ≤ s.enteredAt + n * grace + s.stalled

/-- The deadline is so many graces from then at most, and has not passed. -/
def Until (s : Teardown) (grace n deadline : Nat) : Prop :=
  s.clock ≤ deadline ∧ deadline ≤ s.enteredAt + n * grace + s.stalled

/-- How long `shutdown` has taken, by its place. -/
def Within (grace : Nat) (s : Teardown) : Prop :=
  match s.pc with
  | .uncalled | .returned => True
  | .entered => s.After grace 0
  | .requesting deadline => s.Until grace 1 deadline
  | .notifying => s.After grace 1
  | .checking stage => s.After grace stage.graces
  | .waiting stage deadline => s.Until grace (stage.graces + 1) deadline
  | .signalling sig | .killing sig => s.After grace sig.graces

/-- A stage after which `n` graces remain has `n + 1` until its deadline. -/
private theorem After.until {n : Nat} (h : s.After grace n) :
    s.Until grace (n + 1) (s.clock + grace) := by
  refine ⟨Nat.le_add_right _ _, ?_⟩
  unfold After at h
  rw [Nat.add_mul, Nat.one_mul]
  omega

/-- When the deadline has passed, `n` graces remain. -/
theorem Until.after {n deadline : Nat} (h : s.Until grace n deadline) : s.After grace n :=
  Nat.le_trans h.1 h.2

/-- The teardown's own step keeps it within its budget. -/
private theorem Within.advance (h : s.Within grace) (hstep : s.advance grace = some s') :
    s'.Within grace := by
  unfold Teardown.advance at hstep
  -- The budget left is read off the program's point.
  unfold Within at h
  cases hpc : s.pc with
  | uncalled =>
    rw [hpc] at hstep
    cases hstep
    show s.clock ≤ s.clock + 0 * grace + s.stalled
    omega
  | entered =>
    -- An exit ends the teardown; otherwise one grace is begun.
    rw [hpc] at hstep h
    simp only at hstep
    split at hstep
    next =>
      cases hstep
      trivial
    next =>
      cases hstep
      exact After.until h
  | requesting deadline =>
    rw [hpc] at hstep h
    simp only at hstep
    split at hstep
    next =>
      cases hstep
      exact Until.after h
    next => exact nomatch hstep
  | notifying =>
    rw [hpc] at hstep h
    cases hstep
    exact h
  | checking stage =>
    rw [hpc] at hstep h
    simp only at hstep
    split at hstep
    next =>
      cases hstep
      trivial
    next =>
      cases hstep
      exact After.until h
  | waiting stage deadline =>
    rw [hpc] at hstep h
    simp only at hstep
    split at hstep
    next =>
      cases hstep
      trivial
    next =>
      split at hstep
      next =>
        -- A stage that has waited out its grace has one grace less before it.
        cases hstep
        cases stage with
        | exit => exact Until.after h
        | signal sig =>
          cases sig with
          | term => exact Until.after h
          | kill => trivial
      next => exact nomatch hstep
  | signalling sig =>
    rw [hpc] at hstep h
    simp only at hstep
    split at hstep
    next =>
      cases hstep
      exact h
    next =>
      cases hstep
      exact h
  | killing sig =>
    rw [hpc] at hstep h
    cases hstep
    exact h
  | returned =>
    rw [hpc] at hstep
    exact nomatch hstep

/-- The clock moves: nothing is due. -/
private theorem Within.tick (h : s.Within grace) (hready : s.ready = false) :
    Within grace { s with
      clock := s.clock + 1, stalled := if s.pc = .notifying then s.stalled + 1 else s.stalled } := by
  unfold Within at h
  -- Time passes only while the teardown has nothing to do but wait,
  cases hpc : s.pc with
  | uncalled | returned => simp [Within]
  | entered | checking _ | signalling _ | killing _ => simp [ready, hpc] at hready
  | requesting deadline =>
    rw [hpc] at h
    simp only [ready, hpc, decide_eq_false_iff_not] at hready
    simp only [Within, Until, reduceCtorEq, if_false]
    exact ⟨by omega, h.2⟩
  -- except before the notification, where what passes counts as stalled.
  | notifying =>
    rw [hpc] at h
    simp only [Within, if_true]
    unfold After at h ⊢
    simp only
    omega
  | waiting stage deadline =>
    rw [hpc] at h
    simp only [ready, hpc, Bool.or_eq_false_iff, decide_eq_false_iff_not] at hready
    simp only [Within, Until, reduceCtorEq, if_false]
    exact ⟨by omega, h.2⟩

/-- Every step keeps the teardown within its budget, when it is scheduled in time. -/
private theorem Within.step (h : s.Within grace) (hprompt : s.Prompt e)
    (hstep : s.step grace e = some s') :
    s'.Within grace := by
  cases e with
  | go => exact h.advance hstep
  | tick =>
    cases hstep
    exact h.tick (hprompt rfl)
  -- The server's answer ends the wait for it.
  | answered =>
    obtain ⟨deadline, hpc, rfl⟩ := step_answered hstep
    unfold Within at h
    rw [hpc] at h
    exact Until.after h
  -- What happens beside the shutdown does not move it.
  | exit | reap _ | publish | reuse _ =>
    simp only [Teardown.step] at hstep
    repeat' split at hstep
    all_goals first
      | contradiction
      | (cases hstep; exact h)

/-! ## The pid -/

/-- The pid belongs to the child as long as it was not waited for. -/
def Ours : PidHolder → Prop
  | .child | .zombie => True
  | .free | .other => False

/-- The child is not waited for between the check in `signal` and its `kill`, nor is there such a
    check between the return of `child.wait()` and the publication. -/
def Undisturbed (s : Teardown) (e : TeardownEvent) : Prop :=
  match e with
  | .reap _ => ∀ sig, s.pc ≠ .killing sig
  | .go => s.watch = .publishing → ∀ sig, s.pc ≠ .signalling sig
  | _ => True

/-- The pid held is the child's while the child has not been reaped. -/
structure OwnPid (s : Teardown) : Prop where
  waiting : s.watch = .waiting → Ours s.holder
  killing : ∀ sig, s.pc = .killing sig → Ours s.holder
  sent : ∀ x ∈ s.signals, Ours x.target

/-- What `shutdown` does but for its checks and signals. -/
private theorem OwnPid.moved (h : s.OwnPid) {pc : ShutdownPc} (hpc : ∀ sig, pc ≠ .killing sig)
    {enteredAt notifiedAt : Nat} :
    OwnPid { s with pc := pc, enteredAt := enteredAt, notifiedAt := notifiedAt } where
  waiting := h.waiting
  killing sig hsig := absurd hsig (hpc sig)
  sent := h.sent

/-- No stage leads straight to a kill. -/
private theorem stage_next_ne_killing (stage : Stage) (sig : Signal) :
    stage.next ≠ .killing sig := by
  cases stage with
  | exit => exact nofun
  | signal s => cases s <;> exact nofun

/-- The teardown's own step keeps the pid the child's. -/
private theorem OwnPid.advance (h : s.OwnPid) (hok : s.Undisturbed .go)
    (hstep : s.advance grace = some s') :
    s'.OwnPid := by
  unfold Teardown.advance at hstep
  cases hpc : s.pc with
  | uncalled | notifying =>
    rw [hpc] at hstep
    cases hstep
    exact h.moved (by exact nofun)
  | entered | checking _ =>
    rw [hpc] at hstep
    simp only at hstep
    split at hstep
    next =>
      cases hstep
      exact h.moved (by exact nofun)
    next =>
      cases hstep
      exact h.moved (by exact nofun)
  | requesting deadline =>
    rw [hpc] at hstep
    simp only at hstep
    split at hstep
    next =>
      cases hstep
      exact h.moved (by exact nofun)
    next => exact nomatch hstep
  | waiting stage deadline =>
    rw [hpc] at hstep
    simp only at hstep
    split at hstep
    next =>
      cases hstep
      exact h.moved (by exact nofun)
    next =>
      split at hstep
      next =>
        cases hstep
        exact h.moved (stage_next_ne_killing stage)
      next => exact nomatch hstep
  | signalling sig =>
    rw [hpc] at hstep
    simp only at hstep
    split at hstep
    next =>
      cases hstep
      exact h.moved (by exact nofun)
    next hskipped =>
      -- the watch is neither done nor in between, so it waits
      cases hstep
      have hwaiting : s.watch = .waiting := by
        cases hwatch : s.watch with
        | waiting => rfl
        | publishing => exact absurd hpc (hok hwatch sig)
        | published => simp [isExited, hwatch] at hskipped
      exact ⟨h.waiting, fun _ _ => h.waiting hwaiting, h.sent⟩
  | killing sig =>
    rw [hpc] at hstep
    cases hstep
    refine ⟨h.waiting, nofun, fun x hx => ?_⟩
    cases List.mem_append.mp hx with
    | inl hold => exact h.sent x hold
    | inr hnew =>
      rw [List.mem_singleton.mp hnew]
      exact h.killing sig hpc
  | returned =>
    rw [hpc] at hstep
    exact nomatch hstep

/-- Every step keeps the pid the child's, unless the watcher reaps between check and kill. -/
private theorem OwnPid.step (h : s.OwnPid) (hok : s.Undisturbed e)
    (hstep : s.step grace e = some s') :
    s'.OwnPid := by
  cases e with
  | go => exact h.advance hok hstep
  | tick =>
    cases hstep
    exact ⟨h.waiting, h.killing, h.sent⟩
  | answered =>
    obtain ⟨deadline, hpc, rfl⟩ := step_answered hstep
    exact h.moved (by exact nofun)
  | exit =>
    simp only [Teardown.step] at hstep
    split at hstep
    next =>
      cases hstep
      exact ⟨fun _ => trivial, fun _ _ => trivial, h.sent⟩
    next => exact nomatch hstep
  | reap ok =>
    simp only [Teardown.step] at hstep
    split at hstep
    next =>
      split at hstep
      next =>
        split at hstep
        next =>
          cases hstep
          exact ⟨nofun, fun sig hsig => absurd hsig (hok sig), h.sent⟩
        next => exact nomatch hstep
      next =>
        cases hstep
        exact ⟨nofun, h.killing, h.sent⟩
    next => exact nomatch hstep
  | publish =>
    simp only [Teardown.step] at hstep
    split at hstep
    next =>
      cases hstep
      exact ⟨nofun, h.killing, h.sent⟩
    next => exact nomatch hstep
  | reuse held =>
    simp only [Teardown.step] at hstep
    split at hstep
    next hgone =>
      -- the pid is the child's no more, so nothing relies on it
      cases hstep
      have hours : ¬ Ours s.holder := by
        cases hgone with
        | inl hfree => rw [hfree]; exact id
        | inr hother => rw [hother]; exact id
      exact ⟨fun hw => absurd (h.waiting hw) hours, fun sig hsig => absurd (h.killing sig hsig) hours,
        h.sent⟩
    next => exact nomatch hstep

end Teardown

/-! ## Every run -/

section Run

variable {ok : Teardown → TeardownEvent → Prop} {pid : Bool}

/-- What a run has come to. -/
structure Escalated (grace : Nat) (ok : Teardown → TeardownEvent → Prop) (s : Teardown) : Prop where
  /-- A SIGTERM first, if there is a signal, and then a SIGKILL, each once at most. -/
  order : s.signals.map SentSignal.signal <+: [.term, .kill]
  /-- A signal comes a grace after what it follows. -/
  term : ∀ x ∈ s.signals, x.signal = .term → s.notifiedAt + grace ≤ x.sentAt
  kill : ∀ x ∈ s.signals, x.signal = .kill →
    ∃ y ∈ s.signals, y.signal = .term ∧ y.sentAt + grace ≤ x.sentAt
  /-- It does not return while the server may be running, unless it has killed it. -/
  returned : s.pc = .returned → s.isExited = true ∨ s.pid = false ∨
    ∃ x ∈ s.signals, x.signal = .kill
  /-- It takes four graces at most, besides what its `notify` waits. -/
  bounded : (∀ s e, ok s e → s.Prompt e) → s.pc ≠ .uncalled → s.pc ≠ .returned →
    s.clock ≤ s.enteredAt + 4 * grace + s.stalled
  /-- It signals no other process. -/
  ours : (∀ s e, ok s e → s.Undisturbed e) → ∀ x ∈ s.signals, Teardown.Ours x.target

/-- Every run keeps the place. -/
private theorem teardown_place (hrun : TeardownRun grace ok (.spawned pid) s) : s.Place grace := by
  induction hrun with
  | refl => exact .unsent rfl trivial
  | tail _ _ hstep ih => exact ih.step hstep

/-- Every run keeps the budget. -/
private theorem teardown_within (hok : ∀ s e, ok s e → s.Prompt e)
    (hrun : TeardownRun grace ok (.spawned pid) s) : s.Within grace := by
  induction hrun with
  | refl => trivial
  | tail _ hadm hstep ih => exact ih.step (hok _ _ hadm) hstep

/-- Every run keeps the pid. -/
private theorem teardown_ownPid (hok : ∀ s e, ok s e → s.Undisturbed e)
    (hrun : TeardownRun grace ok (.spawned pid) s) : s.OwnPid := by
  induction hrun with
  | refl => exact ⟨fun _ => trivial, nofun, fun _ hx => absurd hx List.not_mem_nil⟩
  | tail _ hadm hstep ih => exact ih.step (hok _ _ hadm) hstep

/-- Between call and return lie at most four graces and what it was stalled. -/
private theorem Teardown.Within.bounded (h : s.Within grace) (hcalled : s.pc ≠ .uncalled)
    (hreturned : s.pc ≠ .returned) : s.clock ≤ s.enteredAt + 4 * grace + s.stalled := by
  -- No point of the program has more than four graces before it.
  have hle : ∀ n, n ≤ 4 → s.After grace n → s.clock ≤ s.enteredAt + 4 * grace + s.stalled := by
    intro n hn hafter
    have hmul : n * grace ≤ 4 * grace := Nat.mul_le_mul_right grace hn
    unfold After at hafter
    omega
  unfold Within at h
  cases hpc : s.pc with
  | uncalled => exact absurd hpc hcalled
  | returned => exact absurd hpc hreturned
  | entered =>
    rw [hpc] at h
    exact hle 0 (by decide) h
  | requesting deadline =>
    rw [hpc] at h
    exact hle 1 (by decide) h.after
  | notifying =>
    rw [hpc] at h
    exact hle 1 (by decide) h
  | checking stage =>
    rw [hpc] at h
    refine hle stage.graces ?_ h
    cases stage with
    | exit => decide
    | signal sig => cases sig <;> decide
  | waiting stage deadline =>
    rw [hpc] at h
    refine hle (stage.graces + 1) ?_ h.after
    cases stage with
    | exit => decide
    | signal sig => cases sig <;> decide
  | signalling sig | killing sig =>
    rw [hpc] at h
    refine hle sig.graces ?_ h
    cases sig <;> decide

/-- After every run: a server that does not exit is sent a SIGTERM and then a SIGKILL, each a grace
    after the step before; `shutdown` returns within four graces and what its `notify` waits; and
    no other process is signalled, unless the child is waited for between a check and its `kill`, or
    checked between its `wait` and the publication. -/
theorem shutdown_escalates (hrun : TeardownRun grace ok (.spawned pid) s) : Escalated grace ok s := by
  -- The signals sent, and when, are read off the place reached.
  have hplace := teardown_place hrun
  refine ⟨?_, ?_, ?_, ?_, ?_, ?_⟩
  · cases hplace with
    | unsent hnone _ => simp [hnone]
    | term x hone hterm _ _ => simp [hone, hterm]
    | kill x y hboth hterm _ hkill _ _ => simp [hboth, hterm, hkill]
  · intro x hx hterm
    cases hplace with
    | unsent hnone _ => exact absurd hx (by simp [hnone])
    | term y hone _ hat _ =>
      rw [hone] at hx
      rw [List.mem_singleton.mp hx]
      exact hat
    | kill y z hboth _ hat hkill _ _ =>
      simp only [hboth, List.mem_cons, List.not_mem_nil, or_false] at hx
      rcases hx with rfl | rfl
      · exact hat
      · exact nomatch hterm.symm.trans hkill
  · intro x hx hkill
    cases hplace with
    | unsent hnone _ => exact absurd hx (by simp [hnone])
    | term y hone hterm _ _ =>
      rw [hone] at hx
      rw [List.mem_singleton.mp hx] at hkill
      exact nomatch hkill.symm.trans hterm
    | kill y z hboth hterm _ _ hlater _ =>
      simp only [hboth, List.mem_cons, List.not_mem_nil, or_false] at hx
      rcases hx with rfl | rfl
      · exact nomatch hkill.symm.trans hterm
      · exact ⟨y, by simp [hboth], hterm, hlater⟩
  · -- At the return the process has exited, was never signalled for want of a pid, or was killed.
    intro hpc
    cases hplace with
    | unsent _ h =>
      simp only [Teardown.Unsent, hpc, Teardown.Skipped] at h
      exact h.imp_right .inl
    | term _ _ _ _ h =>
      simp only [Teardown.TermSent, hpc, Teardown.Skipped] at h
      exact h.imp_right .inl
    | kill y z hboth _ _ hkill _ _ => exact .inr (.inr ⟨z, by simp [hboth], hkill⟩)
  · exact fun hok => (teardown_within hok hrun).bounded
  · exact fun hok => (teardown_ownPid hok hrun).sent

end Run

/-- A server that ignores its `shutdown` request and exits on a SIGTERM. -/
theorem shutdown_escalates_term : ∃ s,
    TeardownRun 1 (fun s e => s.Prompt e ∧ s.Undisturbed e) (.spawned true) s ∧
      s.pc = .returned ∧ s.signals = [⟨.term, 2, .child⟩] ∧
      Escalated 1 (fun s e => s.Prompt e ∧ s.Undisturbed e) s := by
  -- The request and the grace take a tick each; after the first signal the child exits and is
  -- reaped.
  have hrun : TeardownRun 1 (fun s e => s.Prompt e ∧ s.Undisturbed e) (.spawned true) _ := .refl
  have hrun := hrun.tail (e := .go) ⟨nofun, nofun⟩ rfl
  have hrun := hrun.tail (e := .go) ⟨nofun, nofun⟩ rfl
  have hrun := hrun.tail (e := .tick) ⟨fun _ => rfl, trivial⟩ rfl
  have hrun := hrun.tail (e := .go) ⟨nofun, nofun⟩ rfl
  have hrun := hrun.tail (e := .go) ⟨nofun, nofun⟩ rfl
  have hrun := hrun.tail (e := .go) ⟨nofun, nofun⟩ rfl
  have hrun := hrun.tail (e := .tick) ⟨fun _ => rfl, trivial⟩ rfl
  have hrun := hrun.tail (e := .go) ⟨nofun, nofun⟩ rfl
  have hrun := hrun.tail (e := .go) ⟨nofun, nofun⟩ rfl
  have hrun := hrun.tail (e := .go) ⟨nofun, nofun⟩ rfl
  have hrun := hrun.tail (e := .go) ⟨nofun, nofun⟩ rfl
  have hrun := hrun.tail (e := .exit) ⟨nofun, trivial⟩ rfl
  have hrun := hrun.tail (e := .reap true) ⟨nofun, nofun⟩ rfl
  have hrun := hrun.tail (e := .publish) ⟨nofun, trivial⟩ rfl
  have hrun := hrun.tail (e := .go) ⟨nofun, nofun⟩ rfl
  exact ⟨_, hrun, rfl, rfl, shutdown_escalates hrun⟩

end Semnav.Lsp
