import Mathlib.Data.List.Chain
import Semnav.Spec.SupervisorState

/-!
# The restart schedule

A supervisor starts its server at the first `acquire` and then only when its timer fires.  With a
clock beside the actor, every start is as late as the policy has it, and what has failed says how
late that is.

## Key results

- `attemptStart_schedules`: an attempt goes on the schedule, and what comes of it sets the timer
- `handle_schedules`: an event keeps the schedule
- `restart_schedule`: every run
-/

namespace Semnav.Lsp

open Semnav.ForStd Supervisor

/-- What the policy waits for after so many failures. -/
def RestartPolicy.delay (policy : RestartPolicy) (failures : Nat) : Duration :=
  if failures ≥ policy.maxFailures then policy.downRetry else policy.nthBackoff (failures - 1)

/-- The last slot of the backoff is never waited for: the server is down by then. -/
private theorem RestartPolicy.delay_defaultReal {failures : Nat} (h : 1 ≤ failures) :
    RestartPolicy.defaultReal.delay failures =
      if failures ≥ 5 then 30000 else 1000 * 2 ^ (failures - 1) := by
  by_cases hdown : failures ≥ 5
  · rw [if_pos hdown]
    exact if_pos hdown
  · rw [if_neg hdown]
    refine (if_neg hdown).trans ?_
    obtain rfl | rfl | rfl | rfl : failures = 1 ∨ failures = 2 ∨ failures = 3 ∨ failures = 4 := by
      omega
    all_goals rfl

/-- One second at least. -/
private theorem RestartPolicy.le_delay_defaultReal (failures : Nat) :
    1000 ≤ RestartPolicy.defaultReal.delay failures := by
  cases failures with
  | zero => exact Nat.le_refl 1000
  | succ n =>
    rw [delay_defaultReal (Nat.le_add_left 1 n)]
    split
    · decide
    · exact Nat.le_mul_of_pos_right 1000 (Nat.two_pow_pos _)

/-! ## Attempts -/

/-- A call of `factory.start()`. -/
structure Attempt where
  startedAt : Nat
  ended : Nat
  /-- The failures counted before. -/
  failures : Nat
  /-- What failed, if it has. -/
  failure : Option Failure
  le : startedAt ≤ ended
deriving DecidableEq

/-- The failures counted when it is retried, or when its server has failed. -/
def Attempt.nextFailures (x : Attempt) : Nat :=
  match x.failure with
  | none => 1
  | some _ => min (x.failures + 1) (2 ^ 32 - 1)

/-- The next attempt may start at this time with so many failures. -/
structure Attempt.Retries (policy : RestartPolicy) (x : Attempt) (failures startedAt : Nat) :
    Prop where
  failure : x.failure ≠ some .provision
  counted : failures = x.nextFailures
  delay : x.ended + policy.delay failures ≤ startedAt

/-- One attempt after the other. -/
def Attempt.Precedes (policy : RestartPolicy) (x y : Attempt) : Prop :=
  x.Retries policy y.failures y.startedAt

/-- The attempts of a supervisor. -/
structure Schedule (policy : RestartPolicy) (attempts : List Attempt) : Prop where
  chain : attempts.IsChain (Attempt.Precedes policy)
  first : ∀ x ∈ attempts.head?, x.failures = 0

/-- An attempt may be the next one. -/
def Follows (policy : RestartPolicy) (attempts : List Attempt) (failures startedAt : Nat) : Prop :=
  match attempts.getLast? with
  | none => failures = 0
  | some x => x.Retries policy failures startedAt

/-- A start that follows the earlier ones extends the schedule. -/
private theorem Schedule.concat {policy : RestartPolicy} {attempts : List Attempt} {y : Attempt}
    (h : Schedule policy attempts) (hy : Follows policy attempts y.failures y.startedAt) :
    Schedule policy (attempts ++ [y]) := by
  unfold Follows at hy
  cases hlast : attempts.getLast? with
  | none =>
    rw [hlast] at hy
    -- The first attempt of all waits for nothing.
    obtain rfl := List.getLast?_eq_none_iff.mp hlast
    exact ⟨.singleton y, fun x hx => by rwa [← Option.some.inj hx]⟩
  | some x =>
    rw [hlast] at hy
    refine ⟨h.chain.append (.singleton y) ?_, fun z hz => h.first z ?_⟩
    · -- The chain grows by its last link, and its first attempt is the same.
      intro x' hx' y' hy'
      obtain rfl : x = x' := Option.some.inj (hlast.symm.trans hx')
      obtain rfl : y = y' := Option.some.inj hy'
      exact hy
    · have hne : attempts ≠ [] := by
        rintro rfl
        exact nomatch hlast
      rwa [List.head?_append_of_ne_nil _ hne] at hz

/-- A number of attempts takes that many waits at least. -/
private theorem paced {policy : RestartPolicy} {d : Nat} (hd : ∀ n, d ≤ policy.delay n)
    {x : Attempt}
    {xs : List Attempt} (h : (x :: xs).IsChain (Attempt.Precedes policy)) :
    ∀ y ∈ (x :: xs).getLast?, x.startedAt + xs.length * d ≤ y.ended := by
  induction xs generalizing x with
  | nil =>
    intro y hy
    obtain rfl : x = y := Option.some.inj hy
    simpa using x.le
  | cons z zs ih =>
    intro y hy
    -- The first attempt ends and then waits out the delay before the next, at least `d`.
    obtain ⟨hxz, hrest⟩ := List.isChain_cons_cons.mp h
    have hz := ih hrest y (by rwa [List.getLast?_cons_cons] at hy)
    have hwait := hxz.delay
    have hd := hd z.failures
    have hx := x.le
    rw [List.length_cons, Nat.succ_mul]
    omega

/-! ## The actor with a clock -/

/-- The supervisor with the time, the time at which its timer was set, and its attempts. -/
structure TimedActor where
  sup : Supervisor
  clock : Nat
  armedAt : Nat
  attempts : List Attempt

/-- The actor as it is spawned, nothing started yet. -/
def TimedActor.spawn (language : String) (policy : RestartPolicy) : TimedActor :=
  ⟨.spawn language policy, 0, 0, []⟩

/-- Time passes. -/
def TimedActor.Later (a a' : TimedActor) : Prop := ∃ n, a' = { a with clock := a.clock + n }

/-- An update takes no time.  A timer runs from the update that sets it. -/
def TimedActor.update (a : TimedActor) (f : Supervisor → Supervisor) : TimedActor :=
  { a with
    sup := f a.sup
    armedAt := if (f a.sup).restartTimer = a.sup.restartTimer then a.armedAt else a.clock }

/-- What has failed in a start. -/
def startFailure : Except StartError StartedServer → Option Failure
  | .ok _ => none
  | .error error => some error.failure

/-- Whatever is awaited takes its time. -/
def SupervisorCmd.Takes {β : Type} (a : TimedActor) : SupervisorCmd β → β → TimedActor → Prop
  | .get, s, a' => s = a.sup ∧ a' = a
  | .update f, _, a' => a' = a.update f
  | .start, res, a' => ∃ n, a' = { a with
      clock := a.clock + n
      attempts := a.attempts ++
        [⟨a.clock, a.clock + n, a.sup.failures, startFailure res, Nat.le_add_right _ _⟩] }
  | .recordMeta _ _, _, a' => a.Later a'
  | .nowSecs, _, a' => a.Later a'
  | .spawnShutdown _, _, a' => a.Later a'
  | .shutdown _, _, a' => a.Later a'
  | .dropServer _, _, a' => a.Later a'

/-- What the commands do to the clock and the attempts. -/
def timedProtocol : Prog.Protocol SupervisorCmd TimedActor where
  replies := SupervisorCmd.Takes
  allowed _ _ := True

/-- A timer fires when its time is over. -/
def SupervisorEvent.Due (a : TimedActor) : SupervisorEvent → Prop
  | .timer => ∃ d, a.sup.restartTimer = some d ∧ a.armedAt + d ≤ a.clock
  | event => event.Ready a.sup

/-- The actor waits and handles events, up to a shutdown. -/
inductive TimedRun (language : String) (policy : RestartPolicy) : TimedActor → Prop where
  | spawn : TimedRun language policy (.spawn language policy)
  | wait {a a' : TimedActor} (hrun : TimedRun language policy a) (hlater : a.Later a') :
      TimedRun language policy a'
  | event {a a' : TimedActor} {e : SupervisorEvent} {reply : SupervisorReply}
      (hrun : TimedRun language policy a) (hdue : e.Due a) (hstops : e.stops = false)
      (hsteps : Prog.Steps timedProtocol (handle e) a (pure reply) a') :
      TimedRun language policy a'

/-! ## The invariant -/

namespace TimedActor

/-- The timer is that of the last attempt. -/
structure Armed (policy : RestartPolicy) (a : TimedActor) (d : Duration) : Prop where
  delay : d = policy.delay a.sup.failures
  last : ∃ x, a.attempts.getLast? = some x ∧ x.failure ≠ some .provision ∧
    a.sup.failures = x.nextFailures ∧ x.ended ≤ a.armedAt

/-- What the attempts have led to. -/
def Settled (policy : RestartPolicy) (a : TimedActor) : Prop :=
  match a.sup.state with
  | .notStarted => a.attempts = [] ∧ a.sup.failures = 0 ∧ a.sup.restartTimer = none
  | .starting => False
  | .healthy => (∃ x, a.attempts.getLast? = some x ∧ x.failure = none ∧ x.ended ≤ a.clock) ∧
      a.sup.failures = 0 ∧ a.sup.restartTimer = none
  | .restarting | .down => ∀ d, a.sup.restartTimer = some d → a.Armed policy d

/-- The actor between two events. -/
structure Inv (policy : RestartPolicy) (a : TimedActor) : Prop where
  same : a.sup.policy = policy
  schedule : Schedule policy a.attempts
  ended : ∀ x ∈ a.attempts, x.ended ≤ a.clock
  settled : a.Settled policy

/-- An attempt may start now. -/
structure MayStart (policy : RestartPolicy) (a : TimedActor) : Prop where
  same : a.sup.policy = policy
  schedule : Schedule policy a.attempts
  ended : ∀ x ∈ a.attempts, x.ended ≤ a.clock
  timer : a.sup.restartTimer = none
  follows : ∀ t, a.clock ≤ t → Follows policy a.attempts a.sup.failures t

end TimedActor

section Helpers

variable {policy : RestartPolicy} {a a' : TimedActor}

open TimedActor

/-- No event waits for time to stand still. -/
theorem TimedActor.Inv.later (h : a.Inv policy) (hlater : a.Later a') : a'.Inv policy := by
  obtain ⟨n, rfl⟩ := hlater
  refine ⟨h.same, h.schedule, fun x hx => (h.ended x hx).trans (Nat.le_add_right _ _), ?_⟩
  have hsettled := h.settled
  unfold Settled at hsettled ⊢
  cases hstate : a.sup.state with
  | healthy =>
    simp only [hstate] at hsettled ⊢
    obtain ⟨⟨x, hx, hok, hended⟩, hrest⟩ := hsettled
    exact ⟨⟨x, hx, hok, hended.trans (Nat.le_add_right _ _)⟩, hrest⟩
  | notStarted =>
    simp only [hstate] at hsettled ⊢
    exact hsettled
  | starting => simp only [hstate] at hsettled
  | restarting | down =>
    simp only [hstate] at hsettled ⊢
    exact fun d hd => ⟨(hsettled d hd).delay, (hsettled d hd).last⟩

/-- Time may stand still. -/
theorem TimedActor.Later.refl (a : TimedActor) : a.Later a := ⟨0, rfl⟩

/-- Time passes after time has passed. -/
theorem TimedActor.Later.trans {a'' : TimedActor} (h : a.Later a') (h' : a'.Later a'') :
    a.Later a'' := by
  obtain ⟨n, rfl⟩ := h
  obtain ⟨m, rfl⟩ := h'
  exact ⟨n + m, by rw [Nat.add_assoc]⟩

/-- A command with what comes of it. -/
theorem obeys_timed {α β : Type} {c : SupervisorCmd β} {f : β → SupervisorM α}
    {Q : α → TimedActor → Prop}
    (hf : ∀ b a', c.Takes a b a' → Prog.Obeys timedProtocol Q (f b) a') :
    Prog.Obeys timedProtocol Q (Prog.perform c >>= f) a :=
  ⟨trivial, hf⟩

/-- Recording the state takes time and starts nothing. -/
theorem recordState_later : Prog.Obeys timedProtocol (fun _ a' => a.Later a') recordState a := by
  refine obeys_timed fun s a₀ h₀ => ?_
  obtain ⟨rfl, rfl⟩ := h₀
  refine obeys_timed fun _ a₁ h₁ => ?_
  refine obeys_timed fun _ a₂ h₂ => ?_
  refine .perform trivial fun _ a₃ h₃ => ?_
  exact (h₁.trans h₂).trans h₃

/-- Letting a keepalive go takes time and starts nothing. -/
private theorem dropKeepalive_later (keepalive : Option ServerId) :
    Prog.Obeys timedProtocol (fun _ a' => a.Later a') (dropKeepalive keepalive) a := by
  cases keepalive with
  | none => exact .refl a
  | some server => exact .perform trivial fun _ a' h' => h'

/-- The timer is not set here. -/
theorem TimedActor.update_keeps {f : Supervisor → Supervisor}
    (hf : (f a.sup).restartTimer = a.sup.restartTimer) : a.update f = { a with sup := f a.sup } := by
  rw [TimedActor.update, if_pos hf]

/-- Dropping a server takes time and starts nothing. -/
private theorem dropCurrent_later :
    Prog.Obeys timedProtocol (fun _ a' => TimedActor.Later { a with sup := a.sup.cleared } a')
      dropCurrent a := by
  refine obeys_timed fun s a₀ h₀ => ?_
  obtain ⟨rfl, rfl⟩ := h₀
  refine obeys_timed fun _ a₁ h₁ => ?_
  have hkeeps := TimedActor.update_keeps (a := a₀) (f := Supervisor.cleared) rfl
  obtain rfl : a₁ = { a₀ with sup := a₀.sup.cleared } := h₁.trans hkeeps
  exact dropKeepalive_later _

/-- Dropping a server gracefully takes time and starts nothing. -/
private theorem dropCurrentGracefully_later :
    Prog.Obeys timedProtocol (fun _ a' => TimedActor.Later { a with sup := a.sup.cleared } a')
      dropCurrentGracefully a := by
  refine obeys_timed fun s a₀ h₀ => ?_
  obtain ⟨rfl, rfl⟩ := h₀
  refine obeys_timed fun _ a₁ h₁ => ?_
  have hkeeps := TimedActor.update_keeps (a := a₀) (f := Supervisor.cleared) rfl
  obtain rfl : a₁ = { a₀ with sup := a₀.sup.cleared } := h₁.trans hkeeps
  cases a₀.sup.currentKeepalive with
  | none => exact .refl _
  | some server => exact .perform trivial fun _ a' h' => h'

/-- One failure more sets the timer. -/
private theorem afterFailure_timer (s : Supervisor) :
    (afterFailure s).restartTimer = some (s.policy.delay (min (s.failures + 1) (2 ^ 32 - 1))) ∧
      (afterFailure s).failures = min (s.failures + 1) (2 ^ 32 - 1) ∧
      ((afterFailure s).state = .down ∨ (afterFailure s).state = .restarting) ∧
      (afterFailure s).policy = s.policy := by
  unfold RestartPolicy.delay afterFailure
  dsimp only
  split
  · exact ⟨rfl, rfl, .inl rfl, rfl⟩
  · exact ⟨rfl, rfl, .inr rfl, rfl⟩

/-- After an anomaly or a failed start. -/
private theorem transitionAfterAnomaly_schedules {x : Attempt} (hpolicy : a.sup.policy = policy)
    (hschedule : Schedule policy a.attempts) (hended : ∀ x ∈ a.attempts, x.ended ≤ a.clock)
    (htimer : a.sup.restartTimer = none) (hlast : a.attempts.getLast? = some x)
    (hfailure : x.failure ≠ some .provision)
    (hnext : min (a.sup.failures + 1) (2 ^ 32 - 1) = x.nextFailures) :
    Prog.Obeys timedProtocol (fun _ a' => a'.Inv policy) transitionAfterAnomaly a := by
  refine dropCurrentGracefully_later.bind fun _ a₁ h₁ => ?_
  obtain ⟨n, rfl⟩ := h₁
  refine obeys_timed fun _ a₂ h₂ => ?_
  obtain ⟨hdelay, hfailures, hstate, hsame⟩ := afterFailure_timer a.sup.cleared
  -- The timer was not set before.
  have harmed : a₂ = ⟨afterFailure a.sup.cleared, a.clock + n, a.clock + n, a.attempts⟩ := by
    refine h₂.trans ?_
    have hset : (afterFailure a.sup.cleared).restartTimer ≠ a.sup.cleared.restartTimer := by
      rw [hdelay]
      exact fun h => nomatch h.trans htimer
    exact congrArg (TimedActor.mk _ _ · _) (if_neg hset)
  subst harmed
  have hx : x.ended ≤ a.clock + n :=
    (hended x (List.mem_of_getLast? hlast)).trans (Nat.le_add_right _ _)
  refine recordState_later.mono fun _ a₃ h₃ => TimedActor.Inv.later ?_ h₃
  refine ⟨hsame.trans hpolicy, hschedule,
    fun y hy => (hended y hy).trans (Nat.le_add_right _ _), ?_⟩
  have harmed : ∀ d, (afterFailure a.sup.cleared).restartTimer = some d →
      TimedActor.Armed policy ⟨afterFailure a.sup.cleared, a.clock + n, a.clock + n, a.attempts⟩
        d := by
    intro d hd
    refine ⟨?_, x, hlast, hfailure, hfailures.trans hnext, hx⟩
    rw [hfailures, ← hpolicy]
    exact Option.some.inj (hd.symm.trans hdelay)
  unfold TimedActor.Settled
  cases hstate with
  | inl hdown =>
    simp only [hdown]
    exact harmed
  | inr hrestarting =>
    simp only [hrestarting]
    exact harmed

/-- Settling a server takes time and starts nothing. -/
private theorem setHealthy_later {server : StartedServer} :
    Prog.Obeys timedProtocol (fun _ a' => ∃ now,
      TimedActor.Later { a with sup := a.sup.withServer server now } a') (setHealthy server) a := by
  refine obeys_timed fun s a₀ h₀ => ?_
  obtain ⟨rfl, rfl⟩ := h₀
  refine obeys_timed fun _ a₁ h₁ => ?_
  have hkeeps := TimedActor.update_keeps (a := a₀)
    (f := fun s => s.withServer server s.lastSuccessAt) rfl
  obtain rfl : a₁ = { a₀ with sup := a₀.sup.withServer server a₀.sup.lastSuccessAt } :=
    h₁.trans hkeeps
  refine (dropKeepalive_later _).bind fun _ a₂ h₂ => ?_
  refine obeys_timed fun now a₃ h₃ => ?_
  obtain ⟨n, rfl⟩ := h₂.trans h₃
  refine obeys_timed fun _ a₄ h₄ => ?_
  refine ⟨now, n, h₄.trans ?_⟩
  exact TimedActor.update_keeps (f := fun s => { s with lastSuccessAt := now }) rfl

/-- An attempt goes on the schedule, and what comes of it sets the timer. -/
private theorem attemptStart_schedules (h : a.MayStart policy) :
    Prog.Obeys timedProtocol (fun _ a' => a'.Inv policy) attemptStart a := by
  refine obeys_timed fun res a₁ h₁ => ?_
  obtain ⟨n, rfl⟩ := h₁
  have hschedule : Schedule policy (a.attempts ++ [⟨a.clock, a.clock + n, a.sup.failures,
      startFailure res, Nat.le_add_right _ _⟩]) :=
    h.schedule.concat (h.follows a.clock (Nat.le_refl _))
  have hended : ∀ x ∈ a.attempts ++ [⟨a.clock, a.clock + n, a.sup.failures, startFailure res,
      Nat.le_add_right _ _⟩], x.ended ≤ a.clock + n := by
    intro x hx
    rcases List.mem_append.mp hx with hx | hx
    · exact (h.ended x hx).trans (Nat.le_add_right _ _)
    · rw [List.mem_singleton.mp hx]
  cases res with
  | ok server =>
    refine setHealthy_later.bind fun client a₂ h₂ => ?_
    obtain ⟨now, hlater⟩ := h₂
    refine recordState_later.mono fun _ a₃ h₃ => TimedActor.Inv.later ?_ (hlater.trans h₃)
    refine ⟨h.same, hschedule, hended, ⟨_, List.getLast?_concat, rfl, ?_⟩, rfl, h.timer⟩
    exact Nat.le_refl _
  | error error =>
    cases error with
    | provision msg =>
      refine dropCurrent_later.bind fun _ a₂ h₂ => ?_
      obtain ⟨m, rfl⟩ := h₂
      refine obeys_timed fun _ a₃ h₃ => ?_
      have hkeeps := h₃.trans (TimedActor.update_keeps
        (f := fun s => { s with state := .down, restartTimer := none }) h.timer.symm)
      subst hkeeps
      refine recordState_later.mono fun _ a₄ h₄ => TimedActor.Inv.later ?_ h₄
      -- No timer is set.
      exact ⟨h.same, hschedule, fun x hx => (hended x hx).trans (Nat.le_add_right _ _),
        fun d hd => nomatch hd⟩
    | spawnOrInit msg =>
      refine (transitionAfterAnomaly_schedules (a := { a with
          clock := a.clock + n
          attempts := a.attempts ++ [⟨a.clock, a.clock + n, a.sup.failures, some .anomaly,
            Nat.le_add_right _ _⟩] })
        h.same hschedule hended h.timer List.getLast?_concat ?_ rfl).bind fun _ a' h' => h'
      exact nofun

end Helpers

/-! ## The events -/

section Events

variable {policy : RestartPolicy} {a : TimedActor}

/-- An anomaly keeps the schedule. -/
private theorem anomalyIfHealthy_schedules (h : a.Inv policy) :
    Prog.Obeys timedProtocol (fun _ a' => a'.Inv policy) anomalyIfHealthy a := by
  refine obeys_timed fun s a₀ h₀ => ?_
  obtain ⟨rfl, rfl⟩ := h₀
  by_cases hhealthy : a₀.sup.state = .healthy
  · rw [if_pos hhealthy]
    have hsettled := h.settled
    simp only [TimedActor.Settled, hhealthy] at hsettled
    obtain ⟨⟨x, hlast, hok, -⟩, hfailures, htimer⟩ := hsettled
    refine transitionAfterAnomaly_schedules h.same h.schedule h.ended htimer hlast ?_ ?_
    · rw [hok]
      exact nofun
    · rw [hfailures, Attempt.nextFailures, hok]
      rfl
  · rw [if_neg hhealthy]
    exact h

/-- When the timer fires, its attempt is due. -/
private theorem TimedActor.Inv.mayStart (h : a.Inv policy) (hdue : SupervisorEvent.Due a .timer) :
    (a.update fun s => { s with restartTimer := none }).MayStart policy := by
  obtain ⟨d, htimer, hover⟩ := hdue
  have harmed : a.Armed policy d := by
    have hsettled := h.settled
    -- A timer is armed in two of the states only, and there it holds its delay.
    unfold TimedActor.Settled at hsettled
    split at hsettled
    · exact nomatch htimer.symm.trans hsettled.2.2
    · exact hsettled.elim
    · exact nomatch htimer.symm.trans hsettled.2.2
    · exact hsettled d htimer
    · exact hsettled d htimer
  obtain ⟨x, hlast, hfailure, hfailures, hended⟩ := harmed.last
  refine ⟨h.same, h.schedule, h.ended, rfl, fun t ht => ?_⟩
  show Follows policy a.attempts a.sup.failures t
  rw [Follows, hlast]
  refine ⟨hfailure, hfailures, ?_⟩
  -- The timer was armed after the last failure and is over by now.
  calc x.ended + policy.delay a.sup.failures
      ≤ a.armedAt + d := by rw [harmed.delay]; exact Nat.add_le_add_right hended _
    _ ≤ a.clock := hover
    _ ≤ t := ht

/-- A start keeps the schedule. -/
private theorem startAndSettle_schedules (h : a.MayStart policy) :
    Prog.Obeys timedProtocol (fun _ a' => a'.Inv policy) startAndSettle a := by
  refine (attemptStart_schedules h).bind fun outcome a₁ h₁ => ?_
  cases outcome with
  | started client => exact h₁
  | provisionFailed =>
    refine obeys_timed fun s a₂ h₂ => ?_
    obtain ⟨rfl, rfl⟩ := h₂
    exact h₁
  | spawnOrInitFailed =>
    refine obeys_timed fun s a₂ h₂ => ?_
    obtain ⟨rfl, rfl⟩ := h₂
    split <;> exact h₁

/-- A client's request keeps the schedule. -/
private theorem handleAcquire_schedules (h : a.Inv policy) :
    Prog.Obeys timedProtocol (fun _ a' => a'.Inv policy) handleAcquire a := by
  refine obeys_timed fun s a₀ h₀ => ?_
  obtain ⟨rfl, rfl⟩ := h₀
  -- Only the first acquire starts a server; in all other states it answers from the fields.
  cases hstate : a₀.sup.state with
  | healthy =>
    cases a₀.sup.currentClient with
    | none => exact h
    | some client => exact h
  | restarting | down | starting => exact h
  | notStarted =>
    have hsettled := h.settled
    simp only [TimedActor.Settled, hstate] at hsettled
    obtain ⟨hattempts, hfailures, htimer⟩ := hsettled
    -- The state changes to `starting`, and neither the attempts nor the failures do.
    refine obeys_timed fun _ a₁ h₁ => ?_
    have hkeeps := h₁.trans (TimedActor.update_keeps
      (f := fun s => { s with state := .starting }) rfl)
    subst hkeeps
    refine recordState_later.bind fun _ a₂ h₂ => ?_
    obtain ⟨n, rfl⟩ := h₂
    refine startAndSettle_schedules ⟨h.same, h.schedule,
      fun x hx => (h.ended x hx).trans (Nat.le_add_right _ _), htimer, fun t _ => ?_⟩
    show Follows policy a₀.attempts a₀.sup.failures t
    rw [Follows, hattempts]
    exact hfailures

/-- An event keeps the schedule. -/
private theorem handle_schedules (h : a.Inv policy) {event : SupervisorEvent} (hdue : event.Due a)
    (hstops : event.stops = false) :
    Prog.Obeys timedProtocol (fun _ a' => a'.Inv policy) (handle event) a := by
  cases event with
  | childExit => exact (anomalyIfHealthy_schedules h).bind fun _ a' h' => h'
  | timer =>
    refine obeys_timed fun _ a₁ h₁ => ?_
    subst h₁
    refine Prog.Obeys.bind (Q := fun _ a' => a'.Inv policy) ?_ fun _ a' h' => h'
    exact (attemptStart_schedules (h.mayStart hdue)).bind fun _ a' h' => h'
  | closed => exact nomatch hstops
  | msg m =>
    cases m with
    | acquire => exact (handleAcquire_schedules h).bind fun _ a' h' => h'
    | reportFailure kind => exact (anomalyIfHealthy_schedules h).bind fun _ a' h' => h'
    | shutdown => exact nomatch hstops

end Events

/-! ## Every run -/

/-- Every run keeps the schedule. -/
theorem TimedRun.inv {language : String} {policy : RestartPolicy} {a : TimedActor}
    (hrun : TimedRun language policy a) : a.Inv policy := by
  induction hrun with
  | spawn => exact ⟨rfl, ⟨.nil, nofun⟩, nofun, rfl, rfl, rfl⟩
  | wait _ hlater ih => exact ih.later hlater
  | event _ hdue hstops hsteps ih => exact hsteps.obeys (handle_schedules ih hdue hstops)

/-- In every run of a supervisor, whatever its starts come to and however long they take: no start
    follows one that could not provision the server; the first one counts no failures, and each
    other one counts one failure if the start before it gave a server, and one more than that one
    counted if it failed; it begins no sooner after the end of that one than the policy waits for
    so many failures.  So a server is not started more often than the shortest wait allows. -/
theorem restart_schedule {language : String} {policy : RestartPolicy} {a : TimedActor}
    (hrun : TimedRun language policy a) :
    Schedule policy a.attempts ∧
    (∀ d, a.sup.restartTimer = some d → d = policy.delay a.sup.failures ∧
      ∃ x, a.attempts.getLast? = some x ∧ x.failure ≠ some .provision ∧
        a.sup.failures = x.nextFailures) ∧
    ∀ d : Nat, (∀ n, d ≤ policy.delay n) → (a.attempts.length - 1) * d ≤ a.clock := by
  have h := hrun.inv
  refine ⟨h.schedule, fun d hd => ?_, fun d hd => ?_⟩
  · have hsettled := h.settled
    unfold TimedActor.Settled at hsettled
    -- A timer runs only after a failed attempt, so the other states contradict `hd`.
    have harmed : a.Armed policy d := by
      split at hsettled
      · exact nomatch hd.symm.trans hsettled.2.2
      · exact hsettled.elim
      · exact nomatch hd.symm.trans hsettled.2.2
      · exact hsettled d hd
      · exact hsettled d hd
    obtain ⟨x, hlast, hfailure, hfailures, -⟩ := harmed.last
    exact ⟨harmed.delay, x, hlast, hfailure, hfailures⟩
  · -- Each attempt waits at least `d` after the last, and the last one ended by now.
    have hchain := h.schedule.chain
    have hended := h.ended
    cases hattempts : a.attempts with
    | nil => simp
    | cons x xs =>
      rw [hattempts] at hchain hended
      obtain ⟨y, hlast⟩ : ∃ y, (x :: xs).getLast? = some y :=
        ⟨_, List.getLast?_eq_some_getLast (List.cons_ne_nil x xs)⟩
      have hpaced := paced hd hchain y hlast
      have hy := hended y (List.mem_of_getLast? hlast)
      simp only [List.length_cons, Nat.add_sub_cancel]
      omega

/-- A server without a process. -/
def mockServer : StartedServer := ⟨0, 0, none, rfl, by simp⟩

/-- The first start fails after five milliseconds, the next one succeeds at once. -/
def SupervisorCmd.failFirst {β : Type} :
    SupervisorCmd β → TimedActor → Except String β × TimedActor
  | .get, a => (.ok a.sup, a)
  | .update f, a => (.ok (), a.update f)
  | .start, a =>
    if a.attempts.isEmpty then
      (.ok (.error (.spawnOrInit "initialize: timed out")), { a with
        clock := a.clock + 5
        attempts := a.attempts ++
          [⟨a.clock, a.clock + 5, a.sup.failures, some .anomaly, Nat.le_add_right _ _⟩] })
    else
      (.ok (.ok mockServer), { a with
        attempts := a.attempts ++
          [⟨a.clock, a.clock, a.sup.failures, none, Nat.le_refl _⟩] })
  | .recordMeta _ _, a => (.ok (), a)
  | .nowSecs, a => (.ok 7, a)
  | .spawnShutdown _, a => (.ok (), a)
  | .shutdown _, a => (.ok (), a)
  | .dropServer _, a => (.ok (), a)

/-- A factory whose first start fails obeys the protocol. -/
private theorem failFirst_takes {β : Type} (c : SupervisorCmd β) (a a' : TimedActor) (b : β)
    (h : c.failFirst a = (.ok b, a')) : c.Takes a b a' := by
  -- Reading and writing take no time; the first start takes five units.
  cases c with
  | get =>
    cases h
    exact ⟨rfl, rfl⟩
  | update f =>
    cases h
    rfl
  | start =>
    by_cases hfirst : a.attempts.isEmpty
    · simp only [SupervisorCmd.failFirst, if_pos hfirst] at h
      cases h
      exact ⟨5, rfl⟩
    · simp only [SupervisorCmd.failFirst, if_neg hfirst] at h
      cases h
      exact ⟨0, rfl⟩
  | recordMeta | nowSecs | spawnShutdown | shutdown | dropServer =>
    cases h
    exact .refl a

/-- The second start comes one second after the end of the first one. -/
theorem restart_schedule_retry :
    ∃ a, TimedRun "rust" .defaultReal a ∧
      a.attempts = [⟨0, 5, 0, some .anomaly, by decide⟩, ⟨1005, 1005, 1, none, by decide⟩] ∧
      Schedule .defaultReal a.attempts ∧ (a.attempts.length - 1) * 1000 ≤ a.clock := by
  have hacquire : TimedRun "rust" .defaultReal _ :=
    .event (e := .msg .acquire) .spawn trivial rfl
      (Prog.Steps.of_run (h := SupervisorCmd.failFirst) failFirst_takes rfl)
  have hwait : TimedRun "rust" .defaultReal _ := .wait hacquire ⟨1000, rfl⟩
  have hrun : TimedRun "rust" .defaultReal _ :=
    .event (e := .timer) hwait ⟨1000, rfl, by decide⟩ rfl
      (Prog.Steps.of_run (h := SupervisorCmd.failFirst) failFirst_takes rfl)
  obtain ⟨hschedule, -, hpace⟩ := restart_schedule hrun
  exact ⟨_, hrun, rfl, hschedule, hpace 1000 RestartPolicy.le_delay_defaultReal⟩

end Semnav.Lsp
