import Mathlib.Data.List.Infix
import Semnav.Daemon.Server

/-!
# The idle shutdown

The tracker sees a trace of connects and disconnects.  However the connections overlap, it asks for
a shutdown when there is none, and has been none for the timeout; and the loop of the daemon, which
tells it of every connection that is accepted and of each that ends, returns `Idle` just then.

## Key results

- `observed_of_trace`: the tracker's fields after every trace
- `idle_tracker_measures`: when it asks for a shutdown
- `server_trace`: the trace that the tracker sees in a run of the daemon
- `server_returns_idle_iff`: when the daemon returns `Idle`
-/

namespace Semnav.Daemon

/-! ## Traces -/

/-- What the server sees of a connection. -/
inductive ConnEvent where
  | connect
  | disconnect
deriving DecidableEq

/-- What happened to the connections, and when. -/
abbrev ConnTrace := List (Instant × ConnEvent)

namespace ConnTrace

/-- How many connections were opened. -/
def connects (trace : ConnTrace) : Nat := trace.countP (·.2 = .connect)

/-- How many connections were closed. -/
def disconnects (trace : ConnTrace) : Nat := trace.countP (·.2 = .disconnect)

/-- How many connections are active after the trace. -/
def active (trace : ConnTrace) : Nat := trace.connects - trace.disconnects

/-- At no point have more disconnects than connects happened. -/
def Balanced (trace : ConnTrace) : Prop :=
  ∀ before, before <+: trace → disconnects before ≤ connects before

/-- The count has become zero with the last event. -/
def BecomesZero (trace : ConnTrace) : Prop := trace.active = 0 ∧ active trace.dropLast ≠ 0

instance (trace : ConnTrace) : Decidable trace.BecomesZero :=
  inferInstanceAs (Decidable (_ ∧ _))

/-- The last moment at which the count became zero: the time of the last event of the longest such
    beginning of the trace. -/
def lastZero (trace : ConnTrace) : Option Instant :=
  ((trace.inits.filter fun before => BecomesZero before).getLast?.bind List.getLast?).map (·.1)

/-- Times do not go back, from the start and up to now. -/
def Chronological (start : Instant) (trace : ConnTrace) (now : Instant) : Prop :=
  (start :: (trace.map (·.1) ++ [now])).Pairwise (· ≤ ·)

instance (start : Instant) (trace : ConnTrace) (now : Instant) :
    Decidable (Chronological start trace now) :=
  inferInstanceAs (Decidable (List.Pairwise _ _))

section Concat

variable (trace : ConnTrace) (now : Instant)

/-- One more event counts if it is a connect. -/
@[simp] theorem connects_concat (e : Instant × ConnEvent) :
    connects (trace ++ [e]) = connects trace + if e.2 = .connect then 1 else 0 := by
  simp [connects, List.countP_append, List.countP_singleton]

/-- One more event counts if it is a disconnect. -/
@[simp] theorem disconnects_concat (e : Instant × ConnEvent) :
    disconnects (trace ++ [e]) = disconnects trace + if e.2 = .disconnect then 1 else 0 := by
  simp [disconnects, List.countP_append, List.countP_singleton]

/-- Balance of a longer trace is balance so far and at its end. -/
theorem balanced_concat {trace : ConnTrace} {e : Instant × ConnEvent} :
    Balanced (trace ++ [e]) ↔
      Balanced trace ∧ disconnects (trace ++ [e]) ≤ connects (trace ++ [e]) := by
  simp only [Balanced, List.prefix_concat_iff]
  constructor
  · exact fun h => ⟨fun before hbefore => h before (.inr hbefore), h _ (.inl rfl)⟩
  · rintro ⟨hbefore, hlast⟩ before (rfl | h)
    · exact hlast
    · exact hbefore before h

/-- A balanced trace has no more disconnects than connects. -/
theorem balanced_self {trace : ConnTrace} (h : trace.Balanced) :
    disconnects trace ≤ connects trace :=
  h trace (List.prefix_refl trace)

/-- A connect adds one active connection. -/
private theorem active_connect {trace : ConnTrace} (h : trace.Balanced) (now : Instant) :
    active (trace ++ [(now, .connect)]) = active trace + 1 := by
  have hle := balanced_self h
  simp [active]
  omega

/-- A disconnect takes one active connection away. -/
private theorem active_disconnect : active (trace ++ [(now, .disconnect)]) = active trace - 1 := by
  simp [active]
  omega

/-- At a disconnect there was a connection to take away. -/
private theorem active_pos_of_disconnect {trace : ConnTrace} {now : Instant}
    (h : Balanced (trace ++ [(now, .disconnect)])) : active trace ≠ 0 := by
  have hle := (balanced_concat.mp h).2
  simp at hle
  simp only [active]
  omega

/-- The last moment the count became zero is the last event's or the one before. -/
private theorem lastZero_concat (e : Instant × ConnEvent) : lastZero (trace ++ [e]) =
    if BecomesZero (trace ++ [e]) then some e.1 else lastZero trace := by
  have hinits : (trace ++ [e]).inits = trace.inits ++ [trace ++ [e]] := by
    simp [List.inits_append]
  rw [lastZero, hinits, List.filter_append, List.filter_singleton]
  split <;> simp_all [lastZero]

end Concat

/-- The last moment at zero is the time of an event. -/
private theorem mem_of_lastZero {trace : ConnTrace} {since : Instant}
    (h : trace.lastZero = some since) :
    since ∈ trace.map (·.1) := by
  simp only [lastZero, Option.map_eq_some_iff, Option.bind_eq_some_iff] at h
  obtain ⟨e, ⟨before, hbefore, hlast⟩, rfl⟩ := h
  have hprefix := (List.mem_filter.mp (List.mem_of_getLast? hbefore)).1
  have hmem := (List.mem_inits _ _).mp hprefix
  exact List.mem_map_of_mem (hmem.subset (List.mem_of_getLast? hlast))

end ConnTrace

/-! ## The tracker -/

/-- The tracker is told of an event. -/
def IdleTracker.observe (t : IdleTracker) : Instant × ConnEvent → IdleTracker
  | (_, .connect) => t.onConnect
  | (now, .disconnect) => t.onDisconnect now

/-- The tracker after a trace. -/
def IdleTracker.after (start : Instant) (trace : ConnTrace) : IdleTracker :=
  trace.foldl observe (new start)

open ConnTrace

/-- What the fields of the tracker say of the trace. -/
structure Observed (start : Instant) (trace : ConnTrace) (t : IdleTracker) : Prop where
  active : t.active = trace.active
  idleSince : t.idleSince = if trace.active = 0 then some (trace.lastZero.getD start) else none
  /-- Without a last moment at zero, a count of zero has never been left. -/
  never : trace.active = 0 → (trace.lastZero = none ↔ trace.connects = 0)

/-- A new tracker observes the empty trace. -/
private theorem observed_new (start : Instant) : Observed start [] (.new start) where
  active := rfl
  idleSince := rfl
  never := fun _ => by simp [connects, lastZero, BecomesZero, ConnTrace.active]

/-- `on_connect` observes a connect. -/
private theorem Observed.connect {start : Instant} {trace : ConnTrace} {t : IdleTracker}
    (h : Observed start trace t) (hbal : trace.Balanced) (now : Instant) :
    Observed start (trace ++ [(now, .connect)]) t.onConnect where
  active := by rw [active_connect hbal, IdleTracker.onConnect, h.active]
  idleSince := by rw [active_connect hbal, if_neg (Nat.succ_ne_zero _), IdleTracker.onConnect]
  never := by
    rw [active_connect hbal]
    exact fun hzero => absurd hzero (Nat.succ_ne_zero _)

/-- The clock starts with the disconnect of the last connection, and with no other. -/
private theorem Observed.disconnect {start : Instant} {trace : ConnTrace} {t : IdleTracker}
    (h : Observed start trace t) {now : Instant}
    (hbal : Balanced (trace ++ [(now, .disconnect)])) :
    Observed start (trace ++ [(now, .disconnect)]) (t.onDisconnect now) := by
  -- A disconnect of a balanced trace ends a connection that was open.
  have hpos : trace.active ≠ 0 := active_pos_of_disconnect hbal
  have hactive : ConnTrace.active (trace ++ [(now, .disconnect)]) = trace.active - 1 :=
    active_disconnect trace now
  -- The count becomes zero here if and only if this one was the last.
  have hzero : BecomesZero (trace ++ [(now, .disconnect)]) ↔ trace.active - 1 = 0 := by
    rw [BecomesZero, hactive, List.dropLast_concat]
    exact and_iff_left hpos
  have hsince : t.idleSince = none := by rw [h.idleSince, if_neg hpos]
  -- The count, the idle start, and that a connection was made before are kept one by one.
  constructor
  · rw [hactive, IdleTracker.onDisconnect, ← h.active]
    split <;> rfl
  · rw [hactive, lastZero_concat, IdleTracker.onDisconnect, h.active]
    by_cases hlast : trace.active - 1 = 0
    · simp [hlast, hzero]
    · simp [hlast, hsince]
  · rw [hactive, lastZero_concat]
    intro hlast
    rw [if_pos (hzero.mpr hlast)]
    have hle := balanced_self hbal
    simp at hle
    have hconnects : 0 < trace.connects := Nat.lt_of_lt_of_le (Nat.succ_pos _) hle
    simpa using hconnects.ne'

/-- The tracker's fields after every trace. -/
private theorem observed_of_trace (start : Instant) {trace : ConnTrace} (hbal : trace.Balanced) :
    Observed start trace (.after start trace) := by
  induction trace using List.reverseRecOn with
  | nil => exact observed_new start
  | append_singleton trace e ih =>
    have h := ih (balanced_concat.mp hbal).1
    rw [IdleTracker.after, List.foldl_concat]
    obtain ⟨now, event⟩ := e
    cases event with
    | connect => exact h.connect (balanced_concat.mp hbal).1 now
    | disconnect => exact h.disconnect hbal

/-- When a tracker with these fields asks for a shutdown. -/
private theorem Observed.shouldShutDown_iff {start : Instant} {trace : ConnTrace} {t : IdleTracker}
    (h : Observed start trace t) {now : Instant} (hmono : Chronological start trace now)
    (timeout : Duration) : t.shouldShutDown now timeout = true ↔ trace.active = 0 ∧
      ∃ since, (trace.connects = 0 ∧ since = start ∨ trace.lastZero = some since) ∧
        since + timeout ≤ now := by
  have hstart : start ≤ now := (List.pairwise_cons.mp hmono).1 now (by simp)
  -- The trace is chronological, so the last moment at zero is not after `now`.
  have hpast : ∀ since ∈ trace.map (·.1), since ≤ now := by
    have htail := (List.pairwise_cons.mp hmono).2
    exact fun since hsince => (List.pairwise_append.mp htail).2.2 since hsince now (by simp)
  rw [IdleTracker.shouldShutDown, h.idleSince]
  by_cases hzero : trace.active = 0
  · have hsince : trace.lastZero.getD start ≤ now := by
      cases hlast : trace.lastZero with
      | none => exact hstart
      | some since => exact hpast since (mem_of_lastZero hlast)
    -- The moment is the start if there was no connection, and the last one at zero otherwise.
    have hmoment : ∀ since, (trace.connects = 0 ∧ since = start ∨ trace.lastZero = some since) ↔
        since = trace.lastZero.getD start := by
      intro since
      rw [← h.never hzero]
      cases trace.lastZero <;> simp [eq_comm]
    simp only [hmoment, exists_eq_left, hzero, true_and, if_true, h.active, beq_self_eq_true,
      Bool.true_and, decide_eq_true_eq]
    exact Nat.le_sub_iff_add_le' hsince
  · simp [hzero]

/-- However connections overlap, the tracker asks for a shutdown if and only if none is active and
    the timeout has passed since the count last became zero, or since construction if there never
    was a connection. -/
theorem idle_tracker_measures (start : Instant) (trace : ConnTrace) (hbal : trace.Balanced)
    (now : Instant) (hmono : Chronological start trace now) (timeout : Duration) :
    (IdleTracker.after start trace).shouldShutDown now timeout = true ↔ trace.active = 0 ∧
      ∃ since, (trace.connects = 0 ∧ since = start ∨ trace.lastZero = some since) ∧
        since + timeout ≤ now :=
  (observed_of_trace start hbal).shouldShutDown_iff hmono timeout

/-- Two connections overlap; a minute after the second has ended, the daemon is idle. -/
def overlapping : ConnTrace :=
  [(0, .connect), (5, .connect), (10, .disconnect), (20, .disconnect)]

/-- Two connections that overlap: idle from the end of the second. -/
theorem idle_tracker_measures_overlapping :
    ((IdleTracker.after 0 overlapping).shouldShutDown 80 60 = true ↔ overlapping.active = 0 ∧
      ∃ since, (overlapping.connects = 0 ∧ since = 0 ∨ overlapping.lastZero = some since) ∧
        since + 60 ≤ 80) ∧ overlapping.lastZero = some 20 := by
  refine ⟨idle_tracker_measures 0 overlapping ?_ 80 (by decide) 60, by decide⟩
  intro before hbefore
  have hinits : ∀ before ∈ overlapping.inits, disconnects before ≤ connects before := by decide
  exact hinits before ((List.mem_inits _ _).mpr hbefore)

/-! ## The daemon -/

/-- What the tracker is told in a step. -/
def ServerEvent.seen (s : Server) : ServerEvent → ConnTrace
  | .poll now slept accept =>
    match s.select slept accept with
    | .accepted true => [(now, .connect)]
    | _ => []
  | .ended _ now => [(now, .disconnect)]
  | .signal => []
  | .stop _ => []

/-- A run of the accept loop and its connections, with the trace that the tracker has seen. -/
inductive ServerRun (timeout : Duration) (start : Instant) : ConnTrace → Server → Prop where
  | boot : ServerRun timeout start [] (.boot start)
  | step {trace : ConnTrace} {s s' : Server} {e : ServerEvent}
      (hrun : ServerRun timeout start trace s) (h : s.step timeout e = some s') :
      ServerRun timeout start (trace ++ e.seen s) s'

namespace ConnTrace

variable {start t now : Instant} {trace : ConnTrace}

/-- A trace up to one time is a trace up to every later time. -/
theorem Chronological.later (h : Chronological start trace t) (hle : t ≤ now) :
    Chronological start trace now := by
  obtain ⟨hstart, htail⟩ := List.pairwise_cons.mp h
  obtain ⟨htimes, -, hlast⟩ := List.pairwise_append.mp htail
  refine List.pairwise_cons.mpr ⟨fun x hx => ?_, ?_⟩
  · cases List.mem_append.mp hx with
    | inl htime => exact hstart x (List.mem_append_left _ htime)
    | inr hnow =>
      rw [List.mem_singleton.mp hnow]
      exact Nat.le_trans (hstart t (by simp)) hle
  · refine List.pairwise_append.mpr ⟨htimes, List.pairwise_singleton _ _, fun x hx y hy => ?_⟩
    rw [List.mem_singleton.mp hy]
    exact Nat.le_trans (hlast x hx t (by simp)) hle

/-- A trace grows by an event at its last time. -/
private theorem Chronological.concat (h : Chronological start trace t) (hle : t ≤ now)
    (event : ConnEvent) :
    Chronological start (trace ++ [(now, event)]) now := by
  have hlater := h.later hle
  rw [Chronological, List.map_append, List.append_assoc]
  rw [Chronological, ← List.cons_append] at hlater
  rw [← List.cons_append]
  obtain ⟨htimes, -, hlast⟩ := List.pairwise_append.mp hlater
  refine List.pairwise_append.mpr ⟨htimes, by simp, fun x hx y hy => ?_⟩
  have hy : y = now := by simpa using hy
  exact hy ▸ hlast x hx now (by simp)

end ConnTrace

/-- The tracker has seen a trace of the kind that it is made for. -/
structure ServerInv (start : Instant) (trace : ConnTrace) (s : Server) : Prop where
  tracker : s.tracker = .after start trace
  balanced : trace.Balanced
  /-- The active connections are those whose task has not ended. -/
  live : trace.active = s.live.length
  monotone : Chronological start trace s.clock

/-- The server starts with the tracker of the empty trace. -/
theorem serverInv_boot (start : Instant) : ServerInv start [] (.boot start) where
  tracker := rfl
  balanced := by
    intro before hbefore
    rw [List.prefix_nil.mp hbefore]
    exact Nat.le_refl 0
  live := rfl
  monotone := by simp [Chronological, Server.boot]

section Steps

variable {start : Instant} {trace : ConnTrace} {s s' : Server} {timeout : Duration}

/-- A step that the tracker is not told of. -/
private theorem ServerInv.quiet (h : ServerInv start trace s) (htracker : s'.tracker = s.tracker)
    (hlive : s'.live = s.live) (hclock : s.clock ≤ s'.clock) : ServerInv start trace s' where
  tracker := htracker.trans h.tracker
  balanced := h.balanced
  live := h.live.trans (congrArg List.length hlive.symm)
  monotone := h.monotone.later hclock

/-- An accepted connection is counted when it goes live. -/
private theorem ServerInv.accept (h : ServerInv start trace s) {now : Instant} {conn : Nat}
    (hclock : s.clock ≤ now) (htracker : s'.tracker = s.tracker.onConnect)
    (hlive : s'.live = s.live ++ [conn]) (hnow : s'.clock = now) :
    ServerInv start (trace ++ [(now, .connect)]) s' where
  tracker := by rw [htracker, h.tracker, IdleTracker.after, IdleTracker.after, List.foldl_concat]; rfl
  balanced := by
    refine balanced_concat.mpr ⟨h.balanced, ?_⟩
    have hle := balanced_self h.balanced
    simp
    exact Nat.le_succ_of_le hle
  live := by rw [active_connect h.balanced, hlive, List.length_append, h.live, List.length_singleton]
  monotone := hnow ▸ h.monotone.concat hclock .connect

/-- A connection that ends was active. -/
private theorem ServerInv.ended (h : ServerInv start trace s) {now : Instant} {conn : Nat}
    (hconn : conn ∈ s.live) (hclock : s.clock ≤ now)
    (htracker : s'.tracker = s.tracker.onDisconnect now) (hlive : s'.live = s.live.erase conn)
    (hnow : s'.clock = now) : ServerInv start (trace ++ [(now, .disconnect)]) s' where
  tracker := by rw [htracker, h.tracker, IdleTracker.after, IdleTracker.after, List.foldl_concat]; rfl
  balanced := by
    refine balanced_concat.mpr ⟨h.balanced, ?_⟩
    have hpos : 0 < trace.active := h.live ▸ List.length_pos_of_mem hconn
    simp
    exact Nat.lt_of_sub_pos hpos
  live := by rw [active_disconnect, hlive, List.length_erase_of_mem hconn, h.live]
  monotone := hnow ▸ h.monotone.concat hclock .disconnect

/-- A `stop` is queued once, by a live connection. -/
private theorem step_stop {conn : Nat} (h : s.step timeout (.stop conn) = some s') :
    conn ∈ s.live ∧ s.stopQueued = false ∧ s' = { s with stopQueued := true } := by
  obtain ⟨hcond, hs'⟩ := Option.ite_none_right_eq_some.mp h
  exact ⟨hcond.1, hcond.2, (Option.some.inj hs').symm⟩

/-- An end is counted once, for a live connection. -/
private theorem step_ended {conn : Nat} {now : Instant}
    (h : s.step timeout (.ended conn now) = some s') :
    conn ∈ s.live ∧ s.clock ≤ now ∧
      s' = { s with
        tracker := s.tracker.onDisconnect now
        live := s.live.erase conn
        clock := now } := by
  obtain ⟨hcond, hs'⟩ := Option.ite_none_right_eq_some.mp h
  exact ⟨hcond.1, hcond.2, (Option.some.inj hs').symm⟩

/-- A round of the loop is taken only while the server runs. -/
private theorem step_poll {now : Instant} {slept : Bool} {accept : Option Bool}
    (h : s.step timeout (.poll now slept accept) = some s') : s.returned = none ∧ s.clock ≤ now ∧
      s' = { s.take timeout now (s.select slept accept) with clock := now } := by
  obtain ⟨hcond, hs'⟩ := Option.ite_none_right_eq_some.mp h
  exact ⟨hcond.1, hcond.2, (Option.some.inj hs').symm⟩

/-- Every step keeps the tracker in line with the trace. -/
private theorem ServerInv.step (h : ServerInv start trace s) {e : ServerEvent}
    (hstep : s.step timeout e = some s') : ServerInv start (trace ++ e.seen s) s' := by
  -- Only an accepted connection and the end of one are seen by the tracker.
  cases e with
  | signal =>
    cases hstep
    rw [ServerEvent.seen, List.append_nil]
    exact h.quiet rfl rfl (Nat.le_refl _)
  | stop conn =>
    obtain ⟨-, -, rfl⟩ := step_stop hstep
    rw [ServerEvent.seen, List.append_nil]
    exact h.quiet rfl rfl (Nat.le_refl _)
  | ended conn now =>
    obtain ⟨hconn, hclock, rfl⟩ := step_ended hstep
    exact h.ended hconn hclock rfl rfl rfl
  | poll now slept accept =>
    obtain ⟨-, hclock, rfl⟩ := step_poll hstep
    rw [ServerEvent.seen]
    -- The poll takes one branch of the select; what the others offered is not consumed.
    cases s.select slept accept with
    | accepted ok =>
      cases ok with
      | true => exact h.accept hclock rfl rfl rfl
      | false =>
        rw [List.append_nil]
        exact h.quiet rfl rfl hclock
    | idleCheck =>
      rw [List.append_nil]
      refine h.quiet ?_ ?_ hclock
      · dsimp only [Server.take]
        split <;> rfl
      · dsimp only [Server.take]
        split <;> rfl
    | signal | stop | pending =>
      rw [List.append_nil]
      exact h.quiet rfl rfl hclock

/-- In every run of the daemon the tracker sees a balanced trace of monotone times, whose active
    connections are those whose task has not ended. -/
private theorem server_trace (hrun : ServerRun timeout start trace s) :
    ServerInv start trace s := by
  induction hrun with
  | boot => exact serverInv_boot start
  | step _ h ih => exact ih.step h

/-- The daemon returns `Idle` if and only if it comes to its idle check, no connection is being
    served, and the timeout has passed since the last one ended, or since it began to listen if
    there was none. -/
theorem server_returns_idle_iff (hrun : ServerRun timeout start trace s) {now : Instant}
    {slept : Bool} {accept : Option Bool} (hstep : s.step timeout (.poll now slept accept) = some s') :
    s'.returned = some .idle ↔ s.select slept accept = .idleCheck ∧ s.live = [] ∧
      ∃ since, (trace.connects = 0 ∧ since = start ∨ trace.lastZero = some since) ∧
        since + timeout ≤ now := by
  have h := server_trace hrun
  obtain ⟨hgoes, hclock, rfl⟩ := step_poll hstep
  have hasks := (observed_of_trace start h.balanced).shouldShutDown_iff
    (h.monotone.later hclock) timeout
  rw [← h.tracker, h.live, List.length_eq_zero_iff] at hasks
  rw [← hasks]
  cases s.select slept accept with
  | idleCheck =>
    by_cases hidle : s.tracker.shouldShutDown now timeout = true <;>
      simp [Server.take, hidle, hgoes]
  | accepted ok => cases ok <;> simp [Server.take, hgoes]
  | signal | stop | pending => simp [Server.take, hgoes]

end Steps

end Semnav.Daemon
