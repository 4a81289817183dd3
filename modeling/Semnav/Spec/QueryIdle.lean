import Mathlib.Data.Finset.Card
import Semnav.Query.Activity

/-!
# The query-idle gate loses no wake-up

A waiter creates its notification, then loads the counter, then parks.  While guards come and
go, the counter counts them, and a waiter parked without a notification has somebody to wait for:
a guard, or a drop that has yet to notify.

## Key results

- `GateInv.step`: every step of every task keeps the invariant
- `gate_loses_no_wakeup`: who wakes a parked waiter, and when a waiter returns
-/

namespace Semnav.Query

open Semnav.ForStd

variable {ι : Type*} [DecidableEq ι]

/-! ## The invariant -/

/-- What holds of the gate and its tasks. -/
structure GateInv (P : GateTasks ι) : Prop where
  /-- The counter counts the guards. -/
  counts : ∃ guards : Finset ι, (∀ i, i ∈ guards ↔ P.procs i = .querying) ∧
    guards.card = P.shared.active
  checking_le : ∀ i seen, P.procs i = .checking seen → seen ≤ P.shared.calls
  parked_le : ∀ i seen, P.procs i = .parked seen → seen ≤ P.shared.calls
  /-- A waiter that is not notified waits for a guard, or for a drop to notify. -/
  awaited : ∀ i seen, P.procs i = .parked seen → seen = P.shared.calls →
    0 < P.shared.active ∨ ∃ j, P.procs j = .notifying

omit [DecidableEq ι] in
private theorem GateInv.start : GateInv (GateTasks.start ι) where
  counts := ⟨∅, by simp [GateTasks.start], rfl⟩
  checking_le i seen h := nomatch h
  parked_le i seen h := nomatch h
  awaited i seen h := nomatch h

section Steps

variable {P : GateTasks ι} {i : ι} {s : Gate} {l : GatePc}

/-- A task moves, and no other: what one is after the step it was before, or it is the one. -/
theorem procs_after {j : ι} {pc : GatePc} (h : (P.after i s l).procs j = pc) :
    (j = i ∧ l = pc) ∨ (j ≠ i ∧ P.procs j = pc) := by
  by_cases hji : j = i
  · subst hji
    rw [Processes.after_self] at h
    exact .inl ⟨rfl, h⟩
  · rw [Processes.after_of_ne _ _ _ hji] at h
    exact .inr ⟨hji, h⟩

/-- A waiter moves: the gate stays as it is. -/
private theorem GateInv.waiter (h : GateInv P) (hquerying : P.procs i ≠ .querying)
    (hnotifying : P.procs i ≠ .notifying) (hto : l ≠ .querying)
    (hchecking : ∀ seen, l = .checking seen → seen ≤ P.shared.calls)
    (hparked : ∀ seen, l = .parked seen → seen ≤ P.shared.calls ∧ 0 < P.shared.active) :
    GateInv (P.after i P.shared l) where
  counts := by
    -- A waiter holds no guard, before or after.
    obtain ⟨guards, hmem, hcard⟩ := h.counts
    refine ⟨guards, fun j => ?_, hcard⟩
    by_cases hji : j = i
    · subst hji
      rw [Processes.after_self, hmem]
      simp [hquerying, hto]
    · rw [Processes.after_of_ne _ _ _ hji]
      exact hmem j
  checking_le j seen hj := by
    cases procs_after hj with
    | inl hself => exact hchecking seen hself.2
    | inr hother => exact h.checking_le j seen hother.2
  parked_le j seen hj := by
    cases procs_after hj with
    | inl hself => exact (hparked seen hself.2).1
    | inr hother => exact h.parked_le j seen hother.2
  -- Who is parked is owed a wake-up by a guard or by a notifier; this step is neither's.
  awaited j seen hj hseen := by
    cases procs_after hj with
    | inl hself => exact .inl (hparked seen hself.2).2
    | inr hother =>
      cases h.awaited j seen hother.2 hseen with
      | inl hactive => exact .inl hactive
      | inr hnotify =>
        obtain ⟨k, hk⟩ := hnotify
        have hki : k ≠ i := by
          intro heq
          exact hnotifying (heq ▸ hk)
        refine .inr ⟨k, ?_⟩
        rw [Processes.after_of_ne _ _ _ hki]
        exact hk

/-- A query begins. -/
private theorem GateInv.enter (h : GateInv P) (hpc : P.procs i = .outside) :
    GateInv (P.after i { P.shared with active := P.shared.active + 1 } .querying) where
  counts := by
    -- The process has a guard from now on, and the count is one higher.
    obtain ⟨guards, hmem, hcard⟩ := h.counts
    have hnot : i ∉ guards := by
      rw [hmem, hpc]
      exact nofun
    refine ⟨insert i guards, fun j => ?_, ?_⟩
    · rw [Finset.mem_insert, hmem]
      by_cases hji : j = i
      · subst hji
        simp
      · rw [Processes.after_of_ne _ _ _ hji]
        simp [hji]
    · rw [Finset.card_insert_of_notMem hnot, hcard]
      rfl
  checking_le j seen hj := by
    cases procs_after hj with
    | inl hself => exact nomatch hself.2
    | inr hother => exact h.checking_le j seen hother.2
  parked_le j seen hj := by
    cases procs_after hj with
    | inl hself => exact nomatch hself.2
    | inr hother => exact h.parked_le j seen hother.2
  awaited j seen hj hseen := .inl (Nat.succ_pos _)

/-- A guard is dropped: the drop that leaves no guard is to notify. -/
private theorem GateInv.drop (h : GateInv P) (hpc : P.procs i = .querying) :
    GateInv (P.after i { P.shared with active := P.shared.active - 1 }
      (if P.shared.active = 1 then .notifying else .outside)) := by
  obtain ⟨guards, hmem, hcard⟩ := h.counts
  have hi : i ∈ guards := (hmem i).mpr hpc
  -- The guard that is dropped counts.
  have hpos : 0 < P.shared.active := by
    rw [← hcard]
    exact Finset.card_pos.mpr ⟨i, hi⟩
  constructor
  case counts =>
    refine ⟨guards.erase i, fun j => ?_, ?_⟩
    · rw [Finset.mem_erase, hmem]
      by_cases hji : j = i
      · subst hji
        rw [Processes.after_self]
        split
        · simp
        · simp
      · rw [Processes.after_of_ne _ _ _ hji]
        simp [hji]
    · rw [Finset.card_erase_of_mem hi, hcard]
      rfl
  case checking_le =>
    intro j seen hj
    cases procs_after hj with
    | inl hself =>
      have := hself.2
      split at this
      · exact nomatch this
      · exact nomatch this
    | inr hother => exact h.checking_le j seen hother.2
  case parked_le =>
    intro j seen hj
    cases procs_after hj with
    | inl hself =>
      have := hself.2
      split at this
      · exact nomatch this
      · exact nomatch this
    | inr hother => exact h.parked_le j seen hother.2
  -- The last guard to go notifies; another one leaves some behind.
  case awaited =>
    intro j seen hj hseen
    by_cases hlast : P.shared.active = 1
    · refine .inr ⟨i, ?_⟩
      rw [Processes.after_self, if_pos hlast]
    · refine .inl ?_
      show 0 < P.shared.active - 1
      omega

/-- A drop notifies: nobody who is parked is without a notification. -/
private theorem GateInv.notify (h : GateInv P) (hpc : P.procs i = .notifying) :
    GateInv (P.after i { P.shared with calls := P.shared.calls + 1 } .outside) where
  counts := by
    obtain ⟨guards, hmem, hcard⟩ := h.counts
    refine ⟨guards, fun j => ?_, hcard⟩
    by_cases hji : j = i
    · subst hji
      rw [Processes.after_self, hmem, hpc]
      simp
    · rw [Processes.after_of_ne _ _ _ hji]
      exact hmem j
  checking_le j seen hj := by
    cases procs_after hj with
    | inl hself => exact nomatch hself.2
    | inr hother => exact (h.checking_le j seen hother.2).trans (Nat.le_succ _)
  parked_le j seen hj := by
    cases procs_after hj with
    | inl hself => exact nomatch hself.2
    | inr hother => exact (h.parked_le j seen hother.2).trans (Nat.le_succ _)
  -- A process parked since before this call of `notify_waiters` is woken by it.
  awaited j seen hj hseen := by
    cases procs_after hj with
    | inl hself => exact nomatch hself.2
    | inr hother =>
      have hle := h.parked_le j seen hother.2
      have heq : seen = P.shared.calls + 1 := hseen
      omega

/-- Every step of every task keeps the invariant. -/
private theorem GateInv.step (h : GateInv P) {e : GateAction}
    (hmove : gateMove i e P.shared (P.procs i) = some (s, l)) : GateInv (P.after i s l) := by
  unfold gateMove at hmove
  -- One case for each point of the program; those of a waiter differ in where it goes next.
  split at hmove
  case h_1 hpc =>
    cases hmove
    exact h.enter hpc
  case h_2 hpc =>
    cases hmove
    exact h.drop hpc
  case h_3 hpc =>
    cases hmove
    exact h.notify hpc
  case h_4 hpc =>
    cases hmove
    exact h.waiter (hpc ▸ nofun) (hpc ▸ nofun) nofun nofun nofun
  -- It registers before it looks: calls from now on will wake it.
  case h_5 hpc =>
    cases hmove
    refine h.waiter (hpc ▸ nofun) (hpc ▸ nofun) nofun (fun seen heq => ?_) nofun
    cases heq
    exact le_rfl
  -- It looks at the count: none active, and it returns; otherwise it parks.
  case h_6 seen hpc =>
    cases hmove
    refine h.waiter (hpc ▸ nofun) (hpc ▸ nofun) ?_ ?_ fun seen' heq => ?_
    · split
      · exact nofun
      · exact nofun
    · split
      · exact nofun
      · exact nofun
    · -- It parks since it saw a guard.
      split at heq
      · exact nomatch heq
      · cases heq
        exact ⟨h.checking_le i seen hpc, by omega⟩
  -- A parked waiter goes on when the count of calls has moved.
  case h_7 seen hpc =>
    split at hmove
    · exact nomatch hmove
    · cases hmove
      exact h.waiter (hpc ▸ nofun) (hpc ▸ nofun) nofun nofun nofun
  case h_8 hpc =>
    cases hmove
    exact h.waiter (hpc ▸ nofun) (hpc ▸ nofun) nofun nofun nofun
  case h_9 hpc =>
    cases hmove
    exact h.waiter (hpc ▸ nofun) (hpc ▸ nofun) nofun nofun nofun
  case h_10 seen hpc =>
    cases hmove
    exact h.waiter (hpc ▸ nofun) (hpc ▸ nofun) nofun nofun nofun
  case h_11 seen hpc =>
    cases hmove
    exact h.waiter (hpc ▸ nofun) (hpc ▸ nofun) nofun nofun nofun
  case h_12 => exact nomatch hmove

private theorem GateInv.run {events : List (ι × GateAction)} (hrun : GateRuns events P) :
    GateInv P :=
  hrun.invariant .start fun _ _ _ _ _ h _ hmove => h.step hmove

end Steps

/-! ## The gate -/

/-- What is said of the gate in one state. -/
structure GateCorrect (P : GateTasks ι) : Prop where
  /-- A step that lets a waiter return finds no guard, neither counted nor held. -/
  opens : ∀ i e Q, P.step gateMove i e = some Q → Q.procs i = .returned →
    P.shared.active = 0 ∧ ∀ j, P.procs j ≠ .querying
  /-- A waiter parked without a notification waits for a guard, or for a drop to notify. -/
  awaited : ∀ i seen, P.procs i = .parked seen → P.shared.calls = seen →
    (∃ j, P.procs j = .querying) ∨ ∃ j, P.procs j = .notifying
  /-- A waiter that was notified can go on. -/
  wakes : ∀ i seen, P.procs i = .parked seen → P.shared.calls ≠ seen →
    ∃ Q, P.step gateMove i .wake = some Q

omit [DecidableEq ι] in
/-- The counter counts the guards: at zero there is none, otherwise there is one. -/
private theorem GateInv.active_pos_iff {P : GateTasks ι} (h : GateInv P) :
    0 < P.shared.active ↔ ∃ j, P.procs j = .querying := by
  obtain ⟨guards, hmem, hcard⟩ := h.counts
  rw [← hcard, Finset.card_pos]
  constructor
  · intro hne
    obtain ⟨j, hj⟩ := hne
    exact ⟨j, (hmem j).mp hj⟩
  · intro hguard
    obtain ⟨j, hj⟩ := hguard
    exact ⟨j, (hmem j).mpr hj⟩

/-- However the tasks interleave, the gate opens for no waiter while there is a guard, and no
    waiter is left parked without anybody to notify it. -/
theorem gate_loses_no_wakeup {P : GateTasks ι} {events : List (ι × GateAction)}
    (hrun : GateRuns events P) : GateCorrect P := by
  have h := GateInv.run hrun
  constructor
  case opens =>
    intro i e Q hstep hreturned
    obtain ⟨s, l, hmove, rfl⟩ := Processes.step_eq_some hstep
    rw [Processes.after_self] at hreturned
    have hzero : P.shared.active = 0 := by
      unfold gateMove at hmove
      -- Only the look at the count returns, and it returns at zero.
      split at hmove
      case h_6 seen hpc =>
        cases hmove
        by_contra hactive
        rw [if_neg hactive] at hreturned
        exact nomatch hreturned
      all_goals grind
    refine ⟨hzero, fun j hj => ?_⟩
    have := h.active_pos_iff.mpr ⟨j, hj⟩
    omega
  case awaited =>
    intro i seen hparked hcalls
    -- It is owed a wake-up by somebody: a guard still held, or a notifier under way.
    cases h.awaited i seen hparked hcalls.symm with
    | inl hactive => exact .inl (h.active_pos_iff.mp hactive)
    | inr hnotify => exact .inr hnotify
  case wakes =>
    intro i seen hparked hcalls
    refine ⟨P.after i P.shared .looping, ?_⟩
    -- Its wake-up has been called, so it may go on.
    rw [Processes.step, hparked]
    simp only [gateMove, if_neg hcalls, Option.map_some]

/-- A waiter that met a query is parked, and the query is there. -/
theorem gate_loses_no_wakeup_parked :
    ∃ P : GateTasks Nat, P.procs 1 = .parked 0 ∧ P.procs 0 = .querying ∧ GateCorrect P := by
  have hexec : ∃ P, (GateTasks.start Nat).exec gateMove Processes.anyStep
      [(0, .enter), (1, .wait), (1, .create), (1, .load)] = some P ∧
      P.procs 1 = .parked 0 ∧ P.procs 0 = .querying := ⟨_, rfl, rfl, rfl⟩
  obtain ⟨P, hexec, hparked, hquery⟩ := hexec
  exact ⟨P, hparked, hquery, gate_loses_no_wakeup (.of_exec hexec)⟩

end Semnav.Query
