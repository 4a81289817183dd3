import Semnav.Spec.DaemonSteps

/-!
# What a successful `daemon stop` says

`run_daemon_stop` takes the daemon for stopped when a probe gets no answer.  But the daemon drops
its listener when `server::run` returns, and has then still to shut down the watcher and the
servers, to release the lock and to exit.

## Key results

- `stop_means_exclusive`: a stop succeeds after the exit of the daemon, as long as every probe of a
  daemon that is still there is answered
- `stop_succeeds_early`: a run in which the daemon holds the lock and writes after the success
-/

namespace Semnav.Daemon

open Semnav.ForStd

def Proc.hasExited : Proc → Bool
  | .exited _ => true
  | _ => false

private theorem hasExited_iff {l : Proc} : l.hasExited = true ↔ ∃ how, l = .exited how := by
  cases l <;> simp [Proc.hasExited]

/-- As long as the process of the daemon that `daemon stop` has contacted is there, the probes of
    its loop find the file and a process that listens, and their connects are accepted. -/
def PollsAnswered (S : Root) (p : Pid) (e : Action) : Prop :=
  match S.procs p, e with
  | .probing (.stopPoll d _) .testing, .go _ =>
    (S.procs d).hasExited = false → S.shared.sock.isSome = true
  | .probing (.stopPoll d _) .connecting, .go a =>
    (S.procs d).hasExited = false → S.shared.listener.isSome = true ∧ a = .accepted
  | _, _ => True

instance (S : Root) (p : Pid) (e : Action) : Decidable (PollsAnswered S p e) := by
  unfold PollsAnswered
  split <;> infer_instance

/-- What the daemon leaves to whoever stopped it: the lock, and a database that it does not write
    to in any further course of events. -/
def Exclusive (S : Root) (d : Pid) : Prop :=
  S.shared.lock ≠ some d ∧
    ∀ events S', Processes.Runs move Processes.anyStep S events S' →
      S'.shared.writes d = S.shared.writes d

/-- A process that has exited holds nothing and does nothing. -/
private theorem exclusive_of_exited {S : Root} (hS : S.WellFormed) {d : Pid} {how : Exit}
    (hd : S.procs d = .exited how) : Exclusive S d := by
  constructor
  · intro hlock
    have hholds := hS.lock d hlock
    rw [hd] at hholds
    -- An exited process holds no lock.
    exact nomatch hholds
  · -- It takes no further step, and nobody else moves its counter.
    intro events S' hrun
    have hkeeps : S'.procs d = .exited how ∧ S'.shared.writes d = S.shared.writes d := by
      apply hrun.invariant (I := fun T => T.procs d = .exited how ∧
        T.shared.writes d = S.shared.writes d) ⟨hd, rfl⟩
      intro T p e s l hT _ h
      by_cases hdp : d = p
      · subst hdp
        rw [hT.1, move_exited] at h
        exact nomatch h
      · rw [Processes.after_of_ne T s l hdp, Processes.after_shared, move_writes h hdp]
        exact hT
    exact hkeeps.2

/-- A `daemon stop` that has judged its daemon stopped, or is about to, after a failed connect. -/
def Proc.judged (l : Proc) (d : Pid) : Prop :=
  l = .exited (.stopped d) ∨ ∃ n, l = .probing (.stopPoll d n) .removing

/-- The step that judges is one that the condition does not admit while the daemon is there. -/
private theorem judged_step {S : Root} {p d : Pid} {e : Action} {os' : Os} {l' : Proc}
    (hok : PollsAnswered S p e) (hp : (S.procs p).judged d → (S.procs d).hasExited = true)
    (h : move p e S.shared (S.procs p) = some (os', l')) (hl' : l'.judged d) :
    (S.procs d).hasExited = true := by
  -- If the daemon is still there, no poll of it was answered that way.
  rw [← Bool.not_eq_false]
  intro hthere
  cases hl' with
  | inr hremoving =>
    obtain ⟨n, hl'⟩ := hremoving
    obtain ⟨hpc, he, -⟩ := move_removing h hl'
    simp only [PollsAnswered, hpc, he] at hok
    exact nomatch (hok hthere).2
  -- A stop is judged by a refused probe, by the deadline or on the way to the removal.
  | inl hstopped =>
    obtain ⟨⟨a, rfl⟩, n, pc, hpc, hjudge⟩ := move_stopped h hstopped
    cases hjudge with
    | inl htest =>
      obtain ⟨rfl, hsock⟩ := htest
      simp only [PollsAnswered, hpc, hsock] at hok
      exact nomatch hok hthere
    | inr hjudge =>
      cases hjudge with
      | inl htimeout =>
        obtain ⟨rfl, he⟩ := htimeout
        cases he
        simp only [PollsAnswered, hpc] at hok
        exact nomatch (hok hthere).2
      | inr hremoving =>
        subst hremoving
        -- Such a process had judged before this step.
        exact nomatch hthere.symm.trans (hp (.inr ⟨n, hpc⟩))

/-- No step brings a process back. -/
private theorem hasExited_after {S : Root} {p d : Pid} {e : Action} {os' : Os} {l' : Proc}
    (h : move p e S.shared (S.procs p) = some (os', l')) (hd : (S.procs d).hasExited = true) :
    ((S.after p os' l').procs d).hasExited = true := by
  by_cases hdp : d = p
  · subst hdp
    obtain ⟨how, hhow⟩ := hasExited_iff.mp hd
    rw [hhow, move_exited] at h
    exact nomatch h
  · rw [Processes.after_of_ne S os' l' hdp]
    exact hd

/-- A `daemon stop` that has contacted a daemon and succeeds does so after that daemon's exit, and
    then the lock is released and the database left alone: as long as every probe of the daemon,
    while it is there, is answered. -/
theorem stop_means_exclusive {leftover : Option Inode} {events : List (Pid × Action)} {S : Root}
    (hrun : Processes.Runs move PollsAnswered (Root.boot leftover) events S) {p d : Pid}
    (hp : S.procs p = .exited (.stopped d)) : Exclusive S d := by
  have hexited : (S.procs p).judged d → (S.procs d).hasExited = true := by
    apply (hrun.everyone (I := fun _ => True)
      (T := fun S q => (S.procs q).judged d → (S.procs d).hasExited = true)
      trivial ?_ ?_ ?_ ?_).2 p
    · -- At the start no process has judged another.
      intro q hq
      cases hq with
      | inl hstopped => exact nomatch hstopped
      | inr hremoving =>
        obtain ⟨n, hremoving⟩ := hremoving
        exact nomatch hremoving
    · exact fun _ _ _ _ _ _ _ _ => trivial
    · -- A process's own step judges only after the probe that no one answered.
      intro S q e s l _ hok hq h hl
      rw [Processes.after_self] at hl
      exact hasExited_after h (judged_step hok hq h hl)
    · -- The step of another keeps an exited process exited.
      intro S i e s l q _ _ hq hqi h hl
      rw [Processes.after_of_ne S s l hqi] at hl
      exact hasExited_after h (hq hl)
  obtain ⟨how, hd⟩ := hasExited_iff.mp (hexited (.inl hp))
  exact exclusive_of_exited (reachable_wellFormed hrun) hd

/-- A daemon starts, and a `daemon stop` contacts it, is served and sees its answer. -/
def contactEvents : List (Pid × Action) :=
  [(0, .start .daemon), (0, .go .failed), (0, .go .failed), (0, .go .failed), (0, .go .failed),
    (0, .go .failed), (0, .go .failed),
   (1, .start .daemonStop), (1, .go .accepted), (1, .go .accepted), (1, .go .accepted),
   (0, .accept 1), (1, .go .accepted), (0, .forward 1), (0, .answer 1), (1, .go .accepted)]

/-- The first probe is answered; then the daemon goes through its whole teardown and exits. -/
def patientEvents : List (Pid × Action) :=
  contactEvents ++
    [(1, .go .accepted), (1, .go .accepted),
     (0, .finish .explicitStop), (0, .go .failed), (0, .go .failed), (0, .go .failed),
      (0, .go .failed), (0, .go .failed),
     (1, .go .accepted), (1, .go .accepted)]

theorem stop_means_exclusive_patient : ∃ S, S.procs 1 = .exited (.stopped 0) ∧ Exclusive S 0 := by
  have hexec : (Processes.exec move PollsAnswered (Root.boot none) patientEvents).map
      (fun S => S.procs 1) = some (.exited (.stopped 0)) := by decide
  obtain ⟨S, hrun, hS⟩ := Processes.Runs.exists_of_exec hexec
  exact ⟨S, hS, stop_means_exclusive hrun hS⟩

/-- The daemon has dropped its listener when the first probe connects. -/
def hastyEvents : List (Pid × Action) :=
  contactEvents ++
    [(0, .finish .explicitStop), (1, .go .accepted), (1, .go .failed), (1, .go .accepted)]

/-- The stop succeeds while the daemon holds the lock, and the daemon writes after that. -/
theorem stop_succeeds_early : ∃ leftover events S,
    Processes.Runs move Processes.anyStep (Root.boot leftover) events S ∧
      S.procs 1 = .exited (.stopped 0) ∧ S.shared.lock = some 0 ∧
      ∃ S', Processes.Runs move Processes.anyStep S [(0, .write)] S' ∧
        S'.shared.writes 0 ≠ S.shared.writes 0 := by
  -- The hasty run ends with the stop done while the daemon still tears its watcher down.
  have hexec : (Processes.exec move Processes.anyStep (Root.boot none) hastyEvents).map
      (fun S => (S.procs 1, S.procs 0, S.shared.lock)) =
        some (.exited (.stopped 0), .stoppingWatcher, some 0) := by decide
  obtain ⟨S, hrun, hS⟩ := Processes.Runs.exists_of_exec hexec
  simp only [Prod.mk.injEq] at hS
  obtain ⟨hstop, hdaemon, hlock⟩ := hS
  refine ⟨none, hastyEvents, S, hrun, hstop, hlock, ?_⟩
  -- There the daemon can still write, under its lock.
  have hwrite : S.step move 0 .write = some (S.after 0
      { S.shared with writes := Function.update S.shared.writes 0 (S.shared.writes 0 + 1) }
      .stoppingWatcher) := by
    rw [Processes.step, hdaemon]
    rfl
  refine ⟨_, .cons trivial hwrite .nil, ?_⟩
  show Function.update S.shared.writes 0 (S.shared.writes 0 + 1) 0 ≠ S.shared.writes 0
  rw [Function.update_self]
  exact Nat.succ_ne_self _

end Semnav.Daemon
