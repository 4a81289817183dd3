import Semnav.Spec.DaemonSteps

/-!
# Probes and live sockets

`probe_liveness` judges a socket by a connect and removes the file by its path, so that what it
removes may be another socket by then.

## Key results

- `probe_keeps_live_socket`: no probe removes a live socket, as long as no daemon begins to listen
  at the path while one is about to remove it
- `probe_removes_live_socket`: a run in which a daemon does
-/

namespace Semnav.Daemon

open Semnav.ForStd

variable {p : Pid} {e : Action} {os' : Os} {l' : Proc}

/-! ## What probes remove -/

/-- No daemon begins to listen at the path while a probe is between its failed connect and its
    `remove_file`, and no connect fails where a daemon listens. -/
def Undisturbed (S : Root) (p : Pid) (e : Action) : Prop :=
  (∀ i a, S.procs p = .listening i → e = .go a → S.shared.sock = some i →
    ∀ q caller, S.procs q ≠ .probing caller .removing) ∧
  (∀ caller, S.procs p = .probing caller .connecting → e = .go .failed →
    S.shared.listener = none)

/-- The step unlinks, in `probe_liveness`, a socket file on which a daemon listens. -/
def UnlinksLive (S : Root) (p : Pid) (e : Action) : Prop :=
  (∃ caller a, S.procs p = .probing caller .removing ∧ e = .go a) ∧
    ∃ d, S.shared.listener = some d

/-- Where nobody listened at the path, nobody does after a step that does not begin to. -/
private theorem move_listener {S : Root} (hS : S.WellFormed)
    (h : move p e S.shared (S.procs p) = some (os', l')) (hnone : S.shared.listener = none)
    (hlisten : ∀ i a, S.procs p = .listening i → e = .go a → S.shared.sock ≠ some i) :
    os'.listener = none := by
  rw [Os.listener_eq_none] at hnone ⊢
  intro i hi
  cases hd : os'.listeners i with
  | none => rfl
  | some d =>
    cases move_listeners h hd with
    | inl hbefore =>
      -- a new name of the path is a new socket, which nobody listens on
      cases move_sock h with
      | inl hsame => exact nomatch (hnone i (hsame.symm.trans hi)).symm.trans hbefore
      | inr hsock =>
        cases hsock with
        | inl hgone => exact nomatch hgone.symm.trans hi
        | inr hnew =>
          obtain rfl : S.shared.nextInode = i := Option.some.inj (hnew.symm.trans hi)
          exact nomatch (hS.fresh _ (Nat.le_refl _)).symm.trans hbefore
    | inr hnow =>
      obtain ⟨-, -, hl, a, he⟩ := hnow
      cases move_sock h with
      | inl hsame => exact absurd (hsame.symm.trans hi) (hlisten i a hl he)
      | inr hsock =>
        cases hsock with
        | inl hgone => exact nomatch hgone.symm.trans hi
        | inr hnew =>
          obtain rfl : S.shared.nextInode = i := Option.some.inj (hnew.symm.trans hi)
          exact absurd (hS.bound p _ hl) (Nat.lt_irrefl _)

/-- As long as no daemon begins to listen while a probe is about to remove the file, no probe
    removes a socket on which a daemon listens. -/
theorem probe_keeps_live_socket {leftover : Option Inode} {events : List (Pid × Action)}
    {S : Root} (hrun : Processes.Runs move Undisturbed (Root.boot leftover) events S)
    (p : Pid) (e : Action) : ¬ UnlinksLive S p e := by
  have hstale : ∀ q caller, S.procs q = .probing caller .removing → S.shared.listener = none := by
    apply (hrun.everyone (I := Root.WellFormed)
      (T := fun S q => ∀ caller, S.procs q = .probing caller .removing → S.shared.listener = none)
      (wellFormed_boot leftover) ?_ ?_ ?_ ?_).2
    · exact fun q caller hq => nomatch hq
    · exact fun S p e s l hS _ h => wellFormed_step hS h
    · -- A probe comes to remove the file after a refused connect, and then nobody listened.
      intro S p e s l hS hok _ h caller hl
      rw [Processes.after_self] at hl
      obtain ⟨hpc, he, rfl⟩ := move_removing h hl
      exact hok.2 caller hpc he
    · -- Another process's step starts no listener while a probe is about to remove the file.
      intro S p e s l q hS hok hq hqp h caller hpc
      rw [Processes.after_of_ne S s l hqp] at hpc
      apply move_listener hS h (hq caller hpc)
      intro i a hlisten he hsock
      exact hok.1 i a hlisten he hsock q caller hpc
  intro hunlinks
  obtain ⟨⟨caller, a, hpc, -⟩, d, hd⟩ := hunlinks
  exact nomatch (hstale p caller hpc).symm.trans hd

theorem probe_keeps_live_socket_leftover : ∃ S, S.procs 1 = .probing .stopCheck .removing ∧
    ¬ UnlinksLive S 1 (.go .accepted) := by
  have hstart : Processes.Runs move Undisturbed (Root.boot (some 0)) [] _ := .nil
  have htest := hstart.snoc (i := 1) (e := .start .daemonStop) ⟨nofun, nofun⟩ rfl
  have hconnect := htest.snoc (i := 1) (e := .go .accepted) ⟨nofun, nofun⟩ rfl
  have hremove := hconnect.snoc (i := 1) (e := .go .failed) ⟨nofun, fun _ _ _ => rfl⟩ rfl
  exact ⟨_, rfl, probe_keeps_live_socket hremove 1 (.go .accepted)⟩

/-- A daemon is killed and leaves its socket; a `serve` process fails to connect to it; before
    that process removes the file, another daemon has removed it, made its own and listens. -/
def raceEvents : List (Pid × Action) :=
  [(0, .start .daemon), (0, .go .failed), (0, .go .failed), (0, .go .failed), (0, .go .failed),
    (0, .go .failed), (0, .go .failed), (0, .crash),
   (1, .start .serve), (1, .go .failed), (1, .go .failed),
   (2, .start .daemon), (2, .go .failed), (2, .go .failed), (2, .go .failed), (2, .go .failed),
    (2, .go .failed), (2, .go .failed), (2, .go .failed), (2, .go .failed)]

theorem probe_removes_live_socket : ∃ leftover events S,
    Processes.Runs move Processes.anyStep (Root.boot leftover) events S ∧
      UnlinksLive S 1 (.go .accepted) ∧ S.procs 2 = .running 1 := by
  have hexec : (Processes.exec move Processes.anyStep (Root.boot none) raceEvents).map
      (fun S => (S.procs 1, S.shared.listener, S.procs 2)) =
        some (.probing .ensure .removing, some 2, .running 1) := by decide
  obtain ⟨S, hrun, hS⟩ := Processes.Runs.exists_of_exec hexec
  simp only [Prod.mk.injEq] at hS
  exact ⟨none, raceEvents, S, hrun, ⟨⟨.ensure, .accepted, hS.1, rfl⟩, 2, hS.2.1⟩, hS.2.2⟩

end Semnav.Daemon
