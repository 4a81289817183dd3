import Semnav.Spec.DaemonSteps

/-!
# What a caller that lost the lock waits for

A caller of `ensure_daemon_running` that finds `daemon.lock` held takes it that somebody is
starting a daemon, and polls.  A daemon holds the lock through its teardown too, with its socket
already gone; and what the caller waits for may fail.  The processes of a root are observed here
with the children that are spawned and the callers that lost the lock.

## Key results

- `move_brings`: how a process stops being one that brings a daemon
- `move_waits`: how a caller comes to wait
- `loser_waits_for_starter`: in a run without such mishaps somebody brings a daemon
- `loser_waits_for_teardown`: a caller that meets a daemon in its teardown
-/

namespace Semnav.Daemon

open Semnav.ForStd

/-! ## Who brings a daemon, and who waits for one -/

/-- The process is about to spawn a daemon, or is one that starts or listens. -/
def Proc.brings : Proc → Bool
  | .dropLock | .spawning => true
  | .probing .selfCheck _ | .acquiring | .clearing | .binding | .listening _ | .openingDb _ => true
  | .running _ => true
  | _ => false

/-- The process is in `wait_for_daemon_ready`. -/
def Proc.waits : Proc → Bool
  | .probing .wait _ | .pausing => true
  | _ => false

/-- The process has called `listen`. -/
def Proc.hasListened : Proc → Bool
  | .openingDb _ | .abandoning _ | .closing _ | .running _ | .stoppingWatcher | .stoppingServers
  | .removingSock | .releasing | .draining => true
  | _ => false

/-- The step ends the process, or takes a daemon out of service, on its own account. -/
def Action.ends : Action → Bool
  | .fail | .crash | .finish _ => true
  | _ => false

/-- How a process that brings a daemon stops to. -/
inductive StopsBringing (e : Action) (os : Os) : Proc → Prop where
  /-- It has spawned it. -/
  | spawned {a : Attempt} (he : e = .go a) : StopsBringing e os .spawning
  /-- It finds the lock held. -/
  | locked {q : Pid} {a : Attempt} (he : e = .go a) (hlock : os.lock = some q) :
      StopsBringing e os .acquiring
  /-- It finds a daemon that answers. -/
  | answered {d : Pid} (he : e = .go .accepted) (hlistener : os.listener = some d) :
      StopsBringing e os (.probing .selfCheck .connecting)
  /-- The path is taken. -/
  | bindFails {a : Attempt} (he : e = .go a) (hsock : os.sock ≠ none) :
      StopsBringing e os .binding
  | ends {l : Proc} (he : e.ends = true) : StopsBringing e os l

section Moves

variable {p : Pid} {e : Action} {os os' : Os} {l l' : Proc} {a : Attempt}

/-- A starter that was bringing a daemon up goes on, unless its step ends that. -/
private theorem goOn_brings (h : goOn os p a l = some (os', l')) (hl : l.brings = true) :
    l'.brings = true ∨ StopsBringing (.go a) os l := by
  -- Only a daemon on its way up and a starter past its lock are bringing one up.
  cases l with
  | probing caller pc =>
    cases caller with
    | selfCheck =>
      obtain ⟨⟨os₁, res⟩, hprobe, heq⟩ := Option.map_eq_some_iff.mp h
      cases heq
      cases pc with
      | testing =>
        simp only [probeLiveness] at hprobe
        split at hprobe
        · cases hprobe
          exact .inl rfl
        · cases hprobe
          exact .inl rfl
      | connecting =>
        simp only [probeLiveness] at hprobe
        split at hprobe
        · -- Another daemon answers: this one is not needed.
          rename_i hmay
          cases a with
          | accepted =>
            obtain ⟨d, hd⟩ := Option.isSome_iff_exists.mp hmay
            exact .inr (.answered rfl hd)
          | failed =>
            cases hprobe
            exact .inl rfl
          | timedOut =>
            cases hprobe
            exact .inl rfl
        · cases hprobe
      | removing =>
        cases hprobe
        exact .inl rfl
    | _ => cases hl
  | dropLock =>
    cases h
    exact .inl rfl
  -- The starter has spawned a process, which brings the daemon up from here on.
  | spawning => exact .inr (.spawned rfl)
  | acquiring =>
    cases hlock : os.lock with
    | none =>
      simp only [goOn, ensureAndConnect, runDaemon, hlock, Option.none_or, Option.some_or] at h
      cases h
      exact .inl rfl
    -- The lock is held by somebody else.
    | some q => exact .inr (.locked rfl hlock)
  | clearing =>
    cases h
    exact .inl rfl
  | binding =>
    cases hsock : os.sock with
    | none =>
      simp only [goOn, ensureAndConnect, runDaemon, hsock, Option.none_or, Option.some_or] at h
      cases h
      exact .inl rfl
    -- The socket file is in the way, and `bind` fails.
    | some i =>
      refine .inr (.bindFails rfl ?_)
      rw [hsock]
      exact Option.some_ne_none i
  | listening i =>
    cases h
    exact .inl rfl
  | openingDb i =>
    cases h
    exact .inl rfl
  | running i => cases h
  | _ => cases hl

/-- A daemon does not wait. -/
private theorem runDaemon_not_waits (h : runDaemon os p l = some (os', l')) : l'.waits = false := by
  cases l <;> simp only [runDaemon] at h <;> try contradiction
  case acquiring | binding =>
    split at h
    · cases h
      rfl
    · cases h
      rfl
  all_goals
    cases h
    rfl

/-- A stop does not wait. -/
private theorem runDaemonStop_not_waits (h : runDaemonStop os p a l = some (os', l')) :
    l'.waits = false := by
  cases l <;> simp only [runDaemonStop] at h <;> try contradiction
  -- Contacting and sending end in a state that waits for nobody's start.
  case contacting | sending =>
    split at h <;> first | (cases h; rfl) | cases h
  case awaiting d =>
    split at h
    · split at h
      · cases h
        rfl
      · cases h
    · cases h
      rfl
  case sleeping d n =>
    split at h
    · cases h
      rfl
    · cases h
      rfl

/-- A starter waits after spawning, or when the lock is held. -/
private theorem goOn_waits (h : goOn os p a l = some (os', l')) (hl' : l'.waits = true) :
    l.waits = true ∨ l = .spawning ∨ (l = .tryLock ∧ os.lock ≠ none) := by
  unfold goOn at h
  split at h
  next caller pc =>
    obtain ⟨⟨os₁, res⟩, hprobe, heq⟩ := Option.map_eq_some_iff.mp h
    cases heq
    -- A starter waits from its spawn on, or when it has found the lock taken.
    cases caller with
    | wait => exact .inl rfl
    | ensure | selfCheck | stopCheck | stopPoll d n =>
      cases res with
      | inl pc' => cases hl'
      | inr answer => cases answer <;> cases hl'
  next =>
    cases Option.or_eq_some_iff.mp h with
    | inl h =>
      cases l <;> simp only [ensureAndConnect] at h <;> try contradiction
      case tryLock =>
        cases hlock : os.lock with
        | none =>
          rw [hlock] at h
          cases h
          cases hl'
        | some q => exact .inr (.inr ⟨rfl, Option.some_ne_none q⟩)
      case dropLock =>
        cases h
        cases hl'
      case spawning => exact .inr (.inl rfl)
      case pausing => exact .inl rfl
      case attaching =>
        split at h
        · cases h
          cases hl'
        · cases h
    -- A daemon and a stop never wait.
    | inr h =>
      cases Option.or_eq_some_iff.mp h.2 with
      | inl h => cases hl'.symm.trans (runDaemon_not_waits h)
      | inr h => cases hl'.symm.trans (runDaemonStop_not_waits h.2)

/-- Only an end takes a process off the way that `goOn` leads it. -/
private theorem failStep_ends (h : failStep os l = some (os', l')) :
    l'.hasListened = true ∨ ∃ how, l' = .exited how := by
  cases l <;> simp only [failStep] at h <;> try contradiction
  case openingDb i =>
    cases h
    exact .inl rfl
  all_goals
    cases h
    exact .inr ⟨_, rfl⟩

/-- Where a step leaves its process. -/
theorem act_place (h : act p e os l = some (os', l')) :
    l' = l ∨ (∃ cmd, e = .start cmd ∧ l = .unstarted ∧ l' = cmd.entry) ∨
      (∃ a, e = .go a ∧ goOn os p a l = some (os', l')) ∨
      (e.ends = true ∧ (l'.hasListened = true ∨ ∃ how, l' = .exited how)) := by
  -- The place of a process changes with its own moves, and with its end.
  cases e with
  | start cmd =>
    simp only [act] at h
    split at h
    · rename_i hstart
      cases h
      exact .inr (.inl ⟨cmd, rfl, hstart, rfl⟩)
    · cases h
  | go a => exact .inr (.inr (.inl ⟨a, rfl, h⟩))
  | fail => exact .inr (.inr (.inr ⟨rfl, failStep_ends h⟩))
  | crash =>
    simp only [act] at h
    split at h
    · cases h
      exact .inr (.inr (.inr ⟨rfl, .inr ⟨_, rfl⟩⟩))
    · cases h
  | finish reason =>
    simp only [act] at h
    split at h
    · split at h
      · cases h
        exact .inr (.inr (.inr ⟨rfl, .inl rfl⟩))
      · cases h
    · cases h
  -- What a connection does leaves the process where it is.
  | accept client =>
    simp only [act] at h
    split at h
    · obtain ⟨os₁, hserve, heq⟩ := Option.map_eq_some_iff.mp h
      cases heq
      exact .inl rfl
    · cases h
  | forward client | answer client =>
    simp only [act] at h
    split at h
    · obtain ⟨os₁, hserve, heq⟩ := Option.map_eq_some_iff.mp h
      cases heq
      exact .inl rfl
    · cases h
  | write =>
    simp only [act] at h
    split at h
    · cases h
      exact .inl rfl
    · cases h

/-- The kernel's part of a step leaves the process where it is. -/
theorem move_act (h : move p e os l = some (os', l')) :
    ∃ os₁, act p e os l = some (os₁, l') := by
  obtain ⟨⟨os₁, l₁⟩, hact, hsettle⟩ := Option.map_eq_some_iff.mp h
  have hplace : l₁ = l' := by
    rw [settle] at hsettle
    split at hsettle
    · rename_i how heq
      cases hsettle
      exact heq
    · cases hsettle
      rfl
  exact ⟨os₁, hplace ▸ hact⟩

/-- How a process stops being one that brings a daemon. -/
private theorem move_brings (h : move p e os l = some (os', l')) (hl : l.brings = true) :
    l'.brings = true ∨ StopsBringing e os l := by
  obtain ⟨os₁, hact⟩ := move_act h
  obtain hstays | ⟨cmd, -, hstart, -⟩ | ⟨a, rfl, hgo⟩ | ⟨hends, -⟩ := act_place hact
  · exact .inl (hstays ▸ hl)
  · subst hstart
    exact nomatch hl
  · exact goOn_brings hgo hl
  · exact .inr (.ends hends)

/-- How a caller comes to wait. -/
private theorem move_waits (h : move p e os l = some (os', l')) (hl' : l'.waits = true) :
    l.waits = true ∨ ∃ a, e = .go a ∧ (l = .spawning ∨ (l = .tryLock ∧ os.lock ≠ none)) := by
  obtain ⟨os₁, hact⟩ := move_act h
  obtain hstays | ⟨cmd, -, -, hentry⟩ | ⟨a, rfl, hgo⟩ | ⟨-, hend⟩ := act_place hact
  · exact .inl (hstays ▸ hl')
  · subst hentry
    cases cmd <;> exact nomatch hl'
  · cases goOn_waits hgo hl' with
    | inl hwaited => exact .inl hwaited
    | inr hcame => exact .inr ⟨a, rfl, hcame⟩
  · cases hend with
    | inl hlistened => cases l' <;> simp [Proc.hasListened, Proc.waits] at hlistened hl'
    | inr hexited =>
      obtain ⟨how, rfl⟩ := hexited
      exact nomatch hl'

/-- A process that has listened does not start over. -/
private theorem move_hasListened (h : move p e os l = some (os', l')) (hl : l.hasListened = true) :
    l'.hasListened = true ∨ ∃ how, l' = .exited how := by
  obtain ⟨os₁, hact⟩ := move_act h
  obtain hstays | ⟨cmd, -, hstart, -⟩ | ⟨a, rfl, hgo⟩ | ⟨-, hend⟩ := act_place hact
  · exact .inl (hstays ▸ hl)
  · subst hstart
    exact nomatch hl
  · cases l <;> simp only [Proc.hasListened, reduceCtorEq] at hl
    case running i => exact nomatch hgo
    case closing | draining =>
      cases hgo
      exact .inr ⟨_, rfl⟩
    all_goals
      cases hgo
      exact .inl rfl
  · exact hend

end Moves

/-! ## Children and losers -/

/-- The processes of a root, the children spawned, and the callers that found the lock held. -/
structure Starters where
  root : Root
  /-- Spawned as `semnav daemon`, from `spawn_detached_daemon` on. -/
  child : Pid → Bool
  lost : Pid → Bool

/-- What happens to the starters: a process moves, or one more begins. -/
inductive StarterEvent where
  /-- A step that spawns nothing. -/
  | act (p : Pid) (e : Action)
  /-- `spawn_detached_daemon` of `p` makes the process `c`. -/
  | spawn (p : Pid) (a : Attempt) (c : Pid)
  /-- A child dies before its first step. -/
  | stillborn (c : Pid)

namespace Starters

/-- The process is at a call of `try_acquire` that finds the lock held. -/
def finds (s : Starters) (p : Pid) : Action → Bool
  | .go _ => s.root.procs p == .tryLock && s.root.shared.lock.isSome
  | _ => false

/-- The event may be of this process. -/
def admits (s : Starters) (p : Pid) : Action → Bool
  | .go _ => s.root.procs p != .spawning
  | .start cmd => !s.child p || cmd == .daemon
  | _ => true

/-- What an event does. -/
def step (s : Starters) : StarterEvent → Option Starters
  | .act p e =>
    if s.admits p e then
      (s.root.step move p e).map fun S =>
        { s with root := S, lost := if s.finds p e then Function.update s.lost p true else s.lost }
    else none
  | .spawn p a c =>
    if s.root.procs p = .spawning ∧ s.root.procs c = .unstarted ∧ s.child c = false then
      (s.root.step move p (.go a)).map fun S =>
        { s with root := S, child := Function.update s.child c true }
    else none
  | .stillborn c =>
    if s.root.procs c = .unstarted ∧ s.child c = true then
      some { s with child := Function.update s.child c false }
    else none

/-- Nothing has started yet. -/
def boot (leftover : Option Inode) : Starters := ⟨Root.boot leftover, fun _ => false, fun _ => false⟩

/-- The states that events with `ok` lead to. -/
inductive Run (ok : Starters → StarterEvent → Prop) (leftover : Option Inode) : Starters → Prop where
  | boot : Run ok leftover (boot leftover)
  | step {s s' : Starters} {ev : StarterEvent} (hrun : Run ok leftover s) (hok : ok s ev)
      (hstep : s.step ev = some s') : Run ok leftover s'

/-- The process is about to spawn a daemon, or is one that starts or listens. -/
def Brings (s : Starters) (p : Pid) : Prop :=
  (s.root.procs p).brings = true ∨ (s.root.procs p = .unstarted ∧ s.child p = true)

/-- A caller that lost the lock waits. -/
def Waiting (s : Starters) (p : Pid) : Prop :=
  s.lost p = true ∧ (s.root.procs p).waits = true

/-- Whoever waits because it lost the lock waits for a process that brings a daemon. -/
def Attended (s : Starters) : Prop := ∀ p, s.Waiting p → ∃ q, s.Brings q

/-! ## The condition -/

/-- If `p` goes, nobody is left waiting for it alone. -/
def Spared (s : Starters) (p : Pid) : Prop :=
  (∀ q, ¬ s.Waiting q) ∨ ∃ q, q ≠ p ∧ s.Brings q

/-- Nobody meets a daemon in its teardown, or one that gives up, when it takes the lock or checks
    for a daemon; and none that a caller waits for fails, is killed or is shut down. -/
def Steady (s : Starters) : StarterEvent → Prop
  | .act p (.go _) =>
    (s.root.procs p = .tryLock ∨ s.root.procs p = .acquiring →
      ∀ q, s.root.shared.lock = some q → (s.root.procs q).brings = true) ∧
    (s.root.procs p = .probing .selfCheck .connecting →
      ∀ d, s.root.shared.listener = some d → (s.root.procs d).brings = true) ∧
    (s.root.procs p = .binding → s.root.shared.sock ≠ none → s.Spared p)
  | .act p e => e.ends = true → (s.root.procs p).brings = true → s.Spared p
  | .spawn _ _ _ => True
  | .stillborn c => s.Spared c

/-! ## The invariant -/

/-- What holds in every state of a run. -/
structure Inv (s : Starters) : Prop where
  wellFormed : s.root.WellFormed
  /-- Who listens has called `listen`. -/
  listened : ∀ i q, s.root.shared.listeners i = some q → (s.root.procs q).hasListened = true
  attended : s.Attended

/-- The invariant holds before any process. -/
theorem Inv.boot (leftover : Option Inode) : (boot leftover).Inv where
  wellFormed := wellFormed_boot leftover
  listened _ _ h := nomatch h
  attended _ h := nomatch h.1

section Steps

variable {s s' : Starters} {p : Pid} {e : Action} {os' : Os} {l' : Proc}

/-- Who listens has listened. -/
private theorem Inv.listened_after (h : s.Inv)
    (hmove : move p e s.root.shared (s.root.procs p) = some (os', l')) (i : Inode) (q : Pid)
    (hq : (s.root.after p os' l').shared.listeners i = some q) :
    ((s.root.after p os' l').procs q).hasListened = true := by
  rw [Processes.after_shared] at hq
  cases move_listeners hmove hq with
  | inl hbefore =>
    have hlistened := h.listened i q hbefore
    -- The listener moved itself or stood still; if it moved, it still listens or has exited.
    by_cases hqp : q = p
    · subst hqp
      rw [Processes.after_self]
      cases move_hasListened hmove hlistened with
      | inl hstays => exact hstays
      | inr hexited =>
        obtain ⟨how, rfl⟩ := hexited
        exact nomatch move_alive hmove hq
    · rw [Processes.after_of_ne _ _ _ hqp]
      exact hlistened
  -- The listener began with this very step.
  | inr hnow =>
    obtain ⟨rfl, hl', -⟩ := hnow
    rw [Processes.after_self, hl']
    rfl

/-- Another process that brings a daemon still does after a step. -/
private theorem Brings.after_of_ne {q : Pid} (hq : s.Brings q) (hqp : q ≠ p) {lost : Pid → Bool} :
    Brings ⟨s.root.after p os' l', s.child, lost⟩ q := by
  rw [Brings, Processes.after_of_ne _ _ _ hqp]
  exact hq

/-- A process that has not started only starts. -/
private theorem move_unstarted (hmove : move p e s.root.shared .unstarted = some (os', l')) :
    ∃ cmd, e = .start cmd ∧ l' = cmd.entry := by
  obtain ⟨os₁, hact⟩ := move_act hmove
  cases e with
  | start cmd =>
    cases hact
    exact ⟨cmd, rfl, rfl⟩
  | _ => exact nomatch hact

/-- A process that brings a daemon goes on to, unless nobody waits for it alone. -/
private theorem Inv.brings_after (h : s.Inv) (hsteady : s.Steady (.act p e))
    (hadmits : s.admits p e = true)
    (hmove : move p e s.root.shared (s.root.procs p) = some (os', l')) (hp : s.Brings p)
    {lost : Pid → Bool} : Brings ⟨s.root.after p os' l', s.child, lost⟩ p ∨ s.Spared p := by
  have hself : (Brings ⟨s.root.after p os' l', s.child, lost⟩ p) ↔
      (l'.brings = true ∨ (l' = .unstarted ∧ s.child p = true)) := by
    rw [Brings, Processes.after_self]
  rw [hself]
  cases hp with
  | inl hbrings =>
    -- It goes on bringing, or stops for one of five reasons.
    cases move_brings hmove hbrings with
    | inl hstays => exact .inl (.inl hstays)
    | inr hstops =>
      generalize hl : s.root.procs p = l at hstops
      cases hstops with
      | spawned he =>
        subst he
        simp [admits, hl] at hadmits
      -- The lock is held by another process, which is bringing one up since the run is steady.
      | @locked q a he hlock =>
        subst he
        have hq := hsteady.1 (.inr hl) q hlock
        refine .inr (.inr ⟨q, ?_, .inl hq⟩)
        intro heq
        have hholds := h.wellFormed.lock q hlock
        rw [heq, hl] at hholds
        exact nomatch hholds
      -- Another daemon listens, and stays, since the run is steady.
      | @answered d he hlistener =>
        subst he
        have hd := hsteady.2.1 hl d hlistener
        refine .inr (.inr ⟨d, ?_, .inl hd⟩)
        intro heq
        obtain ⟨i, -, hi⟩ := Option.bind_eq_some_iff.mp hlistener
        have hlistened := h.listened i d hi
        rw [heq, hl] at hlistened
        exact nomatch hlistened
      | bindFails he hsock =>
        subst he
        exact .inr (hsteady.2.2 hl hsock)
      -- A failing or ending process is one the run can do without.
      | ends he =>
        cases e with
        | fail | crash | finish reason => exact .inr (hsteady rfl hbrings)
        | _ => exact nomatch he
  -- A child not yet started is about to be.
  | inr hchild =>
    obtain ⟨hunstarted, hchild⟩ := hchild
    rw [hunstarted] at hmove
    obtain ⟨cmd, rfl, hentry⟩ := move_unstarted hmove
    have hdaemon : cmd = .daemon := by simpa [admits, hchild] using hadmits
    subst hdaemon hentry
    exact .inl (.inl rfl)

/-- A step keeps the waiting callers attended. -/
private theorem Inv.attended_after (h : s.Inv) (hsteady : s.Steady (.act p e))
    (hadmits : s.admits p e = true)
    (hmove : move p e s.root.shared (s.root.procs p) = some (os', l')) :
    Attended ⟨s.root.after p os' l', s.child,
      if s.finds p e then Function.update s.lost p true else s.lost⟩ := by
  intro x hx
  obtain ⟨hlost, hwaits⟩ := hx
  by_contra hnone
  have hothers : ∀ q, q ≠ p → ¬ s.Brings q := fun q hqp hq => hnone ⟨q, hq.after_of_ne hqp⟩
  have hspared : (∃ q, s.Waiting q) → ¬ s.Spared p := by
    intro hwaiting hspared
    cases hspared with
    | inl hnobody =>
      obtain ⟨q, hq⟩ := hwaiting
      exact hnobody q hq
    | inr hother =>
      obtain ⟨q, hqp, hq⟩ := hother
      exact hothers q hqp hq
  -- Who waits now waited before, or has just found the lock held.
  have hbefore : s.Waiting x → False := by
    intro hwaiting
    obtain ⟨q, hq⟩ := h.attended x hwaiting
    have hqp : q = p := by
      by_contra hqp
      exact hothers q hqp hq
    subst hqp
    cases h.brings_after hsteady hadmits hmove hq with
    | inl hstill => exact hnone ⟨q, hstill⟩
    | inr hgone => exact hspared ⟨x, hwaiting⟩ hgone
  by_cases hxp : x = p
  · subst hxp
    dsimp only at hwaits
    rw [Processes.after_self] at hwaits
    cases move_waits hmove hwaits with
    | inl hwaited =>
      apply hbefore
      refine ⟨?_, hwaited⟩
      have hnot : s.finds x e = false := by
        cases e with
        | go a =>
          have hne : s.root.procs x ≠ .tryLock := by
            intro heq
            rw [heq] at hwaited
            exact nomatch hwaited
          simp [finds, hne]
        | _ => rfl
      rw [hnot] at hlost
      exact hlost
    | inr hcame =>
      obtain ⟨a, rfl, hspawning | ⟨htry, hlock⟩⟩ := hcame
      · simp [admits, hspawning] at hadmits
      · obtain ⟨q, hq⟩ := Option.ne_none_iff_exists'.mp hlock
        refine hothers q ?_ (.inl (hsteady.1 (.inl htry) q hq))
        intro heq
        have hholds := h.wellFormed.lock q hq
        rw [heq, htry] at hholds
        exact nomatch hholds
  · apply hbefore
    dsimp only at hwaits hlost
    rw [Processes.after_of_ne _ _ _ hxp] at hwaits
    refine ⟨?_, hwaits⟩
    split at hlost
    · rwa [Function.update_of_ne hxp] at hlost
    · exact hlost

/-- An event with the condition keeps the invariant. -/
private theorem Inv.step {ev : StarterEvent} (h : s.Inv) (hsteady : s.Steady ev)
    (hstep : s.step ev = some s') : s'.Inv := by
  -- A process moves; a starter's spawn gives it a child; or the child dies before its start.
  cases ev with
  | act p e =>
    simp only [Starters.step] at hstep
    split at hstep
    · rename_i hadmits
      obtain ⟨S, hS, rfl⟩ := Option.map_eq_some_iff.mp hstep
      obtain ⟨os', l', hmove, rfl⟩ := Processes.step_eq_some hS
      exact ⟨wellFormed_step h.wellFormed hmove, h.listened_after hmove,
        h.attended_after hsteady hadmits hmove⟩
    · exact nomatch hstep
  | spawn p a c =>
    simp only [Starters.step] at hstep
    split at hstep
    · rename_i hspawn
      obtain ⟨hspawning, hunstarted, -⟩ := hspawn
      obtain ⟨S, hS, rfl⟩ := Option.map_eq_some_iff.mp hstep
      obtain ⟨os', l', hmove, rfl⟩ := Processes.step_eq_some hS
      -- The child is not the starter, so it is still to be started.
      refine ⟨wellFormed_step h.wellFormed hmove, h.listened_after hmove,
        fun x _ => ⟨c, .inr ⟨?_, Function.update_self c true s.child⟩⟩⟩
      have hcp : c ≠ p := by
        intro heq
        rw [heq, hspawning] at hunstarted
        exact nomatch hunstarted
      show (s.root.after p os' l').procs c = .unstarted
      rw [Processes.after_of_ne _ _ _ hcp]
      exact hunstarted
    · exact nomatch hstep
  | stillborn c =>
    simp only [Starters.step] at hstep
    split at hstep
    · cases hstep
      refine ⟨h.wellFormed, h.listened, fun x hx => ?_⟩
      cases hsteady with
      -- Nobody waits for it, or somebody else is bringing a daemon up.
      | inl hnobody => exact absurd hx (hnobody x)
      | inr hother =>
        obtain ⟨q, hqc, hq⟩ := hother
        apply Exists.intro q
        cases hq with
        | inl hbrings => exact .inl hbrings
        | inr hchild => exact .inr ⟨hchild.1, (Function.update_of_ne hqc _ _).trans hchild.2⟩
    · exact nomatch hstep

/-- Every steady run keeps it. -/
theorem Run.inv {leftover : Option Inode} (hrun : Run Steady leftover s) : s.Inv := by
  induction hrun with
  | boot => exact .boot leftover
  | step _ hok hstep ih => exact ih.step hok hstep

end Steps

/-- The events one after the other. -/
def exec (s : Starters) : List StarterEvent → Option Starters
  | [] => some s
  | ev :: events => (s.step ev).bind fun s' => s'.exec events

/-- An execution extends a run. -/
private theorem Run.of_exec {leftover : Option Inode} {s s' : Starters} {events : List StarterEvent}
    (hrun : Run (fun _ _ => True) leftover s) (hexec : s.exec events = some s') :
    Run (fun _ _ => True) leftover s' := by
  induction events generalizing s with
  | nil =>
    cases hexec
    exact hrun
  | cons ev events ih =>
    obtain ⟨s₁, hstep, hrest⟩ := Option.bind_eq_some_iff.mp hexec
    exact ih (.step hrun trivial hstep) hrest

/-- A process starts. -/
private theorem Run.start {leftover : Option Inode} {s s' : Starters} (hrun : Run Steady leftover s)
    (p : Pid) (cmd : Command) (hstep : s.step (.act p (.start cmd)) = some s') :
    Run Steady leftover s' := by
  apply hrun.step _ hstep
  intro hends
  exact nomatch hends

/-- A caller goes on, with the lock free or held by a process that brings a daemon. -/
private theorem Run.caller {leftover : Option Inode} {s s' : Starters}
    (hrun : Run Steady leftover s)
    (p : Pid) (hplace : ((s.root.procs p).waits || s.root.procs p == .tryLock
      || s.root.procs p matches .probing .ensure _) = true)
    (hlock : s.root.shared.lock.all (fun q => (s.root.procs q).brings) = true)
    (hstep : s.step (.act p (.go .failed)) = some s') : Run Steady leftover s' := by
  apply hrun.step _ hstep
  refine ⟨fun _ q hq => ?_, fun hself => ?_, fun hbinding => ?_⟩
  · rw [hq] at hlock
    exact hlock
  · rw [hself] at hplace
    exact absurd hplace (by decide)
  · rw [hbinding] at hplace
    exact absurd hplace (by decide)

end Starters

/-- In a run in which nobody meets a daemon in its teardown, and none that is waited for goes, a
    caller that waits because it lost the lock waits for a process that brings a daemon. -/
theorem loser_waits_for_starter (leftover : Option Inode) {s : Starters}
    (hrun : Starters.Run Starters.Steady leftover s) : s.Attended :=
  hrun.inv.attended

/-- Of two callers the second loses the lock, and the first is about to spawn. -/
theorem loser_waits_for_starter_race :
    ∃ s : Starters, s.Waiting 1 ∧ s.root.procs 0 = .dropLock ∧ s.Attended := by
  have hrun : ∃ s : Starters, Starters.Run Starters.Steady none s ∧ s.Waiting 1 ∧
      s.root.procs 0 = .dropLock := by
    have h₁ := Starters.Run.start (.boot : Starters.Run _ none _) 0 .serve rfl
    have h₂ := h₁.caller 0 rfl rfl rfl
    have h₃ := h₂.caller 0 rfl rfl rfl
    have h₄ := h₃.start 1 .serve rfl
    have h₅ := h₄.caller 1 rfl rfl rfl
    have h₆ := h₅.caller 1 rfl rfl rfl
    exact ⟨_, h₆, ⟨rfl, rfl⟩, rfl⟩
  obtain ⟨s, hrun, hwaiting, hfirst⟩ := hrun
  exact ⟨s, hwaiting, hfirst, loser_waits_for_starter none hrun⟩

/-! ## A caller that meets a daemon in its teardown -/

/-- A daemon starts, runs until it is idle, and has removed its socket; a caller finds no daemon
    and the lock held. -/
def teardownEvents : List StarterEvent :=
  [.act 0 (.start .daemon), .act 0 (.go .failed), .act 0 (.go .failed), .act 0 (.go .failed),
   .act 0 (.go .failed), .act 0 (.go .failed), .act 0 (.go .failed), .act 0 (.finish .idle),
   .act 0 (.go .failed), .act 0 (.go .failed), .act 0 (.go .failed),
   .act 1 (.start .serve), .act 1 (.go .failed), .act 1 (.go .failed)]

/-- The loser waits in vain: the daemon only has the lock to release. -/
theorem loser_waits_for_teardown : ∃ s,
    Starters.Run (fun _ _ => True) none s ∧ s.root.procs 0 = .releasing ∧ s.Waiting 1 ∧
      ¬ s.Attended := by
  have hexec : ∃ s, (Starters.boot none).exec teardownEvents = some s ∧
      s.root.procs 0 = .releasing ∧ s.Waiting 1 ∧
      ∀ q, (s.root.procs q).brings = false ∧ s.child q = false := by
    refine ⟨_, rfl, rfl, ⟨rfl, rfl⟩, fun q => ?_⟩
    match q with
    | 0 => exact ⟨rfl, rfl⟩
    | 1 => exact ⟨rfl, rfl⟩
    | q + 2 => exact ⟨rfl, rfl⟩
  obtain ⟨s, hexec, hreleasing, hwaiting, hnobody⟩ := hexec
  refine ⟨s, .of_exec .boot hexec, hreleasing, hwaiting, fun hattended => ?_⟩
  obtain ⟨q, hq⟩ := hattended 1 hwaiting
  cases hq with
  | inl hbrings => exact nomatch (hnobody q).1.symm.trans hbrings
  | inr hchild => exact nomatch (hnobody q).2.symm.trans hchild.2

end Semnav.Daemon
