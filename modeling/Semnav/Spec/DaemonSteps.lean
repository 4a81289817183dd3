import Semnav.Daemon.Lifecycle

/-!
# What one step of a process does

An inversion lemma for the steps of `serve`, `daemon` and `daemon stop` (`act_took`): which can
change the path, the lock or the listeners, and how.  From it what holds of every reachable
state.

## Key results

- `act_took`: the steps by what they do to the path, the lock and the listeners
- `reachable_wellFormed`: the invariant of the processes of a root
-/

namespace Semnav.Daemon

open Semnav.ForStd

/-! ## What a step does -/

/-- The path, the lock and the listeners are as before, and only `p` has written to the database. -/
structure Os.Same (p : Pid) (os os' : Os) : Prop where
  sock : os'.sock = os.sock
  lock : os'.lock = os.lock
  listeners : os'.listeners = os.listeners
  nextInode : os'.nextInode = os.nextInode
  writes : ∀ q, q ≠ p → os'.writes q = os.writes q

/-- Nothing has happened. -/
theorem Os.Same.refl (p : Pid) (os : Os) : Os.Same p os os :=
  ⟨rfl, rfl, rfl, rfl, fun _ _ => rfl⟩

/-- The process has taken `daemon.lock` and not released it. -/
def Proc.holdsLock : Proc → Bool
  | .dropLock | .clearing | .binding | .listening _ | .openingDb _ | .abandoning _ | .closing _
  | .running _ | .stoppingWatcher | .stoppingServers | .removingSock | .releasing => true
  | _ => false

/-- None of the places that the invariants speak of. -/
def Proc.isCalm : Proc → Bool
  | .unstarted | .probing _ .removing | .listening _ | .exited _ => false
  | _ => true

/-- The `daemon stop` process judges the daemon stopped: it finds no file, or its connect is not
    answered in time, or it has just removed the file. -/
def GivesUp (d : Pid) (e : Action) (os : Os) (l : Proc) : Prop :=
  (∃ a, e = .go a) ∧ ∃ n pc, l = .probing (.stopPoll d n) pc ∧
    (pc = .testing ∧ os.sock = none ∨ pc = .connecting ∧ e = .go .timedOut ∨ pc = .removing)

/-- What a step can do to the path, the lock and the listeners, before the kernel cleans up. -/
inductive Took (p : Pid) (e : Action) (os : Os) (l : Proc) (os' : Os) (l' : Proc) : Prop where
  | quiet (same : Os.Same p os os') (holds : l'.holdsLock = l.holdsLock) (calm : l'.isCalm)
  | refused (caller : Caller) (hl : l = .probing caller .connecting) (he : e = .go .failed)
      (hl' : l' = .probing caller .removing) (hos : os' = os)
  | removed (hos : os' = os.removeSock) (holds : l'.holdsLock = l.holdsLock) (calm : l'.isCalm)
  | locked (free : os.lock = none) (hos : os' = { os with lock := some p })
      (holds : l'.holdsLock) (calm : l'.isCalm)
  | unlocked (held : l.holdsLock) (hos : os' = { os with lock := none })
      (holds : l'.holdsLock = false) (calm : l'.isCalm)
  | bound (hl : l = .binding) (hl' : l' = .listening os.nextInode)
      (hos : os' = { os with sock := some os.nextInode, nextInode := os.nextInode + 1 })
  | listened (i : Inode) (a : Attempt) (hl : l = .listening i) (he : e = .go a)
      (hl' : l' = .openingDb i)
      (hos : os' = { os with listeners := Function.update os.listeners i (some p) })
  | closed (hos : os' = os.closeListener p) (holds : l'.holdsLock = l.holdsLock)
      (calm : l'.isCalm)
  | exits (how : Exit) (hl' : l' = .exited how)
      (judged : ∀ d, how = .stopped d → GivesUp d e os l)
      (hos : Os.Same p os os' ∨ os' = os.removeSock ∨ os' = os.closeListener p)

variable {p : Pid} {e : Action} {os os' : Os} {l l' : Proc} {a : Attempt}

/-- A step that changes neither the path, nor the lock, nor the listeners. -/
theorem Took.stays (holds : l'.holdsLock = l.holdsLock) (calm : l'.isCalm) :
    Took p e os l os l' := .quiet (.refl p os) holds calm

/-- A failure, or an exit that has nothing to do with a daemon being stopped. -/
theorem Took.leaves {how : Exit} (hhow : ∀ d, how ≠ .stopped d) :
    Took p e os l os (.exited how) :=
  .exits how rfl (fun d hd => absurd hd (hhow d)) (.inl (.refl p os))

/-- The caller goes on with the answer, and exits only where it says so. -/
private theorem resume_took {caller : Caller} {pc : ProbePc} {answer : Liveness}
    (hos : Os.Same p os os' ∨ os' = os.removeSock)
    (hgives : ∀ d n, caller = .stopPoll d n → answer = .notRunning →
      GivesUp d e os (.probing caller pc)) :
    Took p e os (.probing caller pc) os' (caller.resume answer) := by
  -- The caller goes on, or exits; either way only the socket file may have gone.
  have hgo : ∀ l', l'.holdsLock = false → l'.isCalm →
      Took p e os (.probing caller pc) os' l' := by
    intro l' hholds hcalm
    cases hos with
    | inl hsame => exact .quiet hsame hholds hcalm
    | inr hremoved => exact .removed hremoved hholds hcalm
  have hexit : ∀ how, (∀ d, how = .stopped d → GivesUp d e os (.probing caller pc)) →
      Took p e os (.probing caller pc) os' (.exited how) := by
    intro how hjudged
    apply Took.exits how rfl hjudged
    cases hos with
    | inl hsame => exact .inl hsame
    | inr hremoved => exact .inr (.inl hremoved)
  cases caller <;> cases answer <;> simp only [Caller.resume]
  -- Only a poll of `daemon stop` gives up on what the probe says.
  case stopPoll.notRunning d n =>
    apply hexit
    intro d' hd'
    cases hd'
    exact hgives d n rfl rfl
  all_goals first
    | exact hgo _ rfl rfl
    | exact hexit _ (fun d hd => nomatch hd)

/-- A probe may remove the path. -/
private theorem probe_took {caller : Caller} {pc : ProbePc} {res : ProbePc ⊕ Liveness}
    (h : probeLiveness os a pc = some (os', res)) :
    Took p (.go a) os (.probing caller pc) os' (caller.follow res) := by
  cases pc with
  | testing =>
    simp only [probeLiveness] at h
    split at h
    -- No file: not running, with nothing touched.  A file: connect to it.
    next =>
      cases h
      exact .stays rfl rfl
    next hsock =>
      cases h
      apply resume_took (.inl (.refl p os))
      intro d n hcaller _
      exact ⟨⟨_, rfl⟩, n, .testing, congrArg (Proc.probing · _) hcaller, .inl ⟨rfl, by simpa using hsock⟩⟩
  | connecting =>
    simp only [probeLiveness] at h
    split at h
    next =>
      -- A refused or failed connection leads to the removal, the other two outcomes end the probe.
      cases a with
      | accepted =>
        cases h
        exact resume_took (.inl (.refl p os)) fun d n _ hanswer => nomatch hanswer
      | failed =>
        cases h
        exact .refused caller rfl rfl rfl rfl
      | timedOut =>
        cases h
        apply resume_took (.inl (.refl p os))
        intro d n hcaller _
        exact ⟨⟨_, rfl⟩, n, .connecting, congrArg (Proc.probing · _) hcaller, .inr (.inl ⟨rfl, rfl⟩)⟩
    next => exact nomatch h
  | removing =>
    -- The file is removed without the lock: the step that may remove another daemon's socket.
    simp only [probeLiveness] at h
    cases h
    apply resume_took (.inr rfl)
    intro d n hcaller _
    exact ⟨⟨_, rfl⟩, n, .removing, congrArg (Proc.probing · _) hcaller, .inr (.inr rfl)⟩

/-- Connecting to a daemon changes nothing but by its probes. -/
private theorem ensureAndConnect_took (h : ensureAndConnect os p a l = some (os', l')) :
    Took p (.go a) os l os' l' := by
  cases l <;> simp only [ensureAndConnect] at h <;> try contradiction
  case tryLock =>
    -- A starter that finds the lock taken goes on without it.
    cases hlock : os.lock with
    | none =>
      rw [hlock] at h
      cases h
      exact .locked hlock rfl rfl rfl
    | some q =>
      rw [hlock] at h
      cases h
      exact .stays rfl rfl
  case dropLock =>
    cases h
    exact .unlocked rfl rfl rfl rfl
  case spawning | pausing =>
    cases h
    exact .stays rfl rfl
  case attaching =>
    split at h
    next =>
      cases h
      -- Whatever it attaches with, it exits, and not as a `stop`.
      apply Took.leaves
      intro d
      split <;> exact nofun
    next => exact nomatch h

/-- A daemon takes the lock, binds, listens and removes the path. -/
private theorem runDaemon_took (h : runDaemon os p l = some (os', l')) :
    Took p (.go a) os l os' l' := by
  cases l <;> simp only [runDaemon] at h <;> try contradiction
  case acquiring =>
    -- The daemon itself fails where a starter waits: it does not wait for the lock.
    cases hlock : os.lock with
    | none =>
      rw [hlock] at h
      cases h
      exact .locked hlock rfl rfl rfl
    | some q =>
      rw [hlock] at h
      cases h
      exact .leaves nofun
  case binding =>
    -- A socket file in the way is an error of `bind`.
    cases hsock : os.sock with
    | none =>
      rw [hsock] at h
      cases h
      exact .bound rfl rfl rfl
    | some i =>
      rw [hsock] at h
      cases h
      exact .leaves nofun
  case listening i =>
    cases h
    exact .listened i a rfl rfl rfl rfl
  -- The socket file goes in three places, not always with the lock held.
  case clearing | abandoning | removingSock =>
    cases h
    exact .removed rfl rfl rfl
  case closing =>
    -- The listener is closed on a failure as well.
    cases h
    exact .exits .failure rfl nofun (.inr (.inr rfl))
  case releasing =>
    cases h
    exact .unlocked rfl rfl rfl rfl
  case draining =>
    cases h
    exact .leaves nofun
  case openingDb | stoppingWatcher | stoppingServers =>
    cases h
    exact .stays rfl rfl

/-- `daemon stop` changes nothing but by its probes. -/
private theorem runDaemonStop_took (h : runDaemonStop os p a l = some (os', l')) :
    Took p (.go a) os l os' l' := by
  cases l <;> simp only [runDaemonStop] at h <;> try contradiction
  case contacting =>
    -- Without an answer there is nothing to stop.
    split at h
    next =>
      cases h
      exact .quiet ⟨rfl, rfl, rfl, rfl, fun _ _ => rfl⟩ rfl rfl
    next =>
      cases h
      exact .leaves nofun
    next => exact nomatch h
  case sending d =>
    split at h
    next =>
      cases h
      exact .quiet ⟨rfl, rfl, rfl, rfl, fun _ _ => rfl⟩ rfl rfl
    next =>
      cases h
      exact .leaves nofun
  case awaiting d =>
    split at h
    next =>
      -- It waits for the daemon's answer, or for its connection to end.
      split at h
      next =>
        cases h
        exact .stays rfl rfl
      next => exact nomatch h
    next =>
      cases h
      exact .stays rfl rfl
  case sleeping d n =>
    -- A poll is made while some are left; then `stop` gives up.
    split at h
    next =>
      cases h
      exact .stays rfl rfl
    next =>
      cases h
      exact .leaves nofun

/-- A process goes on. -/
private theorem goOn_took (h : goOn os p a l = some (os', l')) : Took p (.go a) os l os' l' := by
  unfold goOn at h
  split at h
  next caller pc =>
    obtain ⟨⟨os₁, res⟩, hprobe, heq⟩ := Option.map_eq_some_iff.mp h
    cases heq
    exact probe_took hprobe
  next =>
    cases Option.or_eq_some_iff.mp h with
    | inl h => exact ensureAndConnect_took h
    | inr h =>
      cases Option.or_eq_some_iff.mp h.2 with
      | inl h => exact runDaemon_took h
      | inr h => exact runDaemonStop_took h.2

/-- A process fails. -/
private theorem failStep_took (h : failStep os l = some (os', l')) : Took p .fail os l os' l' := by
  cases l <;> simp only [failStep] at h <;> try contradiction
  case openingDb =>
    cases h
    exact .stays rfl rfl
  all_goals
    cases h
    exact .leaves nofun

/-- An answer to a client leaves the path, the lock and the listeners. -/
private theorem serveLink_same {client : Pid} {may : StopLink → Bool} {upd : StopLink → StopLink}
    (h : serveLink os p client may upd = some os') : Os.Same p os os' := by
  unfold serveLink at h
  split at h
  next =>
    split at h
    next =>
      cases h
      exact ⟨rfl, rfl, rfl, rfl, fun _ _ => rfl⟩
    next => exact nomatch h
  next => exact nomatch h

/-- A process with the database open is past its start. -/
private theorem isCalm_of_hasDb (h : l.hasDb = true) : l.isCalm := by
  cases l <;> first | rfl | exact nomatch h

/-- A process acts. -/
private theorem act_took (h : act p e os l = some (os', l')) : Took p e os l os' l' := by
  -- The events of a connection change its link only, never the lock or the socket.
  cases e with
  | start cmd =>
    simp only [act] at h
    split at h
    next hl =>
      subst hl
      cases h
      cases cmd <;> exact .stays rfl rfl
    next => exact nomatch h
  | go a => exact goOn_took h
  | fail => exact failStep_took h
  | crash =>
    simp only [act] at h
    split at h
    next =>
      cases h
      exact .leaves nofun
    next => exact nomatch h
  | accept client =>
    simp only [act] at h
    split at h
    -- Only a daemon that listens accepts,
    next =>
      obtain ⟨os₁, hserve, heq⟩ := Option.map_eq_some_iff.mp h
      cases heq
      exact .quiet (serveLink_same hserve) rfl rfl
    next => exact nomatch h
  | forward client =>
    simp only [act] at h
    split at h
    -- only one with the database open forwards a request
    next hdb =>
      obtain ⟨os₁, hserve, heq⟩ := Option.map_eq_some_iff.mp h
      cases heq
      obtain ⟨hsock, hlock, hlisteners, hnext, hwrites⟩ := serveLink_same hserve
      exact .quiet ⟨hsock, hlock, hlisteners, hnext, hwrites⟩ rfl (isCalm_of_hasDb hdb)
    next => exact nomatch h
  | answer client =>
    simp only [act] at h
    split at h
    -- or answers one.
    next hdb =>
      obtain ⟨os₁, hserve, heq⟩ := Option.map_eq_some_iff.mp h
      cases heq
      exact .quiet (serveLink_same hserve) rfl (isCalm_of_hasDb hdb)
    next => exact nomatch h
  | finish reason =>
    simp only [act] at h
    split at h
    next =>
      -- The loop ends with a reason that its state allows.
      split at h
      next =>
        cases h
        exact .closed rfl rfl rfl
      next => exact nomatch h
    next => exact nomatch h
  | write =>
    simp only [act] at h
    split at h
    next hdb =>
      cases h
      exact .quiet ⟨rfl, rfl, rfl, rfl, fun q hq => Function.update_of_ne hq _ _⟩ rfl
        (isCalm_of_hasDb hdb)
    next => exact nomatch h

/-- A process that took a step settles, if it has ended. -/
theorem move_took (h : move p e os l = some (os', l')) :
    ∃ os₁, Took p e os l os₁ l' ∧ os' = (settle p (os₁, l')).1 := by
  obtain ⟨⟨os₁, l₁⟩, hact, hsettle⟩ := Option.map_eq_some_iff.mp h
  have hl : l₁ = l' := by
    rw [show l' = (settle p (os₁, l₁)).2 from (congrArg Prod.snd hsettle).symm]
    cases l₁ <;> rfl
  subst hl
  exact ⟨os₁, act_took hact, (congrArg Prod.fst hsettle).symm⟩

/-- A process that has exited takes no further step. -/
theorem move_exited (how : Exit) : move p e os (.exited how) = none := by
  cases e <;> rfl

/-! ## What the kernel cleans up -/

/-- The other listeners stay. -/
private theorem Os.closeListener_listeners {i : Inode} {d : Pid}
    (h : (os.closeListener p).listeners i = some d) : os.listeners i = some d ∧ d ≠ p := by
  simp only [Os.closeListener] at h
  split at h
  next => exact nomatch h
  next hne => exact ⟨h, fun hd => hne (h.trans (congrArg some hd))⟩

/-- Settling leaves the socket's path. -/
@[simp] theorem settle_sock : (settle p (os, l)).1.sock = os.sock := by
  cases l <;> rfl

/-- Settling leaves the inodes. -/
@[simp] theorem settle_nextInode : (settle p (os, l)).1.nextInode = os.nextInode := by
  cases l <;> rfl

/-- Settling leaves the writes to the database. -/
@[simp] theorem settle_writes : (settle p (os, l)).1.writes = os.writes := by
  cases l <;> rfl

/-- Settling brings no listener. -/
private theorem settle_listeners {i : Inode} {d : Pid}
    (h : (settle p (os, l)).1.listeners i = some d) : os.listeners i = some d := by
  cases l with
  | exited how => exact (Os.closeListener_listeners h).1
  | _ => exact h

/-- Settling brings no lock. -/
private theorem settle_lock {q : Pid} (h : (settle p (os, l)).1.lock = some q) :
    os.lock = some q := by
  cases l with
  | exited how =>
    simp only [settle, Os.exit] at h
    split at h
    next => exact nomatch h
    next => exact h
  | _ => exact h

/-- A process that has ended holds no lock. -/
private theorem settle_exited_lock {how : Exit} {q : Pid}
    (h : (settle p (os, .exited how)).1.lock = some q) : q ≠ p := by
  simp only [settle, Os.exit] at h
  split at h
  next => exact nomatch h
  next hne => exact fun hq => hne (h.trans (congrArg some hq))

/-- A process that has ended has no listener. -/
private theorem settle_exited_listeners {how : Exit} {i : Inode} {d : Pid}
    (h : (settle p (os, .exited how)).1.listeners i = some d) : d ≠ p :=
  (Os.closeListener_listeners h).2

/-! ## Sockets and the lock -/

/-- Nobody listens at the path if nobody listens at its inode. -/
theorem Os.listener_eq_none : os.listener = none ↔
    ∀ i, os.sock = some i → os.listeners i = none := Option.bind_eq_none_iff

/-- What listens after a step listened before, or has just begun to. -/
theorem move_listeners (h : move p e os l = some (os', l')) {i : Inode} {d : Pid}
    (hd : os'.listeners i = some d) :
    os.listeners i = some d ∨ d = p ∧ l' = .openingDb i ∧ l = .listening i ∧ ∃ a, e = .go a := by
  -- Only `listening` makes a listener; closing and exiting drop some.
  obtain ⟨os₁, htook, rfl⟩ := move_took h
  have hd₁ := settle_listeners hd
  cases htook with
  | quiet same => exact .inl (same.listeners ▸ hd₁)
  | refused _ _ _ _ hos | removed hos | locked _ hos | unlocked _ hos | bound _ _ hos =>
    subst hos
    exact .inl hd₁
  | listened j a hl he hl' hos =>
    subst hos
    -- The new listener is the process itself; the others stay.
    by_cases hij : i = j
    · subst hij
      have hself : some p = some d := (Function.update_self i (some p) os.listeners).symm.trans hd₁
      exact .inr ⟨(Option.some.inj hself).symm, hl', hl, a, he⟩
    · exact .inl ((Function.update_of_ne hij (some p) os.listeners).symm.trans hd₁)
  | closed hos =>
    subst hos
    exact .inl (Os.closeListener_listeners hd₁).1
  | exits how hl' judged hos =>
    cases hos with
    | inl same => exact .inl (same.listeners ▸ hd₁)
    | inr hos =>
      cases hos with
      | inl hos =>
        subst hos
        exact .inl hd₁
      | inr hos =>
        subst hos
        exact .inl (Os.closeListener_listeners hd₁).1

/-- The path names what it named before, or nothing, or a socket that is new. -/
theorem move_sock (h : move p e os l = some (os', l')) :
    os'.sock = os.sock ∨ os'.sock = none ∨ os'.sock = some os.nextInode := by
  -- Who removes the file leaves none, and who binds makes a new one.
  obtain ⟨os₁, htook, rfl⟩ := move_took h
  rw [settle_sock]
  cases htook with
  | quiet same => exact .inl same.sock
  | refused _ _ _ _ hos | locked _ hos | unlocked _ hos | listened _ _ _ _ _ hos | closed hos =>
    subst hos
    exact .inl rfl
  | removed hos =>
    subst hos
    exact .inr (.inl rfl)
  | bound _ _ hos =>
    subst hos
    exact .inr (.inr rfl)
  | exits how hl' judged hos =>
    cases hos with
    | inl same => exact .inl same.sock
    | inr hos =>
      cases hos with
      | inl hos =>
        subst hos
        exact .inr (.inl rfl)
      | inr hos =>
        subst hos
        exact .inl rfl

/-- Inodes are given out once. -/
private theorem move_nextInode (h : move p e os l = some (os', l')) :
    os.nextInode ≤ os'.nextInode := by
  obtain ⟨os₁, htook, rfl⟩ := move_took h
  rw [settle_nextInode]
  cases htook with
  | quiet same => exact Nat.le_of_eq same.nextInode.symm
  | refused _ _ _ _ hos | locked _ hos | unlocked _ hos | listened _ _ _ _ _ hos | closed hos
  | removed hos =>
    subst hos
    exact Nat.le_refl _
  | bound _ _ hos =>
    subst hos
    exact Nat.le_succ os.nextInode
  | exits how hl' judged hos =>
    cases hos with
    | inl same => exact Nat.le_of_eq same.nextInode.symm
    | inr hos => cases hos <;> (subst os₁; exact Nat.le_refl _)

/-- A process that is about to listen has just made its socket. -/
private theorem move_listening (h : move p e os l = some (os', l')) {i : Inode}
    (hl' : l' = .listening i) :
    i < os'.nextInode := by
  obtain ⟨os₁, htook, rfl⟩ := move_took h
  rw [settle_nextInode]
  subst hl'
  cases htook with
  | bound _ hto hos =>
    cases hto
    subst hos
    exact Nat.lt_succ_self _
  | quiet _ _ hcalm | removed _ _ hcalm | locked _ _ _ hcalm | unlocked _ _ _ hcalm
  | closed _ _ hcalm => exact nomatch hcalm
  | refused _ _ _ hto | listened _ _ _ _ hto | exits _ hto => exact nomatch hto

/-- A process that listens after its step is alive. -/
theorem move_alive (h : move p e os l = some (os', l')) {i : Inode}
    (hp : os'.listeners i = some p) : l'.isAlive := by
  obtain ⟨os₁, htook, rfl⟩ := move_took h
  have hcalm_alive : l'.isCalm → l'.isAlive := by
    intro hcalm
    cases l' <;> first | rfl | exact nomatch hcalm
  cases htook with
  | quiet _ _ hcalm | removed _ _ hcalm | locked _ _ _ hcalm | unlocked _ _ _ hcalm
  | closed _ _ hcalm => exact hcalm_alive hcalm
  | refused _ _ _ hto | bound _ hto | listened _ _ _ _ hto =>
    subst hto
    rfl
  | exits how hto =>
    subst hto
    exact absurd rfl (settle_exited_listeners hp)

/-- The lock of another process was its lock before. -/
private theorem move_lock_other (h : move p e os l = some (os', l')) {q : Pid} (hqp : q ≠ p)
    (hq : os'.lock = some q) : os.lock = some q := by
  obtain ⟨os₁, htook, rfl⟩ := move_took h
  have hq₁ := settle_lock hq
  -- Only the step that locks or unlocks writes the lock: locking would give it to `p`.
  cases htook with
  | quiet same => exact same.lock ▸ hq₁
  | refused _ _ _ _ hos | removed hos | bound _ _ hos | listened _ _ _ _ _ hos | closed hos =>
    subst hos
    exact hq₁
  | locked _ hos =>
    subst hos
    exact absurd (Option.some.inj hq₁).symm hqp
  | unlocked _ hos =>
    subst hos
    exact nomatch hq₁
  | exits how hl' judged hos =>
    cases hos with
    | inl same => exact same.lock ▸ hq₁
    | inr hos => cases hos <;> (subst os₁; exact hq₁)

/-- A process whose lock it is after its step is at a place where it holds the lock. -/
private theorem move_lock_self (h : move p e os l = some (os', l'))
    (hl : os.lock = some p → l.holdsLock) (hp : os'.lock = some p) : l'.holdsLock := by
  -- The lock is let go where the step says so, or by the exit of its holder.
  obtain ⟨os₁, htook, rfl⟩ := move_took h
  have hp₁ := settle_lock hp
  cases htook with
  | quiet same holds => exact holds ▸ hl (same.lock ▸ hp₁)
  -- A probe holds no lock.
  | refused caller hfrom _ hto hos =>
    subst hos hfrom
    exact nomatch hl hp₁
  | removed hos holds | closed hos holds =>
    subst hos
    exact holds ▸ hl hp₁
  | locked _ _ holds => exact holds
  | unlocked _ hos =>
    subst hos
    exact nomatch hp₁
  | bound _ hto | listened _ _ _ _ hto =>
    subst hto
    rfl
  | exits how hto =>
    -- The locks of a process that exits are gone with it.
    subst hto
    exact absurd rfl (settle_exited_lock hp)

/-- A probe that is about to remove the file has just failed to connect. -/
theorem move_removing (h : move p e os l = some (os', l')) {caller : Caller}
    (hl' : l' = .probing caller .removing) :
    l = .probing caller .connecting ∧ e = .go .failed ∧ os' = os := by
  obtain ⟨os₁, htook, rfl⟩ := move_took h
  subst hl'
  cases htook with
  | refused c hfrom hby hto hos =>
    cases hto
    exact ⟨hfrom, hby, hos⟩
  | quiet _ _ hcalm | removed _ _ hcalm | locked _ _ _ hcalm | unlocked _ _ _ hcalm
  | closed _ _ hcalm => exact nomatch hcalm
  | bound _ hto | listened _ _ _ _ hto | exits _ hto => exact nomatch hto

/-- A caller that has stopped a daemon gave up on it. -/
theorem move_stopped (h : move p e os l = some (os', l')) {d : Pid}
    (hl' : l' = .exited (.stopped d)) : GivesUp d e os l := by
  obtain ⟨os₁, htook, -⟩ := move_took h
  subst hl'
  cases htook with
  | exits how hto judged =>
    cases hto
    exact judged d rfl
  | quiet _ _ hcalm | removed _ _ hcalm | locked _ _ _ hcalm | unlocked _ _ _ hcalm
  | closed _ _ hcalm => exact nomatch hcalm
  | refused _ _ _ hto | bound _ hto | listened _ _ _ _ hto => exact nomatch hto

/-- A step writes to the database for its own process only. -/
theorem move_writes (h : move p e os l = some (os', l')) {q : Pid} (hqp : q ≠ p) :
    os'.writes q = os.writes q := by
  obtain ⟨os₁, htook, rfl⟩ := move_took h
  rw [settle_writes]
  cases htook with
  | quiet same => exact same.writes q hqp
  | refused _ _ _ _ hos | locked _ hos | unlocked _ hos | listened _ _ _ _ _ hos | closed hos
  | removed hos | bound _ _ hos =>
    subst hos
    rfl
  | exits how hl' judged hos =>
    cases hos with
    | inl same => exact same.writes q hqp
    | inr hos => cases hos <;> (subst os₁; rfl)

/-! ## The invariant of all processes -/

/-- What holds of the processes of a root. -/
structure Root.WellFormed (S : Root) : Prop where
  /-- A socket that is not made yet has no listener. -/
  fresh : ∀ i, S.shared.nextInode ≤ i → S.shared.listeners i = none
  bound : ∀ q i, S.procs q = .listening i → i < S.shared.nextInode
  alive : ∀ q i, S.shared.listeners i = some q → (S.procs q).isAlive
  lock : ∀ q, S.shared.lock = some q → (S.procs q).holdsLock

/-- The invariant holds at the start. -/
theorem wellFormed_boot (leftover : Option Inode) : (Root.boot leftover).WellFormed where
  fresh _ _ := rfl
  bound _ _ hq := nomatch hq
  alive _ _ hq := nomatch hq
  lock _ hq := nomatch hq

/-- Every step keeps it. -/
theorem wellFormed_step {S : Root} (hS : S.WellFormed)
    (h : move p e S.shared (S.procs p) = some (os', l')) : Root.WellFormed (S.after p os' l') where
  fresh i hi := by
    rw [Processes.after_shared] at hi ⊢
    have hold : S.shared.listeners i = none := hS.fresh i (Nat.le_trans (move_nextInode h) hi)
    cases hd : os'.listeners i with
    | none => rfl
    | some d =>
      cases move_listeners h hd with
      | inl hbefore => exact nomatch hold.symm.trans hbefore
      | inr hnow =>
        -- it was `bind` that made the socket, so its number is taken
        have hlt : i < os'.nextInode :=
          Nat.lt_of_lt_of_le (hS.bound p i hnow.2.2.1) (move_nextInode h)
        exact absurd hi (Nat.not_le_of_lt hlt)
  bound q i hq := by
    rw [Processes.after_shared]
    by_cases hqp : q = p
    · subst hqp
      rw [Processes.after_self] at hq
      exact move_listening h hq
    · rw [Processes.after_of_ne S os' l' hqp] at hq
      exact Nat.lt_of_lt_of_le (hS.bound q i hq) (move_nextInode h)
  alive q i hq := by
    rw [Processes.after_shared] at hq
    by_cases hqp : q = p
    · subst hqp
      rw [Processes.after_self]
      exact move_alive h hq
    · rw [Processes.after_of_ne S os' l' hqp]
      cases move_listeners h hq with
      | inl hbefore => exact hS.alive q i hbefore
      | inr hnow => exact absurd hnow.1 hqp
  lock q hq := by
    rw [Processes.after_shared] at hq
    by_cases hqp : q = p
    · subst hqp
      rw [Processes.after_self]
      exact move_lock_self h (hS.lock q) hq
    · rw [Processes.after_of_ne S os' l' hqp]
      exact hS.lock q (move_lock_other h hqp hq)

section Runs

variable {leftover : Option Inode} {ok : Root → Pid → Action → Prop} {events : List (Pid × Action)}
  {S : Root}

/-- Every run keeps the invariant. -/
theorem reachable_wellFormed (hrun : Processes.Runs move ok (Root.boot leftover) events S) :
    S.WellFormed :=
  hrun.invariant (wellFormed_boot leftover) fun _ _ _ _ _ hS _ h => wellFormed_step hS h

end Runs

end Semnav.Daemon
