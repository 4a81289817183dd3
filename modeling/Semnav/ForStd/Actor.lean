import Mathlib.Data.List.Forall2
import Mathlib.Data.List.Nodup
import Semnav.ForStd.Tasks

/-!
# An actor that serves tasks

The state that tasks share may be owned by an actor.  A task sends it a command over a bounded
channel and waits for the reply; the actor takes the commands in the order in which they were sent;
a task may be given up at any time, with its command still in the channel or its reply not taken.
Commands that do not concern the actor are atomic.  To the tasks it looks as if each command were.

## Key results

- `Served.Reaches.refines`: every run with the actor is a run with atomic commands
- `Served.Reaches.waiting`: what is in the channel is what tasks wait for, each once
- `Served.serve_next`: the actor can always take the next command
-/

namespace Semnav.ForStd

universe u v

/-- Where a task is with its next command. -/
inductive Stage (C : Type → Type u) (ε ρ : Type) where
  /-- About to issue it, or at its result. -/
  | ready (x : Prog C ρ)
  /-- It is in the channel; if the task was given up, nobody waits for the reply. -/
  | sent {γ : Type} (c : C γ) (k : γ → Prog C ρ) (dropped : Bool)
  /-- The reply is there. -/
  | answered {γ : Type} (c : C γ) (k : γ → Prog C ρ) (reply : Except ε γ)
  /-- An error ended the task. -/
  | failed
  /-- The task was given up. -/
  | gone

/-- A task: its program, the commands that it has the replies of, and where it is. -/
structure Client (C : Type → Type u) (ε ρ : Type) where
  start : Prog C ρ
  trace : List (Exchange C)
  stage : Stage C ε ρ

/-- The state of the actor, its channel, by the numbers of the tasks whose commands are in it, and
    the tasks. -/
structure Served (C : Type → Type u) (σ : Type v) (ε ρ : Type) where
  state : σ
  queue : List Nat
  tasks : List (Client C ε ρ)

namespace Stage

variable {C : Type → Type u} {ε ρ : Type}

/-- Is the task's command in the channel? -/
def isSent : Stage C ε ρ → Bool
  | .sent _ _ _ => true
  | _ => false

/-- The task is given up. -/
def drop : Stage C ε ρ → Stage C ε ρ
  | .ready _ | .answered _ _ _ | .gone => .gone
  | .sent c k _ => .sent c k true
  | .failed => .failed

/-- The reply is sent, to nobody if the task was given up. -/
def reply {γ : Type} (c : C γ) (k : γ → Prog C ρ) (dropped : Bool) (r : Except ε γ) :
    Stage C ε ρ :=
  if dropped then .gone else .answered c k r

/-- Dropping a receiver leaves a command sent. -/
@[simp] theorem isSent_drop (t : Stage C ε ρ) : t.drop.isSent = t.isSent := by cases t <;> rfl

/-- With the reply the command is no longer in the channel. -/
@[simp] theorem isSent_reply {γ : Type} (c : C γ) (k : γ → Prog C ρ) (dropped : Bool)
    (r : Except ε γ) : (reply c k dropped r).isSent = false := by cases dropped <;> rfl

end Stage

namespace Served

variable {C : Type → Type u} {σ : Type v} {ε ρ : Type}

/-- One step: of the environment, of the starting of a task, of a task or of the actor. -/
inductive Step (h : Handler C σ ε) (env : σ → σ → Prop) (may : Prog C ρ → Prop)
    (via : ∀ γ : Type, C γ → Bool) (capacity : Nat) : Served C σ ε ρ → Served C σ ε ρ → Prop where
  | env {s s' : σ} (queue : List Nat) (tasks : List (Client C ε ρ)) (hs : env s s') :
      Step h env may via capacity ⟨s, queue, tasks⟩ ⟨s', queue, tasks⟩
  | start (s : σ) (queue : List Nat) (tasks : List (Client C ε ρ)) {x : Prog C ρ} (hx : may x) :
      Step h env may via capacity ⟨s, queue, tasks⟩ ⟨s, queue, tasks ++ [⟨x, [], .ready x⟩]⟩
  | direct {s s' : σ} (queue : List Nat) (before after : List (Client C ε ρ)) (x : Prog C ρ)
      (trace : List (Exchange C)) {γ : Type} {c : C γ} (k : γ → Prog C ρ) {b : γ}
      (hvia : via γ c = false) (hc : h c s = (.ok b, s')) :
      Step h env may via capacity ⟨s, queue, before ++ ⟨x, trace, .ready (.op c k)⟩ :: after⟩
        ⟨s', queue, before ++ ⟨x, trace ++ [⟨c, b⟩], .ready (k b)⟩ :: after⟩
  | directFail {s s' : σ} (queue : List Nat) (before after : List (Client C ε ρ)) (x : Prog C ρ)
      (trace : List (Exchange C)) {γ : Type} {c : C γ} (k : γ → Prog C ρ) {e : ε}
      (hvia : via γ c = false) (hc : h c s = (.error e, s')) :
      Step h env may via capacity ⟨s, queue, before ++ ⟨x, trace, .ready (.op c k)⟩ :: after⟩
        ⟨s', queue, before ++ ⟨x, trace, .failed⟩ :: after⟩
  | send (s : σ) (queue : List Nat) (before after : List (Client C ε ρ)) (x : Prog C ρ)
      (trace : List (Exchange C)) {γ : Type} {c : C γ} (k : γ → Prog C ρ) (hvia : via γ c = true)
      (hroom : queue.length < capacity) :
      Step h env may via capacity ⟨s, queue, before ++ ⟨x, trace, .ready (.op c k)⟩ :: after⟩
        ⟨s, queue ++ [before.length], before ++ ⟨x, trace, .sent c k false⟩ :: after⟩
  | serve (s : σ) (queue : List Nat) (before after : List (Client C ε ρ)) (x : Prog C ρ)
      (trace : List (Exchange C)) {γ : Type} (c : C γ) (k : γ → Prog C ρ) (dropped : Bool) :
      Step h env may via capacity
        ⟨s, before.length :: queue, before ++ ⟨x, trace, .sent c k dropped⟩ :: after⟩
        ⟨(h c s).2, queue, before ++ ⟨x, trace, .reply c k dropped (h c s).1⟩ :: after⟩
  | take (s : σ) (queue : List Nat) (before after : List (Client C ε ρ)) (x : Prog C ρ)
      (trace : List (Exchange C)) {γ : Type} (c : C γ) (k : γ → Prog C ρ) (b : γ) :
      Step h env may via capacity ⟨s, queue, before ++ ⟨x, trace, .answered c k (.ok b)⟩ :: after⟩
        ⟨s, queue, before ++ ⟨x, trace ++ [⟨c, b⟩], .ready (k b)⟩ :: after⟩
  | takeError (s : σ) (queue : List Nat) (before after : List (Client C ε ρ)) (x : Prog C ρ)
      (trace : List (Exchange C)) {γ : Type} (c : C γ) (k : γ → Prog C ρ) (e : ε) :
      Step h env may via capacity
        ⟨s, queue, before ++ ⟨x, trace, .answered c k (.error e)⟩ :: after⟩
        ⟨s, queue, before ++ ⟨x, trace, .failed⟩ :: after⟩
  | drop (s : σ) (queue : List Nat) (before after : List (Client C ε ρ)) (t : Client C ε ρ) :
      Step h env may via capacity ⟨s, queue, before ++ t :: after⟩
        ⟨s, queue, before ++ { t with stage := t.stage.drop } :: after⟩

/-- What a run of steps gets to. -/
abbrev Reaches (h : Handler C σ ε) (env : σ → σ → Prop) (may : Prog C ρ → Prop)
    (via : ∀ γ : Type, C γ → Bool) (capacity : Nat) :
    Served C σ ε ρ → Served C σ ε ρ → Prop :=
  Relation.ReflTransGen (Step h env may via capacity)

variable {h : Handler C σ ε} {env : σ → σ → Prop} {may : Prog C ρ → Prop}
  {via : ∀ γ : Type, C γ → Bool} {capacity : Nat}

/-! ## Refinement -/

/-- The task of a system with atomic commands that a task stands for: it is ahead by the reply that
    was not taken yet, and stays where it is if the task was given up. -/
def Stands (t : Client C ε ρ) (a : Task C ρ) : Prop :=
  a.start = t.start ∧
    match t.stage with
    | .ready x => a.trace = t.trace ∧ a.rest = some x
    | .sent c k _ => a.trace = t.trace ∧ a.rest = some (.op c k)
    | .answered c k (.ok b) => a.trace = t.trace ++ [⟨c, b⟩] ∧ a.rest = some (k b)
    | .answered _ _ (.error _) | .failed => a.trace = t.trace ∧ a.rest = none
    | .gone => t.trace <+: a.trace

/-- A client that goes away stands as before. -/
theorem Stands.drop {t : Client C ε ρ} {a : Task C ρ} (hta : Stands t a) :
    Stands { t with stage := t.stage.drop } a := by
  obtain ⟨x, trace, stage⟩ := t
  obtain ⟨hstart, hstage⟩ := hta
  refine ⟨hstart, ?_⟩
  cases stage with
  | ready y =>
    obtain ⟨htrace, -⟩ := hstage
    -- A program still to run had answered nothing: its trace is the whole of the task's.
    exact htrace.symm ▸ List.prefix_refl trace
  | sent c k dropped => exact hstage
  | answered c k r =>
    show trace <+: a.trace
    cases r with
    | ok b =>
      obtain ⟨htrace, -⟩ := hstage
      rw [htrace]
      -- The answered exchange is dropped from the trace, which leaves a prefix of it.
      exact List.prefix_append _ _
    | error e =>
      obtain ⟨htrace, -⟩ := hstage
      exact htrace.symm ▸ List.prefix_refl trace
  | failed => exact hstage
  | gone => exact hstage

/-- The state is the same, and so are the tasks up to the replies under way. -/
structure Refines (S : Served C σ ε ρ) (A : System C σ ρ) : Prop where
  state : A.state = S.state
  tasks : List.Forall₂ Stands S.tasks A.tasks

/-- An entry in the middle of two matched lists. -/
theorem forall₂_middle {α β : Type*} {R : α → β → Prop} {before after : List α} {t : α}
    {bs : List β} (h : List.Forall₂ R (before ++ t :: after) bs) :
    ∃ before' b after', bs = before' ++ b :: after' ∧ List.Forall₂ R before before' ∧ R t b ∧
      List.Forall₂ R after after' := by
  induction before generalizing bs with
  | nil =>
    obtain ⟨b, after', htb, hafter, rfl⟩ := List.forall₂_cons_left_iff.mp h
    exact ⟨[], b, after', rfl, .nil, htb, hafter⟩
  | cons t' before ih =>
    obtain ⟨b', bs, htb', hrest, rfl⟩ := List.forall₂_cons_left_iff.mp h
    obtain ⟨before', b, after', rfl, hbefore, htb, hafter⟩ := ih hrest
    exact ⟨b' :: before', b, after', rfl, .cons htb' hbefore, htb, hafter⟩

/-- A task that moves alone still stands for the same one. -/
theorem Refines.move {s : σ} {queue queue' : List Nat} {before after : List (Client C ε ρ)}
    {t t' : Client C ε ρ} {A : System C σ ρ}
    (hA : Refines ⟨s, queue, before ++ t :: after⟩ A) (ht : ∀ a, Stands t a → Stands t' a) :
    Refines ⟨s, queue', before ++ t' :: after⟩ A := by
  obtain ⟨before', a, after', htasks, hbefore, hta, hafter⟩ := forall₂_middle hA.tasks
  refine ⟨hA.state, ?_⟩
  rw [htasks]
  exact List.rel_append hbefore (.cons (ht a hta) hafter)

/-- A client about to issue a command stands for a task about to. -/
theorem Stands.eq_op {x : Prog C ρ} {trace : List (Exchange C)} {stage : Stage C ε ρ} {γ : Type}
    {c : C γ} {k : γ → Prog C ρ}
    (hstage : stage = .ready (.op c k) ∨ ∃ dropped, stage = .sent c k dropped)
    {a : Task C ρ} (ha : Stands ⟨x, trace, stage⟩ a) : a = ⟨x, trace, some (.op c k)⟩ := by
  obtain ⟨start, trace', rest⟩ := a
  rcases hstage with rfl | ⟨dropped, rfl⟩
  · obtain ⟨rfl, rfl, rfl⟩ := ha
    rfl
  · obtain ⟨rfl, rfl, rfl⟩ := ha
    rfl

section Effect

variable {s s' : σ} {queue queue' : List Nat} {before after : List (Client C ε ρ)} {x : Prog C ρ}
  {trace : List (Exchange C)} {stage : Stage C ε ρ} {t' : Client C ε ρ} {γ : Type} {c : C γ}
  {k : γ → Prog C ρ} {A : System C σ ρ}

/-- The command of a task takes effect: the task that it stands for issues it. -/
theorem Refines.effect {b : γ} (hA : Refines ⟨s, queue, before ++ ⟨x, trace, stage⟩ :: after⟩ A)
    (hstage : stage = .ready (.op c k) ∨ ∃ dropped, stage = .sent c k dropped)
    (hc : h c s = (.ok b, s')) (ht' : Stands t' ⟨x, trace ++ [⟨c, b⟩], some (k b)⟩) :
    ∃ A', System.Step h env may A A' ∧ Refines ⟨s', queue', before ++ t' :: after⟩ A' := by
  obtain ⟨before', a, after', htasks, hbefore, hta, hafter⟩ := forall₂_middle hA.tasks
  obtain rfl := hta.eq_op hstage
  obtain ⟨state, tasks⟩ := A
  obtain rfl : state = s := hA.state
  obtain rfl : tasks = before' ++ ⟨x, trace, some (.op c k)⟩ :: after' := htasks
  refine ⟨_, .reply before' after' x trace k hc, rfl, ?_⟩
  exact List.rel_append hbefore (.cons ht' hafter)

/-- A command that fails is one atomic step too. -/
theorem Refines.effect_error {e : ε}
    (hA : Refines ⟨s, queue, before ++ ⟨x, trace, stage⟩ :: after⟩ A)
    (hstage : stage = .ready (.op c k) ∨ ∃ dropped, stage = .sent c k dropped)
    (hc : h c s = (.error e, s')) (ht' : Stands t' ⟨x, trace, none⟩) :
    ∃ A', System.Step h env may A A' ∧ Refines ⟨s', queue', before ++ t' :: after⟩ A' := by
  obtain ⟨before', a, after', htasks, hbefore, hta, hafter⟩ := forall₂_middle hA.tasks
  obtain rfl := hta.eq_op hstage
  obtain ⟨state, tasks⟩ := A
  obtain rfl : state = s := hA.state
  obtain rfl : tasks = before' ++ ⟨x, trace, some (.op c k)⟩ :: after' := htasks
  refine ⟨_, .fail before' after' x trace k hc, rfl, ?_⟩
  exact List.rel_append hbefore (.cons ht' hafter)

end Effect

/-- A step with the actor is a step with atomic commands, or none. -/
theorem Step.refines {S S' : Served C σ ε ρ} (hstep : Step h env may via capacity S S')
    {A : System C σ ρ} (hA : Refines S A) :
    ∃ A', System.Reaches h env may A A' ∧ Refines S' A' := by
  cases hstep with
  | env queue tasks hs =>
    obtain ⟨state, tasks'⟩ := A
    obtain rfl : state = _ := hA.state
    exact ⟨⟨_, tasks'⟩, .single (.env tasks' hs), rfl, hA.tasks⟩
  | start s queue tasks hx =>
    obtain ⟨state, tasks'⟩ := A
    obtain rfl : state = _ := hA.state
    refine ⟨_, .single (.start state tasks' hx), rfl, ?_⟩
    exact List.rel_append hA.tasks (.cons ⟨rfl, rfl, rfl⟩ .nil)
  | @direct s s' queue before after x trace γ c k b hvia hc =>
    have hnew : Stands (⟨x, trace ++ [⟨c, b⟩], .ready (k b)⟩ : Client C ε ρ)
        ⟨x, trace ++ [⟨c, b⟩], some (k b)⟩ := ⟨rfl, rfl, rfl⟩
    obtain ⟨A', hstep, hA'⟩ := hA.effect (.inl rfl) hc hnew
    exact ⟨A', .single hstep, hA'⟩
  | @directFail s s' queue before after x trace γ c k e hvia hc =>
    have hnew : Stands (⟨x, trace, .failed⟩ : Client C ε ρ) ⟨x, trace, none⟩ := ⟨rfl, rfl, rfl⟩
    obtain ⟨A', hstep, hA'⟩ := hA.effect_error (.inl rfl) hc hnew
    exact ⟨A', .single hstep, hA'⟩
  | send s queue before after x trace k hvia hroom =>
    exact ⟨A, .refl, hA.move fun a ha => ha⟩
  | serve s queue before after x trace c k dropped =>
    -- The command takes effect here; a task that was given up does not go on from it.
    rcases hc : h c s with ⟨e | b, s'⟩
    · have hnew : Stands (⟨x, trace, .reply c k dropped (.error e)⟩ : Client C ε ρ)
          ⟨x, trace, none⟩ := by
        cases dropped with
        | false => exact ⟨rfl, rfl, rfl⟩
        | true => exact ⟨rfl, List.prefix_refl trace⟩
      obtain ⟨A', hstep, hA'⟩ := hA.effect_error (.inr ⟨dropped, rfl⟩) hc hnew
      exact ⟨A', .single hstep, hA'⟩
    · have hnew : Stands (⟨x, trace, .reply c k dropped (.ok b)⟩ : Client C ε ρ)
          ⟨x, trace ++ [⟨c, b⟩], some (k b)⟩ := by
        cases dropped with
        | false => exact ⟨rfl, rfl, rfl⟩
        | true => exact ⟨rfl, List.prefix_append trace _⟩
      obtain ⟨A', hstep, hA'⟩ := hA.effect (.inr ⟨dropped, rfl⟩) hc hnew
      exact ⟨A', .single hstep, hA'⟩
  | take s queue before after x trace c k b =>
    exact ⟨A, .refl, hA.move fun a ha => ha⟩
  | takeError s queue before after x trace c k e =>
    exact ⟨A, .refl, hA.move fun a ha => ha⟩
  | drop s queue before after t =>
    exact ⟨A, .refl, hA.move fun a ha => ha.drop⟩

/-- To the tasks it is as if each command were atomic. -/
theorem Reaches.refines {S S' : Served C σ ε ρ} (hrun : Reaches h env may via capacity S S')
    {A : System C σ ρ} (hA : Refines S A) :
    ∃ A', System.Reaches h env may A A' ∧ Refines S' A' := by
  induction hrun with
  | refl => exact ⟨A, .refl, hA⟩
  | tail _ hstep ih =>
    obtain ⟨A', hA', hrel⟩ := ih
    obtain ⟨A'', hA'', hrel'⟩ := hstep.refines hrel
    exact ⟨A'', hA'.trans hA'', hrel'⟩

/-! ## The channel -/

/-- Which tasks have a command in the channel. -/
def sending (tasks : List (Client C ε ρ)) : List Bool := tasks.map fun t => t.stage.isSent

/-- The channel is within its capacity, and holds the commands that tasks have sent, each once. -/
structure Waiting (capacity : Nat) (S : Served C σ ε ρ) : Prop where
  room : S.queue.length ≤ capacity
  nodup : S.queue.Nodup
  mem : ∀ i, i ∈ S.queue ↔ (sending S.tasks)[i]? = some true

/-- The flag of one client stands among those of the others. -/
theorem sending_middle (before after : List (Client C ε ρ)) (t : Client C ε ρ) :
    sending (before ++ t :: after) = sending before ++ t.stage.isSent :: sending after := by
  simp [sending]

/-- The tasks other than the one in the middle. -/
theorem getElem?_sending_of_ne (before after : List (Client C ε ρ)) (t t' : Client C ε ρ) {i : Nat}
    (hi : i ≠ before.length) :
    (sending (before ++ t' :: after))[i]? = (sending (before ++ t :: after))[i]? := by
  have hlength : (sending before).length = before.length := List.length_map _
  rw [sending_middle, sending_middle]
  by_cases hlt : i < before.length
  · rw [List.getElem?_append_left (by omega), List.getElem?_append_left (by omega)]
  · obtain ⟨j, rfl⟩ : ∃ j, i = before.length + (j + 1) := ⟨i - before.length - 1, by omega⟩
    rw [List.getElem?_append_right (by omega), List.getElem?_append_right (by omega), hlength,
      Nat.add_sub_cancel_left, List.getElem?_cons_succ, List.getElem?_cons_succ]

/-- The flag of a client is found at the client's place. -/
theorem getElem?_sending_self (before after : List (Client C ε ρ)) (t : Client C ε ρ) :
    (sending (before ++ t :: after))[before.length]? = some t.stage.isSent := by
  have hlength : (sending before).length = before.length := List.length_map _
  rw [sending_middle, List.getElem?_append_right (by omega), hlength, Nat.sub_self,
    List.getElem?_cons_zero]

/-- A task that sends nothing and waits on. -/
theorem Waiting.move {s s' : σ} {queue : List Nat} {before after : List (Client C ε ρ)}
    {t t' : Client C ε ρ} (hS : Waiting capacity ⟨s, queue, before ++ t :: after⟩)
    (ht : t'.stage.isSent = t.stage.isSent) :
    Waiting capacity ⟨s', queue, before ++ t' :: after⟩ := by
  refine ⟨hS.room, hS.nodup, fun i => (hS.mem i).trans ?_⟩
  rw [sending_middle, sending_middle, ht]

/-- Every step keeps the waiting clients on the channel. -/
theorem Step.waiting {S S' : Served C σ ε ρ} (hstep : Step h env may via capacity S S')
    (hS : Waiting capacity S) : Waiting capacity S' := by
  cases hstep with
  | env queue tasks hs => exact ⟨hS.room, hS.nodup, hS.mem⟩
  | start s queue tasks hx =>
    refine ⟨hS.room, hS.nodup, fun i => (hS.mem i).trans ?_⟩
    -- A task that just started has sent nothing: the list grows by a `false`.
    show (sending tasks)[i]? = some true ↔ (sending (tasks ++ [⟨_, [], .ready _⟩]))[i]? = some true
    rw [sending_middle]
    by_cases hi : i < (sending tasks).length
    · rw [List.getElem?_append_left hi]
    · rw [List.getElem?_append_right (by omega), List.getElem?_eq_none (by omega)]
      cases hj : i - (sending tasks).length with
      | zero => exact ⟨nofun, nofun⟩
      | succ j => exact ⟨nofun, nofun⟩
  | direct queue before after x trace k hvia hc => exact hS.move rfl
  | directFail queue before after x trace k hvia hc => exact hS.move rfl
  | send s queue before after x trace k hvia hroom =>
    -- The sender was not in the queue yet, as its request was not sent.
    have hnot : before.length ∉ queue := by
      intro hmem
      have hsent := (hS.mem before.length).mp hmem
      rw [getElem?_sending_self] at hsent
      cases hsent
    refine ⟨?_, ?_, fun i => ?_⟩
    · rw [List.length_append]
      exact hroom
    · exact List.nodup_append.mpr ⟨hS.nodup, List.nodup_singleton _, fun a ha b hb hab => by
        rw [hab, List.mem_singleton.mp hb] at ha
        exact hnot ha⟩
    · -- Only the sender's own entry changes: it is sent now, and it is last in the queue.
      by_cases hi : i = before.length
      · subst hi
        rw [getElem?_sending_self]
        simp [Stage.isSent]
      · rw [getElem?_sending_of_ne before after ⟨x, trace, .ready (.op _ k)⟩ _ hi]
        simp only [List.mem_append, List.mem_singleton, hi, or_false]
        exact hS.mem i
  | serve s queue before after x trace c k dropped =>
    have hnodup := List.nodup_cons.mp hS.nodup
    refine ⟨?_, hnodup.2, fun i => ?_⟩
    · have hroom := hS.room
      rw [List.length_cons] at hroom
      show queue.length ≤ capacity
      omega
    · -- The one served leaves the queue, which holds it once, and is not sent any more.
      by_cases hi : i = before.length
      · subst hi
        rw [getElem?_sending_self]
        simp [hnodup.1]
      · rw [getElem?_sending_of_ne before after ⟨x, trace, .sent c k dropped⟩ _ hi]
        have hmem := hS.mem i
        simp only [List.mem_cons, hi, false_or] at hmem
        exact hmem
  | take s queue before after x trace c k b => exact hS.move rfl
  | takeError s queue before after x trace c k e => exact hS.move rfl
  | drop s queue before after t => exact hS.move t.stage.isSent_drop

/-- Every run keeps the waiting clients on the channel. -/
theorem Reaches.waiting {S S' : Served C σ ε ρ} (hrun : Reaches h env may via capacity S S')
    (hS : Waiting capacity S) : Waiting capacity S' := by
  induction hrun with
  | refl => exact hS
  | tail _ hstep ih => exact hstep.waiting ih

/-- As long as there is a command in the channel, the actor can take the next one. -/
theorem Waiting.serve_next {S : Served C σ ε ρ} (hS : Waiting capacity S) {i : Nat}
    {queue : List Nat} (hqueue : S.queue = i :: queue) :
    ∃ S', Step h env may via capacity S S' ∧ S'.queue = queue := by
  obtain ⟨s, queue', tasks⟩ := S
  obtain rfl : queue' = i :: queue := hqueue
  -- The head of the queue has sent its request, so it is a task that may be served.
  have hsent : (sending tasks)[i]? = some true := (hS.mem i).mp List.mem_cons_self
  rw [sending, List.getElem?_map] at hsent
  obtain ⟨t, ht, hstage⟩ := Option.map_eq_some_iff.mp hsent
  obtain ⟨hi, hti⟩ := List.getElem?_eq_some_iff.mp ht
  have hsplit : tasks = tasks.take i ++ t :: tasks.drop (i + 1) := by
    rw [← hti, ← List.drop_eq_getElem_cons hi, List.take_append_drop]
  have hlength : (tasks.take i).length = i := by
    rw [List.length_take]
    omega
  obtain ⟨x, trace, stage⟩ := t
  cases stage with
  | sent c k dropped =>
    have hstep : Step h env may via capacity ⟨s, (tasks.take i).length :: queue,
        tasks.take i ++ ⟨x, trace, .sent c k dropped⟩ :: tasks.drop (i + 1)⟩ _ :=
      .serve s queue (tasks.take i) (tasks.drop (i + 1)) x trace c k dropped
    rw [hlength, ← hsplit] at hstep
    exact ⟨_, hstep, rfl⟩
  | _ => exact absurd hstage nofun

end Served

end Semnav.ForStd
