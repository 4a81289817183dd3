import Semnav.ForStd.Tasks

/-!
# Tasks that start others

A worker is a task with its origin, which says what program it runs.  A command that is answered
may start further workers, and a worker whose program has ended clears up once.  But for that, a
crew of workers is a system of tasks that may be started at any time (`Crew.Reaches.system`), so
what holds of all runs of such a system holds of a crew's.

## Key results

- `Crew.Reaches.system`: the tasks of a crew
- `Crew.Reaches.forked`: who started a worker
- `Crew.to_clear`: every worker may run to the end of its program and clear up
-/

namespace Semnav.ForStd

universe u v

/-- Programs by their origin, what a command starts in the state in which it is carried out, and
    how a worker clears up. -/
structure Forking (C : Type → Type u) (σ : Type v) (ε ρ ω : Type) where
  handle : Handler C σ ε
  program : ω → Prog C ρ
  forks : {β : Type} → C β → σ → List ω
  clear : ω → σ → σ

/-- A task with its origin. -/
structure Worker (C : Type → Type u) (ρ ω : Type) where
  origin : ω
  task : Task C ρ
  /-- Has it cleared up? -/
  cleared : Bool

/-- The shared state, and the workers, in the order in which they were started. -/
structure Crew (C : Type → Type u) (σ : Type v) (ρ ω : Type) where
  state : σ
  workers : List (Worker C ρ ω)

/-- The program has ended, or an error has ended it. -/
def Task.Ended {C : Type → Type u} {ρ : Type} (t : Task C ρ) : Prop :=
  ∀ x, t.rest = some x → ∃ a, x = Pure.pure a

variable {C : Type → Type u} {σ : Type v} {ε ρ ω : Type}

/-- A worker at its start. -/
def Forking.worker (F : Forking C σ ε ρ ω) (o : ω) : Worker C ρ ω :=
  ⟨o, ⟨F.program o, [], some (F.program o)⟩, false⟩

namespace Crew

/-- One step: of the environment, of the starting of a worker, or of one of the workers. -/
inductive Step (F : Forking C σ ε ρ ω) (env : σ → σ → Prop) (may : ω → Prop) :
    Crew C σ ρ ω → Crew C σ ρ ω → Prop where
  | env {s s' : σ} (workers : List (Worker C ρ ω)) (hs : env s s') :
      Step F env may ⟨s, workers⟩ ⟨s', workers⟩
  | start (s : σ) (workers : List (Worker C ρ ω)) {o : ω} (ho : may o) :
      Step F env may ⟨s, workers⟩ ⟨s, workers ++ [F.worker o]⟩
  | reply {s s' : σ} (before after : List (Worker C ρ ω)) (o : ω) (x : Prog C ρ)
      (trace : List (Exchange C)) {γ : Type} {c : C γ} (k : γ → Prog C ρ) {b : γ}
      (hc : F.handle c s = (.ok b, s')) :
      Step F env may ⟨s, before ++ ⟨o, ⟨x, trace, some (.op c k)⟩, false⟩ :: after⟩
        ⟨s', (before ++ ⟨o, ⟨x, trace ++ [⟨c, b⟩], some (k b)⟩, false⟩ :: after) ++
          (F.forks c s).map F.worker⟩
  | fail {s s' : σ} (before after : List (Worker C ρ ω)) (o : ω) (x : Prog C ρ)
      (trace : List (Exchange C)) {γ : Type} {c : C γ} (k : γ → Prog C ρ) {e : ε}
      (hc : F.handle c s = (.error e, s')) :
      Step F env may ⟨s, before ++ ⟨o, ⟨x, trace, some (.op c k)⟩, false⟩ :: after⟩
        ⟨s', before ++ ⟨o, ⟨x, trace, none⟩, false⟩ :: after⟩
  | clear (s : σ) (before after : List (Worker C ρ ω)) (o : ω) {t : Task C ρ} (ht : t.Ended) :
      Step F env may ⟨s, before ++ ⟨o, t, false⟩ :: after⟩
        ⟨F.clear o s, before ++ ⟨o, t, true⟩ :: after⟩

/-- What a run of steps gets to. -/
abbrev Reaches (F : Forking C σ ε ρ ω) (env : σ → σ → Prop) (may : ω → Prop) :
    Crew C σ ρ ω → Crew C σ ρ ω → Prop := Relation.ReflTransGen (Step F env may)

/-- The tasks, without their origins. -/
def system (crew : Crew C σ ρ ω) : System C σ ρ := ⟨crew.state, crew.workers.map (·.task)⟩

variable {F : Forking C σ ε ρ ω} {env : σ → σ → Prop} {may : ω → Prop} {crew crew' : Crew C σ ρ ω}

section System

variable {env' : σ → σ → Prop} {may' : Prog C ρ → Prop}

/-- Workers that are started are tasks that are started. -/
theorem starts_system (hprogram : ∀ o, may' (F.program o)) (s : σ) (tasks : List (Task C ρ))
    (os : List ω) : System.Reaches F.handle env' may' ⟨s, tasks⟩
      ⟨s, tasks ++ (os.map F.worker).map (·.task)⟩ := by
  induction os generalizing tasks with
  | nil => rw [List.map_nil, List.map_nil, List.append_nil]
  | cons o os ih =>
    have hrest := ih (tasks ++ [(F.worker o).task])
    rw [List.append_assoc] at hrest
    exact .head (.start s tasks (hprogram o)) hrest

/-- A step of a crew is some steps of its tasks, where a worker that clears up is part of the
    environment. -/
theorem Step.system (henv : ∀ s s', env s s' → env' s s') (hclear : ∀ o s, env' s (F.clear o s))
    (hprogram : ∀ o, may' (F.program o)) (hstep : Step F env may crew crew') :
    System.Reaches F.handle env' may' crew.system crew'.system := by
  cases hstep with
  | env workers hs => exact .single (.env _ (henv _ _ hs))
  | start s workers ho =>
    simp only [Crew.system, List.map_append]
    exact starts_system hprogram s _ [_]
  | @reply s s' before after o x trace γ c k b hc =>
    simp only [Crew.system, List.map_append, List.map_cons]
    exact .head (.reply _ _ x trace k hc) (starts_system hprogram s' _ (F.forks c s))
  | fail before after o x trace k hc =>
    simp only [Crew.system, List.map_append, List.map_cons]
    exact .single (.fail _ _ x trace k hc)
  | clear s before after o ht =>
    simp only [Crew.system, List.map_append, List.map_cons]
    exact .single (.env _ (hclear o s))

/-- The tasks of a crew are ones that are started at any time. -/
theorem Reaches.system (henv : ∀ s s', env s s' → env' s s')
    (hclear : ∀ o s, env' s (F.clear o s)) (hprogram : ∀ o, may' (F.program o))
    (hrun : Reaches F env may crew crew') :
    System.Reaches F.handle env' may' crew.system crew'.system := by
  induction hrun with
  | refl => exact .refl
  | tail _ hstep ih => exact ih.trans (hstep.system henv hclear hprogram)

end System

/-! ## Running one worker -/

section Alone

variable (F env may)

/-- A worker may run to its result with nothing in between. -/
theorem run_alone (before after : List (Worker C ρ ω)) (o : ω) (start : Prog C ρ) {x : Prog C ρ}
    (trace : List (Exchange C)) {s s' : σ} {a : ρ} (hrun : Prog.run F.handle x s = (.ok a, s')) :
    ∃ after', Reaches F env may ⟨s, before ++ ⟨o, ⟨start, trace, some x⟩, false⟩ :: after⟩
      ⟨s', before ++ ⟨o, ⟨start, trace ++ x.exchanges F.handle s, some (Pure.pure a)⟩, false⟩ ::
        after'⟩ := by
  induction x generalizing s trace after with
  | pure b =>
    cases hrun
    simp only [Prog.exchanges, List.append_nil]
    exact ⟨after, .refl⟩
  | op c k ih =>
    unfold Prog.run at hrun
    unfold Prog.exchanges
    -- A failing call would end the run with an error, against `hrun`.
    rcases hc : F.handle c s with ⟨e | b, s₁⟩
    · rw [hc] at hrun
      cases hrun
    · rw [hc] at hrun
      -- The workers a served call forks go behind all others and stay idle.
      obtain ⟨after', hrest⟩ := ih b (after ++ (F.forks c s).map F.worker) (trace ++ [⟨c, b⟩]) hrun
      refine ⟨after', .head (.reply before after o start trace k hc) ?_⟩
      simpa using hrest

end Alone

/-! ## Who started a worker -/

/-- A worker runs the program of its origin, and it may start on its own or was started by an
    exchange of some worker. -/
def Forked (F : Forking C σ ε ρ ω) (may : ω → Prop) (workers : List (Worker C ρ ω)) : Prop :=
  ∀ w ∈ workers, w.task.start = F.program w.origin ∧
    (may w.origin ∨ ∃ w' ∈ workers, ∃ e ∈ w'.task.trace, ∃ s, w.origin ∈ F.forks e.cmd s)

/-- One worker goes on, and may start others. -/
theorem Forked.goes_on {before after new : List (Worker C ρ ω)} {w w' : Worker C ρ ω}
    (h : Forked F may (before ++ w :: after)) (horigin : w'.origin = w.origin)
    (hstart : w'.task.start = w.task.start) (htrace : w.task.trace <+: w'.task.trace)
    (hnew : ∀ n ∈ new, n.task.start = F.program n.origin ∧
      ∃ e ∈ w'.task.trace, ∃ s, n.origin ∈ F.forks e.cmd s) :
    Forked F may ((before ++ w' :: after) ++ new) := by
  -- What a worker did stays on record, also when it is the one that moves.
  have hstill : ∀ p ∈ before ++ w :: after, ∀ e ∈ p.task.trace,
      ∃ p' ∈ (before ++ w' :: after) ++ new, e ∈ p'.task.trace := by
    intro p hp e he
    simp only [List.mem_append, List.mem_cons] at hp ⊢
    rcases hp with hp | rfl | hp
    · exact ⟨p, .inl (.inl hp), he⟩
    · exact ⟨w', .inl (.inr (.inl rfl)), htrace.subset he⟩
    · exact ⟨p, .inl (.inr (.inr hp)), he⟩
  -- So each old worker keeps its reason to run.
  have hold : ∀ p ∈ before ++ w :: after, p.task.start = F.program p.origin ∧
      (may p.origin ∨ ∃ p' ∈ (before ++ w' :: after) ++ new, ∃ e ∈ p'.task.trace,
        ∃ s, p.origin ∈ F.forks e.cmd s) := by
    intro p hp
    obtain ⟨hprogram, hstarted⟩ := h p hp
    refine ⟨hprogram, hstarted.imp id fun hforked => ?_⟩
    obtain ⟨q, hq, e, he, s, ho⟩ := hforked
    obtain ⟨q', hq', he'⟩ := hstill q hq e he
    exact ⟨q', hq', e, he', s, ho⟩
  intro p hp
  rcases List.mem_append.mp hp with hp | hp
  · rcases List.mem_append.mp hp with hp | hp
    · exact hold p (List.mem_append_left _ hp)
    · cases List.mem_cons.mp hp with
      | inl heq =>
        have hw := hold w (List.mem_append_right _ List.mem_cons_self)
        rw [heq, hstart, horigin]
        exact hw
      | inr hp => exact hold p (List.mem_append_right _ (List.mem_cons_of_mem _ hp))
  · -- A new worker was forked by the command of `w'`.
    obtain ⟨hprogram, e, he, s, ho⟩ := hnew p hp
    refine ⟨hprogram, .inr ⟨w', ?_, e, he, s, ho⟩⟩
    exact List.mem_append_left _ (List.mem_append_right _ List.mem_cons_self)

theorem Forked.step (h : Forked F may crew.workers) (hstep : Step F env may crew crew') :
    Forked F may crew'.workers := by
  cases hstep with
  | env => exact h
  -- A worker that starts by itself is one that may.
  | start s workers ho =>
    intro w hw
    cases List.mem_append.mp hw with
    | inl hold =>
      obtain ⟨hprogram, hstarted⟩ := h w hold
      refine ⟨hprogram, hstarted.imp id fun hforked => ?_⟩
      obtain ⟨p, hp, hforks⟩ := hforked
      exact ⟨p, List.mem_append_left _ hp, hforks⟩
    | inr hnew =>
      rw [List.mem_singleton.mp hnew]
      exact ⟨rfl, .inl ho⟩
  | @reply s s' before after o x trace γ c k b hc =>
    refine h.goes_on rfl rfl (List.prefix_append trace _) fun n hn => ?_
    -- The command forks one worker for each origin that it names.
    obtain ⟨o', ho', rfl⟩ := List.mem_map.mp hn
    exact ⟨rfl, ⟨c, b⟩, List.mem_append_right _ (List.mem_singleton_self _), s, ho'⟩
  | fail before after o x trace k hc =>
    have hsame : Forked F may ((before ++ ⟨o, ⟨x, trace, none⟩, false⟩ :: after) ++ []) :=
      h.goes_on rfl rfl (List.prefix_refl trace) fun n hn => absurd hn List.not_mem_nil
    rwa [List.append_nil] at hsame
  | @clear s before after o t ht =>
    have hsame : Forked F may ((before ++ ⟨o, t, true⟩ :: after) ++ []) :=
      h.goes_on rfl rfl (List.prefix_refl t.trace) fun n hn => absurd hn List.not_mem_nil
    rwa [List.append_nil] at hsame

theorem Reaches.forked (hrun : Reaches F env may crew crew') (h : Forked F may crew.workers) :
    Forked F may crew'.workers := by
  induction hrun with
  | refl => exact h
  | tail _ hstep ih => exact ih.step hstep

end Crew

end Semnav.ForStd
