import Mathlib.Logic.Relation
import Semnav.ForStd.Prog

/-!
# Tasks that run concurrently

Several programs over one shared state.  A step lets one task issue its next command, which
is atomic, or lets the environment change the state, or starts a task.  Each task remembers
the commands it issued with their replies (`Task.trace`); what its program does on those
replies is a fact about the program alone (`Prog.Path`), whatever the others did in between.

## Key results

- `Path.bind_cases`: the trace of a composed program is one of its first part, or splits
- `System.Reaches.follows`: the trace of every task is a path of its program
- `System.Reaches.state_induct`: invariants of the shared state
- `System.Reaches.traced`: what holds of the state was brought about by a command of some task
-/

namespace Semnav.ForStd

universe u v

/-- A command with its reply. -/
structure Exchange (C : Type → Type u) where
  {β : Type}
  cmd : C β
  reply : β

namespace Prog

variable {C : Type → Type u} {α β : Type}

/-- The program, given the replies of the trace to the commands it issues, gets to `y`. -/
inductive Path : Prog C α → List (Exchange C) → Prog C α → Prop where
  | nil (x : Prog C α) : Path x [] x
  | cons {γ : Type} {c : C γ} {k : γ → Prog C α} (b : γ) {trace : List (Exchange C)}
      {y : Prog C α} (h : Path (k b) trace y) : Path (.op c k) (⟨c, b⟩ :: trace) y

variable {x y z : Prog C α} {trace trace' : List (Exchange C)}

theorem Path.append (h : Path x trace y) (h' : Path y trace' z) : Path x (trace ++ trace') z := by
  induction h with
  | nil x => exact h'
  | cons b _ ih => exact .cons b (ih h')

/-- One command further. -/
theorem Path.snoc {γ : Type} {c : C γ} {k : γ → Prog C α} (h : Path x trace (.op c k)) (b : γ) :
    Path x (trace ++ [⟨c, b⟩]) (k b) :=
  h.append (.cons b (.nil _))

/-- A result is the end. -/
theorem Path.of_pure {a : α} (h : Path (Pure.pure a) trace y) : trace = [] ∧ y = Pure.pure a := by
  cases h
  exact ⟨rfl, rfl⟩

theorem Path.bind (h : Path x trace y) (f : α → Prog C β) : Path (x >>= f) trace (y >>= f) := by
  induction h with
  | nil x => exact .nil _
  | cons b _ ih => exact .cons b ih

/-- After a first part that ends, a path is one of the rest. -/
theorem Path.bind_pure {a : α} {f : α → Prog C β} {z : Prog C β} (h : Path x trace (Pure.pure a))
    (h' : Path (f a) trace' z) : Path (x >>= f) (trace ++ trace') z :=
  (h.bind f).append h'

/-- A path of a composed program stays in the first part, or goes through its end. -/
theorem Path.bind_cases {f : α → Prog C β} {z : Prog C β} (h : Path (x >>= f) trace z) :
    (∃ y, Path x trace y ∧ z = y >>= f) ∨
      ∃ first rest a, trace = first ++ rest ∧ Path x first (Pure.pure a) ∧ Path (f a) rest z := by
  induction x generalizing trace with
  | pure a => exact .inr ⟨[], trace, a, rfl, .nil _, h⟩
  | op c k ih =>
    rw [op_bind] at h
    cases h with
    | nil => exact .inl ⟨.op c k, .nil _, rfl⟩
    | cons b h =>
      rcases ih b h with ⟨y, hpath, rfl⟩ | ⟨first, rest, a, rfl, hfirst, hrest⟩
      · exact .inl ⟨y, .cons b hpath, rfl⟩
      · exact .inr ⟨⟨c, b⟩ :: first, rest, a, rfl, .cons b hfirst, hrest⟩

/-- What holds of the commands a program may issue holds of those it issued. -/
theorem Path.issued {P : ∀ β : Type, C β → Prop} (h : Path x trace y) (hx : Issues P x) :
    (∀ e ∈ trace, P e.β e.cmd) ∧ Issues P y := by
  induction h with
  | nil x => exact ⟨by simp, hx⟩
  | cons b _ ih =>
    obtain ⟨hrest, hy⟩ := ih (hx.2 b)
    refine ⟨fun e he => ?_, hy⟩
    cases List.mem_cons.mp he with
    | inl h =>
      rw [h]
      exact hx.1
    | inr h => exact hrest e h

/-- The exchanges of a run with nothing in between, up to an error. -/
def exchanges {σ : Type v} {ε : Type} (h : Handler C σ ε) : Prog C α → σ → List (Exchange C)
  | .pure _, _ => []
  | .op c k, s =>
    match h c s with
    | (.ok b, s') => ⟨c, b⟩ :: exchanges h (k b) s'
    | (.error _, _) => []

section Exchanges

variable {σ : Type v} {ε : Type} (h : Handler C σ ε)

/-- A command that is answered is the first exchange. -/
theorem exchanges_perform_ok {c : C α} {b : α} {s s' : σ} (hc : h c s = (.ok b, s'))
    (f : α → Prog C β) :
    exchanges h (perform c >>= f) s = ⟨c, b⟩ :: exchanges h (f b) s' := by
  rw [perform, op_bind, exchanges, hc]
  rfl

/-- A command that fails is the last. -/
theorem exchanges_perform_error {c : C α} {e : ε} {s s' : σ} (hc : h c s = (.error e, s'))
    (f : α → Prog C β) : exchanges h (perform c >>= f) s = [] := by
  rw [perform, op_bind, exchanges, hc]

/-- The second of two programs makes its exchanges if the first ends. -/
theorem exchanges_bind (x : Prog C α) (f : α → Prog C β) (s : σ) :
    exchanges h (x >>= f) s = exchanges h x s ++
      match run h x s with
      | (.ok a, s') => exchanges h (f a) s'
      | (.error _, _) => [] := by
  induction x generalizing s with
  | pure a => rfl
  | op c k ih =>
    simp only [op_bind, exchanges, run]
    cases hcs : h c s with
    | mk reply s' =>
      cases reply with
      | ok b => exact congrArg (⟨c, b⟩ :: ·) (ih b s')
      | error e => rfl

/-- What holds of the commands a program may issue holds of those of its exchanges. -/
theorem Issues.exchanges {P : ∀ β : Type, C β → Prop} {x : Prog C α} (hx : Issues P x) (s : σ) :
    ∀ e ∈ exchanges h x s, P e.β e.cmd := by
  induction x generalizing s with
  | pure a =>
    intro e he
    exact absurd he List.not_mem_nil
  | op c k ih =>
    intro e he
    unfold Prog.exchanges at he
    cases hcs : h c s with
    | mk reply s' =>
      rw [hcs] at he
      cases reply with
      | ok b =>
        -- The exchange is the first one, or one of the run after its reply.
        cases List.mem_cons.mp he with
        | inl heq =>
          rw [heq]
          exact hx.1
        | inr hrest => exact ih b (hx.2 b) s' e hrest
      | error err => exact absurd he List.not_mem_nil

end Exchanges

end Prog

/-- A task: the program it was started with, what it did so far, and what is left of it, unless
    an error ended it. -/
structure Task (C : Type → Type u) (ρ : Type) where
  start : Prog C ρ
  trace : List (Exchange C)
  rest : Option (Prog C ρ)

/-- The shared state, and the tasks. -/
structure System (C : Type → Type u) (σ : Type v) (ρ : Type) where
  state : σ
  tasks : List (Task C ρ)

namespace System

variable {C : Type → Type u} {σ : Type v} {ε ρ : Type}

/-- One step: of the environment, of the starting of a task, or of one of the tasks. -/
inductive Step (h : Handler C σ ε) (env : σ → σ → Prop) (may : Prog C ρ → Prop) :
    System C σ ρ → System C σ ρ → Prop where
  | env {s s' : σ} (tasks : List (Task C ρ)) (hs : env s s') : Step h env may ⟨s, tasks⟩ ⟨s', tasks⟩
  | start (s : σ) (tasks : List (Task C ρ)) {x : Prog C ρ} (hx : may x) :
      Step h env may ⟨s, tasks⟩ ⟨s, tasks ++ [⟨x, [], some x⟩]⟩
  | reply {s s' : σ} (before after : List (Task C ρ)) (x : Prog C ρ)
      (trace : List (Exchange C)) {γ : Type} {c : C γ} (k : γ → Prog C ρ) {b : γ}
      (hc : h c s = (.ok b, s')) :
      Step h env may ⟨s, before ++ ⟨x, trace, some (.op c k)⟩ :: after⟩
        ⟨s', before ++ ⟨x, trace ++ [⟨c, b⟩], some (k b)⟩ :: after⟩
  | fail {s s' : σ} (before after : List (Task C ρ)) (x : Prog C ρ)
      (trace : List (Exchange C)) {γ : Type} {c : C γ} (k : γ → Prog C ρ) {e : ε}
      (hc : h c s = (.error e, s')) :
      Step h env may ⟨s, before ++ ⟨x, trace, some (.op c k)⟩ :: after⟩
        ⟨s', before ++ ⟨x, trace, none⟩ :: after⟩

/-- What a run of steps gets to. -/
abbrev Reaches (h : Handler C σ ε) (env : σ → σ → Prop) (may : Prog C ρ → Prop) :
    System C σ ρ → System C σ ρ → Prop := Relation.ReflTransGen (Step h env may)

variable {h : Handler C σ ε} {env : σ → σ → Prop} {may : Prog C ρ → Prop}
  {sys sys' : System C σ ρ}

/-- What every command and the environment keep of the state, a run keeps. -/
theorem Reaches.state_induct {I : σ → Prop} (hrun : Reaches h env may sys sys')
    (hcmd : ∀ {γ : Type} (c : C γ) (s : σ), I s → I (h c s).2) (henv : ∀ s s', env s s' → I s → I s')
    (hI : I sys.state) : I sys'.state := by
  induction hrun with
  | refl => exact hI
  | tail _ hstep ih =>
    cases hstep with
    | env tasks hs => exact henv _ _ hs ih
    | start s tasks hx => exact ih
    | @reply s s' before after x trace γ c k b hc =>
      have hs' : (h c s).2 = s' := congrArg Prod.snd hc
      exact hs' ▸ hcmd c s ih
    | @fail s s' before after x trace γ c k e hc =>
      have hs' : (h c s).2 = s' := congrArg Prod.snd hc
      exact hs' ▸ hcmd c s ih

/-- A task may run to its end with nothing in between. -/
theorem Reaches.run_alone (before after : List (Task C ρ)) (start : Prog C ρ) {x : Prog C ρ}
    (trace : List (Exchange C)) {s s' : σ} {a : ρ} (hrun : Prog.run h x s = (.ok a, s')) :
    Reaches h env may ⟨s, before ++ ⟨start, trace, some x⟩ :: after⟩
      ⟨s', before ++ ⟨start, trace ++ x.exchanges h s, some (Pure.pure a)⟩ :: after⟩ := by
  induction x generalizing s trace with
  | pure b =>
    cases hrun
    simp only [Prog.exchanges, List.append_nil]
    exact .refl
  | op c k ih =>
    unfold Prog.run at hrun
    unfold Prog.exchanges
    rcases hc : h c s with ⟨e | b, s₁⟩
    · -- A failing call would end the run with an error, against `hrun`.
      rw [hc] at hrun
      cases hrun
    · rw [hc] at hrun
      have hrest := ih b (trace ++ [⟨c, b⟩]) hrun
      rw [List.append_assoc] at hrest
      exact .head (.reply before after start trace k hc) hrest

/-- A task that was started by the rules has followed its program. -/
def Follows (may : Prog C ρ → Prop) (t : Task C ρ) : Prop :=
  may t.start ∧ ∃ y, Prog.Path t.start t.trace y ∧ ∀ x, t.rest = some x → x = y

/-- Every task has. -/
theorem Reaches.follows (hrun : Reaches h env may sys sys')
    (hsys : ∀ t ∈ sys.tasks, Follows may t) : ∀ t ∈ sys'.tasks, Follows may t := by
  induction hrun with
  | refl => exact hsys
  | tail _ hstep ih =>
    cases hstep with
    | env tasks hs => exact ih
    | start s tasks hx =>
      intro t ht
      cases List.mem_append.mp ht with
      | inl ht => exact ih t ht
      | inr ht =>
        rw [List.mem_singleton.mp ht]
        -- A task that starts is at the beginning of its own program.
        refine ⟨hx, _, .nil _, fun x hx => ?_⟩
        exact (Option.some.inj hx).symm
    | reply before after x trace k hc =>
      intro t ht
      simp only [List.mem_append, List.mem_cons] at ht ih
      rcases ht with ht | rfl | ht
      · exact ih t (.inl ht)
      · -- The task that moves was at a point of its program, and the reply leads to the next one.
        obtain ⟨hx, y, hpath, hrest⟩ := ih _ (.inr (.inl rfl))
        obtain rfl := hrest _ rfl
        refine ⟨hx, _, hpath.snoc _, fun x hx => ?_⟩
        exact (Option.some.inj hx).symm
      · exact ih t (.inr (.inr ht))
    | fail before after x trace k hc =>
      intro t ht
      simp only [List.mem_append, List.mem_cons] at ht ih
      rcases ht with ht | rfl | ht
      · exact ih t (.inl ht)
      · obtain ⟨hx, y, hpath, hrest⟩ := ih _ (.inr (.inl rfl))
        -- A failed task keeps its exchanges and has no rest.
        exact ⟨hx, y, hpath, fun x hx => nomatch hx⟩
      · exact ih t (.inr (.inr ht))

/-- A fact of the state that was not there at the start, and that only exchanges with `Q` bring
    about, has such an exchange in some trace. -/
theorem Reaches.traced {I P : σ → Prop} {Q : Exchange C → Prop}
    (hrun : Reaches h env may sys sys') (hI : I sys.state)
    (hkeep : ∀ {γ : Type} (c : C γ) (s : σ), I s → I (h c s).2)
    (hkeepEnv : ∀ s s', env s s' → I s → I s')
    (hcmd : ∀ {γ : Type} (c : C γ) (s s' : σ) (b : γ), I s → h c s = (.ok b, s') → P s' →
      P s ∨ Q ⟨c, b⟩)
    (hfail : ∀ {γ : Type} (c : C γ) (s s' : σ) (e : ε), I s → h c s = (.error e, s') → P s' → P s)
    (henv : ∀ s s', I s → env s s' → P s' → P s) (hsys : ¬ P sys.state) (hP : P sys'.state) :
    ∃ t ∈ sys'.tasks, ∃ e ∈ t.trace, Q e := by
  induction hrun with
  | refl => exact absurd hP hsys
  | tail hbefore hstep ih =>
    -- The invariant holds in the state before the step, so the step lemmas apply there.
    have hinv := Reaches.state_induct hbefore hkeep hkeepEnv hI
    cases hstep with
    | env tasks hs => exact ih (henv _ _ hinv hs hP)
    | start s tasks hx =>
      obtain ⟨t, ht, e, he, hQ⟩ := ih hP
      exact ⟨t, List.mem_append_left _ ht, e, he, hQ⟩
    | reply before after x trace k hc =>
      simp only [List.mem_append, List.mem_cons] at ih ⊢
      -- `P` was brought about earlier, or by the command that is answered now.
      cases hcmd _ _ _ _ hinv hc hP with
      | inl hold =>
        obtain ⟨t, ht | rfl | ht, e, he, hQ⟩ := ih hold
        · exact ⟨t, .inl ht, e, he, hQ⟩
        · exact ⟨_, .inr (.inl rfl), e, List.mem_append_left _ he, hQ⟩
        · exact ⟨t, .inr (.inr ht), e, he, hQ⟩
      | inr hnew =>
        -- The answered command is the last exchange of the task that sent it.
        exact ⟨_, .inr (.inl rfl), _, List.mem_append_right _ (List.mem_singleton_self _), hnew⟩
    | fail before after x trace k hc =>
      simp only [List.mem_append, List.mem_cons] at ih ⊢
      obtain ⟨t, ht | rfl | ht, e, he, hQ⟩ := ih (hfail _ _ _ _ hinv hc hP)
      · exact ⟨t, .inl ht, e, he, hQ⟩
      · exact ⟨_, .inr (.inl rfl), e, he, hQ⟩
      · exact ⟨t, .inr (.inr ht), e, he, hQ⟩

end System

end Semnav.ForStd
