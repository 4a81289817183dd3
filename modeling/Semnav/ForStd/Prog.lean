/-!
# Programs that issue commands

An asynchronous task seen from outside: it issues a command, waits for the reply and goes on.
`Prog C α` is such a task with result `α` over a signature `C` of commands; a handler says
what a command does to the state that the tasks share, and may end the task with an error.

## Key results

- `Prog.run_bind_eq_ok`: a composed run succeeds when its two parts do
- `Prog.Returns.bind`: the rule for sequencing of total correctness
- `Prog.Yields.bind`: that of partial correctness under an invariant
- `Prog.Issues.run_rel`: what every command that a program may issue preserves, a run preserves
-/

namespace Semnav.ForStd

universe u v

/-- A program over the commands `C`: a result, or a command and what to do with its reply. -/
inductive Prog (C : Type → Type u) (α : Type) : Type (max 1 u) where
  | pure (a : α)
  | op {β : Type} (c : C β) (k : β → Prog C α)

/-- What a command does: a reply or an error, and the state afterwards. -/
abbrev Handler (C : Type → Type u) (σ : Type v) (ε : Type) :=
  ∀ {β : Type}, C β → σ → Except ε β × σ

namespace Prog

variable {C : Type → Type u} {α β : Type}

/-- Run the first program, then the second on its result. -/
def bind (x : Prog C α) (f : α → Prog C β) : Prog C β :=
  match x with
  | .pure a => f a
  | .op c k => .op c fun b => (k b).bind f

instance : Monad (Prog C) where
  pure := Prog.pure
  bind := Prog.bind

/-- The program that issues one command and returns its reply. -/
def perform (c : C α) : Prog C α := .op c .pure

/-- A value is passed on. -/
@[simp] theorem pure_bind (a : α) (f : α → Prog C β) : (Pure.pure a >>= f : Prog C β) = f a := rfl

/-- The first command of a sequence is that of its first part. -/
@[simp] theorem op_bind {γ : Type} (c : C γ) (k : γ → Prog C α) (f : α → Prog C β) :
    (Prog.op c k >>= f) = Prog.op c fun b => k b >>= f := rfl

/-- Nothing after a program is the program. -/
theorem bind_pure (x : Prog C α) : (x >>= Pure.pure) = x := by
  induction x with
  | pure a => rfl
  | op c k ih => simp only [op_bind, ih]

/-- Sequences associate. -/
theorem bind_assoc {γ : Type} (x : Prog C α) (f : α → Prog C β) (g : β → Prog C γ) :
    (x >>= f >>= g) = x >>= fun a => f a >>= g := by
  induction x with
  | pure a => rfl
  | op c k ih => simp only [op_bind, ih]

instance : LawfulMonad (Prog C) :=
  LawfulMonad.mk' _ bind_pure (fun _ _ => rfl) bind_assoc

/-! ## Running a program alone -/

section Run

variable {σ : Type v} {ε : Type} (h : Handler C σ ε)

/-- Run a program with nothing happening in between; the first error ends it. -/
def run : Prog C α → σ → Except ε α × σ
  | .pure a, s => (.ok a, s)
  | .op c k, s =>
    match h c s with
    | (.ok b, s') => run (k b) s'
    | (.error e, s') => (.error e, s')

/-- A value runs to itself. -/
@[simp] theorem run_pure (a : α) (s : σ) : run h (Pure.pure a) s = (.ok a, s) := rfl

/-- One command runs to what the handler does. -/
@[simp] theorem run_perform (c : C α) (s : σ) : run h (perform c) s = h c s := by
  unfold perform run
  rcases h c s with ⟨_ | _, _⟩ <;> rfl

/-- A sequence runs one part after the other. -/
theorem run_bind (x : Prog C α) (f : α → Prog C β) (s : σ) :
    run h (x >>= f) s =
      match run h x s with
      | (.ok a, s') => run h (f a) s'
      | (.error e, s') => (.error e, s') := by
  induction x generalizing s with
  | pure a => rfl
  | op c k ih =>
    simp only [op_bind, run]
    rcases h c s with ⟨e | b, s'⟩
    · rfl
    · exact ih b s'

/-- A command, then the rest. -/
theorem run_perform_bind (c : C α) (f : α → Prog C β) (s : σ) :
    run h (perform c >>= f) s =
      match h c s with
      | (.ok a, s') => run h (f a) s'
      | (.error e, s') => (.error e, s') := by
  rw [run_bind, run_perform]

/-- A sequence succeeds when both parts do. -/
theorem run_bind_eq_ok {x : Prog C α} {f : α → Prog C β} {s s'' : σ} {b : β} :
    run h (x >>= f) s = (.ok b, s'') ↔
      ∃ a s', run h x s = (.ok a, s') ∧ run h (f a) s' = (.ok b, s'') := by
  rw [run_bind]
  rcases hx : run h x s with ⟨e | a, s'⟩
  · simp
  · simp only [Prod.mk.injEq, Except.ok.injEq]
    constructor
    · intro hrun
      exact ⟨a, s', ⟨rfl, rfl⟩, hrun⟩
    · rintro ⟨a', s'', ⟨rfl, rfl⟩, hrun⟩
      exact hrun

/-- After a first part that succeeds, a run is the run of the rest. -/
theorem run_bind_of_ok {x : Prog C α} {f : α → Prog C β} {s s' : σ} {a : α}
    (hx : run h x s = (.ok a, s')) : run h (x >>= f) s = run h (f a) s' := by
  rw [run_bind, hx]

/-! ## Total correctness -/

/-- The program, run from `s`, ends without an error, and in a result and a state with `Q`. -/
def Returns (x : Prog C α) (s : σ) (Q : α → σ → Prop) : Prop :=
  ∃ a s', run h x s = (.ok a, s') ∧ Q a s'

variable {h} {x : Prog C α} {s : σ} {Q : α → σ → Prop}

/-- A value returns itself. -/
theorem Returns.pure {a : α} (hQ : Q a s) : Returns h (Pure.pure a) s Q := ⟨a, s, rfl, hQ⟩

/-- What returns returns anything weaker. -/
theorem Returns.mono {Q' : α → σ → Prop} (hx : Returns h x s Q) (hQ : ∀ a s', Q a s' → Q' a s') :
    Returns h x s Q' := by
  obtain ⟨a, s', hrun, ha⟩ := hx
  exact ⟨a, s', hrun, hQ a s' ha⟩

/-- In sequence: what holds in between is what the second part starts from. -/
theorem Returns.bind {f : α → Prog C β} {Q' : β → σ → Prop} (hx : Returns h x s Q)
    (hf : ∀ a s', Q a s' → Returns h (f a) s' Q') : Returns h (x >>= f) s Q' := by
  obtain ⟨a, s', hrun, ha⟩ := hx
  obtain ⟨b, s'', hrun', hb⟩ := hf a s' ha
  exact ⟨b, s'', (run_bind_of_ok h hrun).trans hrun', hb⟩

/-- After a first part that succeeds, the rest returns what the whole does. -/
theorem Returns.bind_run {f : α → Prog C β} {a : α} {s' : σ} {Q' : β → σ → Prop}
    (hx : run h x s = (.ok a, s')) (hf : Returns h (f a) s' Q') : Returns h (x >>= f) s Q' := by
  obtain ⟨b, s'', hrun, hb⟩ := hf
  exact ⟨b, s'', (run_bind_of_ok h hx).trans hrun, hb⟩

end Run

/-! ## Partial correctness under an invariant -/

/-- From every state with the invariant `I`: a run keeps `I`, and the result, if there is one,
    has `Q`. -/
def Yields {σ : Type v} {ε : Type} (h : Handler C σ ε) (I : σ → Prop) (x : Prog C α)
    (Q : α → Prop) : Prop :=
  ∀ s, I s → I (run h x s).2 ∧ ∀ a, (run h x s).1 = .ok a → Q a

section Yields

variable {σ : Type v} {ε : Type} {h : Handler C σ ε} {I : σ → Prop} {x : Prog C α}
  {Q : α → Prop}

/-- A value yields itself. -/
theorem Yields.pure {a : α} (hQ : Q a) : Yields h I (Pure.pure a) Q := by
  intro s hs
  refine ⟨hs, fun b hb => ?_⟩
  cases hb
  exact hQ

/-- A command yields what the handler gives when it keeps the invariant. -/
theorem Yields.perform {c : C α}
    (hc : ∀ s, I s → I (h c s).2 ∧ ∀ a, (h c s).1 = .ok a → Q a) : Yields h I (perform c) Q := by
  intro s hs
  rw [run_perform]
  exact hc s hs

/-- What yields something yields anything weaker. -/
theorem Yields.mono {Q' : α → Prop} (hx : Yields h I x Q) (hQ : ∀ a, Q a → Q' a) :
    Yields h I x Q' := by
  intro s hs
  have hrun := hx s hs
  exact ⟨hrun.1, fun a ha => hQ a (hrun.2 a ha)⟩

/-- In sequence: the second part may rely on what the first one's result has. -/
theorem Yields.bind {f : α → Prog C β} {Q' : β → Prop} (hx : Yields h I x Q)
    (hf : ∀ a, Q a → Yields h I (f a) Q') : Yields h I (x >>= f) Q' := by
  intro s hs
  have hrun := hx s hs
  rw [run_bind]
  rcases hxs : run h x s with ⟨e | a, s'⟩
  · rw [hxs] at hrun
    exact ⟨hrun.1, fun b hb => nomatch hb⟩
  · rw [hxs] at hrun
    exact hf a (hrun.2 a rfl) s' hrun.1

end Yields

/-! ## The commands a program may issue -/

/-- Every command the program may issue, whatever the replies, satisfies `P`. -/
def Issues (P : ∀ β : Type, C β → Prop) : Prog C α → Prop
  | .pure _ => True
  | .op c k => P _ c ∧ ∀ b, Issues P (k b)

section Issues

variable {P : ∀ β : Type, C β → Prop}

/-- What holds of every command holds of those a program issues. -/
theorem Issues.of_forall (h : ∀ (β : Type) (c : C β), P β c) (x : Prog C α) : Issues P x := by
  induction x with
  | pure a => trivial
  | op c k ih => exact ⟨h _ c, ih⟩

/-- One command issues itself. -/
theorem Issues.perform {c : C α} (hc : P α c) : Issues P (Prog.perform c) := ⟨hc, fun _ => trivial⟩

/-- A sequence issues what its parts issue. -/
theorem Issues.bind {x : Prog C α} {f : α → Prog C β} (hx : Issues P x)
    (hf : ∀ a, Issues P (f a)) : Issues P (x >>= f) := by
  induction x with
  | pure a => exact hf a
  | op c k ih => exact ⟨hx.1, fun b => ih b (hx.2 b)⟩

/-- A program that issues some commands issues these among more. -/
theorem Issues.mono {Q : ∀ β : Type, C β → Prop} {x : Prog C α} (hx : Issues P x)
    (h : ∀ (β : Type) (c : C β), P β c → Q β c) : Issues Q x := by
  induction x with
  | pure a => trivial
  | op c k ih => exact ⟨h _ c hx.1, fun b => ih b (hx.2 b)⟩

/-- The frame rule: a preorder on states that every issued command follows, a run follows. -/
theorem Issues.run_rel {σ : Type v} {ε : Type} (h : Handler C σ ε) (R : σ → σ → Prop)
    (hrefl : ∀ s, R s s) (htrans : ∀ {a b c}, R a b → R b c → R a c)
    (hstep : ∀ (β : Type) (c : C β) (s : σ), P β c → R s (h c s).2) {x : Prog C α}
    (hx : Issues P x) (s : σ) : R s (run h x s).2 := by
  induction x generalizing s with
  | pure a => exact hrefl s
  | op c k ih =>
    have hc := hstep _ c s hx.1
    unfold run
    rcases hcs : h c s with ⟨e | b, s'⟩
    · rw [hcs] at hc
      exact hc
    · rw [hcs] at hc
      exact htrans hc (ih b (hx.2 b) s')

end Issues

end Prog

end Semnav.ForStd
