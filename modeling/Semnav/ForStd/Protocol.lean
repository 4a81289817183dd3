import Semnav.ForStd.Tasks

/-!
# Programs under a protocol

What a program does to a state beside it, whatever its environment replies: a relation says
which replies a command may get and what the state is then.  `Prog.Obeys` is partial correctness
of a program over such a relation, with a condition under which each command may be issued.

## Key results

- `Prog.Obeys.bind`: the rule for sequencing
- `Prog.Steps.obeys`: along its steps an obeying program obeys, up to its postcondition
- `Prog.Steps.of_run`: the steps of a run with a handler
-/

namespace Semnav.ForStd.Prog

universe u v

variable {C : Type → Type u} {α β : Type} {G : Type v}

/-- What is asked of a program: the replies that a command may get with the state afterwards, and
    when the command may be issued. -/
structure Protocol (C : Type → Type u) (G : Type v) where
  replies : ∀ {β : Type}, G → C β → β → G → Prop
  allowed : ∀ {β : Type}, G → C β → Prop

variable {P : Protocol C G}

/-- Each command is allowed when it is issued; at the end the result and the state have `Q`. -/
def Obeys (P : Protocol C G) (Q : α → G → Prop) : Prog C α → G → Prop
  | .pure a, g => Q a g
  | .op c k, g => P.allowed g c ∧ ∀ b g', P.replies g c b g' → Obeys P Q (k b) g'

@[simp] theorem obeys_pure {Q : α → G → Prop} {a : α} {g : G} :
    Obeys P Q (Pure.pure a : Prog C α) g ↔ Q a g := Iff.rfl

theorem Obeys.perform {Q : α → G → Prop} {c : C α} {g : G} (hc : P.allowed g c)
    (hQ : ∀ a g', P.replies g c a g' → Q a g') : Obeys P Q (perform c) g := ⟨hc, hQ⟩

/-- In sequence. -/
theorem Obeys.bind {Q : α → G → Prop} {Q' : β → G → Prop} {x : Prog C α} {f : α → Prog C β} {g : G}
    (hx : Obeys P Q x g) (hf : ∀ a g', Q a g' → Obeys P Q' (f a) g') : Obeys P Q' (x >>= f) g := by
  induction x generalizing g with
  | pure a => exact hf a g hx
  | op c k ih => exact ⟨hx.1, fun b g' hb => ih b (hx.2 b g' hb)⟩

/-- A weaker postcondition. -/
theorem Obeys.mono {Q Q' : α → G → Prop} {x : Prog C α} {g : G} (hx : Obeys P Q x g)
    (hQ : ∀ a g', Q a g' → Q' a g') : Obeys P Q' x g := by
  induction x generalizing g with
  | pure a => exact hQ a g hx
  | op c k ih => exact ⟨hx.1, fun b g' hb => ih b (hx.2 b g' hb)⟩

/-- Two postconditions. -/
theorem Obeys.and {Q Q' : α → G → Prop} {x : Prog C α} {g : G} (hx : Obeys P Q x g)
    (hx' : Obeys P Q' x g) : Obeys P (fun a g => Q a g ∧ Q' a g) x g := by
  induction x generalizing g with
  | pure a => exact ⟨hx, hx'⟩
  | op c k ih => exact ⟨hx.1, fun b g' hb => ih b (hx.2 b g' hb) (hx'.2 b g' hb)⟩

/-- A command, then the rest. -/
theorem obeys_perform_bind {Q : β → G → Prop} {c : C α} {f : α → Prog C β} {g : G} :
    Obeys P Q (Prog.perform c >>= f) g ↔
      P.allowed g c ∧ ∀ a g', P.replies g c a g' → Obeys P Q (f a) g' := Iff.rfl

/-- The first of two programs in sequence leaves a state from which the second one obeys. -/
theorem Obeys.of_bind {Q : β → G → Prop} {x : Prog C α} {f : α → Prog C β} {g : G}
    (h : Obeys P Q (x >>= f) g) : Obeys P (fun a g' => Obeys P Q (f a) g') x g := by
  induction x generalizing g with
  | pure a => exact h
  | op c k ih => exact ⟨h.1, fun b g' hb => ih b (h.2 b g' hb)⟩

/-- The program takes some steps, with the state beside it. -/
inductive Steps (P : Protocol C G) : Prog C α → G → Prog C α → G → Prop where
  | refl (x : Prog C α) (g : G) : Steps P x g x g
  | step {γ : Type} {c : C γ} {k : γ → Prog C α} {g g' g'' : G} {b : γ} {y : Prog C α}
      (hb : P.replies g c b g') (hrest : Steps P (k b) g' y g'') : Steps P (.op c k) g y g''

/-- An obeying program goes on to obey, up to its end. -/
theorem Steps.obeys {Q : α → G → Prop} {x y : Prog C α} {g g' : G} (h : Steps P x g y g')
    (hx : Obeys P Q x g) : Obeys P Q y g' := by
  induction h with
  | refl => exact hx
  | step hb _ ih => exact ih (hx.2 _ _ hb)

/-- A run with a handler that replies as the protocol says. -/
theorem Steps.of_run {ε : Type} {h : Handler C G ε}
    (hreplies : ∀ {γ : Type} (c : C γ) (g g' : G) (b : γ), h c g = (.ok b, g') → P.replies g c b g')
    {x : Prog C α} {g g' : G} {a : α} (hrun : run h x g = (.ok a, g')) :
    Steps P x g (Pure.pure a) g' := by
  induction x generalizing g with
  | pure b =>
    cases hrun
    exact .refl _ _
  | op c k ih =>
    unfold run at hrun
    rcases hc : h c g with ⟨e | b, s'⟩
    · simp [hc] at hrun
    · simp only [hc] at hrun
      exact .step (hreplies c g s' b hc) (ih b hrun)

/-- The end of such a run has the postcondition. -/
theorem Obeys.of_run {ε : Type} {h : Handler C G ε}
    (hreplies : ∀ {γ : Type} (c : C γ) (g g' : G) (b : γ), h c g = (.ok b, g') → P.replies g c b g')
    {Q : α → G → Prop} {x : Prog C α} {g g' : G} {a : α} (hx : Obeys P Q x g)
    (hrun : run h x g = (.ok a, g')) : Q a g' :=
  (Steps.of_run hreplies hrun).obeys hx

/-! ## A handler as a protocol -/

/-- Every command gets the reply of the handler. -/
def Protocol.ofHandler {ε : Type} (h : Handler C G ε) (allowed : ∀ {β : Type}, G → C β → Prop) :
    Protocol C G where
  replies := fun g c b g' => h c g = (.ok b, g')
  allowed := allowed

/-- Under the protocol of a handler there is one run to look at. -/
def decidableObeys {ε : Type} (h : Handler C G ε) (allowed : ∀ {β : Type}, G → C β → Prop)
    [∀ {β : Type} (g : G) (c : C β), Decidable (allowed g c)] {Q : α → G → Prop}
    [∀ a g, Decidable (Q a g)] : (x : Prog C α) → (g : G) →
      Decidable (Obeys (.ofHandler h allowed) Q x g)
  | .pure a, g => inferInstanceAs (Decidable (Q a g))
  | .op c k, g =>
    match hc : h c g with
    | (.ok b, g') =>
      have := decidableObeys h allowed (Q := Q) (k b) g'
      decidable_of_iff (allowed g c ∧ Obeys (.ofHandler h allowed) Q (k b) g')
        (and_congr_right fun _ => ⟨fun hrest b' g'' hb => by
          obtain ⟨rfl, rfl⟩ : b = b' ∧ g' = g'' := by simpa using hc.symm.trans hb
          exact hrest, fun hrest => hrest b g' hc⟩)
    | (.error e, g') =>
      decidable_of_iff (allowed g c) ⟨fun ha => ⟨ha, fun b g'' hb => by
        have := hc.symm.trans hb
        simp at this⟩, fun ho => ho.1⟩

end Semnav.ForStd.Prog
