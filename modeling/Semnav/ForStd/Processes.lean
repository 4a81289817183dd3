import Mathlib.Logic.Function.Basic
import Mathlib.Data.List.Basic

/-!
# Processes that share a state

Any number of processes that take their steps in any order.  A step reads and writes what the
processes share and moves the process that takes it.

## Key results

- `Processes.Runs.invariant`: what every step keeps holds after every run
- `Processes.Runs.everyone`: an assertion of each process that its own steps make true and that
  the steps of the others do not break
- `Processes.Runs.of_exec`: the executable form of a run
-/

namespace Semnav.ForStd

universe u v w x

/-- What all processes share, and where each of them is. -/
structure Processes (ι : Type u) (σ : Type v) (pc : Type w) where
  shared : σ
  procs : ι → pc

namespace Processes

variable {ι : Type u} {σ : Type v} {pc : Type w} {ε : Type x} [DecidableEq ι]

/-- The state after process `i` has moved to `l` and left `s` behind. -/
def after (P : Processes ι σ pc) (i : ι) (s : σ) (l : pc) : Processes ι σ pc :=
  ⟨s, Function.update P.procs i l⟩

/-- A step changes what is shared to its result. -/
@[simp] theorem after_shared (P : Processes ι σ pc) (i : ι) (s : σ) (l : pc) :
    (P.after i s l).shared = s := rfl

/-- A move changes its own process. -/
@[simp] theorem after_self (P : Processes ι σ pc) (i : ι) (s : σ) (l : pc) :
    (P.after i s l).procs i = l := by
  show Function.update P.procs i l i = l
  exact Function.update_self i l P.procs

/-- A move changes no other process. -/
theorem after_of_ne (P : Processes ι σ pc) {i j : ι} (s : σ) (l : pc) (hji : j ≠ i) :
    (P.after i s l).procs j = P.procs j := by
  show Function.update P.procs i l j = P.procs j
  exact Function.update_of_ne hji l P.procs

/-- Process `i` takes the step `e`, if it can. -/
def step (move : ι → ε → σ → pc → Option (σ × pc)) (P : Processes ι σ pc) (i : ι) (e : ε) :
    Option (Processes ι σ pc) :=
  (move i e P.shared (P.procs i)).map fun sl => P.after i sl.1 sl.2

variable {move : ι → ε → σ → pc → Option (σ × pc)} {P Q R : Processes ι σ pc}

/-- A step is a move of its process. -/
theorem step_eq_some {i : ι} {e : ε} (hstep : P.step move i e = some Q) :
    ∃ s l, move i e P.shared (P.procs i) = some (s, l) ∧ Q = P.after i s l := by
  obtain ⟨sl, hmove, rfl⟩ := Option.map_eq_some_iff.mp hstep
  exact ⟨sl.1, sl.2, hmove, rfl⟩

/-- A run by the steps it took, each of which `ok` admits in the state before it. -/
inductive Runs (move : ι → ε → σ → pc → Option (σ × pc)) (ok : Processes ι σ pc → ι → ε → Prop)
    (P : Processes ι σ pc) : List (ι × ε) → Processes ι σ pc → Prop where
  | nil : Runs move ok P [] P
  | snoc {events : List (ι × ε)} {Q R : Processes ι σ pc} {i : ι} {e : ε}
      (hrun : Runs move ok P events Q) (hok : ok Q i e) (hstep : Q.step move i e = some R) :
      Runs move ok P (events ++ [(i, e)]) R

/-- Every step is admitted. -/
def anyStep (_ : Processes ι σ pc) (_ : ι) (_ : ε) : Prop := True

instance (Q : Processes ι σ pc) (i : ι) (e : ε) : Decidable (anyStep Q i e) :=
  inferInstanceAs (Decidable True)

variable {ok : Processes ι σ pc → ι → ε → Prop} {events : List (ι × ε)}

/-- What every admitted step keeps holds after every run. -/
theorem Runs.invariant {I : Processes ι σ pc → Prop} (hrun : Runs move ok P events Q) (hP : I P)
    (hI : ∀ S i e s l, I S → ok S i e → move i e S.shared (S.procs i) = some (s, l) →
      I (S.after i s l)) : I Q := by
  induction hrun with
  | nil => exact hP
  | snoc _ hadm hstep ih =>
    obtain ⟨s, l, hmove, rfl⟩ := step_eq_some hstep
    exact hI _ _ _ s l ih hadm hmove

/-- An assertion of each process under an invariant: a process's own step makes it true, and the
    step of another one does not break it. -/
theorem Runs.everyone {I : Processes ι σ pc → Prop} {T : Processes ι σ pc → ι → Prop}
    (hrun : Runs move ok P events Q) (hI : I P) (hT : ∀ j, T P j)
    (keeps : ∀ S i e s l, I S → ok S i e →
      move i e S.shared (S.procs i) = some (s, l) → I (S.after i s l))
    (own : ∀ S i e s l, I S → ok S i e → T S i → move i e S.shared (S.procs i) = some (s, l) →
      T (S.after i s l) i)
    (other : ∀ S i e s l j, I S → ok S i e → T S j → j ≠ i →
      move i e S.shared (S.procs i) = some (s, l) → T (S.after i s l) j) :
    I Q ∧ ∀ j, T Q j := by
  apply hrun.invariant (I := fun S => I S ∧ ∀ j, T S j) ⟨hI, hT⟩
  intro S i e s l hS hadm hmove
  refine ⟨keeps S i e s l hS.1 hadm hmove, fun j => ?_⟩
  by_cases hji : j = i
  · subst hji
    exact own S j e s l hS.1 hadm (hS.2 j) hmove
  · exact other S i e s l j hS.1 hadm (hS.2 j) hji hmove

/-- The steps one after the other, as long as `ok` admits them. -/
def exec (move : ι → ε → σ → pc → Option (σ × pc)) (ok : Processes ι σ pc → ι → ε → Prop)
    [∀ S i e, Decidable (ok S i e)] (P : Processes ι σ pc) :
    List (ι × ε) → Option (Processes ι σ pc)
  | [] => some P
  | (i, e) :: events =>
    if ok P i e then (P.step move i e).bind fun Q => exec move ok Q events else none

/-- A step before a run is a run. -/
theorem Runs.cons {i : ι} {e : ε} (hok : ok P i e) (hstep : P.step move i e = some Q)
    (hrun : Runs move ok Q events R) : Runs move ok P ((i, e) :: events) R := by
  induction hrun with
  | nil => exact .snoc .nil hok hstep
  | snoc _ hadm hlast ih => exact .snoc ih hadm hlast

/-- An execution is a run. -/
theorem Runs.of_exec [∀ S i e, Decidable (ok S i e)] (hexec : exec move ok P events = some Q) :
    Runs move ok P events Q := by
  induction events generalizing P with
  | nil =>
    obtain rfl := Option.some.inj hexec
    exact .nil
  | cons ie events ih =>
    obtain ⟨i, e⟩ := ie
    simp only [exec] at hexec
    split at hexec
    next hok =>
      obtain ⟨S, hstep, hrest⟩ := Option.bind_eq_some_iff.mp hexec
      exact .cons hok hstep (ih hrest)
    next => exact nomatch hexec

/-- What can be read off the end of an executed run. -/
theorem Runs.exists_of_exec {β : Type*} [∀ S i e, Decidable (ok S i e)]
    {f : Processes ι σ pc → β} {b : β} (hexec : (exec move ok P events).map f = some b) :
    ∃ Q, Runs move ok P events Q ∧ f Q = b := by
  obtain ⟨Q, hQ, hf⟩ := Option.map_eq_some_iff.mp hexec
  exact ⟨Q, .of_exec hQ, hf⟩

end Processes

end Semnav.ForStd
