import Semnav.ForStd.Interleaving

/-!
# Outcomes of a program among others

What a program may end in when its commands are not functions of the state: others act between
two commands, a peer may answer this or that, an order is not fixed.  A relation says what a
command may do, and `Prog.Outcome` what the program may.

## Key results

- `Prog.Outcome.of_bind`: an outcome of a composed program is one of its first part, then one of
  its second
- `Prog.Outcome.keeps`: what every command keeps that the program issues, an outcome keeps
- `Prog.Outcome.of_run`: a run is an outcome
-/

namespace Semnav.ForStd

universe u v

/-- What a command may do in a state: a reply or an error, and the state afterwards. -/
abbrev Effects (C : Type → Type u) (σ : Type v) (ε : Type) :=
  ∀ β : Type, C β → σ → Except ε β → σ → Prop

namespace Prog

variable {C : Type → Type u} {σ : Type v} {ε α β : Type} {may : Effects C σ ε}

/-- What a program may end in; the first error ends it. -/
inductive Outcome (may : Effects C σ ε) : Prog C α → σ → Except ε α → σ → Prop where
  | pure (a : α) (s : σ) : Outcome may (.pure a) s (.ok a) s
  | reply {γ : Type} {c : C γ} {k : γ → Prog C α} {s s' s'' : σ} {b : γ} {r : Except ε α}
      (hc : may γ c s (.ok b) s') (hk : Outcome may (k b) s' r s'') :
      Outcome may (.op c k) s r s''
  | fail {γ : Type} {c : C γ} {k : γ → Prog C α} {s s' : σ} {e : ε}
      (hc : may γ c s (.error e) s') : Outcome may (.op c k) s (.error e) s'

namespace Outcome

variable {x : Prog C α} {f : α → Prog C β} {s s' s'' : σ}

theorem of_pure {a : α} {r : Except ε α} (h : Outcome may (Pure.pure a) s r s') :
    r = .ok a ∧ s' = s := by
  cases h
  exact ⟨rfl, rfl⟩

theorem of_perform {c : C α} {r : Except ε α} (h : Outcome may (perform c) s r s') :
    may α c s r s' := by
  cases h with
  | reply hc hk =>
    obtain ⟨rfl, rfl⟩ := hk.of_pure
    exact hc
  | fail hc => exact hc

/-- In sequence: the first part fails, or the second one follows it. -/
theorem of_bind {r : Except ε β} (h : Outcome may (x >>= f) s r s'') :
    (∃ e, r = .error e ∧ Outcome may x s (.error e) s'') ∨
      ∃ a s', Outcome may x s (.ok a) s' ∧ Outcome may (f a) s' r s'' := by
  induction x generalizing s with
  | pure a => exact .inr ⟨a, s, .pure a s, h⟩
  | op c k ih =>
    cases h with
    | fail hc => exact .inl ⟨_, rfl, .fail hc⟩
    | reply hc hk =>
      cases ih _ hk with
      | inl hfail =>
        obtain ⟨e, hr, hx⟩ := hfail
        exact .inl ⟨e, hr, .reply hc hx⟩
      | inr hrest =>
        obtain ⟨a, s', hx, hf⟩ := hrest
        exact .inr ⟨a, s', .reply hc hx, hf⟩

/-- In sequence, to an end without an error. -/
theorem of_bind_ok {b : β} (h : Outcome may (x >>= f) s (.ok b) s'') :
    ∃ a s', Outcome may x s (.ok a) s' ∧ Outcome may (f a) s' (.ok b) s'' := by
  cases h.of_bind with
  | inl hfail =>
    obtain ⟨e, he, -⟩ := hfail
    exact nomatch he
  | inr hrest => exact hrest

/-- A command, then the rest. -/
theorem of_perform_bind {c : C α} {r : Except ε β} (h : Outcome may (perform c >>= f) s r s'') :
    (∃ e, r = .error e ∧ may α c s (.error e) s'') ∨
      ∃ a s', may α c s (.ok a) s' ∧ Outcome may (f a) s' r s'' := by
  cases h.of_bind with
  | inl hfail =>
    obtain ⟨e, hr, hc⟩ := hfail
    exact .inl ⟨e, hr, hc.of_perform⟩
  | inr hrest =>
    obtain ⟨a, s', hc, hf⟩ := hrest
    exact .inr ⟨a, s', hc.of_perform, hf⟩

/-- Every command keeps `I` that the program issues, as long as the replies are good: so does
    the program, and its result is as `Under` says. -/
theorem keeps {ok : Exchange C → Prop} {P : ∀ β : Type, C β → Prop} {Q : α → Prop}
    (hx : Under ok P Q x) {I : σ → Prop}
    (hok : ∀ (γ : Type) (c : C γ) (s s' : σ) (b : γ), P γ c → I s → may γ c s (.ok b) s' →
      ok ⟨c, b⟩ ∧ I s')
    (herror : ∀ (γ : Type) (c : C γ) (s s' : σ) (e : ε), P γ c → I s → may γ c s (.error e) s' →
      I s')
    {r : Except ε α} (h : Outcome may x s r s') (hI : I s) :
    I s' ∧ ∀ a, r = .ok a → Q a := by
  induction h with
  | pure a s =>
    refine ⟨hI, fun b hb => ?_⟩
    cases hb
    exact hx
  | reply hc hk ih =>
    obtain ⟨hgood, hI'⟩ := hok _ _ _ _ _ hx.1 hI hc
    exact ih (hx.2 _ hgood) hI'
  | fail hc => exact ⟨herror _ _ _ _ _ hx.1 hI hc, fun a ha => nomatch ha⟩

/-- A run by a handler that does what the commands may do, in the states that it gets to. -/
theorem of_run {h : Handler C σ ε} {I : σ → Prop}
    (hmay : ∀ (γ : Type) (c : C γ) (s : σ), I s → may γ c s (h c s).1 (h c s).2 ∧ I (h c s).2)
    (x : Prog C α) (hs : I s) : Outcome may x s (run h x s).1 (run h x s).2 := by
  induction x generalizing s with
  | pure a => exact .pure a s
  | op c k ih =>
    have hc := hmay _ c s hs
    unfold run
    rcases hcs : h c s with ⟨e | b, s'⟩
    · rw [hcs] at hc
      exact .fail hc.1
    · rw [hcs] at hc
      exact .reply hc.1 (ih b hc.2)

end Outcome

end Prog

end Semnav.ForStd
