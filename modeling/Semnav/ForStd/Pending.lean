import Semnav.ForStd.Interleaving

/-!
# What a task is still going to do

A program may come to issue a command of one kind before an exchange of another kind
(`Prog.MayIssue`).  So a task that holds a reference may come to use it before it looks it up
again, and a run stays clear of dangling references if nobody takes away what a task in flight
still needs.

## Key results

- `AwareReaches.guarded`: an invariant of the state alone
- `AwareReaches.invariant`: an invariant of the state and of what is left of the tasks
- `AwareReaches.needed_alive`: what the tasks of a run need stays there
- `AwareReaches.returns`: so no task of such a run fails, and each may run to its end
- `AwareReaches.advance`: one task taking its next steps is a run
- `AwareReaches.observed`: an observer that keeps an account of a run does not disturb it
-/

namespace Semnav.ForStd

universe u v

namespace Prog

variable {C : Type → Type u} {α β : Type}

/-- The program may come to issue a command with `hit`, with no exchange with `stop` before it. -/
def MayIssue (hit : ∀ β : Type, C β → Prop) (stop : Exchange C → Prop) : Prog C α → Prop
  | .pure _ => False
  | .op c k => hit _ c ∨ ∃ b, ¬ stop ⟨c, b⟩ ∧ MayIssue hit stop (k b)

theorem MayIssue.mono {hit hit' : ∀ β : Type, C β → Prop} {stop : Exchange C → Prop}
    {x : Prog C α} (hx : MayIssue hit stop x) (h : ∀ (β : Type) (c : C β), hit β c → hit' β c) :
    MayIssue hit' stop x := by
  induction x with
  | pure a => exact hx
  | op c k ih =>
    cases hx with
    | inl hhit => exact .inl (h _ _ hhit)
    | inr hlater =>
      obtain ⟨b, hb, hrest⟩ := hlater
      exact .inr ⟨b, hb, ih b hrest⟩

/-- A program that has issued the command, with no such exchange before, may issue it. -/
theorem MayIssue.of_path (hit : ∀ β : Type, C β → Prop) (stop : Exchange C → Prop) {x y : Prog C α}
    {pre post : List (Exchange C)} {e : Exchange C} (hpath : Path x (pre ++ e :: post) y)
    (hhit : hit e.β e.cmd) (hpre : ∀ e' ∈ pre, ¬ stop e') : MayIssue hit stop x := by
  induction pre generalizing x with
  | nil =>
    cases hpath with
    | cons b hrest => exact .inl hhit
  | cons first pre ih =>
    cases hpath with
    | cons b hrest =>
      exact .inr ⟨b, hpre _ List.mem_cons_self,
        ih hrest fun e' he' => hpre e' (List.mem_cons_of_mem _ he')⟩

/-- A first part that is left out where what it brings is there already. -/
theorem Under.unless {ok : Exchange C → Prop} {P : ∀ β : Type, C β → Prop} {Q : β → Prop}
    {R c : Prop} [Decidable c] {x : Prog C α} {y : Prog C β} (hx : c → Under ok P (fun _ => R) x)
    (hc : ¬ c → R) (hy : R → Under ok P Q y) :
    Under ok P Q (if c then x >>= fun _ => y else y) := by
  split
  · exact Under.bind (hx ‹_›) fun _ => hy
  · exact hy (hc ‹_›)

/-! ## References -/

section References

variable {I : Type} (refs : I → ∀ β : Type, C β → Prop) (gives : I → Exchange C → Prop)

/-- The program uses references in `K` only, as long as it is given no others. -/
abbrev UsesOnly (K : I → Prop) (Q : α → Prop) (x : Prog C α) : Prop :=
  Under (fun e => ∀ i, gives i e → K i) (fun β c => ∀ i, refs i β c → K i) Q x

variable {refs gives}

/-- Whatever else it is given, a program uses no reference before it is given it. -/
theorem mayIssue_of_usesOnly {x : Prog C α} {Q : α → Prop} (K : I → Prop)
    (hx : ∀ K', (∀ i, K i → K' i) → UsesOnly refs gives K' Q x) {i : I}
    (hmay : MayIssue (refs i) (gives i) x) : K i := by
  induction x generalizing K with
  | pure a => exact absurd hmay id
  | op c k ih =>
    cases hmay with
    | inl hhit => exact (hx K fun _ => id).1 i hhit
    | inr hlater =>
      obtain ⟨b, hgiven, hrest⟩ := hlater
      -- From the reply on, the program may use what the reply gave it.
      have hk := ih b (fun i => K i ∨ gives i ⟨c, b⟩) (fun K' hK' =>
        (hx K' fun i hi => hK' i (.inl hi)).2 b fun i hi => hK' i (.inr hi)) hrest
      exact hk.resolve_right hgiven

/-- A program that uses only what it has been given needs nothing at its start. -/
theorem not_mayIssue_of_usesOnly {x : Prog C α} {Q : α → Prop}
    (hx : ∀ K, UsesOnly refs gives K Q x) (i : I) : ¬ MayIssue (refs i) (gives i) x :=
  mayIssue_of_usesOnly (fun _ => False) fun K _ => hx K

end References

end Prog

namespace System

variable {C : Type → Type u} {σ : Type v} {ε ρ : Type}

/-- A step in which the environment may depend on the tasks. -/
def AwareStep (h : Handler C σ ε) (env : List (Task C ρ) → σ → σ → Prop) (may : Prog C ρ → Prop)
    (sys sys' : System C σ ρ) : Prop :=
  Step h (env sys.tasks) may sys sys'

/-- What a run of such steps gets to. -/
abbrev AwareReaches (h : Handler C σ ε) (env : List (Task C ρ) → σ → σ → Prop)
    (may : Prog C ρ → Prop) : System C σ ρ → System C σ ρ → Prop :=
  Relation.ReflTransGen (AwareStep h env may)

variable {h : Handler C σ ε} {env : List (Task C ρ) → σ → σ → Prop} {may : Prog C ρ → Prop}
  {sys sys' : System C σ ρ}

/-- An invariant of the state holds before every step of the environment. -/
theorem AwareReaches.guarded {J : σ → Prop}
    (henv : ∀ tasks s s', env tasks s s' → J s → J s')
    (hkeeps : ∀ {γ : Type} (c : C γ) (s : σ), J s → J (h c s).2)
    (hrun : AwareReaches h env may sys sys') (hJ : J sys.state) :
    AwareReaches h (fun tasks s s' => env tasks s s' ∧ J s) may sys sys' ∧ J sys'.state := by
  induction hrun with
  | refl => exact ⟨.refl, hJ⟩
  | tail _ hstep ih =>
    obtain ⟨ih, hJ⟩ := ih
    cases hstep with
    | env tasks hs => exact ⟨ih.tail (.env tasks ⟨hs, hJ⟩), henv _ _ _ hs hJ⟩
    | start s tasks hx => exact ⟨ih.tail (.start s tasks hx), hJ⟩
    | @reply s s' before after x trace γ c k b hc =>
      -- A served call keeps `J` whatever it does, so the environment is guarded after it too.
      have hs' : (h c s).2 = s' := congrArg Prod.snd hc
      exact ⟨ih.tail (.reply before after x trace k hc), hs' ▸ hkeeps c s hJ⟩
    | @fail s s' before after x trace γ c k e hc =>
      have hs' : (h c s).2 = s' := congrArg Prod.snd hc
      exact ⟨ih.tail (.fail before after x trace k hc), hs' ▸ hkeeps c s hJ⟩

/-- An invariant of the state, and one of what is left of each task: the environment keeps them,
    programs that are started have them, and so does what follows the reply to a command. -/
theorem AwareReaches.invariant {J : σ → Prop} {T : σ → Prog C ρ → Prop}
    (henv : ∀ tasks s s', env tasks s s' → J s → (∀ t ∈ tasks, ∀ x, t.rest = some x → T s x) →
      J s' ∧ ∀ t ∈ tasks, ∀ x, t.rest = some x → T s' x)
    (hmay : ∀ s x, may x → T s x)
    (hreply : ∀ {γ : Type} (c : C γ) (k : γ → Prog C ρ) (s s' : σ) (b : γ), h c s = (.ok b, s') →
      J s → T s (.op c k) → J s' ∧ T s' (k b) ∧ ∀ y, T s y → T s' y)
    (hfail : ∀ {γ : Type} (c : C γ) (s s' : σ) (e : ε), h c s = (.error e, s') →
      J s → J s' ∧ ∀ y, T s y → T s' y)
    (hrun : AwareReaches h env may sys sys') (hJ : J sys.state)
    (hT : ∀ t ∈ sys.tasks, ∀ x, t.rest = some x → T sys.state x) :
    J sys'.state ∧ ∀ t ∈ sys'.tasks, ∀ x, t.rest = some x → T sys'.state x := by
  -- Induction on the run; `T` of the waiting tasks is carried along with `J` of the state.
  induction hrun with
  | refl => exact ⟨hJ, hT⟩
  | tail _ hstep ih =>
    obtain ⟨hJ, hT⟩ := ih
    cases hstep with
    | env tasks hs => exact henv _ _ _ hs hJ hT
    | start s tasks hx =>
      refine ⟨hJ, fun t ht x hrest => ?_⟩
      cases List.mem_append.mp ht with
      | inl hold => exact hT t hold x hrest
      -- The task that starts waits on its first command, which `may` allows.
      | inr hnew =>
        rw [List.mem_singleton.mp hnew] at hrest
        obtain rfl := Option.some.inj hrest
        exact hmay s _ hx
    | @reply s s' before after x trace γ c k b hc =>
      simp only [List.mem_append, List.mem_cons] at hT ⊢
      -- The command keeps `J`, gives `T` of its own rest, and disturbs no other task's `T`.
      obtain ⟨hJ', hk, hothers⟩ := hreply c k s s' b hc hJ (hT _ (.inr (.inl rfl)) _ rfl)
      refine ⟨hJ', fun t ht y hrest => ?_⟩
      rcases ht with ht | rfl | ht
      · exact hothers y (hT t (.inl ht) y hrest)
      · obtain rfl := Option.some.inj hrest
        exact hk
      · exact hothers y (hT t (.inr (.inr ht)) y hrest)
    | @fail s s' before after x trace γ c k e hc =>
      simp only [List.mem_append, List.mem_cons] at hT ⊢
      obtain ⟨hJ', hothers⟩ := hfail c s s' e hc hJ
      refine ⟨hJ', fun t ht y hrest => ?_⟩
      rcases ht with ht | rfl | ht
      · exact hothers y (hT t (.inl ht) y hrest)
      · -- The task that failed has nothing left to run.
        exact nomatch hrest
      · exact hothers y (hT t (.inr (.inr ht)) y hrest)

/-- A task takes its next steps. -/
theorem AwareReaches.advance (before after : List (Task C ρ)) (start : Prog C ρ) {x : Prog C ρ}
    (trace : List (Exchange C)) {s : σ} (n : Nat) :
    AwareReaches h env may ⟨s, before ++ ⟨start, trace, some x⟩ :: after⟩
      ⟨(x.advance h n s).2.2, before ++
        ⟨start, trace ++ (x.advance h n s).1, some (x.advance h n s).2.1⟩ :: after⟩ := by
  induction n generalizing x trace s with
  | zero =>
    simp only [Prog.advance, List.append_nil]
    exact .refl
  | succ n ih =>
    cases x with
    | pure a =>
      simp only [Prog.advance, List.append_nil]
      exact .refl
    | op c k =>
      unfold Prog.advance
      rcases hc : h c s with ⟨e | b, s'⟩
      · simp only [List.append_nil]
        -- The call fails: neither side goes on.
        exact .refl
      · have hrest := ih (x := k b) (trace ++ [⟨c, b⟩]) (s := s')
        rw [List.append_assoc] at hrest
        exact .head (.reply before after start trace k hc) hrest

/-! ## References -/

section References

variable {I : Type} (refs : I → ∀ β : Type, C β → Prop) (gives : I → Exchange C → Prop)

/-- Some task may come to use the reference `i` before it is given it again. -/
def Needed (tasks : List (Task C ρ)) (i : I) : Prop :=
  ∃ t ∈ tasks, ∃ x, t.rest = some x ∧ Prog.MayIssue (refs i) (gives i) x

variable {refs gives} {alive : σ → I → Prop}
  (hkeeps : ∀ {γ : Type} (c : C γ) (s : σ) (i : I), alive s i → alive (h c s).2 i)
  (hgives : ∀ {γ : Type} (c : C γ) (s s' : σ) (b : γ) (i : I), h c s = (.ok b, s') →
    gives i ⟨c, b⟩ → alive s i)
  (henv : ∀ tasks s s' (i : I), env tasks s s' → Needed refs gives tasks i → alive s i → alive s' i)
  (hmay : ∀ x, may x → ∀ i, ¬ Prog.MayIssue (refs i) (gives i) x)

include hkeeps hgives henv hmay in
/-- What the tasks need is there, as long as nobody else takes it away. -/
theorem AwareReaches.needed_alive (hrun : AwareReaches h env may sys sys')
    (hsys : ∀ i, Needed refs gives sys.tasks i → alive sys.state i) :
    ∀ i, Needed refs gives sys'.tasks i → alive sys'.state i := by
  -- A command keeps what is alive.
  have hstays : ∀ {γ : Type} {c : C γ} {s s' : σ} {r : Except ε γ}, h c s = (r, s') →
      ∀ i, alive s i → alive s' i := by
    intro γ c s s' r hc i halive
    have hs' : (h c s).2 = s' := congrArg Prod.snd hc
    exact hs' ▸ hkeeps c s i halive
  have hinv := AwareReaches.invariant (J := fun _ => True)
    (T := fun s x => ∀ i, Prog.MayIssue (refs i) (gives i) x → alive s i)
    (fun tasks s s' hs _ hT => ⟨trivial, fun t ht x hx i hi =>
      henv tasks s s' i hs ⟨t, ht, x, hx, hi⟩ (hT t ht x hx i hi)⟩)
    (fun s x hx i hi => absurd hi (hmay x hx i))
    (fun c k s s' b hc _ hT => ⟨trivial, fun i hi => ?_, fun y hy i hi => hstays hc i (hy i hi)⟩)
    (fun c s s' e hc _ => ⟨trivial, fun y hy i hi => hstays hc i (hy i hi)⟩)
    hrun trivial fun t ht x hx i hi => hsys i ⟨t, ht, x, hx, hi⟩
  · intro i hneeded
    obtain ⟨t, ht, x, hx, hi⟩ := hneeded
    exact hinv.2 t ht x hx i hi
  · by_cases hgiven : gives i ⟨c, b⟩
    · -- The reply itself gave the reference.
      exact hstays hc i (hgives c s s' b i hc hgiven)
    · exact hstays hc i (hT i (.inr ⟨b, hgiven, hi⟩))

variable (hok : ∀ {γ : Type} (c : C γ) (s : σ), (∀ i, refs i γ c → alive s i) →
    ∃ b s', h c s = (.ok b, s'))

include hkeeps hgives hok in
/-- A program all of whose references are alive runs to its end. -/
theorem run_of_alive {x : Prog C ρ} {s : σ}
    (hx : ∀ i, Prog.MayIssue (refs i) (gives i) x → alive s i) :
    ∃ a s', Prog.run h x s = (.ok a, s') := by
  induction x generalizing s with
  | pure a => exact ⟨a, s, rfl⟩
  | op c k ih =>
    obtain ⟨b, s', hc⟩ := hok c s fun i hi => hx i (.inl hi)
    unfold Prog.run
    rw [hc]
    apply ih b
    intro i hi
    -- Each row the rest of the program names is given by this reply or alive before the call.
    have halive : alive s i := by
      by_cases hgiven : gives i ⟨c, b⟩
      · exact hgives c s s' b i hc hgiven
      · exact hx i (.inr ⟨b, hgiven, hi⟩)
    have hkept := hkeeps c s i halive
    rw [hc] at hkept
    exact hkept

include hkeeps hgives henv hmay hok in
/-- No task fails, and each of them, left alone, runs to its end. -/
theorem AwareReaches.returns (hrun : AwareReaches h env may sys sys')
    (hsys : ∀ i, Needed refs gives sys.tasks i → alive sys.state i)
    (halive : ∀ t ∈ sys.tasks, t.rest ≠ none) :
    ∀ t ∈ sys'.tasks, ∃ x, t.rest = some x ∧ ∃ a s', Prog.run h x sys'.state = (.ok a, s') := by
  have hneeded := hrun.needed_alive hkeeps hgives henv hmay hsys
  have hrest : ∀ t ∈ sys'.tasks, t.rest ≠ none := by
    induction hrun with
    | refl => exact halive
    | @tail mid sys' hrun hstep ih =>
      have hmid := AwareReaches.needed_alive hkeeps hgives henv hmay hrun hsys
      have hold := ih hmid
      cases hstep with
      | env tasks hs => exact hold
      | start s tasks hx =>
        intro t ht
        cases List.mem_append.mp ht with
        | inl ht => exact hold t ht
        | inr ht =>
          rw [List.mem_singleton.mp ht]
          exact Option.some_ne_none _
      | reply before after x trace k hc =>
        intro t ht
        simp only [List.mem_append, List.mem_cons] at ht hold
        rcases ht with ht | rfl | ht
        · exact hold t (.inl ht)
        · exact Option.some_ne_none _
        · exact hold t (.inr (.inr ht))
      | @fail s s' before after x trace γ c k e hc =>
        -- The references of the command were alive, so it has succeeded.
        obtain ⟨b, s'', hreply⟩ := hok c s fun i hi =>
          hmid i ⟨_, List.mem_append_right _ List.mem_cons_self, _, rfl, .inl hi⟩
        exact nomatch hreply.symm.trans hc
  intro t ht
  obtain ⟨x, hx⟩ := Option.ne_none_iff_exists'.mp (hrest t ht)
  exact ⟨x, hx, run_of_alive hkeeps hgives hok fun i hi => hneeded i ⟨t, ht, x, hx, hi⟩⟩

end References

/-! ## Observers -/

section Observer

variable {τ : Type v} (note : ∀ {β : Type}, C β → Except ε β → σ → τ → τ)

/-- The handler, with an account of what it was asked and what it replied. -/
def observing (h : Handler C σ ε) : Handler C (σ × τ) ε := fun c s =>
  ((h c s.1).1, (h c s.1).2, note c (h c s.1).1 s.1 s.2)

/-- A step of the observed handler is one of the handler, with a note. -/
theorem observing_eq {β : Type} {c : C β} {s s' : σ × τ} {r : Except ε β}
    (hc : observing note h c s = (r, s')) : h c s.1 = (r, s'.1) ∧ s'.2 = note c r s.1 s.2 := by
  cases hc
  exact ⟨rfl, rfl⟩

/-- The environment does not write the account. -/
def unobserved (env : List (Task C ρ) → σ → σ → Prop) (tasks : List (Task C ρ)) (s s' : σ × τ) :
    Prop :=
  env tasks s.1 s'.1 ∧ s'.2 = s.2

/-- Every run is one with an account. -/
theorem AwareReaches.observed (hrun : AwareReaches h env may sys sys') (t : τ) :
    ∃ t', AwareReaches (observing note h) (unobserved env) may ⟨(sys.state, t), sys.tasks⟩
      ⟨(sys'.state, t'), sys'.tasks⟩ := by
  induction hrun with
  | refl => exact ⟨t, .refl⟩
  | tail _ hstep ih =>
    obtain ⟨t', ih⟩ := ih
    cases hstep with
    | env tasks hs => exact ⟨t', ih.tail (.env tasks ⟨hs, rfl⟩)⟩
    | start s tasks hx => exact ⟨t', ih.tail (.start _ tasks hx)⟩
    | @reply s s' before after x trace γ c k b hc =>
      refine ⟨note c (h c s).1 s t', ih.tail (.reply before after x trace k ?_)⟩
      simp only [observing, hc]
    | @fail s s' before after x trace γ c k e hc =>
      refine ⟨note c (h c s).1 s t', ih.tail (.fail before after x trace k (e := e) ?_)⟩
      simp only [observing, hc]

end Observer

end System

end Semnav.ForStd
