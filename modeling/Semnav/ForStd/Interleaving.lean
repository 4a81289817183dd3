import Mathlib.Data.List.Nodup
import Semnav.ForStd.Tasks

/-!
# The history of an interleaving

A run of concurrent tasks with all exchanges in the order in which they took place, each under
the number of its task.  What a task does may depend on the replies: `Prog.Under`
says which commands it issues as long as the replies have a property, and an invariant of the
state and the history (`System.Ran.invariant`) may rely on it.

## Key results

- `Prog.Under.bind`: the rule for sequencing
- `Prog.Precedes.path`: a command that comes after another kind only
- `System.tagged_nodup`: what tasks tell that tell one thing each
- `System.Ran.progress`: every task follows its program, by its exchanges of the history
- `System.Ran.invariant`: an invariant that every command keeps, of the kind that tasks issue
- `System.Ran.split`: the state in which an exchange of the history took place
- `System.Ran.advance`: one task taking its next steps is a run
-/

namespace Semnav.ForStd

universe u v

namespace Prog

variable {C : Type → Type u} {α β : Type} {ok : Exchange C → Prop} {P : ∀ β : Type, C β → Prop}

/-- As long as the exchanges have `ok`, every command has `P`; and the result has `Q`. -/
def Under (ok : Exchange C → Prop) (P : ∀ β : Type, C β → Prop) (Q : α → Prop) :
    Prog C α → Prop
  | .pure a => Q a
  | .op c k => P _ c ∧ ∀ b, ok ⟨c, b⟩ → Under ok P Q (k b)

/-- A value is under any contract. -/
theorem Under.pure {Q : α → Prop} {a : α} (hQ : Q a) :
    Under ok P Q (Pure.pure a : Prog C α) := hQ

/-- A command is under a contract that allows it. -/
theorem Under.perform {Q : α → Prop} {c : C α} (hc : P α c) (hQ : ∀ a, ok ⟨c, a⟩ → Q a) :
    Under ok P Q (perform c) := ⟨hc, hQ⟩

/-- In sequence: the second part may rely on what the first one's result has. -/
theorem Under.bind {Q : α → Prop} {Q' : β → Prop} {x : Prog C α} {f : α → Prog C β}
    (hx : Under ok P Q x) (hf : ∀ a, Q a → Under ok P Q' (f a)) : Under ok P Q' (x >>= f) := by
  induction x with
  | pure a => exact hf a hx
  | op c k ih => exact ⟨hx.1, fun b hb => ih b (hx.2 b hb)⟩

/-- What a contract says of the result may be weakened. -/
theorem Under.mono {Q Q' : α → Prop} {x : Prog C α} (hx : Under ok P Q x)
    (hQ : ∀ a, Q a → Q' a) : Under ok P Q' x := by
  induction x with
  | pure a => exact hQ a hx
  | op c k ih => exact ⟨hx.1, fun b hb => ih b (hx.2 b hb)⟩

/-- What a program issues whatever the replies, it issues under good ones. -/
theorem Issues.under {x : Prog C α} (hx : Issues P x) : Under ok P (fun _ => True) x := by
  induction x with
  | pure a => trivial
  | op c k ih => exact ⟨hx.1, fun b _ => ih b (hx.2 b)⟩

/-- Along a path of good replies, what is left still is such a program. -/
theorem Under.path {Q : α → Prop} {x y : Prog C α} {trace : List (Exchange C)}
    (hx : Under ok P Q x) (hpath : Path x trace y) (htrace : ∀ e ∈ trace, ok e) :
    Under ok P Q y := by
  induction hpath with
  | nil x => exact hx
  | cons b _ ih =>
    have hb := htrace _ List.mem_cons_self
    exact ih (hx.2 b hb) fun e he => htrace e (List.mem_cons_of_mem _ he)

/-- A composed program that ended went through the end of its first part. -/
theorem Path.of_bind_pure {x : Prog C α} {f : α → Prog C β} {trace : List (Exchange C)} {b : β}
    (h : Path (x >>= f) trace (Pure.pure b)) :
    ∃ first rest a, trace = first ++ rest ∧ Path x first (Pure.pure a) ∧
      Path (f a) rest (Pure.pure b) := by
  cases h.bind_cases with
  | inl h =>
    obtain ⟨y, hpath, hy⟩ := h
    cases y with
    | pure a =>
      refine ⟨trace, [], a, (List.append_nil _).symm, hpath, ?_⟩
      rw [hy]
      exact .nil _
    | op c k => exact nomatch hy
  | inr h => exact h

/-- A single command that ended. -/
theorem Path.of_perform {c : C α} {trace : List (Exchange C)} {a : α}
    (h : Path (perform c) trace (Pure.pure a)) : trace = [⟨c, a⟩] := by
  cases h with
  | cons b h =>
    obtain ⟨rfl, hab⟩ := h.of_pure
    cases hab
    rfl

/-- No command with `second` is issued before one with `first` was. -/
def Precedes (first second : ∀ β : Type, C β → Bool) : Prog C α → Prop
  | .pure _ => True
  | .op c k => second _ c = false ∧ (first _ c = true ∨ ∀ b, Precedes first second (k b))

section Precedes

variable {first second : ∀ β : Type, C β → Bool}

/-- A value issues neither command. -/
theorem Precedes.pure {a : α} : Precedes first second (Pure.pure a : Prog C α) := trivial

/-- A program without the second command has nothing to wait for. -/
theorem Precedes.of_issues {x : Prog C α} (hx : Issues (fun β c => second β c = false) x) :
    Precedes first second x := by
  induction x with
  | pure a => trivial
  | op c k ih => exact ⟨hx.1, .inr fun b => ih b (hx.2 b)⟩

/-- A command with `first`, and then anything. -/
theorem Precedes.perform_bind {c : C α} {f : α → Prog C β} (hfirst : first α c = true)
    (hsecond : second α c = false) : Precedes first second (perform c >>= f) :=
  ⟨hsecond, .inl hfirst⟩

/-- A sequence keeps the order when its parts do. -/
theorem Precedes.bind {x : Prog C α} {f : α → Prog C β} (hx : Precedes first second x)
    (hf : ∀ a, Precedes first second (f a)) : Precedes first second (x >>= f) := by
  induction x with
  | pure a => exact hf a
  | op c k ih =>
    refine ⟨hx.1, ?_⟩
    cases hx.2 with
    | inl hfirst => exact .inl hfirst
    | inr hrest => exact .inr fun b => ih b (hrest b)

/-- A path with a command of the second kind has one of the first kind. -/
theorem Precedes.path {x y : Prog C α} {trace : List (Exchange C)}
    (hx : Precedes first second x) (hpath : Path x trace y)
    (hsecond : ∃ e ∈ trace, second e.β e.cmd = true) :
    ∃ e ∈ trace, first e.β e.cmd = true := by
  induction hpath with
  | nil x =>
    obtain ⟨e, he, -⟩ := hsecond
    exact absurd he List.not_mem_nil
  | cons b _ ih =>
    -- Either this call is of the first kind, or no reply of it leads to a call of the second too
    -- early.
    cases hx.2 with
    | inl hfirst => exact ⟨_, List.mem_cons_self, hfirst⟩
    | inr hrest =>
      obtain ⟨e, he, hsec⟩ := hsecond
      cases List.mem_cons.mp he with
      | inl heq =>
        subst heq
        exact absurd (hsec.symm.trans hx.1) (by decide)
      | inr hold =>
        obtain ⟨e', he', hfirst⟩ := ih (hrest b) ⟨e, hold, hsec⟩
        exact ⟨e', List.mem_cons_of_mem _ he', hfirst⟩

end Precedes

/-- A number of steps, up to the end or an error: the exchanges, what is left, and the state. -/
def advance {σ : Type v} {ε : Type} (h : Handler C σ ε) :
    Nat → Prog C α → σ → List (Exchange C) × Prog C α × σ
  | n + 1, .op c k, s =>
    match h c s with
    | (.ok b, s') =>
      let rest := advance h n (k b) s'
      (⟨c, b⟩ :: rest.1, rest.2)
    | (.error _, _) => ([], .op c k, s)
  | _, x, s => ([], x, s)

end Prog

namespace System

variable {C : Type → Type u} {σ : Type v} {ε ρ : Type}

/-- A run of the tasks from `sys`, with the exchanges in their order, each under the number of its
    task.  In between the environment may change the state. -/
inductive Ran (h : Handler C σ ε) (env : σ → σ → Prop) (sys : System C σ ρ) :
    List (Nat × Exchange C) → System C σ ρ → Prop where
  | refl : Ran h env sys [] sys
  | env {history : List (Nat × Exchange C)} {s s' : σ} {tasks : List (Task C ρ)}
      (hrun : Ran @h env sys history ⟨s, tasks⟩) (hs : env s s') :
      Ran @h env sys history ⟨s', tasks⟩
  | reply {history : List (Nat × Exchange C)} {s s' : σ} {before after : List (Task C ρ)}
      {x : Prog C ρ} {trace : List (Exchange C)} {γ : Type} {c : C γ} {k : γ → Prog C ρ} {b : γ}
      (hrun : Ran @h env sys history ⟨s, before ++ ⟨x, trace, some (.op c k)⟩ :: after⟩)
      (hc : h c s = (.ok b, s')) :
      Ran @h env sys (history ++ [(before.length, ⟨c, b⟩)])
        ⟨s', before ++ ⟨x, trace ++ [⟨c, b⟩], some (k b)⟩ :: after⟩
  | fail {history : List (Nat × Exchange C)} {s s' : σ} {before after : List (Task C ρ)}
      {x : Prog C ρ} {trace : List (Exchange C)} {γ : Type} {c : C γ} {k : γ → Prog C ρ} {e : ε}
      (hrun : Ran @h env sys history ⟨s, before ++ ⟨x, trace, some (.op c k)⟩ :: after⟩)
      (hc : h c s = (.error e, s')) :
      Ran @h env sys history ⟨s', before ++ ⟨x, trace, none⟩ :: after⟩

/-- An environment that changes nothing. -/
def noEnv (_ _ : σ) : Prop := False

/-- The programs, each about to issue its first command. -/
def launch (s : σ) (programs : List (Prog C ρ)) : System C σ ρ :=
  ⟨s, programs.map fun x => ⟨x, [], some x⟩⟩

/-- A task launched has run nothing yet. -/
theorem mem_launch {s : σ} {programs : List (Prog C ρ)} {t : Task C ρ}
    (ht : t ∈ (launch s programs).tasks) : ∃ x ∈ programs, t = ⟨x, [], some x⟩ := by
  obtain ⟨x, hx, rfl⟩ := List.mem_map.mp ht
  exact ⟨x, hx, rfl⟩

/-- The exchanges of one task. -/
def exchangesOf (history : List (Nat × Exchange C)) (i : Nat) : List (Exchange C) :=
  (history.filter (·.1 == i)).map (·.2)

/-- The exchanges of a task are those under its index. -/
theorem mem_exchangesOf {history : List (Nat × Exchange C)} {i : Nat} {e : Exchange C} :
    e ∈ exchangesOf history i ↔ (i, e) ∈ history := by
  simp [exchangesOf]

/-- What the exchanges tell, each under the number of its task. -/
def tagged {γ : Type} (g : Exchange C → Option γ) (history : List (Nat × Exchange C)) :
    List (Nat × γ) :=
  history.filterMap fun x => (g x.2).map fun c => (x.1, c)

section Tagged

variable {γ : Type} {g : Exchange C → Option γ}

/-- What is picked from two parts is picked from each. -/
theorem tagged_append (a b : List (Nat × Exchange C)) :
    tagged g (a ++ b) = tagged g a ++ tagged g b := List.filterMap_append

/-- An exchange that is picked comes first. -/
theorem tagged_cons_some {i : Nat} {e : Exchange C} {c : γ} (he : g e = some c)
    (history : List (Nat × Exchange C)) :
    tagged g ((i, e) :: history) = (i, c) :: tagged g history := by
  simp [tagged, he]

/-- An exchange that is not picked is left out. -/
theorem tagged_cons_none {i : Nat} {e : Exchange C} (he : g e = none)
    (history : List (Nat × Exchange C)) : tagged g ((i, e) :: history) = tagged g history := by
  simp [tagged, he]

/-- What is picked is an exchange of that task. -/
theorem mem_tagged {history : List (Nat × Exchange C)} {i : Nat} {c : γ} :
    (i, c) ∈ tagged g history ↔ ∃ e, (i, e) ∈ history ∧ g e = some c := by
  simp only [tagged, List.mem_filterMap, Option.map_eq_some_iff]
  constructor
  · intro h
    obtain ⟨⟨j, e⟩, hx, c', hc, heq⟩ := h
    cases heq
    exact ⟨e, hx, hc⟩
  · intro h
    obtain ⟨e, hx, hc⟩ := h
    exact ⟨(i, e), hx, c, hc, rfl⟩

/-- What stands at some place was told after what stands before it. -/
theorem tagged_split {history : List (Nat × Exchange C)} {k i : Nat} {c : γ}
    (h : (tagged g history)[k]? = some (i, c)) :
    ∃ pre e post, history = pre ++ (i, e) :: post ∧ g e = some c ∧ (tagged g pre).length = k := by
  -- Induction on the history: an exchange that has no tag does not count.
  induction history generalizing k with
  | nil => exact nomatch h
  | cons x history ih =>
    obtain ⟨j, e⟩ := x
    cases hg : g e with
    | none =>
      rw [tagged_cons_none hg] at h
      obtain ⟨pre, e', post, hhistory, he', hlength⟩ := ih h
      refine ⟨(j, e) :: pre, e', post, ?_, he', ?_⟩
      · rw [hhistory, List.cons_append]
      · rw [tagged_cons_none hg, hlength]
    | some d =>
      rw [tagged_cons_some hg] at h
      -- The first tagged exchange is the one of index 0.
      cases k with
      | zero =>
        cases h
        exact ⟨[], e, history, rfl, hg, rfl⟩
      | succ k =>
        obtain ⟨pre, e', post, hhistory, he', hlength⟩ := ih h
        refine ⟨(j, e) :: pre, e', post, ?_, he', ?_⟩
        · rw [hhistory, List.cons_append]
        · rw [tagged_cons_some hg, List.length_cons, hlength]

/-- What the exchanges of one task tell. -/
theorem length_filter_tagged (history : List (Nat × Exchange C)) (i : Nat) :
    ((tagged g history).filter (·.1 == i)).length =
      ((exchangesOf history i).filterMap g).length := by
  induction history with
  | nil => rfl
  | cons x history ih =>
    obtain ⟨j, e⟩ := x
    cases hg : g e with
    | none =>
      rw [tagged_cons_none hg, ih]
      -- Only an exchange of task `i` counts in both lists.
      by_cases hj : j = i
      · simp [exchangesOf, hj, hg]
      · simp [exchangesOf, hj]
    | some c =>
      rw [tagged_cons_some hg]
      by_cases hj : j = i
      · simp only [exchangesOf] at ih
        simp [exchangesOf, hj, hg, ih]
      · simp only [exchangesOf] at ih
        simp [exchangesOf, hj, ih]

/-- If each task tells one thing at most, no task is there twice. -/
theorem tagged_nodup {history : List (Nat × Exchange C)}
    (hone : ∀ i, ((exchangesOf history i).filterMap g).length ≤ 1) :
    ((tagged g history).map (·.1)).Nodup := by
  rw [List.nodup_iff_count_le_one]
  intro i
  have hcount : ((tagged g history).map (·.1)).count i =
      ((tagged g history).filter (·.1 == i)).length := by
    rw [List.count, List.countP_map, List.countP_eq_length_filter]
    rfl
  rw [hcount, length_filter_tagged]
  exact hone i

end Tagged

variable {h : Handler C σ ε} {env : σ → σ → Prop} {sys sys' : System C σ ρ}
  {history : List (Nat × Exchange C)}

/-- A run beside some environment is one beside a freer one. -/
theorem Ran.mono {env' : σ → σ → Prop} (henv : ∀ s s', env s s' → env' s s')
    (hrun : Ran h env sys history sys') : Ran h env' sys history sys' := by
  induction hrun with
  | refl => exact .refl
  | env hrun hs ih => exact ih.env (henv _ _ hs)
  | reply hrun hc ih => exact ih.reply hc
  | fail hrun hc ih => exact ih.fail hc

/-- One run after another. -/
theorem Ran.trans {mid : System C σ ρ} {later : List (Nat × Exchange C)}
    (hrun : Ran h env sys history mid) (hlater : Ran h env mid later sys') :
    Ran h env sys (history ++ later) sys' := by
  induction hlater with
  | refl =>
    rw [List.append_nil]
    exact hrun
  | env _ hs ih => exact ih.env hs
  | reply _ hc ih =>
    rw [← List.append_assoc]
    exact ih.reply hc
  | fail _ hc ih => exact ih.fail hc

/-- What a task of a run has done: it followed its program, by its exchanges of the history. -/
structure Progress (programs : List (Prog C ρ)) (history : List (Nat × Exchange C)) (i : Nat)
    (t : Task C ρ) : Prop where
  start : programs[i]? = some t.start
  trace : t.trace = exchangesOf history i
  path : ∃ y, Prog.Path t.start t.trace y ∧ ∀ x, t.rest = some x → x = y

/-- Replacing the task in the middle. -/
theorem getElem?_middle {before after : List (Task C ρ)} {t t' u : Task C ρ} {i : Nat}
    (hu : (before ++ t' :: after)[i]? = some u) :
    (i = before.length ∧ u = t') ∨ (i ≠ before.length ∧ (before ++ t :: after)[i]? = some u) := by
  by_cases hi : i = before.length
  · subst hi
    simp only [List.getElem?_append_right (Nat.le_refl _), Nat.sub_self, List.getElem?_cons_zero,
      Option.some.injEq] at hu
    exact .inl ⟨rfl, hu.symm⟩
  · refine .inr ⟨hi, ?_⟩
    rw [← hu]
    by_cases hlt : i < before.length
    · rw [List.getElem?_append_left hlt, List.getElem?_append_left hlt]
    · obtain ⟨j, rfl⟩ : ∃ j, i = before.length + (j + 1) := ⟨i - before.length - 1, by omega⟩
      simp [List.getElem?_append_right]

/-- Each task has made progress. -/
theorem Ran.progress {s : σ} {programs : List (Prog C ρ)}
    (hrun : Ran h env (launch s programs) history sys') {i : Nat} {t : Task C ρ}
    (ht : sys'.tasks[i]? = some t) : Progress programs history i t := by
  induction hrun generalizing i t with
  | refl =>
    rw [launch, List.getElem?_map] at ht
    obtain ⟨x, hx, rfl⟩ := Option.map_eq_some_iff.mp ht
    exact ⟨hx, rfl, x, .nil x, fun y hy => (Option.some.inj hy).symm⟩
  | env hrun hs ih => exact ih ht
  | @reply history s s' before after x trace γ c k b hrun hc ih =>
    -- The reply is the next exchange of task `before.length` and of no other task.
    cases getElem?_middle (t := ⟨x, trace, some (.op c k)⟩) ht with
    | inl h =>
      obtain ⟨rfl, rfl⟩ := h
      obtain ⟨hstart, htrace, y, hpath, hy⟩ := ih (i := before.length)
        (t := ⟨x, trace, some (.op c k)⟩) (by simp)
      obtain rfl := hy _ rfl
      refine ⟨hstart, ?_, k b, hpath.snoc b, fun y hy => (Option.some.inj hy).symm⟩
      simp only [exchangesOf] at htrace ⊢
      simp [htrace]
    | inr h =>
      obtain ⟨hi, hold⟩ := h
      obtain ⟨hstart, htrace, hpath⟩ := ih hold
      refine ⟨hstart, ?_, hpath⟩
      -- The exchange of another task is filtered out of those of `i`.
      rw [htrace, exchangesOf, exchangesOf, List.filter_append]
      simp [Ne.symm hi]
  | @fail history s s' before after x trace γ c k e hrun hc ih =>
    cases getElem?_middle (t := ⟨x, trace, some (.op c k)⟩) ht with
    | inl h =>
      obtain ⟨rfl, rfl⟩ := h
      obtain ⟨hstart, htrace, y, hpath, -⟩ := ih (i := before.length)
        (t := ⟨x, trace, some (.op c k)⟩) (by simp)
      exact ⟨hstart, htrace, y, hpath, fun x hx => nomatch hx⟩
    | inr h => exact ih h.2

/-- An exchange of the history is that of one of the tasks. -/
theorem Ran.exists_task (hrun : Ran h env sys history sys') {i : Nat} {e : Exchange C}
    (he : (i, e) ∈ history) : ∃ t, sys'.tasks[i]? = some t := by
  suffices hlt : i < sys'.tasks.length from ⟨_, List.getElem?_eq_getElem hlt⟩
  induction hrun with
  | refl => exact absurd he List.not_mem_nil
  | env hrun hs ih => exact ih he
  | reply hrun hc ih =>
    cases List.mem_append.mp he with
    | inl hold => simpa using ih hold
    | inr hnew =>
      cases List.mem_singleton.mp hnew
      simp
  | fail hrun hc ih => simpa using ih he

/-- An invariant of the state and the history, and with it the replies that the tasks rely on. -/
theorem Ran.invariant {I : List (Nat × Exchange C) → σ → Prop} {R : Exchange C → Prop}
    {P : ∀ β : Type, C β → Prop} {Q : ρ → Prop} (hrun : Ran h env sys history sys')
    (hreply : ∀ {γ : Type} (history : List (Nat × Exchange C)) (i : Nat) (c : C γ) (s s' : σ)
      (b : γ), I history s → P γ c → h c s = (.ok b, s') →
      R ⟨c, b⟩ ∧ I (history ++ [(i, ⟨c, b⟩)]) s')
    (hfail : ∀ {γ : Type} (history : List (Nat × Exchange C)) (c : C γ) (s s' : σ) (e : ε),
      I history s → P γ c → h c s = (.error e, s') → I history s')
    (henv : ∀ history s s', I history s → env s s' → I history s')
    (hsys : I [] sys.state) (htasks : ∀ t ∈ sys.tasks, ∀ x ∈ t.rest, Prog.Under R P Q x) :
    I history sys'.state ∧ ∀ t ∈ sys'.tasks, ∀ x ∈ t.rest, Prog.Under R P Q x := by
  -- Induction on the run: the invariant gives what the reply relies on, the reply gives it back.
  induction hrun with
  | refl => exact ⟨hsys, htasks⟩
  | env hrun hs ih => exact ⟨henv _ _ _ ih.1 hs, ih.2⟩
  | reply hrun hc ih =>
    obtain ⟨hinv, hunder⟩ := ih
    simp only [List.mem_append, List.mem_cons] at hunder ⊢
    -- The task's program is under the contract, so it only sends what `P` allows,
    obtain ⟨hP, hrest⟩ := hunder _ (.inr (.inl rfl)) _ rfl
    obtain ⟨hok, hinv'⟩ := hreply _ _ _ _ _ _ hinv hP hc
    refine ⟨hinv', fun t ht x hx => ?_⟩
    rcases ht with ht | rfl | ht
    · exact hunder t (.inl ht) x hx
    · cases hx
      -- and goes on under the contract after a reply that is allowed.
      exact hrest _ hok
    · exact hunder t (.inr (.inr ht)) x hx
  | fail hrun hc ih =>
    obtain ⟨hinv, hunder⟩ := ih
    simp only [List.mem_append, List.mem_cons] at hunder ⊢
    have hP := (hunder _ (.inr (.inl rfl)) _ rfl).1
    refine ⟨hfail _ _ _ _ _ hinv hP hc, fun t ht x hx => ?_⟩
    rcases ht with ht | rfl | ht
    · exact hunder t (.inl ht) x hx
    · exact nomatch hx
    · exact hunder t (.inr (.inr ht)) x hx

/-- Each exchange of the history took place in a state that the run was in before. -/
theorem Ran.split (hrun : Ran h env sys history sys') {pre post : List (Nat × Exchange C)}
    {i : Nat} {e : Exchange C} (hhistory : history = pre ++ (i, e) :: post) :
    ∃ mid s', Ran h env sys pre mid ∧ h e.cmd mid.state = (.ok e.reply, s') := by
  induction hrun generalizing post with
  | refl => exact absurd hhistory (by simp)
  | env hrun hs ih => exact ih hhistory
  | @reply history s s' before after x trace γ c k b hrun hc ih =>
    cases List.eq_nil_or_concat post with
    | inl hpost =>
      -- The last exchange is the one.
      subst hpost
      obtain ⟨rfl, hlast⟩ := List.append_inj' hhistory rfl
      cases List.singleton_inj.mp hlast
      exact ⟨_, s', hrun, hc⟩
    | inr hpost =>
      obtain ⟨post', last, rfl⟩ := hpost
      rw [List.concat_eq_append, ← List.cons_append, ← List.append_assoc] at hhistory
      exact ih (List.append_inj' hhistory rfl).1
  | fail hrun hc ih => exact ih hhistory

/-- A task takes its next steps. -/
theorem Ran.advance (before after : List (Task C ρ)) {s : σ} {start x : Prog C ρ}
    {trace : List (Exchange C)}
    (hrun : Ran h env sys history ⟨s, before ++ ⟨start, trace, some x⟩ :: after⟩) (n : Nat) :
    Ran h env sys (history ++ (x.advance h n s).1.map fun e => (before.length, e))
      ⟨(x.advance h n s).2.2, before ++
        ⟨start, trace ++ (x.advance h n s).1, some (x.advance h n s).2.1⟩ :: after⟩ := by
  induction n generalizing history s x trace with
  | zero => simpa [Prog.advance] using hrun
  | succ n ih =>
    cases x with
    | pure a => simpa [Prog.advance] using hrun
    | op c k =>
      unfold Prog.advance
      rcases hc : h c s with ⟨e | b, s'⟩
      · -- The task's call fails: `advance` stops here, and so does the run.
        simpa using hrun
      · have hrest := ih (.reply hrun hc)
        simp only [List.append_assoc, List.singleton_append] at hrest
        exact hrest

end System

end Semnav.ForStd
