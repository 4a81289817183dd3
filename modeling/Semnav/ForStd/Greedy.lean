import Mathlib.Data.List.Sort

/-!
# Greedy choice from a ranked list

Going down a ranked list and taking every candidate that conflicts with none taken
before.  The set taken is characterised without the loop (`IsGreedy`): it is free of
conflicts, and every candidate left out conflicts with a better one that was taken.
Over a strict ranking that set is unique.

## Key results

- `pairwise_insertionSort_stable`: a stable sort ranks ties by their original order
- `greedy_isGreedy`: the loop's result is a greedy choice
- `IsGreedy.unique`: and the only one
-/

namespace Semnav.ForStd

variable {γ : Type*}

/-! ## Stability of insertion sort -/

section Stable

variable (r : γ → γ → Prop) [DecidableRel r] [Std.Total r] [IsTrans γ r]

private theorem pairwise_orderedInsert_stable {s : γ → γ → Prop} (a : γ) :
    ∀ l : List γ, (∀ b ∈ l, s a b) → l.Pairwise (fun x y => r x y ∧ (r y x → s x y)) →
      (l.orderedInsert r a).Pairwise (fun x y => r x y ∧ (r y x → s x y))
  | [], _, _ => List.pairwise_singleton _ a
  | b :: l, hs, hl => by
    obtain ⟨hb, hl'⟩ := List.pairwise_cons.mp hl
    by_cases hab : r a b
    · rw [List.orderedInsert_cons_of_le r l hab, List.pairwise_cons]
      -- The new element goes first: it stands before the head and, by transitivity, before the
      -- rest.
      refine ⟨fun x hx => ⟨?_, fun _ => hs x hx⟩, hl⟩
      rcases List.mem_cons.mp hx with rfl | hx
      · exact hab
      · exact IsTrans.trans _ _ _ hab (hb x hx).1
    · -- It goes past the head, which by totality stands strictly before it.
      have hba : r b a := (total_of r b a).resolve_right hab
      rw [List.orderedInsert_cons, if_neg hab, List.pairwise_cons]
      refine ⟨fun x hx => ?_, pairwise_orderedInsert_stable a l
        (fun x hx => hs x (List.mem_cons_of_mem b hx)) hl'⟩
      rcases (List.mem_orderedInsert r).mp hx with rfl | hx
      · exact ⟨hba, fun h => absurd h hab⟩
      · exact hb x hx

/-- Insertion sort is stable: where the order leaves two elements tied, they come in the
    order they had before. -/
theorem pairwise_insertionSort_stable {s : γ → γ → Prop} :
    ∀ l : List γ, l.Pairwise s →
      (l.insertionSort r).Pairwise (fun x y => r x y ∧ (r y x → s x y))
  | [], _ => List.Pairwise.nil
  | a :: l, h => by
    obtain ⟨ha, hl⟩ := List.pairwise_cons.mp h
    exact pairwise_orderedInsert_stable r a _
      (fun b hb => ha b ((List.mem_insertionSort r).mp hb)) (pairwise_insertionSort_stable l hl)

end Stable

/-! ## The greedy loop -/

variable (conflict : γ → γ → Prop) [DecidableRel conflict]

/-- Take `c` unless something taken conflicts with it. -/
def greedyStep (taken : List γ) (c : γ) : List γ :=
  if taken.any fun d => conflict d c then taken else taken ++ [c]

/-- The candidates taken from a ranked list, best first. -/
def greedy (l : List γ) : List γ := l.foldl (greedyStep conflict) []

/-- `M` is a greedy choice from the candidates `C` ranked by `before`. -/
structure IsGreedy (before : γ → γ → Prop) (C M : γ → Prop) : Prop where
  /-- Only candidates are taken. -/
  sub : ∀ c, M c → C c
  /-- No two that are taken conflict. -/
  free : ∀ c d, M c → M d → before d c → ¬ conflict d c
  /-- What is left out conflicts with a better one that is taken. -/
  blocked : ∀ c, C c → ¬ M c → ∃ d, M d ∧ before d c ∧ conflict d c

variable {conflict}

theorem mem_greedyStep {taken : List γ} {c x : γ} :
    x ∈ greedyStep conflict taken c ↔
      x ∈ taken ∨ (x = c ∧ ∀ d ∈ taken, ¬ conflict d c) := by
  unfold greedyStep
  split
  · rename_i h
    simp only [List.any_eq_true, decide_eq_true_eq] at h
    obtain ⟨d, hd, hdc⟩ := h
    exact ⟨.inl, fun hx => hx.elim id fun ⟨_, hfree⟩ => absurd hdc (hfree d hd)⟩
  · rename_i h
    simp only [List.any_eq_true, decide_eq_true_eq, not_exists, not_and] at h
    simp only [List.mem_append, List.mem_singleton]
    exact ⟨fun hx => hx.imp id fun hc => ⟨hc, h⟩, fun hx => hx.imp id And.left⟩

private theorem foldl_greedyStep_isGreedy {before : γ → γ → Prop} :
    ∀ (l done taken : List γ), (done ++ l).Pairwise before →
      (∀ c d, before c d → ¬ before d c) →
      IsGreedy conflict before (· ∈ done) (· ∈ taken) →
      IsGreedy conflict before (· ∈ done ++ l) (· ∈ l.foldl (greedyStep conflict) taken)
  | [], done, taken, _, _, h => by simpa using h
  | c :: l, done, taken, hl, hasymm, h => by
    -- All that was looked at before comes before `c`.
    have hdone : ∀ d ∈ done, before d c := fun d hd =>
      (List.pairwise_append.mp hl).2.2 d hd c List.mem_cons_self
    have hstep : IsGreedy conflict before (· ∈ done ++ [c])
        (· ∈ greedyStep conflict taken c) := by
      refine ⟨fun x hx => ?_, fun x d hx hd hdx => ?_, fun x hx hnot => ?_⟩
      · rcases mem_greedyStep.mp hx with hx | ⟨rfl, -⟩
        · exact List.mem_append_left _ (h.sub x hx)
        · exact List.mem_append_right _ (List.mem_singleton_self x)
      · -- Two that are taken do not conflict: both are old, or `c` is one and was free of the
        -- others.
        rcases mem_greedyStep.mp hx with hxt | ⟨hxc, hfree⟩ <;>
          rcases mem_greedyStep.mp hd with hdt | ⟨hdc, -⟩
        · exact h.free x d hxt hdt hdx
        · exact absurd (hdc ▸ hdx) (hasymm _ _ (hdone x (h.sub x hxt)))
        · exact hxc ▸ hfree d hdt
        · exact absurd hdx (hasymm _ _ (by rwa [hxc, hdc] at hdx ⊢))
      · -- What is not taken is blocked by one taken before: the old ones as they were, `c` by the
        -- test.
        have hxt : x ∉ taken := fun hx' => hnot (mem_greedyStep.mpr (.inl hx'))
        rcases List.mem_append.mp hx with hx | hx
        · obtain ⟨d, hd, hb, hc⟩ := h.blocked x hx hxt
          exact ⟨d, mem_greedyStep.mpr (.inl hd), hb, hc⟩
        · obtain rfl := List.mem_singleton.mp hx
          have hex : ∃ d ∈ taken, conflict d x := by
            by_contra hne
            exact hnot (mem_greedyStep.mpr
              (.inr ⟨rfl, fun d hd hc => hne ⟨d, hd, hc⟩⟩))
          obtain ⟨d, hd, hc⟩ := hex
          exact ⟨d, mem_greedyStep.mpr (.inl hd), hdone d (h.sub d hd), hc⟩
    have := foldl_greedyStep_isGreedy l (done ++ [c]) (greedyStep conflict taken c)
      (by simpa using hl) hasymm hstep
    simpa using this

/-- The loop's result is a greedy choice. -/
theorem greedy_isGreedy {before : γ → γ → Prop} {l : List γ} (hl : l.Pairwise before)
    (hasymm : ∀ c d, before c d → ¬ before d c) :
    IsGreedy conflict before (· ∈ l) (· ∈ greedy conflict l) := by
  have hnil : IsGreedy conflict before (· ∈ ([] : List γ)) (· ∈ ([] : List γ)) :=
    ⟨fun _ h => h, fun _ _ h => by simp at h, fun _ h => by simp at h⟩
  simpa [greedy] using foldl_greedyStep_isGreedy l [] [] (by simpa using hl) hasymm hnil

omit [DecidableRel conflict] in
/-- A greedy choice from a strictly ranked list is unique. -/
theorem IsGreedy.unique {before : γ → γ → Prop} {l : List γ} (hl : l.Pairwise before)
    (hasymm : ∀ c d, before c d → ¬ before d c) {M N : γ → Prop}
    (hM : IsGreedy conflict before (· ∈ l) M) (hN : IsGreedy conflict before (· ∈ l) N) (c : γ) :
    M c ↔ N c := by
  -- Induction on the rank: what blocks a candidate stands before it.
  have hrank : ∀ (n : Nat) (c : γ), l[n]? = some c → (M c ↔ N c) := by
    intro n
    induction n using Nat.strong_induction_on with
    | _ n ih =>
      have hbefore : ∀ {P : γ → Prop} {c d : γ}, IsGreedy conflict before (· ∈ l) P →
          l[n]? = some c → P d → before d c → ∃ m : Nat, m < n ∧ l[m]? = some d := by
        intro P c d hP hc hd hdc
        obtain ⟨m, hm⟩ := List.getElem?_of_mem (hP.sub d hd)
        refine ⟨m, ?_, hm⟩
        rw [List.getElem?_eq_some_iff] at hc hm
        obtain ⟨hcn, rfl⟩ := hc
        obtain ⟨hdm, rfl⟩ := hm
        rcases Nat.lt_trichotomy m n with hlt | rfl | hgt
        · exact hlt
        · exact absurd hdc (hasymm _ _ hdc)
        · exact absurd hdc (hasymm _ _ (List.pairwise_iff_getElem.mp hl n m hcn hdm hgt))
      intro c hc
      have hmem : c ∈ l := List.mem_of_getElem? hc
      constructor
      · intro hMc
        by_contra hNc
        obtain ⟨d, hd, hdc, hconf⟩ := hN.blocked c hmem hNc
        obtain ⟨m, hmn, hm⟩ := hbefore hN hc hd hdc
        exact hM.free c d hMc ((ih m hmn d hm).mpr hd) hdc hconf
      · intro hNc
        by_contra hMc
        obtain ⟨d, hd, hdc, hconf⟩ := hM.blocked c hmem hMc
        obtain ⟨m, hmn, hm⟩ := hbefore hM hc hd hdc
        exact hN.free c d hNc ((ih m hmn d hm).mp hd) hdc hconf
  constructor
  · intro h
    obtain ⟨n, hn⟩ := List.getElem?_of_mem (hM.sub c h)
    exact (hrank n c hn).mp h
  · intro h
    obtain ⟨n, hn⟩ := List.getElem?_of_mem (hN.sub c h)
    exact (hrank n c hn).mpr h

end Semnav.ForStd
