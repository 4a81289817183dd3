import Mathlib.Data.List.Nodup

/-!
# List lemmas for the standard library

Sequencing in `Except`, rows kept in a list under a key (lookup, replacement, removal), and loops written as
folds over `List.zipIdx`: an invariant indexed by the number of rounds done, the
totality of a fallible loop, and the exact condition under which it succeeds.
-/

universe u

namespace Except

/-- A sequence of two fallible steps gets through when both do. -/
theorem bind_eq_ok {ε : Type*} {α β : Type u} {x : Except ε α} {f : α → Except ε β} {b : β} :
    (x >>= f) = .ok b ↔ ∃ a, x = .ok a ∧ f a = .ok b := by
  cases x with
  | error e => exact ⟨fun h => (nomatch h), fun ⟨_, h, _⟩ => (nomatch h)⟩
  | ok a => exact ⟨fun h => ⟨a, rfl, h⟩, fun ⟨_, h, hb⟩ => by cases h; exact hb⟩

end Except

namespace List

variable {α κ : Type*}

/-! ## Rows under a key -/

section Keyed

variable [DecidableEq κ] (key : α → κ)

/-- Membership after storing `a` over the rows with its key. -/
theorem mem_map_replace {l : List α} {a x : α} :
    x ∈ l.map (fun b => if key b = key a then a else b) ↔
      (x = a ∧ ∃ b ∈ l, key b = key a) ∨ (x ∈ l ∧ key x ≠ key a) := by
  rw [mem_map]
  constructor
  · rintro ⟨b, hb, rfl⟩
    by_cases hk : key b = key a
    · exact .inl ⟨if_pos hk, b, hb, hk⟩
    · rw [if_neg hk]
      exact .inr ⟨hb, hk⟩
  · rintro (⟨rfl, b, hb, hk⟩ | ⟨hx, hk⟩)
    · exact ⟨b, hb, if_pos hk⟩
    · exact ⟨x, hx, if_neg hk⟩

/-- Replacing rows keeps the key column. -/
theorem map_key_map_replace (l : List α) (a : α) :
    (l.map fun b => if key b = key a then a else b).map key = l.map key := by
  rw [map_map]
  refine map_congr_left fun b _ => ?_
  by_cases hk : key b = key a <;> simp [hk]

/-- With distinct keys, looking a key up finds exactly the row that carries it. -/
theorem find?_key_eq_some_iff {l : List α} (hn : (l.map key).Nodup) (k : κ) (a : α) :
    l.find? (fun b => key b == k) = some a ↔ a ∈ l ∧ key a = k := by
  constructor
  · intro h
    exact ⟨mem_of_find?_eq_some h, by simpa using find?_some h⟩
  · rintro ⟨ha, rfl⟩
    cases h : l.find? (fun b => key b == key a) with
    | none =>
      have hne := find?_eq_none.mp h a ha
      simp at hne
    | some b =>
      have hk : key b = key a := by simpa using find?_some h
      rw [inj_on_of_nodup_map hn (mem_of_find?_eq_some h) ha hk]

/-- An element is taken out of a list by its key. -/
theorem filter_key_middle {before after : List α} {a : α}
    (h : ((before ++ a :: after).map key).Nodup) :
    (before ++ a :: after).filter (fun b => key b ≠ key a) = before ++ after := by
  rw [map_append, map_cons, nodup_middle, nodup_cons] at h
  have hothers : ∀ b ∈ before ++ after, key b ≠ key a := by
    intro b hb heq
    refine h.1 ?_
    rw [← map_append, ← heq]
    exact mem_map_of_mem hb
  simp only [mem_append] at hothers
  rw [filter_append, filter_cons_of_neg (by simp),
    filter_eq_self.mpr fun b hb => by simpa using hothers b (.inl hb),
    filter_eq_self.mpr fun b hb => by simpa using hothers b (.inr hb)]

/-- If no number is there twice among the entries of one key, no entry is. -/
theorem nodup_map_pair {ι : Type*} {g : α → ι} {l : List α}
    (h : ∀ k, ((l.filter fun a => key a == k).map g).Nodup) :
    (l.map fun a => (key a, g a)).Nodup := by
  induction l with
  | nil => exact nodup_nil
  | cons a l ih =>
    rw [map_cons, nodup_cons]
    constructor
    · intro hmem
      obtain ⟨b, hb, heq⟩ := mem_map.mp hmem
      obtain ⟨hf, hg⟩ := Prod.mk.inj heq
      have hcons := h (key a)
      rw [filter_cons_of_pos (p := fun b => key b == key a) (beq_self_eq_true _), map_cons,
        nodup_cons] at hcons
      exact hcons.1 (mem_map.mpr ⟨b, mem_filter.mpr ⟨hb, by simp [hf]⟩, hg⟩)
    · exact ih fun k => (h k).sublist (((sublist_cons_self a l).filter _).map g)

end Keyed

/-- Without duplicates, what is not in a prefix is the rest. -/
theorem filter_notMem_append [DecidableEq α] {p q : List α} (hn : (p ++ q).Nodup) :
    (p ++ q).filter (fun a => a ∉ p) = q := by
  have hdisjoint := (nodup_append.mp hn).2.2
  rw [filter_append]
  have hp : p.filter (fun a => a ∉ p) = [] := by
    apply filter_eq_nil_iff.mpr
    intro a ha
    simp [ha]
  have hq : q.filter (fun a => a ∉ p) = q := by
    apply filter_eq_self.mpr
    intro a ha
    simpa using fun hmem => hdisjoint a hmem a ha rfl
  rw [hp, hq, nil_append]

theorem getElem?_append_of_some {l : List α} {k : Nat} {a : α} (h : l[k]? = some a)
    (l' : List α) : (l ++ l')[k]? = some a := by
  rw [getElem?_append_left (getElem?_eq_some_iff.mp h).1]
  exact h

/-! ## Loops over `zipIdx` -/

/-- The pairs of `zipIdx` come in the order of their indices. -/
theorem pairwise_zipIdx (l : List α) : l.zipIdx.Pairwise fun x y => x.2 < y.2 := by
  rw [pairwise_iff_getElem]
  intro i j hi hj hij
  simpa only [getElem_zipIdx, Nat.zero_add] using hij

section Loops

variable {σ ε : Type*}

private theorem foldl_zipIdx_from (step : σ → α × Nat → σ) (P : Nat → σ → Prop) (l : List α)
    (n : Nat) (s : σ) (h0 : P n s)
    (hstep : ∀ k a s, l[k]? = some a → P (n + k) s → P (n + k + 1) (step s (a, n + k))) :
    P (n + l.length) ((l.zipIdx n).foldl step s) := by
  induction l generalizing n s with
  | nil => exact h0
  | cons a l ih =>
    rw [zipIdx_cons, foldl_cons, length_cons, ← Nat.add_assoc, Nat.add_right_comm]
    refine ih (n + 1) _ (hstep 0 a s rfl h0) fun k b s' hb hP => ?_
    have hk : n + (k + 1) = n + 1 + k := by omega
    have := hstep (k + 1) b s' (by simpa using hb)
    rw [hk] at this
    exact this hP

/-- Loop invariant of a pure loop: `P k` holds after `k` rounds. -/
theorem foldl_zipIdx_induction {step : σ → α × Nat → σ} {l : List α} {s : σ}
    (P : Nat → σ → Prop) (h0 : P 0 s)
    (hstep : ∀ k a s, l[k]? = some a → P k s → P (k + 1) (step s (a, k))) :
    P l.length (l.zipIdx.foldl step s) := by
  have := foldl_zipIdx_from step P l 0 s h0 (by simpa only [Nat.zero_add] using hstep)
  rwa [Nat.zero_add] at this

private theorem foldlM_zipIdx_from (step : σ → α × Nat → Except ε σ) (P : Nat → σ → Prop)
    (l : List α) (n : Nat) (s s' : σ) (h0 : P n s)
    (hstep : ∀ k a s s', l[k]? = some a → P (n + k) s → step s (a, n + k) = .ok s' →
      P (n + k + 1) s')
    (h : (l.zipIdx n).foldlM step s = .ok s') : P (n + l.length) s' := by
  induction l generalizing n s with
  | nil =>
    obtain rfl : s = s' := Except.ok.inj h
    exact h0
  | cons a l ih =>
    rw [zipIdx_cons, foldlM_cons] at h
    cases hs : step s (a, n) with
    | error e => rw [hs] at h; exact nomatch h
    | ok s₁ =>
      rw [hs] at h
      rw [length_cons, ← Nat.add_assoc, Nat.add_right_comm]
      refine ih (n + 1) s₁ (hstep 0 a s s₁ rfl h0 hs) (fun k b t t' hb hP ht => ?_) h
      -- The invariant of the tail counts from `n + 1`, which shifts its index by one.
      have hk : n + (k + 1) = n + 1 + k := by omega
      have := hstep (k + 1) b t t' (by simpa using hb)
      rw [hk] at this
      exact this hP ht

/-- Loop invariant of a fallible loop, on the runs that get through. -/
theorem foldlM_zipIdx_induction {step : σ → α × Nat → Except ε σ} {l : List α} {s s' : σ}
    (P : Nat → σ → Prop) (h0 : P 0 s)
    (hstep : ∀ k a s s', l[k]? = some a → P k s → step s (a, k) = .ok s' → P (k + 1) s')
    (h : l.zipIdx.foldlM step s = .ok s') : P l.length s' := by
  have := foldlM_zipIdx_from step P l 0 s s' h0 (by simpa only [Nat.zero_add] using hstep) h
  rwa [Nat.zero_add] at this

private theorem foldlM_zipIdx_ok_iff_from (step : σ → α × Nat → Except ε σ)
    (P : Nat → σ → Prop) (C : Nat → Prop) (l : List α) (n : Nat) (s : σ) (h0 : P n s)
    (hstep : ∀ k a s s', l[k]? = some a → P (n + k) s → step s (a, n + k) = .ok s' →
      P (n + k + 1) s')
    (hok : ∀ k a s, l[k]? = some a → P (n + k) s →
      ((∃ s', step s (a, n + k) = .ok s') ↔ C (n + k))) :
    (∃ s', (l.zipIdx n).foldlM step s = .ok s') ↔ ∀ k < l.length, C (n + k) := by
  induction l generalizing n s with
  | nil => exact ⟨fun _ k hk => absurd hk (Nat.not_lt_zero k), fun _ => ⟨s, rfl⟩⟩
  | cons a l ih =>
    have hshift : ∀ k, n + (k + 1) = n + 1 + k := fun k => by omega
    -- The rest of the fold starts at the next index, which the hypotheses are shifted to.
    have htail : ∀ s₁, step s (a, n) = .ok s₁ →
        ((∃ s', (l.zipIdx (n + 1)).foldlM step s₁ = .ok s') ↔
          ∀ k < l.length, C (n + 1 + k)) := by
      intro s₁ hs
      refine ih (n + 1) s₁ (hstep 0 a s s₁ rfl h0 hs) (fun k b t t' hb hP ht => ?_)
        (fun k b t hb hP => ?_)
      · have := hstep (k + 1) b t t' (by simpa using hb)
        rw [hshift] at this
        exact this hP ht
      · have := hok (k + 1) b t (by simpa using hb)
        rw [hshift] at this
        exact this hP
    have hhead : (∃ s', step s (a, n) = .ok s') ↔ C n := hok 0 a s rfl h0
    rw [zipIdx_cons, foldlM_cons]
    constructor
    · rintro ⟨s', h⟩
      cases hs : step s (a, n) with
      | error e => rw [hs] at h; exact nomatch h
      | ok s₁ =>
        rw [hs] at h
        intro k hk
        cases k with
        | zero => exact hhead.mp ⟨s₁, hs⟩
        | succ k => rw [hshift]; exact (htail s₁ hs).mp ⟨s', h⟩ k (by simpa using hk)
    · intro hC
      obtain ⟨s₁, hs⟩ := hhead.mpr (hC 0 (by simp))
      obtain ⟨s', h⟩ := (htail s₁ hs).mpr fun k hk => by
        rw [← hshift]
        exact hC (k + 1) (by simpa using hk)
      refine ⟨s', ?_⟩
      rw [hs]
      exact h

/-- When an invariant decides in each round whether the round succeeds, the whole loop
    succeeds exactly when every round's condition holds. -/
theorem foldlM_zipIdx_ok_iff {step : σ → α × Nat → Except ε σ} {l : List α} {s : σ}
    (P : Nat → σ → Prop) (C : Nat → Prop) (h0 : P 0 s)
    (hstep : ∀ k a s s', l[k]? = some a → P k s → step s (a, k) = .ok s' → P (k + 1) s')
    (hok : ∀ k a s, l[k]? = some a → P k s → ((∃ s', step s (a, k) = .ok s') ↔ C k)) :
    (∃ s', l.zipIdx.foldlM step s = .ok s') ↔ ∀ k < l.length, C k := by
  have := foldlM_zipIdx_ok_iff_from step P C l 0 s h0
    (by simpa only [Nat.zero_add] using hstep) (by simpa only [Nat.zero_add] using hok)
  simpa only [Nat.zero_add] using this

end Loops

end List
