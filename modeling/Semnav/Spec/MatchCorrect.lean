import Semnav.ForStd.Greedy
import Semnav.ForStd.List
import Semnav.Graph.Reconcile

/-!
# Matching symbols to rows

Passes 1 and 2 pair symbols with rows of the file.  `IsMatching` says which pairs
these are without mentioning the loops: the pairs with equal fqn, and from the rename
candidates that are left the greedy choice in rank order.

## Key results

- `Assignment.Valid`: the two bookkeeping vectors describe one partial injection
- `pass1_assigned_iff`: Pass 1 claims exactly the `ExactPair`s
- `matchSymbols_isMatching`: the code computes a matching
- `IsMatching.unique`: there is only one
-/

namespace Semnav.Graph

open Semnav.ForStd

/-! ## The bookkeeping vectors -/

/-- `assigned` is a partial injection of `m` symbols into `n` rows, and `oldUsed` flags
    its range. -/
structure Assignment.Valid (a : Assignment) (m n : Nat) : Prop where
  sym_lt : ∀ i j, a.assigned i = some j → i < m
  old_lt : ∀ i j, a.assigned i = some j → j < n
  inj : ∀ i i' j, a.assigned i = some j → a.assigned i' = some j → i = i'
  used_iff : ∀ j, a.oldUsed j = true ↔ ∃ i, a.assigned i = some j

namespace Assignment

/-- Nothing assigned is a valid assignment. -/
private theorem init_valid (m n : Nat) : init.Valid m n where
  sym_lt := fun _ _ h => nomatch h
  old_lt := fun _ _ h => nomatch h
  inj := fun _ _ _ h => nomatch h
  used_iff := fun _ => ⟨fun h => by simp [init] at h, fun ⟨_, h⟩ => by simp [init] at h⟩

/-- A claim assigns its symbol. -/
theorem claim_assigned_iff {a : Assignment} {i j x y : Nat} :
    (a.claim i j).assigned x = some y ↔ (x = i ∧ y = j) ∨ (x ≠ i ∧ a.assigned x = some y) := by
  simp only [claim, Function.update_apply]
  split
  · rename_i h
    simp [h, eq_comm]
  · rename_i h
    simp [h]

/-- A claim uses its row. -/
private theorem claim_oldUsed_iff {a : Assignment} {i j y : Nat} :
    (a.claim i j).oldUsed y = true ↔ y = j ∨ a.oldUsed y = true := by
  simp only [claim, Function.update_apply]
  split <;> simp_all

/-- Claiming a free pair keeps the injection. -/
private theorem Valid.claim {a : Assignment} {m n i j : Nat} (h : a.Valid m n) (hi : i < m)
    (hj : j < n)
    (hfree : a.assigned i = none) (hunused : a.oldUsed j = false) : (a.claim i j).Valid m n where
  sym_lt := by
    intro x y hx
    rcases claim_assigned_iff.mp hx with ⟨rfl, -⟩ | ⟨-, hx⟩
    · exact hi
    · exact h.sym_lt x y hx
  old_lt := by
    intro x y hx
    rcases claim_assigned_iff.mp hx with ⟨-, rfl⟩ | ⟨-, hx⟩
    · exact hj
    · exact h.old_lt x y hx
  inj := by
    -- The row was free, so no symbol had it.
    have hnew : ∀ x, a.assigned x ≠ some j := fun x hx => by
      rw [(h.used_iff j).mpr ⟨x, hx⟩] at hunused
      exact nomatch hunused
    intro x x' y hx hx'
    -- Of two symbols with one row at most one is the new one.
    rcases claim_assigned_iff.mp hx with ⟨hxi, hyj⟩ | ⟨-, hx⟩ <;>
      rcases claim_assigned_iff.mp hx' with ⟨hxi', hyj'⟩ | ⟨-, hx'⟩
    · rw [hxi, hxi']
    · exact absurd (hyj ▸ hx') (hnew x')
    · exact absurd (hyj' ▸ hx) (hnew x)
    · exact h.inj x x' y hx hx'
  used_iff := by
    intro y
    rw [claim_oldUsed_iff, h.used_iff]
    constructor
    · rintro (rfl | ⟨x, hx⟩)
      · exact ⟨i, claim_assigned_iff.mpr (.inl ⟨rfl, rfl⟩)⟩
      · refine ⟨x, claim_assigned_iff.mpr (.inr ⟨?_, hx⟩)⟩
        rintro rfl
        rw [hfree] at hx
        exact nomatch hx
    · rintro ⟨x, hx⟩
      rcases claim_assigned_iff.mp hx with ⟨-, rfl⟩ | ⟨-, hx⟩
      · exact .inl rfl
      · exact .inr ⟨x, hx⟩

end Assignment

/-! ## Pass 1 -/

/-- Row `j` has the fqn of symbol `i`, and no symbol before `i` has it. -/
def ExactPair (olds : List Node) (syms : List ReconcileSymbol) (i j : Nat) : Prop :=
  ∃ s old, syms[i]? = some s ∧ olds[j]? = some old ∧ old.fqn = s.fqn ∧
    ∀ i' < i, ∀ s', syms[i']? = some s' → s'.fqn ≠ s.fqn

/-- The rows of one file have distinct fqns. -/
def FqnsDistinct (olds : List Node) : Prop :=
  ∀ (j j' : Nat) (old old' : Node), olds[j]? = some old → olds[j']? = some old' →
    old.fqn = old'.fqn → j = j'

/-- What `claimExact` does: nothing when every row with the fqn is claimed, else claim a
    free one. -/
private theorem claimExact_cases (olds : List Node) (a : Assignment) (sym : ReconcileSymbol)
    (i : Nat) :
    (claimExact olds a sym i = a ∧
      ∀ j old, olds[j]? = some old → old.fqn = sym.fqn → a.oldUsed j = true) ∨
    ∃ j old, olds[j]? = some old ∧ old.fqn = sym.fqn ∧ a.oldUsed j = false ∧
      claimExact olds a sym i = a.claim i j := by
  unfold claimExact
  split
  · rename_i old j hfind
    have hmem := List.mem_of_find?_eq_some hfind
    have hp := List.find?_some hfind
    simp only [Bool.and_eq_true, Bool.not_eq_true', beq_iff_eq] at hp
    exact .inr ⟨j, old, (List.mk_mem_zipIdx_iff_getElem?).mp hmem, hp.2, hp.1, rfl⟩
  · rename_i hnone
    refine .inl ⟨rfl, fun j old hj hfqn => ?_⟩
    have := List.find?_eq_none.mp hnone (old, j) (List.mk_mem_zipIdx_iff_getElem?.mpr hj)
    simpa [hfqn] using this

/-- The state of Pass 1 after `k` symbols. -/
private structure Pass1Inv (olds : List Node) (syms : List ReconcileSymbol) (k : Nat)
    (a : Assignment) : Prop where
  valid : a.Valid syms.length olds.length
  lt : ∀ i j, a.assigned i = some j → i < k
  exact_of : ∀ i j, a.assigned i = some j → ExactPair olds syms i j
  used_of : ∀ i < k, ∀ s, syms[i]? = some s → ∀ j old, olds[j]? = some old →
    old.fqn = s.fqn → a.oldUsed j = true

/-- The loop of pass one keeps its invariant. -/
private theorem pass1_inv {olds : List Node} (hd : FqnsDistinct olds)
    (syms : List ReconcileSymbol) : Pass1Inv olds syms syms.length (pass1 olds syms) := by
  refine List.foldl_zipIdx_induction (Pass1Inv olds syms)
    ⟨Assignment.init_valid _ _, fun _ _ h => by simp [Assignment.init] at h,
      fun _ _ h => by simp [Assignment.init] at h,
      fun i hi => absurd hi (Nat.not_lt_zero i)⟩ fun k sym a hk hinv => ?_
  -- The symbol claims a free row of its name, or there is none.
  rcases claimExact_cases olds a sym k with ⟨heq, hall⟩ | ⟨j, old, hj, hfqn, hfree, heq⟩
  · -- Without one all rows of its name are taken.
    simp only [heq]
    refine ⟨hinv.valid, fun i j h => Nat.lt_succ_of_lt (hinv.lt i j h), hinv.exact_of,
      fun i hi s hs j old hj hfqn => ?_⟩
    rcases Nat.lt_succ_iff_lt_or_eq.mp hi with hlt | rfl
    · exact hinv.used_of i hlt s hs j old hj hfqn
    · obtain rfl := Option.some.inj (hk.symm.trans hs)
      exact hall j old hj hfqn
  · -- With one, symbol and row are assigned to each other from now on.
    simp only [heq]
    have hknone : a.assigned k = none := by
      cases h : a.assigned k with
      | none => rfl
      | some y => exact absurd (hinv.lt k y h) (Nat.lt_irrefl k)
    refine ⟨hinv.valid.claim (List.getElem?_eq_some_iff.mp hk).1
      (List.getElem?_eq_some_iff.mp hj).1 hknone hfree, fun x y h => ?_, fun x y h => ?_,
      fun i hi s hs y old' hy hfqn' => ?_⟩
    · rcases Assignment.claim_assigned_iff.mp h with ⟨rfl, -⟩ | ⟨-, h⟩
      · exact Nat.lt_succ_self x
      · exact Nat.lt_succ_of_lt (hinv.lt x y h)
    · rcases Assignment.claim_assigned_iff.mp h with ⟨rfl, rfl⟩ | ⟨-, h⟩
      · -- No earlier symbol has this name, or it would have taken the row.
        refine ⟨sym, old, hk, hj, hfqn, fun i' hi' s' hs' hsame => ?_⟩
        rw [hinv.used_of i' hi' s' hs' y old hj (hfqn.trans hsame.symm)] at hfree
        exact nomatch hfree
      · exact hinv.exact_of x y h
    · rw [Assignment.claim_oldUsed_iff]
      rcases Nat.lt_succ_iff_lt_or_eq.mp hi with hlt | rfl
      · exact .inr (hinv.used_of i hlt s hs y old' hy hfqn')
      · obtain rfl := Option.some.inj (hk.symm.trans hs)
        exact .inl (hd y j old' old hy hj (hfqn'.trans hfqn.symm))

/-- The result of pass one is valid. -/
theorem pass1_valid {olds : List Node} (hd : FqnsDistinct olds) (syms : List ReconcileSymbol) :
    (pass1 olds syms).Valid syms.length olds.length :=
  (pass1_inv hd syms).valid

/-- Pass 1 claims exactly the pairs with equal fqn, the first symbol where several share
    it. -/
theorem pass1_assigned_iff {olds : List Node} (hd : FqnsDistinct olds)
    (syms : List ReconcileSymbol) (i j : Nat) :
    (pass1 olds syms).assigned i = some j ↔ ExactPair olds syms i j := by
  have hinv := pass1_inv hd syms
  refine ⟨hinv.exact_of i j, fun ⟨s, old, hs, hj, hfqn, hfirst⟩ => ?_⟩
  have hused := hinv.used_of i (List.getElem?_eq_some_iff.mp hs).1 s hs j old hj hfqn
  obtain ⟨i', hi'⟩ := (hinv.valid.used_iff j).mp hused
  obtain ⟨s', old', hs', hj', hfqn', hfirst'⟩ := hinv.exact_of i' j hi'
  obtain rfl := Option.some.inj (hj.symm.trans hj')
  rcases Nat.lt_trichotomy i' i with hlt | rfl | hgt
  · exact absurd (hfqn'.symm.trans hfqn) (hfirst i' hlt s' hs')
  · exact hi'
  · exact absurd (hfqn.symm.trans hfqn') (hfirst' i hgt s hs)

/-! ## Pass 2 -/

/-- Two candidates that cannot both be taken. -/
def RenameCandidate.conflict (c d : RenameCandidate) : Prop :=
  c.oldIdx = d.oldIdx ∨ c.symIdx = d.symIdx

instance : DecidableRel RenameCandidate.conflict := fun c d =>
  inferInstanceAs (Decidable (c.oldIdx = d.oldIdx ∨ c.symIdx = d.symIdx))

/-- The rank order of rename candidates: matching body first, then the smaller drift,
    then the order of the rows, then the order of the symbols. -/
def RenameCandidate.before (c d : RenameCandidate) : Prop :=
  c.le d ∧ (d.le c → c.symIdx < d.symIdx)

/-- `c` pairs a row and a symbol that Pass 1 left over and that may be a rename. -/
def RenameOption (H : Hasher) (olds : List Node) (syms : List ReconcileSymbol)
    (c : RenameCandidate) : Prop :=
  ∃ s old, syms[c.symIdx]? = some s ∧ olds[c.oldIdx]? = some old ∧
    (∀ j, ¬ ExactPair olds syms c.symIdx j) ∧ (∀ i, ¬ ExactPair olds syms i c.oldIdx) ∧
    renameCandidate? H old c.oldIdx s c.symIdx = some c

/-- `M` is the matching of symbols (first argument) with rows (second argument). -/
structure IsMatching (H : Hasher) (olds : List Node) (syms : List ReconcileSymbol)
    (M : Nat → Nat → Prop) : Prop where
  /-- Equal fqns are paired. -/
  of_exact : ∀ i j, ExactPair olds syms i j → M i j
  /-- Every other pair is a rename candidate. -/
  cases : ∀ i j, M i j → ExactPair olds syms i j ∨
    ∃ c, RenameOption H olds syms c ∧ c.symIdx = i ∧ c.oldIdx = j
  /-- The rename pairs are the greedy choice, best rank first. -/
  greedy : IsGreedy RenameCandidate.conflict RenameCandidate.before (RenameOption H olds syms)
    (fun c => RenameOption H olds syms c ∧ M c.symIdx c.oldIdx)

/-- Row `j` is paired with no symbol. -/
def LeftUnmatched (H : Hasher) (olds : List Node) (syms : List ReconcileSymbol) (j : Nat) :
    Prop :=
  ∀ M, IsMatching H olds syms M → ∀ i, ¬ M i j

instance : Std.Total RenameCandidate.le := ⟨fun a b => by
  unfold RenameCandidate.le; omega⟩

instance : IsTrans RenameCandidate RenameCandidate.le := ⟨fun a b c => by
  unfold RenameCandidate.le; omega⟩

/-- Candidates are strictly ordered. -/
private theorem RenameCandidate.before_asymm (c d : RenameCandidate) (h : c.before d) :
    ¬ d.before c :=
  fun h' => absurd (h.2 h'.1) (Nat.lt_asymm (h'.2 h.1))

/-- A candidate is of the row and symbol it was made from. -/
private theorem renameCandidate?_idx {H : Hasher} {old : Node} {j : Nat} {s : ReconcileSymbol}
    {i : Nat}
    {c : RenameCandidate} (h : renameCandidate? H old j s i = some c) :
    c.oldIdx = j ∧ c.symIdx = i := by
  simp only [renameCandidate?] at h
  split at h
  · exact nomatch h
  · split at h
    · exact nomatch h
    · split at h
      · exact nomatch h
      · obtain rfl := Option.some.inj h
        exact ⟨rfl, rfl⟩

/-- The candidates are the renames that are possible. -/
theorem mem_renameCandidates {H : Hasher} {olds : List Node} (hd : FqnsDistinct olds)
    {syms : List ReconcileSymbol} {c : RenameCandidate} :
    c ∈ renameCandidates H olds syms (pass1 olds syms) ↔ RenameOption H olds syms c := by
  -- After pass one a symbol without a row has no exact partner, and neither has a free row.
  have hsym : ∀ i, (pass1 olds syms).assigned i = none ↔ ∀ j, ¬ ExactPair olds syms i j := by
    intro i
    simp only [← pass1_assigned_iff hd, Option.eq_none_iff_forall_ne_some, ne_eq]
  have hold : ∀ j, (pass1 olds syms).oldUsed j = false ↔ ∀ i, ¬ ExactPair olds syms i j := by
    intro j
    rw [← Bool.not_eq_true, (pass1_valid hd syms).used_iff, not_exists]
    simp only [pass1_assigned_iff hd]
  simp only [renameCandidates, List.mem_flatMap, Prod.exists, List.mk_mem_zipIdx_iff_getElem?]
  -- Each candidate comes from such a symbol and such a row.
  constructor
  · rintro ⟨s, i, hs, hc⟩
    split at hc
    · simp at hc
    · rename_i hnone
      simp only [List.mem_filterMap, Prod.exists, List.mk_mem_zipIdx_iff_getElem?] at hc
      obtain ⟨old, j, hj, hc⟩ := hc
      split at hc
      · exact nomatch hc
      · rename_i hunused
        obtain ⟨rfl, rfl⟩ := renameCandidate?_idx hc
        exact ⟨s, old, hs, hj, (hsym _).mp (by simpa using hnone),
          (hold _).mp (by simpa using hunused), hc⟩
  · rintro ⟨s, old, hs, hj, hnone, hunused, hc⟩
    refine ⟨s, c.symIdx, hs, ?_⟩
    rw [(hsym _).mpr hnone]
    simp only [Option.isSome_none, Bool.false_eq_true, if_false, List.mem_filterMap, Prod.exists,
      List.mk_mem_zipIdx_iff_getElem?]
    exact ⟨old, c.oldIdx, hj, by rw [(hold _).mpr hunused]; exact hc⟩

/-- The two loops push candidates by symbol, then by row. -/
private theorem pairwise_renameCandidates (H : Hasher) (olds : List Node)
    (syms : List ReconcileSymbol) (a : Assignment) :
    (renameCandidates H olds syms a).Pairwise fun c d =>
      c.symIdx < d.symIdx ∨ (c.symIdx = d.symIdx ∧ c.oldIdx < d.oldIdx) := by
  have hidx : ∀ {s : ReconcileSymbol} {i : Nat} {c : RenameCandidate},
      c ∈ (if (a.assigned i).isSome then [] else olds.zipIdx.filterMap fun p =>
        if a.oldUsed p.2 then none else renameCandidate? H p.1 p.2 s i) → c.symIdx = i := by
    intro s i c hc
    split at hc
    · simp at hc
    · simp only [List.mem_filterMap, Prod.exists] at hc
      obtain ⟨old, j, -, hc⟩ := hc
      split at hc
      · cases hc
      · exact (renameCandidate?_idx hc).2
  -- The candidates of one symbol are in the order of the rows, those of two in the order of the
  -- symbols.
  rw [renameCandidates, List.pairwise_flatMap]
  constructor
  · rintro ⟨s, i⟩ -
    dsimp only
    split
    · exact List.Pairwise.nil
    · rw [List.pairwise_filterMap]
      refine (List.pairwise_zipIdx olds).imp fun {x y} hlt c hc d hd => .inr ?_
      split at hc
      · cases hc
      · split at hd
        · cases hd
        · obtain ⟨hcj, hci⟩ := renameCandidate?_idx hc
          obtain ⟨hdj, hdi⟩ := renameCandidate?_idx hd
          rw [hcj, hci, hdj, hdi]
          exact ⟨rfl, hlt⟩
  · refine (List.pairwise_zipIdx syms).imp fun {x y} hlt c hc d hd => .inl ?_
    rw [hidx hc, hidx hd]
    exact hlt

/-- The ranked candidate list is strictly ordered: the sort is stable, so ties go by
    symbol. -/
private theorem pairwise_before_sorted (H : Hasher) (olds : List Node) (syms : List ReconcileSymbol)
    (a : Assignment) :
    ((renameCandidates H olds syms a).insertionSort RenameCandidate.le).Pairwise
      RenameCandidate.before := by
  refine (pairwise_insertionSort_stable RenameCandidate.le _
    (pairwise_renameCandidates H olds syms a)).imp ?_
  rintro c d ⟨hle, hstable⟩
  refine ⟨hle, fun hge => ?_⟩
  have hidx : c.oldIdx = d.oldIdx := by
    unfold RenameCandidate.le at hle hge
    omega
  rcases hstable hge with hlt | ⟨-, hlt⟩
  · exact hlt
  · exact absurd hlt (hidx ▸ Nat.lt_irrefl _)

/-! ## The greedy loop on the vectors -/

/-- `claimRename` skips a candidate exactly when one of its two sides is claimed. -/
private theorem claimRename_cases {a : Assignment} {m n : Nat} (h : a.Valid m n)
    (c : RenameCandidate) :
    (claimRename a c = a ∧
      ((∃ i, a.assigned i = some c.oldIdx) ∨ ∃ j, a.assigned c.symIdx = some j)) ∨
    (claimRename a c = a.claim c.symIdx c.oldIdx ∧ a.oldUsed c.oldIdx = false ∧
      a.assigned c.symIdx = none) := by
  unfold claimRename
  split
  · rename_i hskip
    rw [Bool.or_eq_true, h.used_iff, Option.isSome_iff_exists] at hskip
    exact .inl ⟨rfl, hskip⟩
  · rename_i hfree
    simp only [Bool.or_eq_true, not_or, Bool.not_eq_true, Option.isSome_eq_false_iff,
      Option.isNone_iff_eq_none] at hfree
    exact .inr ⟨rfl, hfree⟩

/-- The vectors `a`, reached from `a₀` by taking the candidates `taken`. -/
private structure TakenFrom (a₀ : Assignment) (m n : Nat) (taken : List RenameCandidate)
    (a : Assignment) : Prop where
  valid : a.Valid m n
  assigned_iff : ∀ i j, a.assigned i = some j ↔
    a₀.assigned i = some j ∨ ∃ c ∈ taken, c.symIdx = i ∧ c.oldIdx = j

/-- The loop over the vectors takes what the greedy choice takes. -/
private theorem foldl_claimRename {a₀ : Assignment} {m n : Nat} (l : List RenameCandidate) :
    ∀ (taken : List RenameCandidate) (a : Assignment), TakenFrom a₀ m n taken a →
      (∀ c ∈ l, c.symIdx < m ∧ c.oldIdx < n ∧ (∀ j, a₀.assigned c.symIdx ≠ some j) ∧
        ∀ i, a₀.assigned i ≠ some c.oldIdx) →
      TakenFrom a₀ m n (l.foldl (greedyStep RenameCandidate.conflict) taken)
        (l.foldl claimRename a) := by
  -- Induction on the candidates: the loop claims what the greedy choice takes.
  induction l with
  | nil => exact fun _ _ h _ => h
  | cons c l ih =>
    intro taken a h hl
    rw [List.foldl_cons, List.foldl_cons]
    refine ih _ _ ?_ fun d hd => hl d (List.mem_cons_of_mem c hd)
    obtain ⟨hm, hn, hsym, hold⟩ := hl c List.mem_cons_self
    rcases claimRename_cases h.valid c with ⟨heq, hused⟩ | ⟨heq, hunused, hnone⟩
    · -- Symbol or row is used; since both were free after pass one, a chosen candidate conflicts.
      have hconf : ∃ d ∈ taken, d.conflict c := by
        rcases hused with ⟨i, hi⟩ | ⟨j, hj⟩
        · rcases (h.assigned_iff i _).mp hi with hi | ⟨d, hd, -, hdc⟩
          · exact absurd hi (hold i)
          · exact ⟨d, hd, .inl hdc⟩
        · rcases (h.assigned_iff _ j).mp hj with hj | ⟨d, hd, hdc, -⟩
          · exact absurd hj (hsym j)
          · exact ⟨d, hd, .inr hdc⟩
      have hany : (taken.any fun d => decide (d.conflict c)) = true := by
        simpa using hconf
      rw [heq, greedyStep, if_pos hany]
      exact h
    · -- Both are free, so no chosen candidate conflicts.
      have hany : ¬ (taken.any fun d => decide (d.conflict c)) = true := by
        simp only [List.any_eq_true, decide_eq_true_eq, not_exists, not_and]
        rintro d hd (hconf | hconf)
        · have hd' := (h.assigned_iff d.symIdx d.oldIdx).mpr (.inr ⟨d, hd, rfl, rfl⟩)
          rw [hconf] at hd'
          rw [(h.valid.used_iff _).mpr ⟨_, hd'⟩] at hunused
          exact nomatch hunused
        · have hd' := (h.assigned_iff d.symIdx d.oldIdx).mpr (.inr ⟨d, hd, rfl, rfl⟩)
          rw [hconf, hnone] at hd'
          exact nomatch hd'
      rw [heq, greedyStep, if_neg hany]
      -- The assignments are those of pass one and of the candidates chosen.
      refine ⟨h.valid.claim hm hn hnone hunused, fun i j => ?_⟩
      rw [Assignment.claim_assigned_iff, h.assigned_iff]
      simp only [List.mem_append, List.mem_singleton]
      constructor
      · rintro (⟨rfl, rfl⟩ | ⟨-, hi | ⟨d, hd, hdi, hdj⟩⟩)
        · exact .inr ⟨c, .inr rfl, rfl, rfl⟩
        · exact .inl hi
        · exact .inr ⟨d, .inl hd, hdi, hdj⟩
      · rintro (hi | ⟨d, hd | rfl, hdi, hdj⟩)
        · refine .inr ⟨?_, .inl hi⟩
          rintro rfl
          exact hsym j hi
        · refine .inr ⟨?_, .inr ⟨d, hd, hdi, hdj⟩⟩
          rintro rfl
          have hd' := (h.assigned_iff d.symIdx d.oldIdx).mpr (.inr ⟨d, hd, rfl, rfl⟩)
          rw [hdi, hnone] at hd'
          exact nomatch hd'
        · exact .inl ⟨hdi.symm, hdj.symm⟩

/-- What Pass 2 adds to the pairs of Pass 1. -/
private theorem matchSymbols_taken (H : Hasher) {olds : List Node} (hd : FqnsDistinct olds)
    (syms : List ReconcileSymbol) :
    TakenFrom (pass1 olds syms) syms.length olds.length
      (greedy RenameCandidate.conflict ((renameCandidates H olds syms
        (pass1 olds syms)).insertionSort RenameCandidate.le))
      (matchSymbols H olds syms) := by
  refine foldl_claimRename _ [] _ ⟨pass1_valid hd syms, fun i j => ?_⟩ fun c hc => ?_
  · simp
  · obtain ⟨s, old, hs, hj, hsym, hold, -⟩ :=
      (mem_renameCandidates hd).mp ((List.mem_insertionSort _).mp hc)
    refine ⟨(List.getElem?_eq_some_iff.mp hs).1, (List.getElem?_eq_some_iff.mp hj).1,
      fun j h => hsym j ((pass1_assigned_iff hd syms _ j).mp h),
      fun i h => hold i ((pass1_assigned_iff hd syms i _).mp h)⟩

/-! ## Main results -/

/-- The matching is a valid assignment. -/
theorem matchSymbols_valid (H : Hasher) {olds : List Node} (hd : FqnsDistinct olds)
    (syms : List ReconcileSymbol) :
    (matchSymbols H olds syms).Valid syms.length olds.length :=
  (matchSymbols_taken H hd syms).valid

/-- The pairs of Passes 1 and 2 are a matching. -/
theorem matchSymbols_isMatching (H : Hasher) {olds : List Node} (hd : FqnsDistinct olds)
    (syms : List ReconcileSymbol) :
    IsMatching H olds syms fun i j => (matchSymbols H olds syms).assigned i = some j := by
  have htaken := matchSymbols_taken H hd syms
  have hg : IsGreedy RenameCandidate.conflict RenameCandidate.before _ _ := greedy_isGreedy
    (pairwise_before_sorted H olds syms (pass1 olds syms)) RenameCandidate.before_asymm
  have hC : ∀ c, c ∈ (renameCandidates H olds syms (pass1 olds syms)).insertionSort
      RenameCandidate.le ↔ RenameOption H olds syms c := fun c =>
    (List.mem_insertionSort _).trans (mem_renameCandidates hd)
  -- A candidate is in the matching exactly when the greedy choice took it.
  have hM : ∀ c, RenameOption H olds syms c →
      ((matchSymbols H olds syms).assigned c.symIdx = some c.oldIdx ↔
        c ∈ greedy RenameCandidate.conflict ((renameCandidates H olds syms
          (pass1 olds syms)).insertionSort RenameCandidate.le)) := by
    intro c hc
    rw [htaken.assigned_iff]
    constructor
    · rintro (h | ⟨d, hd', hsym, hold⟩)
      · obtain ⟨-, -, -, -, hnone, -, -⟩ := hc
        exact absurd ((pass1_assigned_iff hd syms _ _).mp h) (hnone _)
      · obtain ⟨s, old, hs, hj, -, -, hc⟩ := hc
        obtain ⟨s', old', hs', hj', -, -, hd''⟩ := (hC d).mp (hg.sub d hd')
        rw [hsym] at hs' hd''
        rw [hold] at hj' hd''
        obtain rfl := Option.some.inj (hs.symm.trans hs')
        obtain rfl := Option.some.inj (hj.symm.trans hj')
        obtain rfl := Option.some.inj (hc.symm.trans hd'')
        exact hd'
    · exact fun h => .inr ⟨c, h, rfl, rfl⟩
  refine ⟨fun i j h => ?_, fun i j h => ?_, fun c hc => hc.1, fun c d hc hd' hb => ?_,
    fun c hc hnot => ?_⟩
  · exact (htaken.assigned_iff i j).mpr (.inl ((pass1_assigned_iff hd syms i j).mpr h))
  · rcases (htaken.assigned_iff i j).mp h with h | ⟨c, hc, hi, hj⟩
    · exact .inl ((pass1_assigned_iff hd syms i j).mp h)
    · exact .inr ⟨c, (hC c).mp (hg.sub c hc), hi, hj⟩
  · exact hg.free c d ((hM c hc.1).mp hc.2) ((hM d hd'.1).mp hd'.2) hb
  · have hnot' : c ∉ greedy RenameCandidate.conflict ((renameCandidates H olds syms
        (pass1 olds syms)).insertionSort RenameCandidate.le) :=
      fun h => hnot ⟨hc, (hM c hc).mpr h⟩
    obtain ⟨d, hd', hb, hconf⟩ := hg.blocked c ((hC c).mpr hc) hnot'
    have hdo := (hC d).mp (hg.sub d hd')
    exact ⟨d, ⟨hdo, (hM d hdo).mpr hd'⟩, hb, hconf⟩

/-- A file and its symbols have one matching. -/
private theorem IsMatching.unique {H : Hasher} {olds : List Node} (hd : FqnsDistinct olds)
    {syms : List ReconcileSymbol} {M N : Nat → Nat → Prop} (hM : IsMatching H olds syms M)
    (hN : IsMatching H olds syms N) (i j : Nat) : M i j ↔ N i j := by
  have hC : (fun c => RenameOption H olds syms c) = fun c =>
      c ∈ (renameCandidates H olds syms (pass1 olds syms)).insertionSort RenameCandidate.le :=
    funext fun c => propext
      ((List.mem_insertionSort _).trans (mem_renameCandidates hd)).symm
  -- Both renames are greedy over one sorted list of candidates.
  have hgM := hM.greedy
  have hgN := hN.greedy
  change IsGreedy _ _ (fun c => RenameOption H olds syms c) _ at hgM hgN
  rw [hC] at hgM hgN
  have huniq := IsGreedy.unique (pairwise_before_sorted H olds syms (pass1 olds syms))
    RenameCandidate.before_asymm hgM hgN
  constructor
  · intro h
    -- A pair is an exact match, common to both, or a rename, which greediness settles.
    rcases hM.cases i j h with he | ⟨c, hc, rfl, rfl⟩
    · exact hN.of_exact i j he
    · exact ((huniq c).mp ⟨hc, h⟩).2
  · intro h
    rcases hN.cases i j h with he | ⟨c, hc, rfl, rfl⟩
    · exact hM.of_exact i j he
    · exact ((huniq c).mpr ⟨hc, h⟩).2

/-- Being left unmatched is what the vectors say. -/
theorem leftUnmatched_iff {H : Hasher} {olds : List Node} (hd : FqnsDistinct olds)
    {syms : List ReconcileSymbol} {j : Nat} :
    LeftUnmatched H olds syms j ↔ (matchSymbols H olds syms).oldUsed j = false := by
  rw [← Bool.not_eq_true, (matchSymbols_valid H hd syms).used_iff, not_exists]
  constructor
  · exact fun h => h _ (matchSymbols_isMatching H hd syms)
  · intro h M hM i hMij
    exact h i ((IsMatching.unique hd hM (matchSymbols_isMatching H hd syms) i j).mp hMij)

end Semnav.Graph
