import Semnav.Spec.MatchCorrect
import Semnav.Spec.ReconcileCommits

/-!
# Which rows a rename finds

The matching of Passes 1 and 2 in terms of the rows and symbols themselves: a partial injection
that pairs equal fqns, and what is left over in the order of the scores, best first.

## Key results

- `renameCandidate?_eq_some_iff`: a pairing is a candidate if and only if it is admissible
- `passes_sound_greedy`: the pairs of Passes 1 and 2 are a sound greedy matching
-/

namespace Semnav.Graph

open Semnav.ForStd

/-! ## Admissible pairings -/

/-- How far the start line has moved. -/
def lineDrift (old : Node) (s : ReconcileSymbol) : Int := |old.range.startLine - s.range.startLine|

/-- `1` when the body fingerprints are the same, `0` otherwise. -/
def bodyTier (H : Hasher) (old : Node) (s : ReconcileSymbol) : Nat :=
  if bodyFingerprint H old.kind old.detail old.range old.sel =
    bodyFingerprint H s.kind s.detail s.range s.sel then 1 else 0

/-- The row may have been renamed to the symbol. -/
structure Admissible (old : Node) (s : ReconcileSymbol) : Prop where
  kind : old.kind = s.kind
  container : containerPrefix old.fqn = containerPrefix s.fqn
  drift : lineDrift old s ≤ renameMaxLineDrift

/-- Row `j` and symbol `i` with their score. -/
def scored (H : Hasher) (old : Node) (j : Nat) (s : ReconcileSymbol) (i : Nat) : RenameCandidate :=
  ⟨bodyTier H old s, lineDrift old s, j, i⟩

private theorem renameCandidate?_eq_some_iff {H : Hasher} {old : Node} {j : Nat}
    {s : ReconcileSymbol}
    {i : Nat} {c : RenameCandidate} :
    renameCandidate? H old j s i = some c ↔ Admissible old s ∧ c = scored H old j s i := by
  unfold renameCandidate?
  -- The three tests of the code, each of which gives up the pair if it fails.
  by_cases hkind : old.kind = s.kind
  · by_cases hcontainer : containerPrefix old.fqn = containerPrefix s.fqn
    · by_cases hdrift : lineDrift old s ≤ renameMaxLineDrift
      · have hnot : ¬ |old.range.startLine - s.range.startLine| > renameMaxLineDrift := by
          show ¬ lineDrift old s > renameMaxLineDrift
          omega
        rw [if_neg (not_not.mpr hkind), if_neg (not_not.mpr hcontainer)]
        simp only [hnot, if_false]
        constructor
        · intro h
          exact ⟨⟨hkind, hcontainer, hdrift⟩, (Option.some.inj h).symm⟩
        · intro h
          exact congrArg some h.2.symm
      · -- The pair is too far apart, which is what `Admissible` excludes.
        have hfar : |old.range.startLine - s.range.startLine| > renameMaxLineDrift := by
          show lineDrift old s > renameMaxLineDrift
          omega
        rw [if_neg (not_not.mpr hkind), if_neg (not_not.mpr hcontainer)]
        simp only [hfar, if_true]
        exact ⟨(fun h => nomatch h), fun h => absurd h.1.drift hdrift⟩
    · rw [if_neg (not_not.mpr hkind), if_pos hcontainer]
      exact ⟨(fun h => nomatch h), fun h => absurd h.1.container hcontainer⟩
  · rw [if_pos hkind]
    exact ⟨(fun h => nomatch h), fun h => absurd h.1.kind hkind⟩

/-! ## Sound greedy matchings -/

/-- Pass 1 has left over both the symbol and the row. -/
def LeftOver (olds : List Node) (syms : List ReconcileSymbol) (i j : Nat) : Prop :=
  (pass1 olds syms).assigned i = none ∧ (pass1 olds syms).oldUsed j = false

/-- A pair that Pass 2 has added. -/
def Pass2Pair (olds : List Node) (syms : List ReconcileSymbol) (a : Assignment) (i j : Nat) : Prop :=
  (pass1 olds syms).assigned i = none ∧ a.assigned i = some j

/-- What rename matching promises. -/
structure SoundGreedy (H : Hasher) (olds : List Node) (syms : List ReconcileSymbol)
    (a : Assignment) : Prop where
  /-- A partial injection from symbols to rows. -/
  injection : a.Valid syms.length olds.length
  /-- A symbol whose fqn is among the rows is matched to that row. -/
  exact_fqn : ∀ i s j old, syms[i]? = some s → olds[j]? = some old → old.fqn = s.fqn →
    a.assigned i = some j
  /-- A pair of Pass 2 is admissible, and a rename. -/
  renamed : ∀ i j, Pass2Pair olds syms a i j → ∃ s old, syms[i]? = some s ∧ olds[j]? = some old ∧
    Admissible old s ∧ old.fqn ≠ s.fqn
  /-- No admissible pair of an unmatched row and an unmatched symbol remains. -/
  maximal : ∀ i s j old, syms[i]? = some s → olds[j]? = some old → a.assigned i = none →
    a.oldUsed j = false → ¬ Admissible old s
  /-- An admissible pair that was not chosen shares an endpoint with a better one that was. -/
  greedy : ∀ i s j old, syms[i]? = some s → olds[j]? = some old → LeftOver olds syms i j →
    Admissible old s → a.assigned i ≠ some j →
    ∃ i' s' j' old', syms[i']? = some s' ∧ olds[j']? = some old' ∧ Pass2Pair olds syms a i' j' ∧
      (i' = i ∨ j' = j) ∧ (scored H old' j' s' i').before (scored H old j s i)

section

variable {H : Hasher} {olds : List Node} {syms : List ReconcileSymbol}

private theorem leftOver_iff (hold : FqnsDistinct olds) {i j : Nat} : LeftOver olds syms i j ↔
    (∀ j', ¬ ExactPair olds syms i j') ∧ ∀ i', ¬ ExactPair olds syms i' j := by
  have hvalid := pass1_valid hold syms
  unfold LeftOver
  rw [Option.eq_none_iff_forall_ne_some, ← Bool.not_eq_true, hvalid.used_iff, not_exists]
  simp only [ne_eq, pass1_assigned_iff hold]

/-- The candidates of Pass 2, in terms of rows and symbols. -/
private theorem renameOption_iff (hold : FqnsDistinct olds) {c : RenameCandidate} :
    RenameOption H olds syms c ↔ ∃ s old, syms[c.symIdx]? = some s ∧ olds[c.oldIdx]? = some old ∧
      LeftOver olds syms c.symIdx c.oldIdx ∧ Admissible old s ∧
      c = scored H old c.oldIdx s c.symIdx := by
  unfold RenameOption
  constructor
  · intro h
    obtain ⟨s, old, hs, hj, hsym, hrow, hc⟩ := h
    obtain ⟨hadm, heq⟩ := renameCandidate?_eq_some_iff.mp hc
    exact ⟨s, old, hs, hj, (leftOver_iff hold).mpr ⟨hsym, hrow⟩, hadm, heq⟩
  · intro h
    obtain ⟨s, old, hs, hj, hleft, hadm, heq⟩ := h
    obtain ⟨hsym, hrow⟩ := (leftOver_iff hold).mp hleft
    exact ⟨s, old, hs, hj, hsym, hrow, renameCandidate?_eq_some_iff.mpr ⟨hadm, heq⟩⟩

/-- Passes 1 and 2 compute a sound greedy matching. -/
theorem passes_sound_greedy (H : Hasher) (hold : FqnsDistinct olds)
    (hsyms : (syms.map (·.fqn)).Nodup) : SoundGreedy H olds syms (matchSymbols H olds syms) := by
  have hmatch := matchSymbols_isMatching H hold syms
  have hvalid := matchSymbols_valid H hold syms
  -- A symbol with its fqn among the rows is the only one with that fqn.
  have hexact : ∀ i s j old, syms[i]? = some s → olds[j]? = some old → old.fqn = s.fqn →
      ExactPair olds syms i j := by
    intro i s j old hs hj hfqn
    refine ⟨s, old, hs, hj, hfqn, fun i' hlt s' hs' hsame => ?_⟩
    have hlt' : i' < (syms.map (·.fqn)).length := by
      rw [List.length_map]
      exact (List.getElem?_eq_some_iff.mp hs').1
    have hidx : i' = i := by
      apply (List.getElem?_inj hlt' hsyms).mp
      rw [List.getElem?_map, List.getElem?_map, hs', hs]
      exact congrArg some hsame
    omega
  have hpass1 : ∀ i j, ExactPair olds syms i j → (pass1 olds syms).assigned i ≠ none := by
    intro i j h hnone
    exact nomatch hnone.symm.trans ((pass1_assigned_iff hold syms i j).mpr h)
  -- A pair that was chosen but not in Pass 1 is a candidate, with its score.
  have hcandidate : ∀ i j, Pass2Pair olds syms (matchSymbols H olds syms) i j →
      ∃ s old, syms[i]? = some s ∧ olds[j]? = some old ∧ Admissible old s ∧
        LeftOver olds syms i j := by
    intro i j h
    cases hmatch.cases i j h.2 with
    | inl hpair => exact absurd h.1 (hpass1 i j hpair)
    | inr hrename =>
      obtain ⟨c, hc, rfl, rfl⟩ := hrename
      obtain ⟨s, old, hs, hj, hleft, hadm, -⟩ := (renameOption_iff hold).mp hc
      exact ⟨s, old, hs, hj, hadm, hleft⟩
  -- The greedy choice, for a candidate that was left out.
  have hblocked : ∀ i s j old, syms[i]? = some s → olds[j]? = some old → LeftOver olds syms i j →
      Admissible old s → (matchSymbols H olds syms).assigned i ≠ some j →
      ∃ i' s' j' old', syms[i']? = some s' ∧ olds[j']? = some old' ∧
        Pass2Pair olds syms (matchSymbols H olds syms) i' j' ∧ (i' = i ∨ j' = j) ∧
        (scored H old' j' s' i').before (scored H old j s i) := by
    intro i s j old hs hj hleft hadm hnot
    have hc : RenameOption H olds syms (scored H old j s i) :=
      (renameOption_iff hold).mpr ⟨s, old, hs, hj, hleft, hadm, rfl⟩
    obtain ⟨d, ⟨hd, hassigned⟩, hbefore, hconflict⟩ :=
      hmatch.greedy.blocked _ hc fun h => hnot h.2
    obtain ⟨s', old', hs', hj', hleft', -, heq⟩ := (renameOption_iff hold).mp hd
    refine ⟨d.symIdx, s', d.oldIdx, old', hs', hj', ⟨hleft'.1, hassigned⟩, ?_, heq ▸ hbefore⟩
    cases hconflict with
    | inl hrow => exact .inr hrow
    | inr hsym => exact .inl hsym
  constructor
  case injection => exact hvalid
  case exact_fqn =>
    intro i s j old hs hj hfqn
    exact hmatch.of_exact i j (hexact i s j old hs hj hfqn)
  case renamed =>
    intro i j h
    obtain ⟨s, old, hs, hj, hadm, -⟩ := hcandidate i j h
    refine ⟨s, old, hs, hj, hadm, fun hfqn => ?_⟩
    exact hpass1 i j (hexact i s j old hs hj hfqn) h.1
  case maximal =>
    intro i s j old hs hj hnone hunused hadm
    have hfree : ∀ i', (matchSymbols H olds syms).assigned i' ≠ some j := by
      intro i' h
      exact Bool.noConfusion (hunused.symm.trans ((hvalid.used_iff j).mpr ⟨i', h⟩))
    have hleft : LeftOver olds syms i j := by
      refine (leftOver_iff hold).mpr ⟨fun j' h => ?_, fun i' h => ?_⟩
      · exact nomatch hnone.symm.trans (hmatch.of_exact i j' h)
      · exact hfree i' (hmatch.of_exact i' j h)
    -- The pair that blocks it would have used the symbol or the row.
    obtain ⟨i', s', j', old', -, -, hpair, hshared, -⟩ :=
      hblocked i s j old hs hj hleft hadm fun h => nomatch hnone.symm.trans h
    cases hshared with
    | inl hsym =>
      have hsome := hpair.2
      rw [hsym, hnone] at hsome
      exact nomatch hsome
    | inr hrow => exact hfree i' (hrow ▸ hpair.2)
  case greedy => exact hblocked

end

/-- The class is renamed, and its method is left over: its container is another one. -/
theorem passes_sound_greedy_class_rename :
    SoundGreedy lengthHasher (fooDb.nodesByUri appPy.uri) (classSymbols "Bar")
        (matchSymbols lengthHasher (fooDb.nodesByUri appPy.uri) (classSymbols "Bar")) ∧
      (matchSymbols lengthHasher (fooDb.nodesByUri appPy.uri) (classSymbols "Bar")).assigned 0 =
        some 0 ∧
      (matchSymbols lengthHasher (fooDb.nodesByUri appPy.uri) (classSymbols "Bar")).assigned 1 =
        none :=
  ⟨passes_sound_greedy lengthHasher (nodesByUri_fqnsDistinct fooDb_stored.toWF appPy.uri)
    (by decide), rfl, rfl⟩

end Semnav.Graph
