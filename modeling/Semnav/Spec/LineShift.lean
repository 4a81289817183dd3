import Semnav.Indexer.Symbol
import Semnav.Spec.ReconcileAgain

/-!
# Moving a file's symbols down by some lines

`signatureFingerprint` is meant to leave out absolute positions, but `span` writes the four
coordinates of a range, lines included.  So every symbol that moves gets another fingerprint,
and the next reconcile takes it for changed.

## Key results

- `signatureFingerprint_shift_iff`: the fingerprint survives a shift by 0 lines only
- `reconcile_shift_iff`: when reconciling the shifted symbols changes nothing but positions
-/

namespace Semnav.Indexer

open Semnav.ForStd Semnav.Graph

/-! ## Shifts -/

/-- A span moved down by `k` lines. -/
def shiftRange (k : Nat) (r : Range) : Range :=
  { r with startLine := r.startLine + k, endLine := r.endLine + k }

/-- A symbol moved down by `k` lines. -/
def FlatSymbol.shift (k : Nat) (sym : FlatSymbol) : FlatSymbol :=
  { sym with range := shiftRange k sym.range, sel := shiftRange k sym.sel }

/-- The batch of a file that exists: its declared symbols and the module root. -/
def fileSymbols (H : Hasher) (declared : List FlatSymbol) (modulePath : String) :
    List ReconcileSymbol :=
  (declared ++ [FlatSymbol.moduleRoot modulePath]).map (FlatSymbol.toReconcile H)

/-- The hasher does not confuse the symbol with its shifted copy. -/
def TellsApart (H : Hasher) (k : Nat) (sym : FlatSymbol) : Prop :=
  H (fingerprintWrites (sym.shift k)) = H (fingerprintWrites sym) →
    fingerprintWrites (sym.shift k) = fingerprintWrites sym

instance (H : Hasher) (k : Nat) (sym : FlatSymbol) : Decidable (TellsApart H k sym) :=
  inferInstanceAs (Decidable (_ → _))

@[simp] theorem FlatSymbol.shift_zero (sym : FlatSymbol) : sym.shift 0 = sym := by
  simp [FlatSymbol.shift, shiftRange]

/-- What is written to the hasher tells where the symbol starts. -/
private theorem fingerprintWrites_startLine {a b : FlatSymbol}
    (h : fingerprintWrites a = fingerprintWrites b) : a.range.startLine = b.range.startLine := by
  simp only [fingerprintWrites, List.append_assoc, List.cons_append, List.nil_append,
    List.cons.injEq] at h
  have hspan := (hashOptionStr_append_inj h.2.2).2
  simp only [span, List.cons_append, List.cons.injEq, HashWrite.i64.injEq] at hspan
  exact hspan.1

/-- The fingerprint leaves out nothing but a shift by 0 lines. -/
private theorem signatureFingerprint_shift_iff {H : Hasher} {k : Nat} {sym : FlatSymbol}
    (hH : TellsApart H k sym) :
    signatureFingerprint H (sym.shift k) = signatureFingerprint H sym ↔ k = 0 := by
  constructor
  · intro h
    have hline := fingerprintWrites_startLine (hH (hex016_injective h))
    simp only [FlatSymbol.shift, shiftRange] at hline
    omega
  · rintro rfl
    rw [FlatSymbol.shift_zero]

/-! ## The second reconcile -/

/-- A row without its two spans. -/
def eraseSpans (n : Node) : Node :=
  { n with range := ⟨0, 0, 0, 0⟩, sel := ⟨0, 0, 0, 0⟩ }

/-- Reconciling `syms` commits, reports every symbol unchanged, changes no edge's valid flag
    and only the position columns of the rows. -/
def OnlyMoves (H : Hasher) (db : Db) (args : FileArgs) (syms : List ReconcileSymbol) : Prop :=
  ∃ db' o, reconcileFileSymbols H db args syms = .ok (db', o) ∧
    o = { unchanged := syms.length } ∧
    db'.edges.map (fun e => (e.id, e.valid)) = db.edges.map (fun e => (e.id, e.valid)) ∧
    ∀ y, (∃ x ∈ db'.nodes, eraseSpans x = y) ↔ ∃ x ∈ db.nodes, eraseSpans x = y

section Shifted

variable {H : Hasher} {db db₁ : Db} {args : FileArgs} {o : ReconcileOutcome}

/-- Reconciling the same symbols once more moves nothing. -/
private theorem onlyMoves_self (h : db.Stored) {syms : List ReconcileSymbol} (hS : SymbolBatch syms)
    (hok : reconcileFileSymbols H db args syms = .ok (db₁, o))
    (hno : ∀ n ∈ db₁.nodes, n.uri = args.uri → n.orphan = false) :
    OnlyMoves H db₁ args syms := by
  obtain ⟨ids, hr⟩ := reconcile_reconciled H h hS.line_nonneg hok
  have hset := hr.settled (matched_of_stored H h args hS.line_nonneg) hS
  obtain ⟨db₂, hok₂, hnodes, hedges, -⟩ := reconcile_settled_noop H hr.stored hS hset hno
  refine ⟨db₂, _, hok₂, rfl, by rw [hedges], fun y => ?_⟩
  simp only [hnodes]

/-- Symbols that are all found unchanged have the hashes of the last reconcile. -/
private theorem OnlyMoves.signatureHash_eq (h : db.Stored) {syms syms' : List ReconcileSymbol}
    (hS : SymbolBatch syms) (hnn : ∀ s ∈ syms', 0 ≤ s.range.startLine)
    (hok : reconcileFileSymbols H db args syms = .ok (db₁, o))
    (hmoves : OnlyMoves H db₁ args syms') {i : Nat} {s s' : ReconcileSymbol}
    (hs : syms[i]? = some s) (hs' : syms'[i]? = some s') (hfqn : s'.fqn = s.fqn) :
    s'.signatureHash = s.signatureHash := by
  obtain ⟨ids, hr⟩ := reconcile_reconciled H h hS.line_nonneg hok
  have hset := hr.settled (matched_of_stored H h args hS.line_nonneg) hS
  obtain ⟨db₂, o₂, hok₂, ho₂, -⟩ := hmoves
  obtain ⟨ids₂, hr₂⟩ := reconcile_reconciled H hr.stored hnn hok₂
  have hm₂ := matched_of_stored H hr.stored args hnn
  -- The counters add up to the number of symbols, so none was counted elsewhere.
  have hcount := ho₂.symm.trans hr₂.outcome
  simp only [ReconcileOutcome.mk.injEq] at hcount
  have hfate := fate_of_tally_zero hcount.2.1.symm hcount.2.2.1.symm hcount.2.2.2.1.symm i s' hs'
  obtain ⟨x, hclaim, hxfqn, hxhash⟩ := claimedRow_of_unchanged hfate
  obtain ⟨y, hy, -, -, hc⟩ := hset.row i s hs
  have hx := hm₂.old_mem_base (claimedRow_mem hclaim)
  -- The row it claimed holds the symbol's fqn, so it is the one written last time.
  obtain rfl := hr.stored.node_ext hx hy
    (hr.stored.fqn_unique x hx y hy (hxfqn.trans (hfqn.trans hc.fqn.symm)))
  exact Option.some.inj (hxhash.symm.trans hc.signatureHash)

end Shifted

/-- A line shift keeps the fingerprints, and changes nothing but positions in the graph,
    exactly when it is a shift by 0 lines (or the file declares nothing). -/
theorem reconcile_shift_iff (H : Hasher) (k : Nat) {declared : List FlatSymbol}
    (hH : ∀ sym ∈ declared, TellsApart H k sym) {modulePath : String} {db : Db} (h : db.Stored)
    {args : FileArgs} (hS : SymbolBatch (fileSymbols H declared modulePath)) {db₁ : Db}
    {o : ReconcileOutcome}
    (hok : reconcileFileSymbols H db args (fileSymbols H declared modulePath) = .ok (db₁, o))
    (hno : ∀ n ∈ db₁.nodes, n.uri = args.uri → n.orphan = false) :
    (∀ sym, TellsApart H k sym →
        (signatureFingerprint H (sym.shift k) = signatureFingerprint H sym ↔ k = 0)) ∧
      (OnlyMoves H db₁ args (fileSymbols H (declared.map (FlatSymbol.shift k)) modulePath) ↔
        k = 0 ∨ declared = []) := by
  refine ⟨fun sym hsym => signatureFingerprint_shift_iff hsym, ?_, ?_⟩
  · intro hmoves
    -- If something is declared, its first symbol's hash tells whether the lines moved.
    cases declared with
    | nil => exact .inr rfl
    | cons sym rest =>
      -- The shifted symbols are on lines of the file, as the declared ones are.
      have hnn : ∀ s ∈ fileSymbols H ((sym :: rest).map (FlatSymbol.shift k)) modulePath,
          0 ≤ s.range.startLine := by
        intro s hs
        obtain ⟨f, hf, rfl⟩ := List.mem_map.mp hs
        rcases List.mem_append.mp hf with hf | hf
        · obtain ⟨g, hg, rfl⟩ := List.mem_map.mp hf
          have hline := hS.line_nonneg _ (List.mem_map.mpr ⟨g, List.mem_append_left _ hg, rfl⟩)
          simp only [FlatSymbol.toReconcile] at hline
          simp only [FlatSymbol.toReconcile, FlatSymbol.shift, shiftRange]
          omega
        · rw [List.mem_singleton.mp hf]
          exact Int.le_refl 0
      have hfirst : (fileSymbols H (sym :: rest) modulePath)[0]? = some (sym.toReconcile H) := rfl
      have hfirst' : (fileSymbols H ((sym :: rest).map (FlatSymbol.shift k)) modulePath)[0]? =
          some ((sym.shift k).toReconcile H) := rfl
      have hhash := hmoves.signatureHash_eq h hS hnn hok hfirst hfirst' rfl
      exact .inl ((signatureFingerprint_shift_iff (hH sym (List.mem_cons_self ..))).mp hhash)
  · -- The other direction: the shifted symbols are the same ones.
    intro hcond
    have hsame : declared.map (FlatSymbol.shift k) = declared := by
      rcases hcond with rfl | rfl
      · exact (List.map_congr_left fun sym _ => sym.shift_zero).trans (List.map_id _)
      · rfl
    rw [hsame]
    exact onlyMoves_self h hS hok hno

/-! ## A class one line further down -/

/-- A hasher for concrete runs: the sum of the coordinates. -/
def lineHasher : Hasher := fun ws =>
  UInt64.ofNat (ws.map fun | .i64 n => n.toNat | _ => 0).sum

/-- `class Foo` on lines 0 to 2 with a method on line 1. -/
def fooClass : List FlatSymbol :=
  [⟨"app.Foo", "Foo", 5, ⟨0, 0, 2, 0⟩, ⟨0, 6, 0, 9⟩, none, none⟩,
   ⟨"app.Foo.new", "new", 6, ⟨1, 4, 1, 20⟩, ⟨1, 8, 1, 11⟩, none, some 0⟩]

/-- The graph once the class was reconciled. -/
def fooClassDb : Db :=
  match reconcileFileSymbols lineHasher .empty appPy (fileSymbols lineHasher fooClass "app") with
  | .ok (db, _) => db
  | .error _ => .empty

private theorem fooClassDb_eq :
    reconcileFileSymbols lineHasher .empty appPy (fileSymbols lineHasher fooClass "app") =
      .ok (fooClassDb, { inserted := 3 }) := rfl

theorem reconcile_shift_iff_class :
    (∀ sym, TellsApart lineHasher 1 sym →
        (signatureFingerprint lineHasher (sym.shift 1) = signatureFingerprint lineHasher sym ↔
          1 = 0)) ∧
      (OnlyMoves lineHasher fooClassDb appPy
        (fileSymbols lineHasher (fooClass.map (FlatSymbol.shift 1)) "app") ↔
          1 = 0 ∨ fooClass = []) :=
  reconcile_shift_iff lineHasher 1 (by decide) Db.empty_stored (by decide)
    fooClassDb_eq (by decide)

/-- A line inserted above the class: both symbols count as updated. -/
theorem reconcile_shift_class_updates :
    reconcileFileSymbols lineHasher .empty appPy (fileSymbols lineHasher fooClass "app") =
        .ok (fooClassDb, { inserted := 3 }) ∧
      (∃ db', reconcileFileSymbols lineHasher fooClassDb appPy
          (fileSymbols lineHasher (fooClass.map (FlatSymbol.shift 1)) "app") =
        .ok (db', { unchanged := 1, updated := 2 })) ∧
      ¬ OnlyMoves lineHasher fooClassDb appPy
        (fileSymbols lineHasher (fooClass.map (FlatSymbol.shift 1)) "app") := by
  refine ⟨fooClassDb_eq, ⟨_, rfl⟩, ?_⟩
  rintro ⟨db', o, hok, ho, -⟩
  have ho' : o = { unchanged := 1, updated := 2 } :=
    congrArg Prod.snd (Except.ok.inj (hok.symm.trans rfl))
  rw [ho'] at ho
  exact nomatch ho

end Semnav.Indexer
