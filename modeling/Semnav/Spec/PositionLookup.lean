import Semnav.ForStd.Greedy
import Semnav.Spec.CallEdges
import Semnav.Spec.ReconcileCommits

/-!
# The innermost node at a position

`find_node_by_position` is asked for "the smallest valid node whose declaration range
contains" a position.  An LSP range does not contain its end; the statement's `WHERE` clause
takes a range that ends at the position as well.  Over a tree of ranges the answer is the
deepest node that holds the position exactly when no such row comes first in the
statement's order; and of two rows of one extent the one that has ended does.

## Key results

- `head_byPosition`: the row that the statement returns
- `RangeTree.strictlyInside_of_depth_lt`: of two nodes that hold one position the deeper
  one is the smaller
- `position_lookup_iff`: when the lookup finds the innermost node
- `touching_symbols`: between two symbols that touch it finds the one that ended
-/

namespace Semnav.Graph

/-! ## Positions and ranges -/

namespace Range

/-- The position stands in the half-open range `[start, end)`. -/
def Holds (r : Range) (line col : Int) : Prop :=
  (r.startLine < line ∨ (r.startLine = line ∧ r.startCol ≤ col)) ∧
    (line < r.endLine ∨ (line = r.endLine ∧ col < r.endCol))

instance (r : Range) (line col : Int) : Decidable (r.Holds line col) :=
  inferInstanceAs (Decidable (_ ∧ _))

/-- The range starts at or before the position and ends exactly there. -/
def EndsAt (r : Range) (line col : Int) : Prop :=
  (r.startLine < line ∨ (r.startLine = line ∧ r.startCol ≤ col)) ∧
    r.endLine = line ∧ r.endCol = col

instance (r : Range) (line col : Int) : Decidable (r.EndsAt line col) :=
  inferInstanceAs (Decidable (_ ∧ _))

/-- A range lies in another one if neither of its ends is outside of it. -/
def Inside (r outer : Range) : Prop :=
  (outer.startLine < r.startLine ∨
    (outer.startLine = r.startLine ∧ outer.startCol ≤ r.startCol)) ∧
  (r.endLine < outer.endLine ∨ (r.endLine = outer.endLine ∧ r.endCol ≤ outer.endCol))

/-- Inside, and not the same range. -/
def StrictlyInside (r outer : Range) : Prop := r.Inside outer ∧ r ≠ outer

instance (r outer : Range) : Decidable (r.StrictlyInside outer) :=
  inferInstanceAs (Decidable ((_ ∧ _) ∧ _))

variable {r s t : Range} {line col : Int}

/-- What a range holds, a range around it holds. -/
private theorem Inside.holds (h : r.Inside s) (hr : r.Holds line col) : s.Holds line col := by
  obtain ⟨hstart, hend⟩ := h
  obtain ⟨hfrom, hto⟩ := hr
  constructor
  · omega
  · omega

/-- Ranges differ when a bound does. -/
private theorem ne_iff : r ≠ s ↔ r.startLine ≠ s.startLine ∨ r.startCol ≠ s.startCol ∨
    r.endLine ≠ s.endLine ∨ r.endCol ≠ s.endCol := by
  obtain ⟨a, b, c, d⟩ := r
  obtain ⟨a', b', c', d'⟩ := s
  simp only [ne_eq, Range.mk.injEq]
  omega

/-- Strictly inside is transitive. -/
theorem StrictlyInside.trans (h : r.StrictlyInside s) (h' : s.StrictlyInside t) :
    r.StrictlyInside t := by
  obtain ⟨⟨hstart, hend⟩, hne⟩ := h
  obtain ⟨⟨hstart', hend'⟩, hne'⟩ := h'
  rw [ne_iff] at hne hne'
  refine ⟨⟨?_, ?_⟩, ne_iff.mpr ?_⟩
  · omega
  · omega
  · omega

end Range

/-- The lookup counts a position in the range or at its end. -/
private theorem Node.coversPos_iff {n : Node} {line col : Int} :
    n.coversPos line col = true ↔ n.range.Holds line col ∨ n.range.EndsAt line col := by
  simp only [Node.coversPos, Range.Holds, Range.EndsAt, Bool.and_eq_true, Bool.or_eq_true,
    decide_eq_true_eq, beq_iff_eq]
  omega

/-! ## The statement's order -/

instance : Std.Total Node.spanLe where
  total a b := by
    simp only [Node.spanLe]
    omega

instance : IsTrans Node Node.spanLe where
  trans a b c hab hbc := by
    simp only [Node.spanLe] at hab hbc ⊢
    omega

/-- A range strictly inside another has the smaller extent, by lines and then by columns. -/
private theorem Range.StrictlyInside.not_spanLe {m n : Node} (h : m.range.StrictlyInside n.range) :
    ¬ n.spanLe m := by
  obtain ⟨⟨hstart, hend⟩, hne⟩ := h
  rw [Range.ne_iff] at hne
  simp only [Node.spanLe]
  omega

instance : Std.Total Node.physLe where
  total a b := by
    have hname := String.le_total a.name b.name
    simp only [Node.physLe]
    grind

instance : IsTrans Node Node.physLe where
  trans a b c hab hbc := by
    have htrans : a.name ≤ b.name → b.name ≤ c.name → a.name ≤ c.name := String.le_trans
    simp only [Node.physLe] at hab hbc ⊢
    grind

/-- The first row of the statement: no other one has a smaller extent, and of equal extents it is
    the first in the order of the index. -/
private theorem head_byPosition {rows : List Node} {d : Node}
    (h : ((rows.insertionSort Node.physLe).insertionSort Node.spanLe).head? = some d) :
    d ∈ rows ∧ ∀ n ∈ rows, n ≠ d → d.spanLe n ∧ (n.spanLe d → d.physLe n) := by
  have hstable := ForStd.pairwise_insertionSort_stable Node.spanLe
    (rows.insertionSort Node.physLe) (List.pairwise_insertionSort Node.physLe rows)
  obtain ⟨rest, hsorted⟩ := List.head?_eq_some_iff.mp h
  rw [hsorted, List.pairwise_cons] at hstable
  have hmem : ∀ n, n ∈ rows ↔ n = d ∨ n ∈ rest := by
    intro n
    rw [← List.mem_insertionSort Node.physLe, ← List.mem_insertionSort Node.spanLe, hsorted,
      List.mem_cons]
  constructor
  · exact (hmem d).mpr (.inl rfl)
  · intro n hn hne
    cases (hmem n).mp hn with
    | inl heq => exact absurd heq hne
    | inr hrest => exact hstable.1 n hrest

/-- Of two rows of one extent, the one that ends first also starts first. -/
private theorem Range.Holds.not_physLe {m n : Node} {line col : Int} (hm : m.range.Holds line col)
    (hn : n.range.EndsAt line col) (hmn : m.spanLe n) (hnm : n.spanLe m) : ¬ m.physLe n := by
  simp only [Range.Holds, Range.EndsAt, Node.spanLe, Node.physLe] at *
  omega

/-! ## Trees of ranges -/

/-- A forest over the rows in which each child's range is inside its parent's and siblings
    hold no position in common. -/
structure RangeTree (rows : List Node) where
  parent : Node → Option Node
  depth : Node → Nat
  parent_mem : ∀ n ∈ rows, ∀ m, parent n = some m → m ∈ rows
  depth_root : ∀ n ∈ rows, parent n = none → depth n = 0
  depth_child : ∀ n ∈ rows, ∀ m, parent n = some m → depth n = depth m + 1
  inside : ∀ n ∈ rows, ∀ m, parent n = some m → n.range.StrictlyInside m.range
  siblings : ∀ m ∈ rows, ∀ n ∈ rows, m ≠ n → parent m = parent n →
    ∀ line col, ¬ (m.range.Holds line col ∧ n.range.Holds line col)

namespace RangeTree

variable {rows : List Node} (t : RangeTree rows) {m n : Node} {line col : Int}

/-- On one level a position has one holder: two would have one parent, by induction. -/
private theorem eq_of_depth_eq (hm : m ∈ rows) (hn : n ∈ rows) (hmp : m.range.Holds line col)
    (hnp : n.range.Holds line col) (hdepth : t.depth m = t.depth n) : m = n := by
  -- Induction on the common depth: two roots are siblings, and the parents are one by induction.
  induction hk : t.depth m generalizing m n with
  | zero =>
    have hroot : ∀ x ∈ rows, t.depth x = 0 → t.parent x = none := by
      intro x hx hzero
      cases hp : t.parent x with
      | none => rfl
      | some q =>
        have := t.depth_child x hx q hp
        omega
    by_contra hne
    apply t.siblings m hm n hn hne _ line col ⟨hmp, hnp⟩
    rw [hroot m hm hk, hroot n hn (by omega)]
  | succ k ih =>
    have hchild : ∀ x ∈ rows, t.depth x = k + 1 → ∃ q, t.parent x = some q := by
      intro x hx hsucc
      cases hp : t.parent x with
      | none =>
        have := t.depth_root x hx hp
        omega
      | some q => exact ⟨q, rfl⟩
    obtain ⟨p, hp⟩ := hchild m hm hk
    obtain ⟨q, hq⟩ := hchild n hn (by omega)
    have hpdepth := t.depth_child m hm p hp
    have hqdepth := t.depth_child n hn q hq
    -- Both parents hold the position too, as a child lies inside its parent.
    have hpq : p = q := by
      apply ih (t.parent_mem m hm p hp) (t.parent_mem n hn q hq)
      · exact (t.inside m hm p hp).1.holds hmp
      · exact (t.inside n hn q hq).1.holds hnp
      · omega
      · omega
    -- So `m` and `n` are siblings that overlap, which siblings do not.
    by_contra hne
    apply t.siblings m hm n hn hne _ line col ⟨hmp, hnp⟩
    rw [hp, hq, hpq]

/-- Of two nodes that hold one position the deeper one is inside the other: going up from
    it leads through holders to the other's level. -/
private theorem strictlyInside_of_depth_lt (hm : m ∈ rows) (hn : n ∈ rows)
    (hmp : m.range.Holds line col) (hnp : n.range.Holds line col)
    (hdepth : t.depth n < t.depth m) : m.range.StrictlyInside n.range := by
  induction hk : t.depth m generalizing m with
  | zero => omega
  | succ k ih =>
    cases hp : t.parent m with
    | none =>
      have := t.depth_root m hm hp
      omega
    | some q =>
      have hq := t.parent_mem m hm q hp
      have hqdepth := t.depth_child m hm q hp
      have hin := t.inside m hm q hp
      have hqp := hin.1.holds hmp
      -- The parent is one level up: still below `n`'s level, or on it and then `n` itself.
      by_cases hlevel : t.depth n < t.depth q
      · exact hin.trans (ih hq hqp hlevel (by omega))
      · have heq : q = n := t.eq_of_depth_eq hq hn hqp hnp (by omega)
        exact heq ▸ hin

end RangeTree

/-! ## The lookup -/

namespace Db

/-- The valid rows of a uri. -/
def validRows (db : Db) (uri : String) : List Node :=
  db.nodes.filter fun n => n.uri == uri && n.valid

end Db

/-- `found` is the deepest node of the tree that holds the position. -/
def Innermost {rows : List Node} (t : RangeTree rows) (line col : Int) : Option Node → Prop
  | some d => d ∈ rows ∧ d.range.Holds line col ∧
      ∀ n ∈ rows, n.range.Holds line col → n ≠ d → t.depth n < t.depth d
  | none => ∀ n ∈ rows, ¬ n.range.Holds line col

/-- The lookup as the first row of two stable sorts, by key and then by extent. -/
private theorem Db.findNodeByPosition_eq (db : Db) (uri : String) (line col : Int) :
    db.findNodeByPosition uri line col =
      ((((db.validRows uri).filter fun n => n.coversPos line col).insertionSort
        Node.physLe).insertionSort Node.spanLe).head? := by
  rw [Db.findNodeByPosition, Db.validRows, List.filter_filter]
  congr 4
  funext n
  rw [Bool.and_comm]

/-- What the lookup finds: a valid row that holds the position or ends there, with no other such
    row before it in the statement's order; and nothing only if there is no such row. -/
private theorem Db.findNodeByPosition_first (db : Db) (uri : String) (line col : Int) :
    match db.findNodeByPosition uri line col with
    | some d => (d ∈ db.validRows uri ∧ (d.range.Holds line col ∨ d.range.EndsAt line col)) ∧
        ∀ n ∈ db.validRows uri, n.range.Holds line col ∨ n.range.EndsAt line col → n ≠ d →
          d.spanLe n ∧ (n.spanLe d → d.physLe n)
    | none => ∀ n ∈ db.validRows uri, ¬ (n.range.Holds line col ∨ n.range.EndsAt line col) := by
  have hcover : ∀ n, n ∈ (db.validRows uri).filter (fun n => n.coversPos line col) ↔
      n ∈ db.validRows uri ∧ (n.range.Holds line col ∨ n.range.EndsAt line col) := by
    intro n
    rw [List.mem_filter, Node.coversPos_iff]
  cases hfound : db.findNodeByPosition uri line col with
  -- Nothing found means the sorted list is empty, and so is the list it sorts.
  | none =>
    intro n hn hat
    rw [Db.findNodeByPosition_eq, List.head?_eq_none_iff] at hfound
    have hmem := (List.mem_insertionSort Node.spanLe).mpr
      ((List.mem_insertionSort Node.physLe).mpr ((hcover n).mpr ⟨hn, hat⟩))
    rw [hfound] at hmem
    exact List.not_mem_nil hmem
  | some d =>
    rw [Db.findNodeByPosition_eq] at hfound
    obtain ⟨hmem, hfirst⟩ := head_byPosition hfound
    exact ⟨(hcover d).mp hmem, fun n hn hat hne => hfirst n ((hcover n).mpr ⟨hn, hat⟩) hne⟩

/-- Over a tree of ranges the lookup finds the innermost node exactly when each row that ends
    at the position has a larger extent than some row that holds it. -/
theorem position_lookup_iff (db : Db) (uri : String) (t : RangeTree (db.validRows uri))
    (line col : Int) :
    Innermost t line col (db.findNodeByPosition uri line col) ↔
      ∀ n ∈ db.validRows uri, n.range.EndsAt line col →
        ∃ m ∈ db.validRows uri, m.range.Holds line col ∧ ¬ n.spanLe m := by
  have hapart : ∀ n : Node, n.range.Holds line col → ¬ n.range.EndsAt line col := by
    intro n hholds hends
    simp only [Range.Holds, Range.EndsAt] at hholds hends
    omega
  have hfirst := db.findNodeByPosition_first uri line col
  cases hfound : db.findNodeByPosition uri line col with
  | none =>
    rw [hfound] at hfirst
    constructor
    · intro _ n hn hends
      exact absurd (.inr hends) (hfirst n hn)
    · intro _ n hn hholds
      exact hfirst n hn (.inl hholds)
  | some d =>
    rw [hfound] at hfirst
    obtain ⟨⟨hd, hat⟩, hfirst⟩ := hfirst
    constructor
    · intro hinner n hn hends
      obtain ⟨-, hholds, -⟩ := hinner
      have hne : n ≠ d := fun heq => hapart d hholds (heq ▸ hends)
      obtain ⟨hle, htie⟩ := hfirst n hn (.inr hends) hne
      -- A row of the same extent that ends here starts earlier, so it would come first.
      refine ⟨d, hd, hholds, fun h => ?_⟩
      exact hholds.not_physLe hends hle h (htie h)
    · intro hcond
      have hholds : d.range.Holds line col := by
        cases hat with
        | inl hholds => exact hholds
        | inr hends =>
          -- The smaller row covers the position too, and the answer has no smaller one beside it.
          obtain ⟨m, hm, hmholds, hsmaller⟩ := hcond d hd hends
          have hne : m ≠ d := fun heq => hapart m hmholds (heq ▸ hends)
          exact absurd (hfirst m hm (.inl hmholds) hne).1 hsmaller
      refine ⟨hd, hholds, fun n hn hnholds hne => ?_⟩
      by_contra hdeep
      by_cases hlevel : t.depth n = t.depth d
      · exact hne (t.eq_of_depth_eq hn hd hnholds hholds hlevel)
      · have hin := t.strictlyInside_of_depth_lt hn hd hnholds hholds (by omega)
        exact hin.not_spanLe (hfirst n hn (.inl hnholds) hne).1

/-- The class and its method, as the rows' containers nest them. -/
def fooTree : RangeTree (fooDb.validRows appPy.uri) where
  parent n := n.containerId.bind fooDb.getNode
  depth n := if n.containerId.isSome then 1 else 0
  parent_mem := show ∀ n ∈ fooDb.validRows appPy.uri,
    ∀ m ∈ n.containerId.bind fooDb.getNode, m ∈ fooDb.validRows appPy.uri by decide
  depth_root := by decide
  depth_child := show ∀ n ∈ fooDb.validRows appPy.uri,
    ∀ m ∈ n.containerId.bind fooDb.getNode,
      (if n.containerId.isSome then 1 else 0) = (if m.containerId.isSome then 1 else 0) + 1
    by decide
  inside := show ∀ n ∈ fooDb.validRows appPy.uri,
    ∀ m ∈ n.containerId.bind fooDb.getNode, n.range.StrictlyInside m.range by decide
  siblings m hm n hn hne hparent := by
    have hlevels : ∀ m ∈ fooDb.validRows appPy.uri, ∀ n ∈ fooDb.validRows appPy.uri,
        m.containerId.bind fooDb.getNode = n.containerId.bind fooDb.getNode → m = n := by decide
    exact absurd (hlevels m hm n hn hparent) hne

/-- On the method's line the method is found, not the class around it. -/
theorem position_lookup_iff_method :
    Innermost fooTree 1 5 (fooDb.findNodeByPosition appPy.uri 1 5) :=
  (position_lookup_iff fooDb appPy.uri fooTree 1 5).mpr (by decide)

/-! ## Symbols that touch -/

/-- `class A{}class B{}` on one line, as an LSP reports them. -/
def touchingSymbols : List ReconcileSymbol :=
  [{ fqn := "app.A", name := "A", kind := 5, nodeKind := "class", range := ⟨0, 0, 0, 9⟩,
     sel := ⟨0, 6, 0, 7⟩, detail := none, signatureHash := "5", parent := none },
   { fqn := "app.B", name := "B", kind := 5, nodeKind := "class", range := ⟨0, 9, 0, 18⟩,
     sel := ⟨0, 15, 0, 16⟩, detail := none, signatureHash := "5", parent := none }]

/-- `app.ts`, indexed as TypeScript. -/
def appTs : FileArgs := ⟨"file:///app.ts", "typescript", false⟩

/-- The graph once the two classes were reconciled. -/
def touchingDb : Db :=
  match reconcileFileSymbols lengthHasher .empty appTs touchingSymbols with
  | .ok (db, _) => db
  | .error _ => .empty

/-- The graph of the example is a reconciled one. -/
private theorem touchingDb_eq : reconcileFileSymbols lengthHasher .empty appTs touchingSymbols =
    .ok (touchingDb, { inserted := 2 }) := rfl

/-- Two classes at the top level of a file. -/
def touchingTree : RangeTree (touchingDb.validRows appTs.uri) where
  parent _ := none
  depth _ := 0
  parent_mem _ _ _ h := nomatch h
  depth_root _ _ _ := rfl
  depth_child _ _ _ h := nomatch h
  inside _ _ _ h := nomatch h
  siblings m hm n hn hne _ line col := by
    have hrows : ∀ n ∈ touchingDb.validRows appTs.uri,
        n.range = ⟨0, 0, 0, 9⟩ ∨ n.range = ⟨0, 9, 0, 18⟩ := by decide
    have hranges : ∀ m ∈ touchingDb.validRows appTs.uri,
        ∀ n ∈ touchingDb.validRows appTs.uri, m.range = n.range → m = n := by decide
    have hdiffer : m.range ≠ n.range := fun heq => hne (hranges m hm n hn heq)
    have hm' := hrows m hm
    have hn' := hrows n hn
    simp only [Range.Holds]
    grind

/-- At the first character of `class B` the lookup finds `class A`, which ended there. -/
theorem touching_symbols : touchingDb.WF ∧
    ∃ t : RangeTree (touchingDb.validRows appTs.uri),
      ¬ Innermost t 0 9 (touchingDb.findNodeByPosition appTs.uri 0 9) := by
  refine ⟨(reconcile_stored lengthHasher Db.empty_stored (by decide) touchingDb_eq).toWF,
    touchingTree, fun hinner => ?_⟩
  have hfound : touchingDb.findNodeByPosition appTs.uri 0 9 = touchingDb.getNode 1 := by decide
  rw [hfound] at hinner
  obtain ⟨-, hholds, -⟩ := hinner
  exact absurd hholds (by decide)

end Semnav.Graph
