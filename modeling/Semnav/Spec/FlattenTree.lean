import Mathlib.Data.List.Basic
import Semnav.ForStd.Preorder
import Semnav.Indexer.Symbol

/-!
# Flattened symbol trees

What the depth-first walk guarantees of its output, whatever the server sent.  The output is the
preorder list of the symbols, each under the fqn that its parent's gives it: parents stand before
their children, lines are real, fqns are below the module path, and the forest can be read back.

## Key results

- `flattenDocumentSymbols_eq`: the walk's output is the preorder list of the labelled forest
- `flattenDocumentSymbols_flattened`: the walk's output is `Flattened`
- `Flattened.fqn_ne`: no symbol has the module's own fqn
- `flatten_faithful`: the output encodes the forest
-/

namespace Semnav.Indexer

open Semnav.ForStd Semnav.Graph

/-! ## The labelled forest -/

/-- What a flat symbol holds besides the index of its parent. -/
structure SymbolLabel where
  fqn : String
  name : String
  kind : Nat
  range : Range
  sel : Range
  detail : Option String

/-- The flat symbol with this label under this parent. -/
def SymbolLabel.under (l : SymbolLabel) (parent : Option Nat) : FlatSymbol :=
  ⟨l.fqn, l.name, l.kind, l.range, l.sel, l.detail, parent⟩

/-- A flat symbol's label, and its parent. -/
def FlatSymbol.entry (s : FlatSymbol) : SymbolLabel × Option Nat :=
  (⟨s.fqn, s.name, s.kind, s.range, s.sel, s.detail⟩, s.parent)

mutual

/-- A symbol's tree, each label with the fqn that it has below `pre`. -/
def DocumentSymbol.labelled (symbol : DocumentSymbol) (pre : String) : LabelTree SymbolLabel :=
  match symbol with
  | .mk name detail kind range selectionRange children =>
    .node ⟨pre ++ "." ++ name, name, kind, range.toGraph, selectionRange.toGraph, detail⟩
      (labelledAll children (pre ++ "." ++ name))

/-- The labelled trees of a list of symbols. -/
def labelledAll (symbols : List DocumentSymbol) (pre : String) : List (LabelTree SymbolLabel) :=
  match symbols with
  | [] => []
  | symbol :: rest => symbol.labelled pre :: labelledAll rest pre

end

/-- The labelled trees of a list are the trees of its symbols. -/
private theorem mem_labelledAll {symbols : List DocumentSymbol} {pre : String}
    {t : LabelTree SymbolLabel} :
    t ∈ labelledAll symbols pre ↔ ∃ symbol ∈ symbols, t = symbol.labelled pre := by
  induction symbols with
  | nil => simp [labelledAll]
  | cons symbol rest ih => simp [labelledAll, ih]

/-- A name is qualified by what is above it. -/
private theorem label_labelled (symbol : DocumentSymbol) (pre : String) :
    (symbol.labelled pre).label.fqn = pre ++ "." ++ (symbol.labelled pre).label.name := by
  cases symbol
  rw [DocumentSymbol.labelled]
  rfl

/-- The fqn of a child is its parent's, a dot and its name. -/
def Qualifies (parent child : SymbolLabel) : Prop := child.fqn = parent.fqn ++ "." ++ child.name

mutual

/-- Every child's name is qualified by its parent's. -/
private theorem labelled_linked (symbol : DocumentSymbol) (pre : String) :
    LabelTree.Linked Qualifies (symbol.labelled pre) := by
  match symbol with
  | .mk name detail kind range selectionRange children =>
    rw [DocumentSymbol.labelled, LabelTree.Linked]
    refine ⟨fun t ht => ?_, labelledAll_linked children _⟩
    obtain ⟨child, -, rfl⟩ := mem_labelledAll.mp ht
    exact label_labelled child _

/-- In each tree of a list a child's name is qualified by its parent's. -/
private theorem labelledAll_linked (symbols : List DocumentSymbol) (pre : String) :
    LabelTree.AllLinked Qualifies (labelledAll symbols pre) := by
  match symbols with
  | [] => trivial
  | symbol :: rest =>
    rw [labelledAll, LabelTree.AllLinked]
    exact ⟨labelled_linked symbol pre, labelledAll_linked rest pre⟩

end

/-! ## The walk -/

mutual

/-- Flattening one symbol appends the encoding of its tree. -/
private theorem flattenOne_eq (symbol : DocumentSymbol) (pre : String) (parent : Option Nat)
    (out : List FlatSymbol) : flattenOne symbol pre parent out =
      out ++ ((symbol.labelled pre).encode parent out.length).map fun x => x.1.under x.2 := by
  match symbol with
  | .mk name detail kind range selectionRange children =>
    rw [flattenOne, DocumentSymbol.labelled, LabelTree.encode, flattenAll_eq children,
      List.length_append, List.length_singleton, List.map_cons, List.append_assoc,
      List.singleton_append]
    rfl

/-- Flattening a list appends the encoding of its forest. -/
private theorem flattenAll_eq (symbols : List DocumentSymbol) (pre : String) (parent : Option Nat)
    (out : List FlatSymbol) : flattenAll symbols pre parent out =
      out ++ (LabelTree.encodeAll (labelledAll symbols pre) parent out.length).map
        fun x => x.1.under x.2 := by
  match symbols with
  | [] =>
    rw [flattenAll, labelledAll, LabelTree.encodeAll, List.map_nil, List.append_nil]
  | symbol :: rest =>
    rw [flattenAll, labelledAll, LabelTree.encodeAll, flattenOne_eq symbol, flattenAll_eq rest,
      List.length_append, List.length_map, LabelTree.length_encodeOne, List.map_append,
      List.append_assoc]

end

/-- The walk's output is the preorder list of the labelled forest. -/
theorem flattenDocumentSymbols_eq (symbols : List DocumentSymbol) (modulePath : String) :
    flattenDocumentSymbols symbols modulePath =
      (LabelTree.encodeAll (labelledAll symbols modulePath) none 0).map fun x => x.1.under x.2 := by
  rw [flattenDocumentSymbols, flattenAll_eq, List.nil_append, List.length_nil]

/-- A root's fqn is the module's, a dot and its name; any other symbol stands after its parent, and
    its fqn is its parent's, a dot and its name. -/
private theorem flatten_qualified {symbols : List DocumentSymbol} {modulePath : String} {i : Nat}
    {s : FlatSymbol} (hs : (flattenDocumentSymbols symbols modulePath)[i]? = some s) :
    (s.parent = none → s.fqn = modulePath ++ "." ++ s.name) ∧ ∀ p, s.parent = some p →
      p < i ∧ ∃ t, (flattenDocumentSymbols symbols modulePath)[p]? = some t ∧
        s.fqn = t.fqn ++ "." ++ s.name := by
  rw [flattenDocumentSymbols_eq, List.getElem?_map] at hs
  obtain ⟨⟨label, parent⟩, hentry, rfl⟩ := Option.map_eq_some_iff.mp hs
  -- A preorder entry is a root of the forest or the child of an earlier entry.
  obtain ⟨hroot, hchild⟩ := LabelTree.encode_linked (P := Qualifies)
    (Q := fun label => label.fqn = modulePath ++ "." ++ label.name)
    (labelledAll_linked symbols modulePath)
    (fun t ht => by
      obtain ⟨symbol, -, rfl⟩ := mem_labelledAll.mp ht
      exact label_labelled symbol modulePath) hentry
  refine ⟨hroot, fun p hp => ?_⟩
  obtain ⟨hlt, above, q, habove, hfqn⟩ := hchild p hp
  refine ⟨hlt, above.under q, ?_, hfqn⟩
  rw [flattenDocumentSymbols_eq, List.getElem?_map, habove]
  rfl

/-! ## One entry for each symbol -/

mutual

/-- The symbol, then those below it. -/
def DocumentSymbol.preorder (symbol : DocumentSymbol) : List DocumentSymbol :=
  match symbol with
  | .mk name detail kind range selectionRange children =>
    .mk name detail kind range selectionRange children :: symbolsPreorder children

/-- The symbols of a forest, each before those below it and siblings in their order. -/
def symbolsPreorder (symbols : List DocumentSymbol) : List DocumentSymbol :=
  match symbols with
  | [] => []
  | symbol :: rest => symbol.preorder ++ symbolsPreorder rest

end

/-- The flat symbol has what the server sent of the symbol itself. -/
def DocumentSymbol.Gives : DocumentSymbol → FlatSymbol → Prop
  | .mk name detail kind range selectionRange _, s => s.name = name ∧ s.detail = detail ∧
    s.kind = kind ∧ s.range = range.toGraph ∧ s.sel = selectionRange.toGraph

mutual

/-- The encoding gives one entry a symbol, in preorder. -/
private theorem encode_gives (symbol : DocumentSymbol) (pre : String) (parent : Option Nat)
    (base : Nat) : List.Forall₂ DocumentSymbol.Gives symbol.preorder
      (((symbol.labelled pre).encode parent base).map fun x => x.1.under x.2) := by
  match symbol with
  | .mk name detail kind range selectionRange children =>
    rw [DocumentSymbol.preorder, DocumentSymbol.labelled, LabelTree.encode, List.map_cons]
    exact .cons ⟨rfl, rfl, rfl, rfl, rfl⟩ (encodeAll_gives children _ _ _)

/-- The encoding of a list gives one entry a symbol, in preorder. -/
private theorem encodeAll_gives (symbols : List DocumentSymbol) (pre : String)
    (parent : Option Nat) (base : Nat) : List.Forall₂ DocumentSymbol.Gives (symbolsPreorder symbols)
      ((LabelTree.encodeAll (labelledAll symbols pre) parent base).map fun x => x.1.under x.2) := by
  match symbols with
  | [] =>
    rw [symbolsPreorder, labelledAll, LabelTree.encodeAll]
    exact .nil
  | symbol :: rest =>
    rw [symbolsPreorder, labelledAll, LabelTree.encodeAll, List.map_append]
    exact List.rel_append (encode_gives symbol pre parent base) (encodeAll_gives rest pre parent _)

end

/-- The flattening of a document gives one entry a symbol, in preorder. -/
private theorem flatten_gives (symbols : List DocumentSymbol) (modulePath : String) :
    List.Forall₂ DocumentSymbol.Gives (symbolsPreorder symbols)
      (flattenDocumentSymbols symbols modulePath) := by
  rw [flattenDocumentSymbols_eq]
  exact encodeAll_gives symbols modulePath none 0

/-! ## Reading the forest back -/

/-- The range that was widened to this one. -/
def LspRange.ofGraph (r : Range) : LspRange :=
  ⟨⟨r.startLine.toNat, r.startCol.toNat⟩, ⟨r.endLine.toNat, r.endCol.toNat⟩⟩

/-- A range survives being stored. -/
private theorem LspRange.ofGraph_toGraph (r : LspRange) : LspRange.ofGraph r.toGraph = r := rfl

mutual

/-- The symbol of a tree of labels. -/
def symbolOf (t : LabelTree SymbolLabel) : DocumentSymbol :=
  match t with
  | .node l children =>
    .mk l.name l.detail l.kind (LspRange.ofGraph l.range) (LspRange.ofGraph l.sel)
      (symbolsOf children)

/-- The symbols of a list of trees. -/
def symbolsOf (ts : List (LabelTree SymbolLabel)) : List DocumentSymbol :=
  match ts with
  | [] => []
  | t :: rest => symbolOf t :: symbolsOf rest

end

/-- The forest that a flat list holds, by its parent links alone. -/
def unflatten (flat : List FlatSymbol) : List DocumentSymbol :=
  symbolsOf (LabelTree.decode (flat.map FlatSymbol.entry))

mutual

/-- A labelled tree is its symbol again. -/
private theorem symbolOf_labelled (symbol : DocumentSymbol) (pre : String) :
    symbolOf (symbol.labelled pre) = symbol := by
  match symbol with
  | .mk name detail kind range selectionRange children =>
    rw [DocumentSymbol.labelled, symbolOf, symbolsOf_labelled children,
      LspRange.ofGraph_toGraph, LspRange.ofGraph_toGraph]

/-- The labelled trees of a list are its symbols again. -/
private theorem symbolsOf_labelled (symbols : List DocumentSymbol) (pre : String) :
    symbolsOf (labelledAll symbols pre) = symbols := by
  match symbols with
  | [] => rw [labelledAll, symbolsOf]
  | symbol :: rest =>
    rw [labelledAll, symbolsOf, symbolOf_labelled symbol, symbolsOf_labelled rest]

end

/-- The tree is recovered from the flat list. -/
private theorem unflatten_flatten (symbols : List DocumentSymbol) (modulePath : String) :
    unflatten (flattenDocumentSymbols symbols modulePath) = symbols := by
  have hentries : ∀ entries : List (SymbolLabel × Option Nat),
      (entries.map fun x => x.1.under x.2).map FlatSymbol.entry = entries := by
    intro entries
    rw [List.map_map]
    exact List.map_id entries
  rw [unflatten, flattenDocumentSymbols_eq, hentries, LabelTree.decode_encode, symbolsOf_labelled]

/-- The output encodes the forest: it has one entry for each symbol, in preorder; each parent stands
    before its children; each fqn is the parent's, or the module's for a root, with the name after
    a dot; and the forest can be read back from it. -/
theorem flatten_faithful (symbols : List DocumentSymbol) (modulePath : String) :
    List.Forall₂ DocumentSymbol.Gives (symbolsPreorder symbols)
      (flattenDocumentSymbols symbols modulePath) ∧
    (∀ (i : Nat) (s : FlatSymbol) (p : Nat),
      (flattenDocumentSymbols symbols modulePath)[i]? = some s → s.parent = some p → p < i) ∧
    (∀ (i : Nat) (s : FlatSymbol), (flattenDocumentSymbols symbols modulePath)[i]? = some s →
      (s.parent = none → s.fqn = modulePath ++ "." ++ s.name) ∧
      ∀ p, s.parent = some p → ∃ t, (flattenDocumentSymbols symbols modulePath)[p]? = some t ∧
        s.fqn = t.fqn ++ "." ++ s.name) ∧
    unflatten (flattenDocumentSymbols symbols modulePath) = symbols := by
  refine ⟨flatten_gives symbols modulePath, ?_, ?_, unflatten_flatten symbols modulePath⟩
  · intro i s p hs hp
    exact ((flatten_qualified hs).2 p hp).1
  · intro i s hs
    obtain ⟨hroot, hchild⟩ := flatten_qualified hs
    exact ⟨hroot, fun p hp => (hchild p hp).2⟩

/-! ## What the indexer relies on -/

/-- A parent-before-child list of symbols below the module `root`. -/
structure Flattened (root : String) (out : List FlatSymbol) : Prop where
  line_nonneg : ∀ s ∈ out, 0 ≤ s.range.startLine
  parent_lt : ∀ (i : Nat) (s : FlatSymbol), out[i]? = some s → ∀ p, s.parent = some p → p < i
  fqn_below : ∀ s ∈ out, ∃ path, s.fqn = root ++ "." ++ path

/-- The prefix under which siblings are named: the module, or a symbol below it. -/
def BelowRoot (root pre : String) : Prop := pre = root ∨ ∃ path, pre = root ++ "." ++ path

/-- A name below the root qualifies a name below the root. -/
private theorem BelowRoot.child {root pre : String} (h : BelowRoot root pre) (name : String) :
    ∃ path, pre ++ "." ++ name = root ++ "." ++ path := by
  cases h with
  | inl hroot => exact ⟨name, by rw [hroot]⟩
  | inr hbelow =>
    obtain ⟨path, rfl⟩ := hbelow
    exact ⟨path ++ "." ++ name, by simp only [String.append_assoc]⟩

/-- A flattened document is a flat list of its module. -/
theorem flattenDocumentSymbols_flattened (symbols : List DocumentSymbol) (modulePath : String) :
    Flattened modulePath (flattenDocumentSymbols symbols modulePath) where
  line_nonneg := by
    have hgives : List.Forall₂ (flip DocumentSymbol.Gives)
        (flattenDocumentSymbols symbols modulePath) (symbolsPreorder symbols) :=
      (flatten_gives symbols modulePath).flip
    have hline : ∀ s symbol, flip DocumentSymbol.Gives s symbol →
        0 ≤ s.range.startLine ∧ flip DocumentSymbol.Gives s symbol := by
      intro s symbol h
      refine ⟨?_, h⟩
      cases symbol
      obtain ⟨-, -, -, hrange, -⟩ := h
      rw [hrange]
      exact Int.natCast_nonneg _
    exact ((List.forall₂_and_left _ _).mp (hgives.imp hline)).1
  parent_lt := fun i s hs p hp => ((flatten_qualified hs).2 p hp).1
  fqn_below := by
    -- Induction on the index: a parent stands before its children.
    have hbelow : ∀ (i : Nat) (s : FlatSymbol),
        (flattenDocumentSymbols symbols modulePath)[i]? = some s →
          ∃ path, s.fqn = modulePath ++ "." ++ path := by
      intro i
      induction i using Nat.strong_induction_on with
      | _ i ih =>
        intro s hs
        obtain ⟨hroot, hchild⟩ := flatten_qualified hs
        cases hparent : s.parent with
        | none => exact ⟨s.name, hroot hparent⟩
        | some p =>
          obtain ⟨hlt, t, ht, hfqn⟩ := hchild p hparent
          rw [hfqn]
          exact BelowRoot.child (.inr (ih p hlt t ht)) s.name
    intro s hs
    obtain ⟨i, hi⟩ := List.mem_iff_getElem?.mp hs
    exact hbelow i s hi

/-- A symbol's fqn is longer than its module's. -/
theorem Flattened.fqn_ne {root : String} {out : List FlatSymbol} (h : Flattened root out)
    {s : FlatSymbol} (hs : s ∈ out) : s.fqn ≠ root := by
  obtain ⟨path, hpath⟩ := h.fqn_below s hs
  intro heq
  have hlen := congrArg String.length (hpath.symm.trans heq)
  simp only [String.length_append] at hlen
  have : ".".length = 1 := rfl
  omega

end Semnav.Indexer
