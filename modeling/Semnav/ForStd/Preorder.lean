import Mathlib.Data.List.Basic

/-!
# Forests as preorder lists

A forest of labelled trees, and the list that a depth-first walk makes of it: each entry is a label
with the index of its parent's entry.  The list has a parent before its children, what holds
between every label and its parent's label holds between their entries, and the forest can be
read back from it.

## Key results

- `labels_encode`: the entries are the labels in preorder
- `encode_linked`: an entry of a linked forest stands after its parent's, and is linked to it
- `decode_encode`: decoding gives the forest back
-/

namespace Semnav.ForStd

/-- A tree over labels `α`, its children in order. -/
inductive LabelTree (α : Type) where
  | node (label : α) (children : List (LabelTree α))

namespace LabelTree

variable {α : Type}

/-- The label at the root. -/
def label : LabelTree α → α
  | node a _ => a

mutual

/-- A label, then those below it. -/
def preorder : LabelTree α → List α
  | node a children => a :: preorderAll children

/-- The labels of a forest, in preorder. -/
def preorderAll : List (LabelTree α) → List α
  | [] => []
  | t :: rest => preorder t ++ preorderAll rest

end

mutual

/-- The entries of a tree whose first entry has the index `base`. -/
def encode : LabelTree α → Option Nat → Nat → List (α × Option Nat)
  | node a children, parent, base => (a, parent) :: encodeAll children (some base) (base + 1)

/-- The entries of the trees below one parent. -/
def encodeAll : List (LabelTree α) → Option Nat → Nat → List (α × Option Nat)
  | [], _, _ => []
  | t :: rest, parent, base =>
    encode t parent base ++ encodeAll rest parent (base + (preorder t).length)

end

mutual

/-- `P` holds between every label of the tree and its parent's label. -/
def Linked (P : α → α → Prop) : LabelTree α → Prop
  | node a children => (∀ t ∈ children, P a t.label) ∧ AllLinked P children

/-- Every tree of a forest is linked. -/
def AllLinked (P : α → α → Prop) : List (LabelTree α) → Prop
  | [] => True
  | t :: rest => Linked P t ∧ AllLinked P rest

end

/-- The trees that a list holds from its entry `i` on, each with the index of its parent where that
    stands before them: a parent takes its children from those that are already built. -/
def gather : List (α × Option Nat) → Nat → List (Option Nat × LabelTree α)
  | [], _ => []
  | (a, parent) :: rest, i =>
    let built := gather rest (i + 1)
    (parent, node a ((built.filter fun t => t.1 = some i).map Prod.snd)) ::
      built.filter fun t => ¬t.1 = some i

/-- The forest that a list holds. -/
def decode (entries : List (α × Option Nat)) : List (LabelTree α) :=
  (gather entries 0).map Prod.snd

/-! ## The labels -/

mutual

/-- The encoding lists the labels in preorder. -/
private theorem labels_encodeOne (t : LabelTree α) (parent : Option Nat) (base : Nat) :
    (encode t parent base).map Prod.fst = preorder t := by
  match t with
  | node a children =>
    rw [encode, preorder, List.map_cons, labels_encode children]

/-- The encoding of a forest lists the labels in preorder. -/
theorem labels_encode (ts : List (LabelTree α)) (parent : Option Nat) (base : Nat) :
    (encodeAll ts parent base).map Prod.fst = preorderAll ts := by
  match ts with
  | [] => rfl
  | t :: rest =>
    rw [encodeAll, preorderAll, List.map_append, labels_encodeOne t, labels_encode rest]

end

/-- The encoding of a tree has one entry a label. -/
theorem length_encodeOne (t : LabelTree α) (parent : Option Nat) (base : Nat) :
    (encode t parent base).length = (preorder t).length := by
  rw [← labels_encodeOne t parent base, List.length_map]

/-! ## Parents -/

/-- The entry at index `i` of a list that starts at `base`: it is a root's, with `Q` and the parent
    all roots have, or it stands after its parent's entry, and `P` holds between the two. -/
def EntryLinked (P : α → α → Prop) (Q : α → Prop) (entries : List (α × Option Nat))
    (parent : Option Nat) (base i : Nat) (x : α × Option Nat) : Prop :=
  (x.2 = parent ∧ Q x.1) ∨
    ∃ k a q, k < i ∧ entries[k]? = some (a, q) ∧ x.2 = some (base + k) ∧ P a x.1

/-- More entries before and after. -/
theorem EntryLinked.within {P : α → α → Prop} {Q : α → Prop} {entries : List (α × Option Nat)}
    {parent : Option Nat} {base i : Nat} {x : α × Option Nat}
    (h : EntryLinked P Q entries parent base i x) (before after : List (α × Option Nat))
    (start : Nat) (hstart : base = start + before.length) :
    EntryLinked P Q (before ++ entries ++ after) parent start (before.length + i) x := by
  cases h with
  | inl hroot => exact .inl hroot
  | inr hchild =>
    obtain ⟨k, a, q, hk, hentry, hparent, hP⟩ := hchild
    refine .inr ⟨before.length + k, a, q, by omega, ?_, ?_, hP⟩
    · have hlen := (List.getElem?_eq_some_iff.mp hentry).1
      rw [List.getElem?_append_left (by rw [List.length_append]; omega),
        List.getElem?_append_right (by omega), Nat.add_sub_cancel_left, hentry]
    · rw [hparent, hstart, Nat.add_assoc]

mutual

/-- In the encoding of a linked tree an entry is linked to its parent's. -/
private theorem encodeOne_linked {P : α → α → Prop} (t : LabelTree α) (hP : Linked P t)
    {Q : α → Prop} (hQ : Q t.label) (parent : Option Nat) (base i : Nat) (x : α × Option Nat)
    (hx : (encode t parent base)[i]? = some x) :
    EntryLinked P Q (encode t parent base) parent base i x := by
  match t with
  | node a children =>
    rw [Linked] at hP
    rw [encode] at hx ⊢
    cases i with
    | zero =>
      cases hx
      exact .inl ⟨rfl, hQ⟩
    | succ i =>
      rw [List.getElem?_cons_succ] at hx
      -- The children's entries have this one as their parent, or stand among themselves.
      cases encodeAll_linked children hP.2 hP.1 (some base) (base + 1) i x hx with
      | inl hroot => exact .inr ⟨0, a, parent, Nat.zero_lt_succ i, rfl, hroot⟩
      | inr hchild =>
        have hbelow : EntryLinked P Q (encodeAll children (some base) (base + 1)) parent
            (base + 1) i x := .inr hchild
        have hwithin := hbelow.within [(a, parent)] [] base rfl
        rw [List.append_nil, List.length_singleton, Nat.add_comm 1 i] at hwithin
        exact hwithin

/-- In the encoding of linked trees an entry is linked to its parent's. -/
private theorem encodeAll_linked {P : α → α → Prop} (ts : List (LabelTree α))
    (hP : AllLinked P ts) {Q : α → Prop} (hQ : ∀ t ∈ ts, Q t.label) (parent : Option Nat)
    (base i : Nat) (x : α × Option Nat) (hx : (encodeAll ts parent base)[i]? = some x) :
    EntryLinked P Q (encodeAll ts parent base) parent base i x := by
  match ts with
  | [] => exact nomatch hx
  | t :: rest =>
    rw [AllLinked] at hP
    rw [encodeAll] at hx ⊢
    -- The entry is the first tree's or the later trees', whose indices are shifted by its size.
    by_cases hi : i < (encode t parent base).length
    · rw [List.getElem?_append_left hi] at hx
      have hone := encodeOne_linked t hP.1 (hQ t List.mem_cons_self) parent base i x hx
      have hwithin := hone.within [] (encodeAll rest parent (base + (preorder t).length)) base rfl
      rw [List.length_nil, Nat.zero_add] at hwithin
      exact hwithin
    · obtain ⟨j, rfl⟩ := Nat.exists_eq_add_of_le (Nat.le_of_not_lt hi)
      rw [List.getElem?_append_right (Nat.le_add_right _ _), Nat.add_sub_cancel_left] at hx
      have hrest := encodeAll_linked rest hP.2 (fun t' ht' => hQ t' (List.mem_cons_of_mem _ ht'))
        parent (base + (preorder t).length) j x hx
      have hwithin := hrest.within (encode t parent base) [] base (by rw [length_encodeOne])
      rw [List.append_nil] at hwithin
      exact hwithin

end

/-- An entry of a linked forest is a root's, or it stands after its parent's and is linked to
    it. -/
theorem encode_linked {P : α → α → Prop} {Q : α → Prop} {ts : List (LabelTree α)}
    (hP : AllLinked P ts) (hQ : ∀ t ∈ ts, Q t.label) {i : Nat} {a : α} {parent : Option Nat}
    (hx : (encodeAll ts none 0)[i]? = some (a, parent)) :
    (parent = none → Q a) ∧ ∀ k, parent = some k →
      k < i ∧ ∃ b q, (encodeAll ts none 0)[k]? = some (b, q) ∧ P b a := by
  cases encodeAll_linked ts hP hQ none 0 i (a, parent) hx with
  | inl hroot =>
    obtain ⟨hnone, hroot⟩ := hroot
    refine ⟨fun _ => hroot, fun k hk => ?_⟩
    exact nomatch hnone.symm.trans hk
  | inr hchild =>
    obtain ⟨k, b, q, hk, hentry, hparent, hlink⟩ := hchild
    rw [Nat.zero_add] at hparent
    refine ⟨fun hnone => ?_, fun k' hk' => ?_⟩
    · exact nomatch hnone.symm.trans hparent
    · obtain rfl := Option.some.inj (hparent.symm.trans hk')
      exact ⟨hk, b, q, hentry, hlink⟩

/-! ## Decoding -/

/-- No tree of the list waits for a parent at `base` or later. -/
def Before (base : Nat) (built : List (Option Nat × LabelTree α)) : Prop :=
  ∀ t ∈ built, ∀ k, t.1 = some k → k < base

mutual

/-- Gathering the encoding of a tree gives the tree back. -/
private theorem gather_encodeOne (t : LabelTree α) (parent : Option Nat) (base : Nat)
    (later : List (α × Option Nat))
    (hlater : Before base (gather later (base + (preorder t).length))) :
    gather (encode t parent base ++ later) base =
      (parent, t) :: gather later (base + (preorder t).length) := by
  match t with
  | node a children =>
    have hlength : base + (preorder (node a children)).length =
        base + 1 + (preorderAll children).length := by
      rw [preorder, List.length_cons]
      omega
    rw [hlength] at hlater ⊢
    have hchildren := gather_encode children (some base) (base + 1) later
      (fun k hk => Option.some.inj hk ▸ Nat.lt_succ_self base)
      (fun t ht k hk => Nat.lt_succ_of_lt (hlater t ht k hk))
    rw [encode, List.cons_append, gather, hchildren]
    -- Its children wait for it, and nothing that comes later does.
    have hothers : ∀ t ∈ gather later (base + 1 + (preorderAll children).length),
        ¬t.1 = some base := fun t ht heq => Nat.lt_irrefl base (hlater t ht base heq)
    have hmine : ∀ t ∈ children.map (Prod.mk (some base)), t.1 = some base := by
      intro t ht
      obtain ⟨_, -, rfl⟩ := List.mem_map.mp ht
      rfl
    have htaken : (children.map (Prod.mk (some base)) ++
        gather later (base + 1 + (preorderAll children).length)).filter
          (fun t => decide (t.1 = some base)) = children.map (Prod.mk (some base)) := by
      rw [List.filter_append, List.filter_eq_self.mpr fun t ht => decide_eq_true (hmine t ht),
        List.filter_eq_nil_iff.mpr fun t ht => by simpa using hothers t ht, List.append_nil]
    have hleft : (children.map (Prod.mk (some base)) ++
        gather later (base + 1 + (preorderAll children).length)).filter
          (fun t => decide (¬t.1 = some base)) =
        gather later (base + 1 + (preorderAll children).length) := by
      rw [List.filter_append, List.filter_eq_nil_iff.mpr fun t ht => by simpa using hmine t ht,
        List.filter_eq_self.mpr fun t ht => decide_eq_true (hothers t ht), List.nil_append]
    rw [htaken, hleft, List.map_map, Function.comp_def, List.map_id']

/-- Gathering the encoding of a forest gives the forest back. -/
private theorem gather_encode (ts : List (LabelTree α)) (parent : Option Nat) (base : Nat)
    (later : List (α × Option Nat)) (hparent : ∀ k, parent = some k → k < base)
    (hlater : Before base (gather later (base + (preorderAll ts).length))) :
    gather (encodeAll ts parent base ++ later) base =
      ts.map (Prod.mk parent) ++ gather later (base + (preorderAll ts).length) := by
  match ts with
  | [] => rfl
  | t :: rest =>
    have hlength : base + (preorderAll (t :: rest)).length =
        base + (preorder t).length + (preorderAll rest).length := by
      rw [preorderAll, List.length_append, Nat.add_assoc]
    rw [hlength] at hlater ⊢
    have hrest := gather_encode rest parent (base + (preorder t).length) later
      (fun k hk => Nat.lt_add_right _ (hparent k hk))
      (fun t ht k hk => Nat.lt_add_right _ (hlater t ht k hk))
    -- What the later siblings gather names parents before `base` alone, so it goes by this tree.
    have hbefore : Before base (gather (encodeAll rest parent (base + (preorder t).length) ++ later)
        (base + (preorder t).length)) := by
      rw [hrest]
      intro t' ht' k hk
      cases List.mem_append.mp ht' with
      | inl hsibling =>
        obtain ⟨_, -, rfl⟩ := List.mem_map.mp hsibling
        exact hparent k hk
      | inr hlate => exact hlater t' hlate k hk
    rw [encodeAll, List.append_assoc, gather_encodeOne t parent base _ hbefore, hrest,
      List.map_cons, List.cons_append]

end

/-- The forest is in its list. -/
theorem decode_encode (ts : List (LabelTree α)) : decode (encodeAll ts none 0) = ts := by
  have hgather := gather_encode ts none 0 [] (fun k hk => nomatch hk) (fun t ht => nomatch ht)
  rw [List.append_nil, gather, List.append_nil] at hgather
  rw [decode, hgather, List.map_map, Function.comp_def, List.map_id']

end LabelTree

end Semnav.ForStd
