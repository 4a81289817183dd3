import Mathlib.Data.List.Induction
import Mathlib.Order.WithBot
import Semnav.Spec.CallEdges
import Semnav.Spec.Paging

/-!
# Grouping neighbors

The rows of `get_neighbors` are sorted by node and site, and one pass merges the rows of each node.
As long as a sort key means one node, nothing is lost or split: the groups have strictly increasing
keys, in the order that the cursors of the paged result are compared in.

## Key results

- `groupByNode_grouped`: what the pass has made of the sorted rows
- `groups_without_loss`: the groups hold every node once and each of its sites, sorted
- `neighbors_keyed`: the neighbors of a row have one node for each sort key
-/

namespace Semnav.Query

open Semnav.Graph

/-! ## The order on rows -/

/-- Where a site starts: `(uri, line, col)`. -/
def siteStart (s : Site) : String ×ₗ Int ×ₗ Int :=
  toLex (s.uri, toLex (s.range.startLine, s.range.startCol))

/-- The start of a site, if there is one. -/
def SiteKey : Type := WithBot (String ×ₗ Int ×ₗ Int)

instance : LinearOrder SiteKey := inferInstanceAs (LinearOrder (WithBot (String ×ₗ Int ×ₗ Int)))

/-- No site stands before all sites. -/
def siteKey : Option Site → SiteKey
  | none => (⊥ : WithBot (String ×ₗ Int ×ₗ Int))
  | some s => (siteStart s : WithBot (String ×ₗ Int ×ₗ Int))

/-- Sites are ordered by where they start. -/
@[simp] theorem siteKey_some_lt_some {x y : Site} :
    siteKey (some x) < siteKey (some y) ↔ siteStart x < siteStart y := WithBot.coe_lt_coe

/-- Sites are ordered by where they start, also with equality. -/
@[simp] theorem siteKey_some_le_some {x y : Site} :
    siteKey (some x) ≤ siteKey (some y) ↔ siteStart x ≤ siteStart y := WithBot.coe_le_coe

/-- A row without a site comes before one with a site. -/
@[simp] theorem siteKey_none_lt_some {x : Site} : siteKey none < siteKey (some x) :=
  WithBot.bot_lt_coe _

/-- No row comes before one without a site. -/
@[simp] theorem siteKey_not_lt_none {a : Option Site} : ¬ siteKey a < siteKey none :=
  WithBot.not_lt_bot _

/-- The rows are sorted by the node's key, then by the start of the site. -/
def rowKey (row : Neighbor) : SortKey ×ₗ SiteKey :=
  toLex (SortKey.fromNode row.1, siteKey row.2)

/-- `node_cmp` is the comparison of sort keys. -/
theorem nodeCmp_eq (a b : Node) : nodeCmp a b = (SortKey.fromNode a).cmp (SortKey.fromNode b) := rfl

/-- Two sort keys compare equal when they are. -/
private theorem SortKey.cmp_eq_eq_iff {a b : SortKey} : a.cmp b = .eq ↔ a = b := by
  simp only [SortKey.cmp, Ordering.then_eq_eq, Std.LawfulEqOrd.compare_eq_iff_eq]
  constructor
  · intro h
    obtain ⟨hfqn, huri, hline, hcol⟩ := h
    cases a
    cases b
    simp_all
  · rintro rfl
    exact ⟨rfl, rfl, rfl, rfl⟩

/-- A sort key compares less when it is less. -/
private theorem SortKey.cmp_eq_lt_iff {a b : SortKey} : a.cmp b = .lt ↔ a < b := by
  rw [SortKey.lt_iff]
  simp only [SortKey.cmp, Ordering.then_eq_lt, compare_lt_iff_lt, compare_eq_iff_eq]

/-- `node_cmp` sees a node's sort key only. -/
private theorem nodeCmp_eq_eq_iff {a b : Node} :
    nodeCmp a b = .eq ↔ SortKey.fromNode a = SortKey.fromNode b := by
  rw [nodeCmp_eq, SortKey.cmp_eq_eq_iff]

/-- The comparison of sites is that of their keys. -/
private theorem siteCmp_eq_gt_iff {a b : Option Site} :
    siteCmp a b = .gt ↔ siteKey b < siteKey a := by
  cases a with
  | none => cases b <;> simp [siteCmp]
  | some x =>
    cases b with
    | none => simp [siteCmp]
    | some y =>
      simp only [siteCmp, siteKey_some_lt_some, siteStart, Ordering.then_eq_gt, compare_gt_iff_gt,
        compare_eq_iff_eq, Prod.Lex.toLex_lt_toLex]
      simp only [eq_comm]

/-- The comparison of the sort is the order of the row keys. -/
private theorem rowCmp_iff {a b : Neighbor} :
    (nodeCmp a.1 b.1).then (siteCmp a.2 b.2) ≠ .gt ↔ rowKey a ≤ rowKey b := by
  rw [← not_lt, not_iff_not, Ordering.then_eq_gt, nodeCmp_eq_eq_iff, nodeCmp_eq,
    SortKey.cmp_eq_gt_iff, siteCmp_eq_gt_iff, rowKey, rowKey, Prod.Lex.toLex_lt_toLex]
  simp only [eq_comm]

/-- The rows as `group_by_node` sorts them. -/
def sortedRows (neighbors : List Neighbor) : List Neighbor :=
  neighbors.insertionSort fun a b => (nodeCmp a.1 b.1).then (siteCmp a.2 b.2) ≠ .gt

/-- Sorting loses no row. -/
theorem sortedRows_perm (neighbors : List Neighbor) : (sortedRows neighbors).Perm neighbors :=
  List.perm_insertionSort _ _

/-- The sort puts the rows in order. -/
private theorem sortedRows_sorted (neighbors : List Neighbor) :
    (sortedRows neighbors).Pairwise fun a b => rowKey a ≤ rowKey b := by
  have htotal : Std.Total fun a b : Neighbor =>
      (nodeCmp a.1 b.1).then (siteCmp a.2 b.2) ≠ .gt :=
    ⟨fun a b => by simpa only [rowCmp_iff] using le_total _ _⟩
  have htrans : IsTrans Neighbor fun a b => (nodeCmp a.1 b.1).then (siteCmp a.2 b.2) ≠ .gt :=
    ⟨fun a b c => by simpa only [rowCmp_iff] using le_trans⟩
  exact (List.pairwise_insertionSort _ neighbors).imp fun h => rowCmp_iff.mp h

/-! ## The pass -/

/-- A sort key means one node. -/
def OneNodePerKey (rows : List Neighbor) : Prop :=
  ∀ a ∈ rows, ∀ b ∈ rows, SortKey.fromNode a.1 = SortKey.fromNode b.1 → a.1 = b.1

/-- The sites of a node's rows, in the order of the rows. -/
def sitesOf (rows : List Neighbor) (n : Node) : List Site :=
  (rows.filter fun r => r.1 = n).filterMap (·.2)

/-- One more row of a node adds its site. -/
private theorem sitesOf_concat_same {rows : List Neighbor} {row : Neighbor} {n : Node}
    (h : row.1 = n) :
    sitesOf (rows ++ [row]) n = sitesOf rows n ++ row.2.toList := by
  rw [sitesOf, List.filter_append, List.filterMap_append, sitesOf]
  cases hsite : row.2 <;> simp [h, hsite]

/-- One more row of another node adds nothing. -/
private theorem sitesOf_concat_other {rows : List Neighbor} {row : Neighbor} {n : Node}
    (h : row.1 ≠ n) :
    sitesOf (rows ++ [row]) n = sitesOf rows n := by
  rw [sitesOf, List.filter_append, List.filterMap_append, sitesOf]
  simp [h]

/-- What the pass has made of the rows so far. -/
structure Grouped (rows : List Neighbor) (out : List (Node × List Site)) : Prop where
  sorted : out.Pairwise fun g g' => SortKey.fromNode g.1 < SortKey.fromNode g'.1
  nodes : ∀ n, n ∈ out.map (·.1) ↔ ∃ r ∈ rows, r.1 = n
  sites : ∀ g ∈ out, g.2 = sitesOf rows g.1

/-- No rows, no groups. -/
theorem grouped_nil : Grouped [] [] where
  sorted := .nil
  nodes := by simp
  sites := by simp

section Step

variable {rows : List Neighbor} {out : List (Node × List Site)} {row : Neighbor}

/-- A node that is new gets a group of its own, after all others. -/
private theorem Grouped.push (h : Grouped rows out)
    (hlater : ∀ g ∈ out, SortKey.fromNode g.1 < SortKey.fromNode row.1) :
    Grouped (rows ++ [row]) (out ++ [(row.1, row.2.toList)]) where
  sorted := by
    refine List.pairwise_append.mpr ⟨h.sorted, List.pairwise_singleton _ _, ?_⟩
    intro g hg g' hg'
    -- The groups before are smaller, so the new one may stand last.
    rw [List.mem_singleton.mp hg']
    exact hlater g hg
  nodes := by
    intro n
    rw [List.map_append, List.mem_append, h.nodes]
    simp [or_and_right, exists_or, eq_comm]
  sites := by
    -- The node is new, or its group would be smaller than itself.
    have hnew : ∀ r ∈ rows, r.1 ≠ row.1 := by
      intro r hr heq
      obtain ⟨g, hg, hgr⟩ := List.mem_map.mp ((h.nodes r.1).mpr ⟨r, hr, rfl⟩)
      exact lt_irrefl _ (heq ▸ hgr ▸ hlater g hg)
    intro g hg
    cases List.mem_append.mp hg with
    | inl hold =>
      have hne : row.1 ≠ g.1 := fun heq => lt_irrefl _ (heq ▸ hlater g hold)
      rw [sitesOf_concat_other hne]
      exact h.sites g hold
    | inr hlast =>
      have hnone : sitesOf rows row.1 = [] := by
        rw [sitesOf, List.filter_eq_nil_iff.mpr fun r hr => by simpa using hnew r hr,
          List.filterMap_nil]
      rw [List.mem_singleton.mp hlast, sitesOf_concat_same rfl, hnone, List.nil_append]

/-- One more row of the last group's node. -/
private theorem Grouped.merge {init : List (Node × List Site)} {last : Node × List Site}
    (h : Grouped rows (init ++ [last])) (hsame : last.1 = row.1) :
    Grouped (rows ++ [row]) (init ++ [(last.1, last.2 ++ row.2.toList)]) where
  sorted := by
    -- The group keeps its node, only sites are added.
    obtain ⟨hinit, -, hlast⟩ := List.pairwise_append.mp h.sorted
    refine List.pairwise_append.mpr ⟨hinit, List.pairwise_singleton _ _, ?_⟩
    intro g hg g' hg'
    rw [List.mem_singleton.mp hg']
    exact hlast g hg last (List.mem_singleton_self last)
  nodes := by
    intro n
    have hold := h.nodes n
    rw [List.map_append, List.mem_append] at hold ⊢
    rw [List.map_singleton] at hold ⊢
    rw [hold]
    -- The row's node is that of the last group.
    constructor
    · intro hr
      obtain ⟨r, hr, rfl⟩ := hr
      exact ⟨r, List.mem_append_left _ hr, rfl⟩
    · intro hr
      obtain ⟨r, hr, rfl⟩ := hr
      cases List.mem_append.mp hr with
      | inl hr => exact ⟨r, hr, rfl⟩
      | inr hr =>
        obtain rfl := List.mem_singleton.mp hr
        exact (h.nodes r.1).mp (List.mem_map.mpr ⟨last, by simp, hsame⟩)
  sites := by
    obtain ⟨-, -, hbefore⟩ := List.pairwise_append.mp h.sorted
    intro g hg
    -- The groups before are of other nodes, and so keep their sites.
    cases List.mem_append.mp hg with
    | inl hinit =>
      have hlt := hbefore g hinit last (List.mem_singleton_self last)
      have hne : row.1 ≠ g.1 := fun heq => lt_irrefl _ (heq ▸ hsame ▸ hlt)
      rw [sitesOf_concat_other hne]
      exact h.sites g (List.mem_append_left _ hinit)
    | inr hlast =>
      rw [List.mem_singleton.mp hlast, sitesOf_concat_same hsame.symm, ← h.sites last (by simp)]

/-- One round of the pass. -/
private theorem Grouped.step (h : Grouped rows out)
    (hsorted : ∀ r ∈ rows, SortKey.fromNode r.1 ≤ SortKey.fromNode row.1)
    (hkeyed : OneNodePerKey (rows ++ [row])) : Grouped (rows ++ [row]) (groupStep out row) := by
  have hrow : ∀ g ∈ out, ∃ r ∈ rows, r.1 = g.1 :=
    fun g hg => (h.nodes g.1).mp (List.mem_map_of_mem hg)
  unfold groupStep
  -- The row goes to the last group when it has the same node;
  split
  next last hlast =>
    obtain ⟨init, rfl⟩ := List.getLast?_eq_some_iff.mp hlast
    obtain ⟨r, hr, hrlast⟩ := hrow last (by simp)
    split
    next heq =>
      rw [List.dropLast_concat]
      refine h.merge (hrlast.symm.trans (hkeyed r (List.mem_append_left _ hr) row (by simp) ?_))
      rw [hrlast]
      exact nodeCmp_eq_eq_iff.mp heq
    -- otherwise it is above it, and a new group begins.
    next hne =>
      have hlt : SortKey.fromNode last.1 < SortKey.fromNode row.1 :=
        lt_of_le_of_ne (hrlast ▸ hsorted r hr) fun heq => hne (nodeCmp_eq_eq_iff.mpr heq)
      refine h.push fun g hg => ?_
      cases List.mem_append.mp hg with
      | inl hinit =>
        obtain ⟨-, -, hbefore⟩ := List.pairwise_append.mp h.sorted
        exact lt_trans (hbefore g hinit last (List.mem_singleton_self last)) hlt
      | inr hg => exact List.mem_singleton.mp hg ▸ hlt
  next hnone =>
    obtain rfl := List.getLast?_eq_none_iff.mp hnone
    exact h.push fun g hg => nomatch hg

end Step

/-- What the pass makes of rows that are sorted by their nodes. -/
private theorem foldl_grouped {rows : List Neighbor}
    (hsorted : rows.Pairwise fun a b => SortKey.fromNode a.1 ≤ SortKey.fromNode b.1)
    (hkeyed : OneNodePerKey rows) : Grouped rows (rows.foldl groupStep []) := by
  induction rows using List.reverseRecOn with
  | nil => exact grouped_nil
  | append_singleton rows row ih =>
    obtain ⟨hbefore, -, hlast⟩ := List.pairwise_append.mp hsorted
    have hrest : OneNodePerKey rows := fun a ha b hb =>
      hkeyed a (List.mem_append_left _ ha) b (List.mem_append_left _ hb)
    rw [List.foldl_concat]
    exact (ih hbefore hrest).step (fun r hr => hlast r hr row (List.mem_singleton_self row)) hkeyed

/-- The loop over the sorted rows groups them. -/
private theorem groupByNode_grouped {neighbors : List Neighbor} (hkeyed : OneNodePerKey neighbors) :
    Grouped (sortedRows neighbors) (groupByNode neighbors) := by
  refine foldl_grouped ((sortedRows_sorted neighbors).imp fun {a b} h => ?_) fun a ha b hb => ?_
  · cases Prod.Lex.toLex_le_toLex.mp h with
    | inl hlt => exact le_of_lt hlt
    | inr heq => exact le_of_eq heq.1
  · exact hkeyed a ((sortedRows_perm neighbors).mem_iff.mp ha) b
      ((sortedRows_perm neighbors).mem_iff.mp hb)

/-- The nodes of the groups are those of the rows, when a sort key determines its node. -/
theorem mem_groupByNode {rows : List Neighbor} (hkeyed : OneNodePerKey rows) (n : Node) :
    n ∈ (groupByNode rows).map (·.1) ↔ ∃ r ∈ rows, r.1 = n := by
  rw [(groupByNode_grouped hkeyed).nodes]
  simp only [(sortedRows_perm rows).mem_iff]

/-! ## The groups -/

/-- The groups' nodes are nodes of the rows. -/
theorem groupByNode_node {rows : List Neighbor} {g : Node × List Site}
    (hg : g ∈ groupByNode rows) : ∃ r ∈ rows, r.1 = g.1 := by
  have hfold : ∀ (l : List Neighbor) (out : List (Node × List Site)), (∀ r ∈ l, r ∈ rows) →
      (∀ g ∈ out, ∃ r ∈ rows, r.1 = g.1) → ∀ g ∈ l.foldl groupStep out, ∃ r ∈ rows, r.1 = g.1 := by
    -- Induction on the rows: each group is of the row at hand or of one before.
    intro l
    induction l with
    | nil => exact fun out _ hout => hout
    | cons row rest ih =>
      intro out hl hout
      refine ih _ (fun r hr => hl r (List.mem_cons_of_mem _ hr)) fun g hg => ?_
      have hrow := hl row List.mem_cons_self
      unfold groupStep at hg
      split at hg
      · rename_i last hlast
        split at hg
        · cases List.mem_append.mp hg with
          | inl h => exact hout g (List.dropLast_subset _ h)
          | inr h =>
            rw [List.mem_singleton.mp h]
            exact hout last (List.mem_of_getLast? hlast)
        · cases List.mem_append.mp hg with
          | inl h => exact hout g h
          | inr h =>
            rw [List.mem_singleton.mp h]
            exact ⟨row, hrow, rfl⟩
      · rw [List.mem_singleton.mp hg]
        exact ⟨row, hrow, rfl⟩
  exact hfold _ [] (fun r hr => (List.mem_insertionSort _).mp hr) (fun g hg => nomatch hg) g hg

/-- Rows of nodes that the tables hold: an fqn is one node's. -/
theorem oneNodePerKey {d : Db} (hwf : d.WF) {rows : List Neighbor}
    (hrows : ∀ r ∈ rows, r.1 ∈ d.nodes) : OneNodePerKey rows := by
  intro a ha b hb heq
  exact hwf.node_ext (hrows a ha) (hrows b hb)
    (hwf.fqn_unique _ (hrows a ha) _ (hrows b hb) (congrArg SortKey.fqn heq))

/-- The neighbours of a node share a sort key only if they are one row. -/
theorem neighbors_keyed {d : Db} (hwf : d.WF) (id : RowId) (t : EdgeType) (dir : Direction) :
    OneNodePerKey (d.getNeighbors id t dir) :=
  oneNodePerKey hwf fun _ hr => (Db.getNeighbors_valid hr).1

/-- The sites of a group are sorted. -/
private theorem Grouped.sites_sorted {rows : List Neighbor} {out : List (Node × List Site)}
    (h : Grouped rows out) (hsorted : rows.Pairwise fun a b => rowKey a ≤ rowKey b)
    {g : Node × List Site} (hg : g ∈ out) : g.2.Pairwise fun a b => siteStart a ≤ siteStart b := by
  rw [h.sites g hg]
  have hrows : (rows.filter fun r => r.1 = g.1).Pairwise fun a b => siteKey a.2 ≤ siteKey b.2 := by
    refine (hsorted.filter _).imp_of_mem fun {a b} ha hb hab => ?_
    have hnode : a.1 = b.1 := by
      have ha := (List.mem_filter.mp ha).2
      have hb := (List.mem_filter.mp hb).2
      exact (of_decide_eq_true ha).trans (of_decide_eq_true hb).symm
    cases Prod.Lex.toLex_le_toLex.mp hab with
    | inl hlt => exact absurd (hnode ▸ hlt) (lt_irrefl _)
    | inr hle => exact hle.2
  refine hrows.filterMap _ fun a b hab x hx y hy => ?_
  rw [Option.mem_def.mp hx, Option.mem_def.mp hy] at hab
  simpa only [siteKey_some_le_some] using hab

/-- The groups hold every node once, in the order of the sort keys, each with its sites in their
    order; and a page of them, filtered or not, is a page in the order of the cursors. -/
theorem groups_without_loss (neighbors : List Neighbor)
    (hkeyed : ∀ a ∈ neighbors, ∀ b ∈ neighbors,
      SortKey.fromNode a.1 = SortKey.fromNode b.1 → a.1 = b.1) :
    (groupByNode neighbors).Pairwise
      (fun g g' => SortKey.fromNode g.1 < SortKey.fromNode g'.1) ∧
    (∀ n, ((groupByNode neighbors).map (·.1)).count n =
      if ∃ r ∈ neighbors, r.1 = n then 1 else 0) ∧
    (∀ g ∈ groupByNode neighbors, g.2.Pairwise (fun a b => siteStart a ≤ siteStart b) ∧
      g.2.Perm (sitesOf neighbors g.1)) ∧
    (∀ a b, nodeCmp a b = (SortKey.fromNode a).cmp (SortKey.fromNode b) ∧
      (nodeCmp a b = .lt ↔ SortKey.fromNode a < SortKey.fromNode b)) ∧
    ∀ (p : Node → Bool) (page : Page),
      Served (fun g => SortKey.fromNode g.1) ((groupByNode neighbors).filter fun g => p g.1)
        page.cursor
        (paginate ((groupByNode neighbors).filter fun g => p g.1) page
          fun g => SortKey.fromNode g.1).1
        (paginate ((groupByNode neighbors).filter fun g => p g.1) page
          fun g => SortKey.fromNode g.1).2 := by
  have hgrouped := groupByNode_grouped hkeyed
  -- Nodes in order, each once, its sites in order, the comparison, and the paging.
  refine ⟨hgrouped.sorted, fun n => ?_, fun g hg => ⟨?_, ?_⟩, fun a b => ⟨rfl, ?_⟩, ?_⟩
  · have hnodup : ((groupByNode neighbors).map (·.1)).Nodup := by
      refine List.pairwise_map.mpr (hgrouped.sorted.imp fun {g g'} hlt heq => ?_)
      exact lt_irrefl _ (heq ▸ hlt)
    rw [List.Nodup.count hnodup]
    simp only [mem_groupByNode hkeyed]
  · exact hgrouped.sites_sorted (sortedRows_sorted neighbors) hg
  · rw [hgrouped.sites g hg]
    exact ((sortedRows_perm neighbors).filter _).filterMap _
  · rw [nodeCmp_eq, SortKey.cmp_eq_lt_iff]
  · intro p page
    exact paginate_served (hgrouped.sorted.filter _) rfl

/-- A caller with two calls, one of them on an earlier line, and a caller without a site. -/
def threeRows : List Neighbor :=
  [(appFunction 2 "b" 4, none), (appFunction 1 "a" 0, some ⟨"file:///app.py", ⟨3, 0, 3, 1⟩⟩),
    (appFunction 1 "a" 0, some ⟨"file:///app.py", ⟨1, 0, 1, 1⟩⟩)]

/-- Three rows of two nodes. -/
theorem groups_without_loss_three :
    (∀ a ∈ threeRows, ∀ b ∈ threeRows,
      SortKey.fromNode a.1 = SortKey.fromNode b.1 → a.1 = b.1) ∧
    ∀ n, ((groupByNode threeRows).map (·.1)).count n =
      if ∃ r ∈ threeRows, r.1 = n then 1 else 0 := by
  have hkeyed : ∀ a ∈ threeRows, ∀ b ∈ threeRows,
      SortKey.fromNode a.1 = SortKey.fromNode b.1 → a.1 = b.1 := by decide
  exact ⟨hkeyed, (groups_without_loss threeRows hkeyed).2.1⟩

end Semnav.Query
