import Mathlib.Data.List.Chain
import Mathlib.Data.List.Nodup
import Mathlib.Logic.Relation

/-!
# Breadth-first search with a depth bound

A search that marks vertices when it enqueues them, drops those whose path is too long, and
learns the successors of a vertex only when it expands it.  The graph may be discovered, or
even made, as the search goes: nothing is assumed about how the successors of one vertex
relate to what was read before.

`Search.read` is a ghost: the successor lists read so far.  `Search.Levelled` is what every
state of a search from `source` that has not met `target` satisfies.

## Key results

- `Search.Levelled.init`, `.drop`, `.expand`: the rounds of the loop keep the invariant
- `Search.Levelled.found`: the path to the target is a shortest one in what was read
- `Search.Levelled.visited_of_steps`: with an empty queue, what is reachable has been visited
- `Search.Levelled.unreachable`, `.no_short_path`: what that means for the target
-/

namespace Semnav.ForStd

variable {α : Type*} {R Q : α → α → Prop} {a b c : α}

/-! ## Paths -/

/-- `k` steps of `R` lead from `a` to the last argument. -/
inductive Steps (R : α → α → Prop) (a : α) : ℕ → α → Prop where
  | refl : Steps R a 0 a
  | tail {k : ℕ} {b c : α} : Steps R a k b → R b c → Steps R a (k + 1) c

/-- More edges keep the walks. -/
theorem Steps.mono {k : ℕ} (h : ∀ x y, R x y → Q x y) (hs : Steps R a k b) : Steps Q a k b := by
  induction hs with
  | refl => exact .refl
  | tail _ hr ih => exact .tail ih (h _ _ hr)

/-- What is reachable is so by a walk of some length. -/
theorem Steps.of_reflTransGen (h : Relation.ReflTransGen R a b) : ∃ k, Steps R a k b := by
  induction h with
  | refl => exact ⟨0, .refl⟩
  | tail _ hr ih =>
    obtain ⟨k, hk⟩ := ih
    exact ⟨k + 1, .tail hk hr⟩

/-- The vertices of a path from `a` to `b`, both ends included. -/
structure IsPath (R : α → α → Prop) (a b : α) (p : List α) : Prop where
  head : p.head? = some a
  last : p.getLast? = some b
  chain : p.IsChain R

namespace IsPath

variable {p : List α}

/-- A path may stay where it is. -/
theorem single (R : α → α → Prop) (a : α) : IsPath R a a [a] := ⟨rfl, rfl, .singleton a⟩

/-- A path has at least its start. -/
theorem ne_nil (h : IsPath R a b p) : p ≠ [] := by
  rintro rfl
  exact nomatch h.head

/-- A path goes on along an edge. -/
theorem snoc (h : IsPath R a b p) (hr : R b c) : IsPath R a c (p ++ [c]) where
  head := by rw [List.head?_append_of_ne_nil _ h.ne_nil, h.head]
  last := by simp
  chain := by
    rw [List.isChain_append]
    refine ⟨h.chain, .singleton c, fun x hx y hy => ?_⟩
    rw [h.last] at hx
    cases hx
    cases hy
    exact hr

/-- The edges of a path are one fewer than its vertices. -/
theorem steps (h : IsPath R a b p) : Steps R a (p.length - 1) b := by
  -- Induction on the path from its end: the last node is one step from the last of the rest.
  induction p using List.reverseRecOn generalizing b with
  | nil => exact nomatch h.head
  | append_singleton q x ih =>
    have hx : x = b := by simpa using h.last
    subst hx
    cases hq : q.getLast? with
    | none =>
      rw [List.getLast?_eq_none_iff] at hq
      subst hq
      have ha : x = a := by simpa using h.head
      subst ha
      exact .refl
    | some y =>
      have hne : q ≠ [] := fun hnil => by simp [hnil] at hq
      obtain ⟨hchain, -, hstep⟩ := List.isChain_append.mp h.chain
      have hpath : IsPath R a y q :=
        ⟨by rw [← h.head, List.head?_append_of_ne_nil _ hne], hq, hchain⟩
      have hlen : (q ++ [x]).length - 1 = q.length - 1 + 1 := by
        have := List.length_pos_iff.mpr hne
        simp only [List.length_append, List.length_singleton]
        omega
      rw [hlen]
      exact .tail (ih hpath) (hstep y hq x rfl)

/-- A path stays one with more edges. -/
theorem mono (h : IsPath R a b p) (hRQ : ∀ x y, R x y → Q x y) : IsPath Q a b p :=
  ⟨h.head, h.last, h.chain.imp hRQ⟩

end IsPath

/-! ## The search -/

/-- The state of a search between two rounds. -/
structure Search (α : Type*) where
  visited : List α
  /-- The vertices to expand, each with a path to it. -/
  queue : List (α × List α)
  /-- The successor lists read so far. -/
  read : List (α × List α)
  /-- Was a vertex dropped because its path is too long? -/
  cut : Bool

/-- An edge that the search has read. -/
def Search.Read (st : Search α) (a b : α) : Prop := ∃ ys, (a, ys) ∈ st.read ∧ b ∈ ys

/-- Mark and enqueue the successors that were not visited yet. -/
def enqueue [DecidableEq α] (p : List α) :
    List α → List α → List (α × List α) → List α × List (α × List α)
  | [], visited, queue => (visited, queue)
  | y :: ys, visited, queue =>
    if y ∈ visited then enqueue p ys visited queue
    else enqueue p ys (y :: visited) (queue ++ [(y, p ++ [y])])

/-- The new vertices, in the order of their discovery. -/
theorem enqueue_eq [DecidableEq α] (p ys visited : List α) (queue : List (α × List α)) :
    ∃ new : List α,
      enqueue p ys visited queue =
        (new.reverse ++ visited, queue ++ new.map fun y => (y, p ++ [y])) ∧
      new.Nodup ∧ (∀ y ∈ new, y ∈ ys ∧ y ∉ visited) ∧ ∀ y ∈ ys, y ∈ visited ∨ y ∈ new := by
  -- Each neighbour is skipped if it was seen before and is new otherwise.
  induction ys generalizing visited queue with
  | nil => exact ⟨[], by simp [enqueue], .nil, by simp, by simp⟩
  | cons y ys ih =>
    unfold enqueue
    split
    · rename_i hy
      obtain ⟨new, heq, hnodup, hnew, hall⟩ := ih visited queue
      refine ⟨new, heq, hnodup, fun z hz => ⟨List.mem_cons_of_mem _ (hnew z hz).1, (hnew z hz).2⟩,
        fun z hz => ?_⟩
      rcases List.mem_cons.mp hz with rfl | hz
      · exact .inl hy
      · exact hall z hz
    · -- A new neighbour is seen from here on, so what follows does not take it again.
      rename_i hy
      obtain ⟨new, heq, hnodup, hnew, hall⟩ := ih (y :: visited) (queue ++ [(y, p ++ [y])])
      refine ⟨y :: new, by simp [heq], ?_, fun z hz => ?_, fun z hz => ?_⟩
      · rw [List.nodup_cons]
        exact ⟨fun hmem => (hnew y hmem).2 List.mem_cons_self, hnodup⟩
      · rcases List.mem_cons.mp hz with rfl | hz
        · exact ⟨List.mem_cons_self, hy⟩
        · exact ⟨List.mem_cons_of_mem _ (hnew z hz).1,
            fun hmem => (hnew z hz).2 (List.mem_cons_of_mem _ hmem)⟩
      · rcases List.mem_cons.mp hz with rfl | hz
        · exact .inr List.mem_cons_self
        · rcases hall z hz with h | h
          · rcases List.mem_cons.mp h with rfl | h
            · exact .inr List.mem_cons_self
            · exact .inl h
          · exact .inr (List.mem_cons_of_mem _ h)

/-- Each new vertex is marked and enqueued. -/
theorem enqueue_length [DecidableEq α] (p ys visited : List α) (queue : List (α × List α)) :
    (enqueue p ys visited queue).2.length + visited.length =
      queue.length + (enqueue p ys visited queue).1.length := by
  obtain ⟨new, heq, -⟩ := enqueue_eq p ys visited queue
  rw [heq]
  simp only [List.length_append, List.length_map, List.length_reverse]
  omega

/-- Only neighbours are newly visited. -/
theorem mem_of_mem_enqueue [DecidableEq α] {p ys visited visited' : List α}
    {queue queue' : List (α × List α)} (heq : (visited', queue') = enqueue p ys visited queue)
    {v : α} (hv : v ∈ visited') : v ∈ visited ∨ v ∈ ys := by
  obtain ⟨new, hnew, -, hsub, -⟩ := enqueue_eq p ys visited queue
  rw [hnew] at heq
  cases heq
  rcases List.mem_append.mp hv with hv | hv
  · exact .inr (hsub v (List.mem_reverse.mp hv)).1
  · exact .inl hv

/-! ## The invariant -/

namespace Search

/-- The search from `source`, which has not met `target`, with the distance at which each
    vertex was discovered. -/
structure Levelled (source target : α) (bound : ℕ) (level : α → ℕ) (st : Search α) : Prop where
  source_visited : source ∈ st.visited
  level_source : level source = 0
  target_unvisited : target ∉ st.visited
  visited_nodup : st.visited.Nodup
  reached : ∀ v ∈ st.visited, Steps st.Read source (level v) v
  queue_visited : ∀ q ∈ st.queue, q.1 ∈ st.visited
  queue_nodup : (st.queue.map (·.1)).Nodup
  path : ∀ q ∈ st.queue, IsPath st.Read source q.1 q.2 ∧ q.2.length = level q.1 + 1
  path_nodup : ∀ q ∈ st.queue, q.2.Nodup ∧ ∀ v ∈ q.2, v ∈ st.visited
  sorted : st.queue.Pairwise fun q q' => level q.1 ≤ level q'.1
  near : ∀ q ∈ st.queue, ∀ v ∈ st.visited, level v ≤ level q.1 + 1
  popped : ∀ v ∈ st.visited, v ∉ st.queue.map (·.1) → ∀ q ∈ st.queue, level v ≤ level q.1
  read_visited : ∀ r ∈ st.read, r.1 ∈ st.visited ∧ r.1 ∉ st.queue.map (·.1)
  read_level : ∀ r ∈ st.read, ∀ y ∈ r.2, y ∈ st.visited ∧ level y ≤ level r.1 + 1
  settled : ∀ v ∈ st.visited,
    v ∈ st.queue.map (·.1) ∨ v ∈ st.read.map (·.1) ∨ (st.cut = true ∧ bound ≤ level v)
  cut_level : st.cut = true → ∃ v ∈ st.visited, bound ≤ level v
  short : ∀ q ∈ st.queue, q.2.length ≤ bound + 1
  read_short : ∀ r ∈ st.read, level r.1 < bound

/-- The search before the first round. -/
def init (source : α) : Search α := ⟨[source], [(source, [source])], [], false⟩

variable {source target : α} {bound : ℕ} {level : α → ℕ}

/-- The start is on level zero. -/
theorem Levelled.init (bound : ℕ) (h : source ≠ target) :
    Levelled source target bound (fun _ => 0) (init source) where
  -- Only the source is visited, queued and given level 0; nothing is read or settled yet.
  source_visited := List.mem_singleton_self _
  level_source := rfl
  target_unvisited := fun hmem => h (List.mem_singleton.mp hmem).symm
  visited_nodup := List.nodup_singleton _
  reached := fun v hv => by
    rw [List.mem_singleton.mp hv]
    exact .refl
  queue_visited := fun q hq => by
    rw [List.mem_singleton.mp hq]
    exact List.mem_singleton_self _
  queue_nodup := List.nodup_singleton _
  path := fun q hq => by
    rw [List.mem_singleton.mp hq]
    exact ⟨.single _ _, rfl⟩
  path_nodup := fun q hq => by
    rw [List.mem_singleton.mp hq]
    exact ⟨List.nodup_singleton _, fun _ hv => hv⟩
  sorted := List.pairwise_singleton _ _
  near := fun _ _ _ _ => Nat.zero_le _
  popped := fun _ _ _ _ _ => le_rfl
  read_visited := fun _ hr => absurd hr List.not_mem_nil
  read_level := fun _ hr => absurd hr List.not_mem_nil
  settled := fun v hv => .inl hv
  cut_level := nofun
  short := fun q hq => by
    rw [List.mem_singleton.mp hq]
    exact Nat.le_add_left 1 bound
  read_short := fun _ hr => absurd hr List.not_mem_nil

section Rounds

variable {visited : List α} {p : List α} {rest read : List (α × List α)} {cut : Bool}

/-- A round that drops the head of the queue: its vertex is at the bound or beyond. -/
theorem Levelled.drop (h : Levelled source target bound level ⟨visited, (a, p) :: rest, read, cut⟩)
    (hp : bound < p.length) :
    Levelled source target bound level ⟨visited, rest, read, true⟩ := by
  have hhead : (a, p) ∈ (a, p) :: rest := List.mem_cons_self
  have htail : ∀ q ∈ rest, q ∈ (a, p) :: rest := fun q hq => List.mem_cons_of_mem _ hq
  have hlevel : bound ≤ level a := by
    have := (h.path _ hhead).2
    -- The dropped path is longer than the bound, so its end lies at the bound or beyond.
    dsimp only at this
    omega
  -- A node is in the queue once, so the rest of the queue does not hold it.
  have hkeys : a ∉ rest.map (·.1) := by
    have := h.queue_nodup
    rw [List.map_cons, List.nodup_cons] at this
    exact this.1
  exact {
    source_visited := h.source_visited
    level_source := h.level_source
    target_unvisited := h.target_unvisited
    visited_nodup := h.visited_nodup
    reached := h.reached
    queue_visited := fun q hq => h.queue_visited q (htail q hq)
    queue_nodup := by
      have := h.queue_nodup
      rw [List.map_cons, List.nodup_cons] at this
      exact this.2
    path := fun q hq => h.path q (htail q hq)
    path_nodup := fun q hq => h.path_nodup q (htail q hq)
    sorted := (List.pairwise_cons.mp h.sorted).2
    near := fun q hq => h.near q (htail q hq)
    -- The dropped node is the one that was popped now: the queue is sorted by level.
    popped := fun v hv hvq q hq => by
      by_cases hva : v = a
      · subst hva
        exact (List.pairwise_cons.mp h.sorted).1 q hq
      · exact h.popped v hv (by simp [hva, hvq]) q (htail q hq)
    read_visited := fun r hr => ⟨(h.read_visited r hr).1, fun hmem =>
      (h.read_visited r hr).2 (List.mem_cons_of_mem _ hmem)⟩
    read_level := h.read_level
    -- A node that left the queue unread is one the bound cuts off.
    settled := fun v hv => by
      rcases h.settled v hv with hq | hr | hc
      · rcases List.mem_cons.mp hq with rfl | hq
        · exact .inr (.inr ⟨rfl, hlevel⟩)
        · exact .inl hq
      · exact .inr (.inl hr)
      · exact .inr (.inr ⟨rfl, hc.2⟩)
    cut_level := fun _ => ⟨a, h.queue_visited _ hhead, hlevel⟩
    short := fun q hq => h.short q (htail q hq)
    read_short := h.read_short }

/-- The levels once the head's new successors are discovered. -/
def raise [DecidableEq α] (level : α → ℕ) (a : α) (new : List α) (v : α) : ℕ :=
  if v ∈ new then level a + 1 else level v

/-- A round that expands the head of the queue and does not meet the target. -/
theorem Levelled.expand [DecidableEq α] {ys : List α}
    (h : Levelled source target bound level ⟨visited, (a, p) :: rest, read, cut⟩)
    (hp : p.length ≤ bound) (htarget : target ∉ ys) :
    ∃ level', Levelled source target bound level'
      ⟨(enqueue p ys visited rest).1, (enqueue p ys visited rest).2, (a, ys) :: read, cut⟩ := by
  obtain ⟨new, heq, hnodup, hnew, hall⟩ := enqueue_eq p ys visited rest
  rw [heq]
  -- Only the new vertices change their level; what was discovered keeps it.
  refine ⟨raise level a new, ?_⟩
  have hhead : (a, p) ∈ (a, p) :: rest := List.mem_cons_self
  have htail : ∀ q ∈ rest, q ∈ (a, p) :: rest := fun q hq => List.mem_cons_of_mem _ hq
  have hsorted := List.pairwise_cons.mp h.sorted
  have hkeys := h.queue_nodup
  rw [List.map_cons, List.nodup_cons] at hkeys
  have hold : ∀ v ∈ visited, raise level a new v = level v := fun v hv =>
    if_neg fun hmem => (hnew v hmem).2 hv
  have hfresh : ∀ v ∈ new, raise level a new v = level a + 1 := fun v hv => if_pos hv
  have hreadMono : ∀ x y, Read ⟨visited, (a, p) :: rest, read, cut⟩ x y →
      Read ⟨new.reverse ++ visited, rest ++ new.map fun y => (y, p ++ [y]), (a, ys) :: read, cut⟩
        x y := by
    rintro x y ⟨zs, hzs, hy⟩
    exact ⟨zs, List.mem_cons_of_mem _ hzs, hy⟩
  have hedge : ∀ y ∈ new,
      Read ⟨new.reverse ++ visited, rest ++ new.map fun y => (y, p ++ [y]), (a, ys) :: read, cut⟩
        a y := fun y hy => ⟨ys, List.mem_cons_self, (hnew y hy).1⟩
  have ha : a ∈ visited := h.queue_visited _ hhead
  have hvisited : ∀ v, v ∈ new.reverse ++ visited ↔ v ∈ new ∨ v ∈ visited := by simp
  have hqueue : ∀ q, q ∈ (rest ++ new.map fun y => (y, p ++ [y])) ↔
      q ∈ rest ∨ ∃ y ∈ new, q = (y, p ++ [y]) := by
    intro q
    simp only [List.mem_append, List.mem_map]
    exact or_congr_right ⟨fun ⟨y, hy, he⟩ => ⟨y, hy, he.symm⟩, fun ⟨y, hy, he⟩ => ⟨y, hy, he.symm⟩⟩
  have hqueueKeys : (rest ++ new.map fun y => (y, p ++ [y])).map (·.1) = rest.map (·.1) ++ new := by
    simp [Function.comp_def]
  -- Everything in the new queue is at least as far as the head was.
  have hfar : ∀ q ∈ rest ++ new.map fun y => (y, p ++ [y]), level a ≤ raise level a new q.1 := by
    intro q hq
    rcases (hqueue q).mp hq with hq | ⟨y, hy, rfl⟩
    · rw [hold _ (h.queue_visited q (htail q hq))]
      exact hsorted.1 q hq
    · rw [hfresh y hy]
      omega
  exact {
    source_visited := (hvisited _).mpr (.inr h.source_visited)
    level_source := by rw [hold _ h.source_visited, h.level_source]
    target_unvisited := by
      rw [hvisited]
      rintro (hmem | hmem)
      · exact htarget (hnew _ hmem).1
      · exact h.target_unvisited hmem
    visited_nodup := by
      refine List.nodup_append.mpr ⟨List.nodup_reverse.mpr hnodup, h.visited_nodup, ?_⟩
      rintro x hx _ hy rfl
      exact (hnew x (List.mem_reverse.mp hx)).2 hy
    reached := fun v hv => by
      rcases (hvisited v).mp hv with hv | hv
      · rw [hfresh v hv]
        exact .tail ((h.reached a ha).mono hreadMono) (hedge v hv)
      · rw [hold v hv]
        exact (h.reached v hv).mono hreadMono
    queue_visited := fun q hq => by
      rcases (hqueue q).mp hq with hq | ⟨y, hy, rfl⟩
      · exact (hvisited _).mpr (.inr (h.queue_visited q (htail q hq)))
      · exact (hvisited _).mpr (.inl hy)
    queue_nodup := by
      rw [hqueueKeys]
      refine List.nodup_append.mpr ⟨hkeys.2, hnodup, ?_⟩
      rintro x hx _ hy rfl
      obtain ⟨q, hq, rfl⟩ := List.mem_map.mp hx
      exact (hnew _ hy).2 (h.queue_visited q (htail q hq))
    path := fun q hq => by
      -- A new vertex is reached by the head's path and the edge just read.
      rcases (hqueue q).mp hq with hq | ⟨y, hy, rfl⟩
      · rw [hold _ (h.queue_visited q (htail q hq))]
        exact (h.path q (htail q hq)).imp_left fun hpath => hpath.mono hreadMono
      · obtain ⟨hpath, hlen⟩ := h.path _ hhead
        refine ⟨(hpath.mono hreadMono).snoc (hedge y hy), ?_⟩
        dsimp only at hlen ⊢
        rw [hfresh y hy, List.length_append, List.length_singleton, hlen]
    path_nodup := fun q hq => by
      rcases (hqueue q).mp hq with hq | ⟨y, hy, rfl⟩
      · obtain ⟨hn, hv⟩ := h.path_nodup q (htail q hq)
        exact ⟨hn, fun v hvq => (hvisited v).mpr (.inr (hv v hvq))⟩
      · obtain ⟨hn, hv⟩ := h.path_nodup _ hhead
        refine ⟨List.nodup_append.mpr ⟨hn, List.nodup_singleton y, ?_⟩, fun v hvp => ?_⟩
        · rintro x hx _ hxy rfl
          rw [List.mem_singleton.mp hxy] at hx
          exact (hnew y hy).2 (hv y hx)
        · rcases List.mem_append.mp hvp with hvp | hvp
          · exact (hvisited v).mpr (.inr (hv v hvp))
          · rw [List.mem_singleton.mp hvp]
            exact (hvisited y).mpr (.inl hy)
    sorted := by
      -- The new entries are one level beyond the head, and none before them is further.
      refine List.pairwise_append.mpr ⟨?_, ?_, ?_⟩
      · refine hsorted.2.imp_of_mem fun {q q'} hq hq' hle => ?_
        rw [hold _ (h.queue_visited q (htail q hq)), hold _ (h.queue_visited q' (htail q' hq'))]
        exact hle
      · rw [List.pairwise_map]
        refine List.pairwise_of_forall_mem_list fun y hy z hz => ?_
        rw [hfresh y hy, hfresh z hz]
      · intro q hq q' hq'
        obtain ⟨y, hy, rfl⟩ := List.mem_map.mp hq'
        rw [hold _ (h.queue_visited q (htail q hq)), hfresh y hy]
        exact h.near _ hhead _ (h.queue_visited q (htail q hq))
    near := fun q hq v hv => by
      have hfar := hfar q hq
      have hv' : raise level a new v ≤ level a + 1 := by
        rcases (hvisited v).mp hv with hv | hv
        · rw [hfresh v hv]
        · rw [hold v hv]
          exact h.near _ hhead v hv
      omega
    popped := fun v hv hvq q hq => by
      have hfar := hfar q hq
      rw [hqueueKeys] at hvq
      have hvnew : v ∉ new := fun hmem => hvq (List.mem_append_right _ hmem)
      have hvold : v ∈ visited := ((hvisited v).mp hv).resolve_left hvnew
      have hva : level v ≤ level a := by
        by_cases hva : v = a
        · rw [hva]
        · refine h.popped v hvold ?_ _ hhead
          rw [List.map_cons, List.mem_cons, not_or]
          exact ⟨hva, fun hmem => hvq (List.mem_append_left _ hmem)⟩
      rw [hold v hvold]
      omega
    read_visited := fun r hr => by
      rw [hqueueKeys]
      rcases List.mem_cons.mp hr with rfl | hr
      · refine ⟨(hvisited _).mpr (.inr ha), fun hmem => ?_⟩
        rcases List.mem_append.mp hmem with hmem | hmem
        · exact hkeys.1 hmem
        · exact (hnew _ hmem).2 ha
      · obtain ⟨hv, hq⟩ := h.read_visited r hr
        refine ⟨(hvisited _).mpr (.inr hv), fun hmem => ?_⟩
        rcases List.mem_append.mp hmem with hmem | hmem
        · exact hq (List.mem_cons_of_mem _ hmem)
        · exact (hnew _ hmem).2 hv
    read_level := fun r hr y hy => by
      rcases List.mem_cons.mp hr with rfl | hr
      · rw [hold a ha]
        rcases hall y hy with hyv | hyn
        · rw [hold y hyv]
          exact ⟨(hvisited y).mpr (.inr hyv), h.near _ hhead y hyv⟩
        · rw [hfresh y hyn]
          exact ⟨(hvisited y).mpr (.inl hyn), le_rfl⟩
      · obtain ⟨hyv, hle⟩ := h.read_level r hr y hy
        rw [hold y hyv, hold _ (h.read_visited r hr).1]
        exact ⟨(hvisited y).mpr (.inr hyv), hle⟩
    settled := fun v hv => by
      rw [hqueueKeys, List.mem_append]
      rcases (hvisited v).mp hv with hvn | hvo
      · exact .inl (.inr hvn)
      · rw [hold v hvo]
        rcases h.settled v hvo with hq | hr | hc
        · rcases List.mem_cons.mp hq with rfl | hq
          · exact .inr (.inl List.mem_cons_self)
          · exact .inl (.inl hq)
        · exact .inr (.inl (List.mem_cons_of_mem _ hr))
        · exact .inr (.inr hc)
    cut_level := fun hc => by
      obtain ⟨v, hv, hle⟩ := h.cut_level hc
      exact ⟨v, (hvisited v).mpr (.inr hv), by rw [hold v hv]; exact hle⟩
    short := fun q hq => by
      rcases (hqueue q).mp hq with hq | ⟨y, hy, rfl⟩
      · exact h.short q (htail q hq)
      · rw [List.length_append, List.length_singleton]
        omega
    read_short := fun r hr => by
      rcases List.mem_cons.mp hr with rfl | hr
      · rw [hold a ha]
        have := (h.path _ hhead).2
        dsimp only at this ⊢
        omega
      · rw [hold _ (h.read_visited r hr).1]
        exact h.read_short r hr }

/-- The round that meets the target: the path to it, and no shorter one in what was read. -/
theorem Levelled.found {ys : List α}
    (h : Levelled source target bound level ⟨visited, (a, p) :: rest, read, cut⟩)
    (htarget : target ∈ ys) :
    IsPath (Read ⟨visited, rest, (a, ys) :: read, cut⟩) source target (p ++ [target]) ∧
      ∀ k, Steps (Read ⟨visited, rest, (a, ys) :: read, cut⟩) source k target →
        (p ++ [target]).length ≤ k + 1 := by
  have hhead : (a, p) ∈ (a, p) :: rest := List.mem_cons_self
  obtain ⟨hpath, hlen⟩ := h.path _ hhead
  dsimp only at hlen
  constructor
  · refine (hpath.mono ?_).snoc ⟨ys, List.mem_cons_self, htarget⟩
    rintro x y ⟨zs, hzs, hy⟩
    exact ⟨zs, List.mem_cons_of_mem _ hzs, hy⟩
  · intro k hk
    -- A vertex that is not visited yet is further away than the head.
    have hdist : ∀ j v, Steps (Read ⟨visited, rest, (a, ys) :: read, cut⟩) source j v →
        (v ∈ visited → level v ≤ j) ∧ (v ∉ visited → level a + 1 ≤ j) := by
      intro j v hv
      induction hv with
      | refl => exact ⟨fun _ => h.level_source.le, fun hmem => absurd h.source_visited hmem⟩
      | tail _ hr ih =>
        obtain ⟨zs, hzs, hy⟩ := hr
        rcases List.mem_cons.mp hzs with heq | hzs
        · cases heq
          have hle := ih.1 (h.queue_visited _ hhead)
          exact ⟨fun hv => (h.near _ hhead _ hv).trans (Nat.succ_le_succ hle), fun _ => by omega⟩
        · obtain ⟨hyv, hle⟩ := h.read_level _ hzs _ hy
          have hle' := ih.1 (h.read_visited _ hzs).1
          exact ⟨fun _ => by dsimp only at hle; omega, fun hmem => absurd hyv hmem⟩
    have := (hdist k target hk).2 h.target_unvisited
    rw [List.length_append, List.length_singleton, hlen]
    omega

end Rounds

section Exhausted

variable {visited : List α} {read : List (α × List α)} {cut : Bool}

/-- With an empty queue, the vertices up to the bound were visited, and without a cut all that are
    reachable. -/
theorem Levelled.visited_of_steps
    (h : Levelled source target bound level ⟨visited, [], read, cut⟩)
    (hread : ∀ r ∈ read, ∀ y, R r.1 y → Read ⟨visited, [], read, cut⟩ r.1 y) {k : ℕ} {v : α}
    (hv : Steps R source k v) (hk : cut = false ∨ k ≤ bound) : v ∈ visited ∧ level v ≤ k := by
  induction hv with
  | refl => exact ⟨h.source_visited, h.level_source.le⟩
  | tail _ hr ih =>
    obtain ⟨hvisited, hle⟩ := ih (hk.imp_right fun hk => by omega)
    rcases h.settled _ hvisited with hq | hmem | hc
    · exact absurd hq List.not_mem_nil
    · obtain ⟨r, hrmem, rfl⟩ := List.mem_map.mp hmem
      obtain ⟨ys, hys, hy⟩ := hread r hrmem _ hr
      obtain ⟨hyv, hyle⟩ := h.read_level _ hys _ hy
      exact ⟨hyv, by dsimp only at hyle; omega⟩
    · -- the step starts at a vertex beyond the bound, which was dropped
      rcases hk with hk | hk
      · exact nomatch hc.1.symm.trans hk
      · have := hc.2
        omega

/-- Without a cut, an empty queue means that the target is unreachable. -/
theorem Levelled.unreachable (h : Levelled source target bound level ⟨visited, [], read, false⟩)
    (hread : ∀ r ∈ read, ∀ y, R r.1 y → Read ⟨visited, [], read, false⟩ r.1 y) :
    ¬ Relation.ReflTransGen R source target := by
  intro hpath
  obtain ⟨k, hk⟩ := Steps.of_reflTransGen hpath
  exact h.target_unvisited (h.visited_of_steps hread hk (.inl rfl)).1

/-- Without a cut, every vertex that was visited is nearer than the bound. -/
theorem Levelled.near_all (h : Levelled source target bound level ⟨visited, [], read, false⟩)
    {v : α} (hvisited : v ∈ visited) :
    ∃ j, j < bound ∧ Steps (Read ⟨visited, [], read, false⟩) source j v := by
  refine ⟨level v, ?_, h.reached v hvisited⟩
  rcases h.settled v hvisited with hq | hr | hc
  · exact absurd hq List.not_mem_nil
  · obtain ⟨r, hmem, rfl⟩ := List.mem_map.mp hr
    exact h.read_short r hmem
  · exact nomatch hc.1

/-- Cut or not, it means that the target is further away than the bound. -/
theorem Levelled.no_short_path {k : ℕ}
    (h : Levelled source target bound level ⟨visited, [], read, cut⟩)
    (hread : ∀ r ∈ read, ∀ y, R r.1 y → Read ⟨visited, [], read, cut⟩ r.1 y) (hk : k ≤ bound) :
    ¬ Steps R source k target := by
  intro hpath
  exact h.target_unvisited (h.visited_of_steps hread hpath (.inr hk)).1

end Exhausted

end Search

end Semnav.ForStd
