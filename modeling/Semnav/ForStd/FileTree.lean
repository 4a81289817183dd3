import Mathlib.Data.List.Basic
import Mathlib.Data.List.Nodup

/-!
# Directory trees

A directory tree with its symbolic links unfolded, the lookup of a path that follows links, and the
walk of a file finder: it enters no link, and leaves out what a context that it carries down the
tree tells it to skip.

## Key results

- `Pruning.mem_walk_iff`: the walk visits what a path leads to none of whose steps is skipped
-/

namespace Semnav.ForStd

/-- A directory tree over names `ν`, with data `δ` of each directory and content `β` of each
    file. -/
inductive FileTree (ν δ β : Type) where
  | file (content : β)
  | dir (data : δ) (children : List (ν × FileTree ν δ β))
  /-- A directory that cannot be read. -/
  | locked
  /-- A symbolic link, by what it leads to. -/
  | link (target : FileTree ν δ β)
  /-- A symbolic link that leads nowhere. -/
  | dangling

/-- What an entry is, links not followed. -/
inductive FileType where
  | file
  | dir
  | symlink
deriving DecidableEq

namespace FileTree

variable {ν δ β : Type}

/-- What a tree is at its root. -/
def fileType : FileTree ν δ β → FileType
  | .file _ => .file
  | .dir _ _ | .locked => .dir
  | .link _ | .dangling => .symlink

/-- Is the tree a directory? -/
def isDir (t : FileTree ν δ β) : Bool := t.fileType == .dir

/-- What is behind all links. -/
def resolve : FileTree ν δ β → Option (FileTree ν δ β)
  | .link target => resolve target
  | .dangling => none
  | t => some t

mutual

/-- No directory has two entries of one name. -/
def NamesDistinct : FileTree ν δ β → Prop
  | .dir _ children => (children.map Prod.fst).Nodup ∧ ChildrenDistinct children
  | .link target => NamesDistinct target
  | _ => True

/-- No two children of a directory share a name. -/
def ChildrenDistinct : List (ν × FileTree ν δ β) → Prop
  | [] => True
  | (_, t) :: rest => NamesDistinct t ∧ ChildrenDistinct rest

end

section Find

variable [DecidableEq ν]

/-- What a path leads to, links followed. -/
def find (t : FileTree ν δ β) : List ν → Option (FileTree ν δ β)
  | [] => t.resolve
  | name :: path =>
    match t.resolve with
    | some (.dir _ children) => (children.lookup name).bind fun child => child.find path
    | _ => none

end Find

end FileTree

open FileTree

/-! ## Walking a tree -/

/-- What a walk yields: an entry, or a directory that it could not read. -/
inductive Visit (ν : Type) where
  | entry (path : List ν) (type : FileType)
  | denied (path : List ν)
deriving DecidableEq

/-- What a walk leaves out.  Its context changes with the data of each directory it enters. -/
structure Pruning (σ ν δ : Type) where
  enter : σ → δ → σ
  /-- By the context in a directory, the directory's path, the entry's name and whether the entry
      is a directory. -/
  skip : σ → List ν → ν → Bool → Bool

/-- What is yielded of a node alone. -/
def FileTree.visits {ν δ β : Type} (t : FileTree ν δ β) (path : List ν) : List (Visit ν) :=
  match t with
  | .locked => [.entry path .dir, .denied path]
  | t => [.entry path t.fileType]

namespace Pruning

variable {σ ν δ β : Type} (P : Pruning σ ν δ)

mutual

/-- Walk the tree at `path`, a directory before its entries. -/
def walk (ctx : σ) (path : List ν) : FileTree ν δ β → List (Visit ν)
  | .dir data children =>
    .entry path .dir :: walkChildren (P.enter ctx data) path children
  | .locked => FileTree.visits (.locked : FileTree ν δ β) path
  | .file content => FileTree.visits (.file content : FileTree ν δ β) path
  | .link target => FileTree.visits (.link target) path
  | .dangling => FileTree.visits (.dangling : FileTree ν δ β) path

/-- The walk of the children, in order. -/
def walkChildren (ctx : σ) (path : List ν) : List (ν × FileTree ν δ β) → List (Visit ν)
  | [] => []
  | (name, t) :: rest =>
    (if P.skip ctx path name t.isDir then [] else walk ctx (path ++ [name]) t) ++
      walkChildren ctx path rest

end

variable [DecidableEq ν]

/-- What a path leads to without a link and without a step that is skipped. -/
def reach (ctx : σ) (base : List ν) (t : FileTree ν δ β) : List ν → Option (FileTree ν δ β)
  | [] => some t
  | name :: path =>
    match t with
    | .dir data children =>
      (children.lookup name).bind fun child =>
        if P.skip (P.enter ctx data) base name child.isDir then none
        else reach (P.enter ctx data) (base ++ [name]) child path
    | _ => none

/-- With no name left to follow, the walk has arrived. -/
@[simp] theorem reach_nil (ctx : σ) (base : List ν) (t : FileTree ν δ β) :
    P.reach ctx base t [] = some t := by
  unfold reach
  rfl

/-- Below a directory the walk goes on in a child. -/
theorem reach_dir_cons {ctx : σ} {base : List ν} {data : δ} {children : List (ν × FileTree ν δ β)}
    {name : ν} {path : List ν} {t : FileTree ν δ β} :
    P.reach ctx base (.dir data children) (name :: path) = some t ↔
      ∃ child, children.lookup name = some child ∧
        P.skip (P.enter ctx data) base name child.isDir = false ∧
        P.reach (P.enter ctx data) (base ++ [name]) child path = some t := by
  rw [reach, Option.bind_eq_some_iff]
  simp

/-- Below a node that is no directory there is nothing. -/
theorem reach_cons_of_ne_dir {ctx : σ} {base : List ν} {t : FileTree ν δ β} {name : ν}
    {path : List ν} (h : ∀ data children, t ≠ .dir data children) :
    P.reach ctx base t (name :: path) = none := by
  cases t with
  | dir data children => exact absurd rfl (h data children)
  | _ => rfl

/-- Of a node that is no directory, only the node itself is visited. -/
theorem mem_visits_iff {ctx : σ} {base : List ν} {t : FileTree ν δ β} {v : Visit ν}
    (h : ∀ data children, t ≠ .dir data children) :
    v ∈ t.visits base ↔
      ∃ path t', P.reach ctx base t path = some t' ∧ v ∈ t'.visits (base ++ path) := by
  constructor
  · intro hv
    refine ⟨[], t, P.reach_nil _ _ _, ?_⟩
    rwa [List.append_nil]
  · intro hv
    obtain ⟨path, t', hreach, hv⟩ := hv
    cases path with
    | nil =>
      cases hreach
      rwa [List.append_nil] at hv
    | cons name path =>
      rw [P.reach_cons_of_ne_dir h] at hreach
      exact nomatch hreach

mutual

/-- A walk visits exactly what is reached. -/
theorem mem_walk_iff (ctx : σ) (base : List ν) : (t : FileTree ν δ β) → t.NamesDistinct →
    ∀ v, v ∈ P.walk ctx base t ↔
      ∃ path t', P.reach ctx base t path = some t' ∧ v ∈ t'.visits (base ++ path)
  | .dir data children, ht, v => by
    rw [walk, List.mem_cons, mem_walkChildren_iff (P.enter ctx data) base children ht.1 ht.2 v]
    -- A directory is a visit itself, and else the visit is below one of its children.
    constructor
    · intro hv
      cases hv with
      | inl hv =>
        refine ⟨[], _, P.reach_nil _ _ _, ?_⟩
        rw [List.append_nil, hv]
        exact List.mem_singleton_self _
      | inr hv =>
        obtain ⟨name, child, path, t', hchild, hskip, hreach, hv⟩ := hv
        exact ⟨name :: path, t', P.reach_dir_cons.mpr ⟨child, hchild, hskip, hreach⟩, hv⟩
    · intro hv
      obtain ⟨path, t', hreach, hv⟩ := hv
      cases path with
      | nil =>
        cases hreach
        rw [List.append_nil] at hv
        exact .inl (List.mem_singleton.mp hv)
      | cons name path =>
        obtain ⟨child, hchild, hskip, hreach⟩ := P.reach_dir_cons.mp hreach
        exact .inr ⟨name, child, path, t', hchild, hskip, hreach, hv⟩
  | .file content, _, v => by
    rw [walk]
    exact P.mem_visits_iff fun _ _ => nofun
  | .locked, _, v => by
    rw [walk]
    exact P.mem_visits_iff fun _ _ => nofun
  | .link target, _, v => by
    rw [walk]
    exact P.mem_visits_iff fun _ _ => nofun
  | .dangling, _, v => by
    rw [walk]
    exact P.mem_visits_iff fun _ _ => nofun

/-- The walk of a directory's entries. -/
theorem mem_walkChildren_iff (ctx : σ) (base : List ν) : (children : List (ν × FileTree ν δ β)) →
    (children.map Prod.fst).Nodup → ChildrenDistinct children →
    ∀ v, v ∈ P.walkChildren ctx base children ↔
      ∃ name child path t', children.lookup name = some child ∧
        P.skip ctx base name child.isDir = false ∧
        P.reach ctx (base ++ [name]) child path = some t' ∧ v ∈ t'.visits (base ++ name :: path)
  | [], _, _, v => by simp [walkChildren]
  | (name, child) :: rest, hnames, hrest, v => by
    rw [List.map_cons, List.nodup_cons] at hnames
    rw [walkChildren, List.mem_append, mem_walkChildren_iff ctx base rest hnames.2 hrest.2 v]
    have hfirst : ((name, child) :: rest).lookup name = some child := List.lookup_cons_self
    -- The names are distinct, so the later children are the ones the lookup finds there.
    have hlater : ∀ n, n ≠ name → ((name, child) :: rest).lookup n = rest.lookup n := by
      intro n hn
      rw [List.lookup_cons, beq_eq_false_iff_ne.mpr hn]
    constructor
    · intro hv
      cases hv with
      | inl hv =>
        cases hskip : P.skip ctx base name child.isDir with
        | true =>
          rw [if_pos hskip] at hv
          exact absurd hv List.not_mem_nil
        | false =>
          rw [if_neg (Bool.not_eq_true _ ▸ hskip)] at hv
          obtain ⟨path, t', hreach, hv⟩ :=
            (mem_walk_iff ctx (base ++ [name]) child hrest.1 v).mp hv
          rw [List.append_assoc, List.singleton_append] at hv
          exact ⟨name, child, path, t', hfirst, hskip, hreach, hv⟩
      | inr hv =>
        obtain ⟨n, t, path, t', ht, hskip, hreach, hv⟩ := hv
        -- The first child's name is not used later, so the lookup does not stop at it.
        have hne : n ≠ name := by
          intro heq
          subst heq
          obtain ⟨before, after, rfl, -⟩ := List.lookup_eq_some_iff.mp ht
          exact hnames.1 (by simp)
        exact ⟨n, t, path, t', (hlater n hne).trans ht, hskip, hreach, hv⟩
    · intro hv
      obtain ⟨n, t, path, t', ht, hskip, hreach, hv⟩ := hv
      -- The child on the path is the first one or a later one.
      by_cases hn : n = name
      · subst hn
        obtain rfl : child = t := Option.some.inj (hfirst.symm.trans ht)
        apply Or.inl
        rw [if_neg (Bool.not_eq_true _ ▸ hskip), mem_walk_iff ctx (base ++ [n]) child hrest.1 v]
        refine ⟨path, t', hreach, ?_⟩
        rwa [List.append_assoc, List.singleton_append]
      · exact .inr ⟨n, t, path, t', (hlater n hn).symm.trans ht, hskip, hreach, hv⟩

end

end Pruning

end Semnav.ForStd
