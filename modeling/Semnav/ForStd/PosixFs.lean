import Mathlib.Data.List.Basic
import Mathlib.Data.List.Induction

/-!
# Paths and symbolic links

Paths as text has them, with their `.`, `..` and empty parts, the components that a path type
reads off them, and a file system with arbitrary symbolic links.  What a path leads to is a
relation: a cycle of links leads nowhere.  A path of names without links is canonical, and
canonicalization takes each path that leads somewhere to the canonical one.

## Key results

- `FileSystem.Walk.unique`: a path leads to one place at most
- `FileSystem.walk_names`: a canonical path leads to what it names
- `Canonicalize.nonempty`: every file system has its canonicalization
- `RawPath.startsWith_ofLocation_iff`: the component-wise prefix test on canonical paths
-/

namespace Semnav.ForStd

/-! ## Paths -/

/-- What stands between two separators. -/
inductive PathPart (ν : Type) where
  /-- `.` or nothing. -/
  | here
  /-- `..`. -/
  | up
  | name (n : ν)
deriving DecidableEq

/-- A path by its parts, after the leading separator if it is absolute. -/
structure RawPath (ν : Type) where
  absolute : Bool
  parts : List (PathPart ν)
deriving DecidableEq

/-- `std::path::Component`. -/
inductive Component (ν : Type) where
  | rootDir
  | curDir
  | parentDir
  | normal (n : ν)
deriving DecidableEq

variable {ν : Type}

/-- The component of a part, if it is one. -/
def PathPart.component : PathPart ν → Option (Component ν)
  | .here => none
  | .up => some .parentDir
  | .name n => some (.normal n)

namespace RawPath

/-- The components before the parts: a `.` counts at the beginning of a relative path only. -/
def start (p : RawPath ν) : List (Component ν) :=
  if p.absolute then [.rootDir]
  else
    match p.parts with
    | .here :: _ => [.curDir]
    | _ => []

/-- `Path::components`. -/
def components (p : RawPath ν) : List (Component ν) :=
  p.start ++ p.parts.filterMap PathPart.component

/-- `Path::starts_with`. -/
def startsWith [DecidableEq ν] (p q : RawPath ν) : Bool := q.components.isPrefixOf p.components

/-- `PathBuf::pop`, of a path without `here` parts. -/
def pop (p : RawPath ν) : RawPath ν := { p with parts := p.parts.dropLast }

/-- `PathBuf::push` of a component. -/
def push (p : RawPath ν) : Component ν → RawPath ν
  | .rootDir => ⟨true, []⟩
  | .curDir => { p with parts := p.parts ++ [.here] }
  | .parentDir => { p with parts := p.parts ++ [.up] }
  | .normal n => { p with parts := p.parts ++ [.name n] }

/-- The text of the path is not empty. -/
def NonEmpty (p : RawPath ν) : Prop := p.absolute = true ∨ p.parts ≠ []

/-- The canonical path of a place. -/
def ofLocation (l : List ν) : RawPath ν := ⟨true, l.map .name⟩

/-- The components of a path of plain names. -/
theorem components_names (absolute : Bool) (names : List ν) :
    (⟨absolute, names.map .name⟩ : RawPath ν).components =
      (if absolute then [.rootDir] else []) ++ names.map .normal := by
  have hstart : (⟨absolute, names.map .name⟩ : RawPath ν).start =
      if absolute then [.rootDir] else [] := by
    cases names with
    | nil => rfl
    | cons n names => rfl
  have hparts : (names.map PathPart.name).filterMap PathPart.component =
      names.map Component.normal := by
    rw [List.filterMap_map]
    exact congrFun (List.filterMap_eq_map (f := Component.normal)) names
  rw [components, hstart, hparts]

/-- The components of a location are its names. -/
theorem components_ofLocation (l : List ν) :
    (ofLocation l).components = .rootDir :: l.map .normal := components_names true l

/-- The components of canonical paths are nested as the places are. -/
theorem startsWith_ofLocation_iff {r l : List ν} :
    (ofLocation r).components <+: (ofLocation l).components ↔ r <+: l := by
  rw [components_ofLocation, components_ofLocation, List.cons_prefix_cons]
  constructor
  · intro h
    obtain ⟨-, rest, hrest⟩ := h
    obtain ⟨l₁, l₂, rfl, hr, -⟩ := List.map_eq_append_iff.mp hrest.symm
    have hinj : Function.Injective (Component.normal : ν → Component ν) := by
      intro a b hab
      exact Component.normal.inj hab
    exact ⟨l₂, by rw [hinj.list_map hr]⟩
  · intro h
    exact ⟨rfl, h.map _⟩

end RawPath

/-! ## File systems -/

/-- What is at a place. -/
inductive FsEntry (ν : Type) where
  | file
  | dir
  | link (target : RawPath ν)
deriving DecidableEq

/-- The entries of a file system by the names that lead to them from the root, no link among
    those on the way. -/
structure FileSystem (ν : Type) where
  entry : List ν → Option (FsEntry ν)
  /-- The current directory. -/
  cwd : List ν
  root_dir : entry [] = some .dir
  parent_dir : ∀ l n, entry (l ++ [n]) ≠ none → entry l = some .dir

namespace FileSystem

variable (fs : FileSystem ν)

/-- A file or a directory is there. -/
def IsNode (l : List ν) : Prop := fs.entry l = some .file ∨ fs.entry l = some .dir

/-- Where a path starts when it is met in `dir`. -/
def startOf (dir : List ν) (p : RawPath ν) : List ν := if p.absolute then [] else dir

/-- From a place, the parts lead to a node. -/
inductive Walk : List ν → List (PathPart ν) → List ν → Prop where
  | done {loc : List ν} (hnode : fs.IsNode loc) : Walk loc [] loc
  | here {loc l : List ν} {parts : List (PathPart ν)} (hdir : fs.entry loc = some .dir)
      (h : Walk loc parts l) : Walk loc (.here :: parts) l
  /-- The root is above itself. -/
  | up {loc l : List ν} {parts : List (PathPart ν)} (hdir : fs.entry loc = some .dir)
      (h : Walk loc.dropLast parts l) : Walk loc (.up :: parts) l
  | name {loc l : List ν} {n : ν} {parts : List (PathPart ν)}
      (hdir : fs.entry loc = some .dir) (hnode : fs.IsNode (loc ++ [n]))
      (h : Walk (loc ++ [n]) parts l) : Walk loc (.name n :: parts) l
  | link {loc mid l : List ν} {n : ν} {parts : List (PathPart ν)} {target : RawPath ν}
      (hdir : fs.entry loc = some .dir) (hlink : fs.entry (loc ++ [n]) = some (.link target))
      (hne : target.NonEmpty) (htarget : Walk (startOf loc target) target.parts mid)
      (h : Walk mid parts l) : Walk loc (.name n :: parts) l

/-- The path resolves to the node at `l`. -/
def Resolves (p : RawPath ν) (l : List ν) : Prop :=
  p.NonEmpty ∧ fs.Walk (startOf fs.cwd p) p.parts l

/-- The components of the path lead to the node at `l`.  They do not tell of a separator at its
    end, after which only a directory resolves. -/
def Leads (p : RawPath ν) (l : List ν) : Prop :=
  fs.Walk (startOf fs.cwd p) (p.parts.filter fun part => part.component.isSome) l

variable {fs} {loc l l' : List ν} {parts : List (PathPart ν)}

/-- A walk ends at a node. -/
theorem Walk.isNode (h : fs.Walk loc parts l) : fs.IsNode l := by
  induction h with
  | done hnode => exact hnode
  | here _ _ ih => exact ih
  | up _ _ ih => exact ih
  | name _ _ _ ih => exact ih
  | link _ _ _ _ _ _ ih => exact ih

/-- A node is no link. -/
theorem IsNode.not_link (h : fs.IsNode l) {target : RawPath ν} :
    fs.entry l ≠ some (.link target) := by
  intro hlink
  cases h with
  | inl hfile => exact nomatch hfile.symm.trans hlink
  | inr hdir => exact nomatch hdir.symm.trans hlink

/-- A path leads to one place at most. -/
theorem Walk.unique (h : fs.Walk loc parts l) (h' : fs.Walk loc parts l') : l = l' := by
  induction h generalizing l' with
  | done hnode =>
    cases h' with
    | done => rfl
  | here _ _ ih =>
    cases h' with
    | here _ hrest => exact ih hrest
  | up _ _ ih =>
    cases h' with
    | up _ hrest => exact ih hrest
  | name _ hnode _ ih =>
    cases h' with
    | name _ _ hrest => exact ih hrest
    -- A component that is not a link cannot be followed as one, so the two walks take the same
    -- rule.
    | link _ hlink _ _ _ => exact absurd hlink hnode.not_link
  | link _ hlink _ _ _ ihtarget ih =>
    cases h' with
    | name _ hnode _ => exact absurd hlink hnode.not_link
    | link _ hlink' _ htarget hrest =>
      obtain rfl : _ = _ := FsEntry.link.inj (Option.some.inj (hlink.symm.trans hlink'))
      obtain rfl := ihtarget htarget
      exact ih hrest

/-- What leads to a node leads through directories. -/
theorem dir_of_isNode {n : ν} {rest : List ν} (h : fs.IsNode (loc ++ n :: rest)) :
    fs.entry loc = some .dir := by
  induction rest using List.reverseRecOn with
  | nil =>
    apply fs.parent_dir loc n
    cases h with
    | inl hfile => exact hfile ▸ nofun
    | inr hdir => exact hdir ▸ nofun
  | append_singleton rest m ih =>
    apply ih
    refine .inr (fs.parent_dir _ m ?_)
    have hassoc : loc ++ n :: rest ++ [m] = loc ++ n :: (rest ++ [m]) := by simp
    rw [hassoc]
    cases h with
    | inl hfile => exact hfile ▸ nofun
    | inr hdir => exact hdir ▸ nofun

/-- Names that lead to a node without a link lead there. -/
theorem walk_names {names : List ν} (h : fs.IsNode (loc ++ names)) :
    fs.Walk loc (names.map .name) (loc ++ names) := by
  induction names generalizing loc with
  | nil =>
    rw [List.append_nil] at h ⊢
    exact .done h
  | cons n names ih =>
    have hassoc : loc ++ n :: names = loc ++ [n] ++ names := by simp
    have hnode : fs.IsNode (loc ++ [n]) := by
      cases names with
      | nil => exact h
      | cons m names =>
        rw [hassoc] at h
        exact .inr (dir_of_isNode h)
    rw [hassoc] at h ⊢
    exact .name (dir_of_isNode (hassoc ▸ h)) hnode (ih h)

/-- A canonical path resolves to what it names. -/
theorem resolves_ofLocation (h : fs.IsNode l) : fs.Resolves (.ofLocation l) l := by
  refine ⟨.inl rfl, ?_⟩
  have hwalk : fs.Walk [] (l.map .name) ([] ++ l) := walk_names h
  exact hwalk

/-- The parts that are no components only ask for a directory. -/
theorem Walk.components (h : fs.Walk loc parts l) :
    fs.Walk loc (parts.filter fun part => part.component.isSome) l := by
  induction h with
  | done hnode => exact .done hnode
  | here _ _ ih => exact ih
  | up hdir _ ih => exact .up hdir ih
  | name hdir hnode _ ih => exact .name hdir hnode ih
  | link hdir hlink hne htarget _ _ ih => exact .link hdir hlink hne htarget ih

/-- A path leads where it resolves to. -/
theorem Resolves.leads {p : RawPath ν} (h : fs.Resolves p l) : fs.Leads p l := h.2.components

/-- Names on the way to a node lead to a node. -/
theorem isNode_of_below (h : fs.IsNode l) {names : List ν} (hbelow : names <+: l) :
    fs.IsNode names := by
  obtain ⟨rest, rfl⟩ := hbelow
  cases rest with
  | nil =>
    rw [List.append_nil] at h
    exact h
  | cons n rest => exact .inr (dir_of_isNode h)

end FileSystem

/-! ## Canonicalization -/

/-- `fs::canonicalize` in a file system: it succeeds on the paths that resolve, with the place
    they lead to. -/
structure Canonicalize (fs : FileSystem ν) where
  run : RawPath ν → Option (List ν)
  run_eq_some_iff : ∀ p l, run p = some l ↔ fs.Resolves p l

/-- Every file system has its canonicalization. -/
theorem Canonicalize.nonempty (fs : FileSystem ν) : Nonempty (Canonicalize fs) := by
  classical
  refine ⟨⟨fun p => if h : ∃ l, fs.Resolves p l then some h.choose else none, fun p l => ?_⟩⟩
  split
  · rename_i hex
    rw [Option.some.injEq]
    constructor
    · intro heq
      exact heq ▸ hex.choose_spec
    · intro h
      exact hex.choose_spec.2.unique h.2
  · rename_i hnone
    constructor
    · intro heq
      exact nomatch heq
    · intro h
      exact absurd ⟨l, h⟩ hnone

end Semnav.ForStd
