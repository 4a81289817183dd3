import Semnav.Query.Confine

/-!
# What `confine` lets through

A path that `confine` lets through either resolves, and then it is canonical and below the
canonical root, or it does not, and then it has no `.` and no `..` and is below the root.  Links
at any depth, relative paths and a root that is itself a link are all in the file system's hands.

## Key results

- `lexicallyNormalize_names`: normalization leaves names only
- `rootUriFor_nonEmpty`: the root's uri never gives the empty path, which is a prefix of all
- `confine_confines`: what is let through is confined
-/

namespace Semnav.Query

open Semnav.ForStd Semnav.Indexer

/-! ## Normalization -/

/-- Only names are left of a path. -/
private theorem lexicallyNormalize_names (path : RawPath String) :
    ∃ (absolute : Bool) (names : List String), lexicallyNormalize path = ⟨absolute, names.map .name⟩ := by
  rw [lexicallyNormalize]
  refine List.foldlRecOn (motive := fun result : RawPath String => ∃ (absolute : Bool)
    (names : List String), result = ⟨absolute, names.map .name⟩) path.components _ ?_ ?_
  · exact ⟨false, [], rfl⟩
  · intro result hresult component hcomponent
    obtain ⟨absolute, names, rfl⟩ := hresult
    cases component with
    | rootDir => exact ⟨true, [], rfl⟩
    | curDir => exact ⟨absolute, names, rfl⟩
    | parentDir =>
      refine ⟨absolute, names.dropLast, ?_⟩
      simp [RawPath.pop, List.map_dropLast]
    | normal n =>
      refine ⟨absolute, names ++ [n], ?_⟩
      simp [RawPath.push]

/-- No `.` and no `..` is among the components of a path of names. -/
private theorem components_of_names {absolute : Bool} {names : List String} {c : Component String}
    (h : c ∈ (⟨absolute, names.map .name⟩ : RawPath String).components) :
    c ≠ .curDir ∧ c ≠ .parentDir := by
  rw [RawPath.components_names, List.mem_append] at h
  cases h with
  | inl hstart =>
    cases absolute with
    | false => exact absurd hstart List.not_mem_nil
    | true =>
      cases List.mem_singleton.mp hstart
      exact ⟨nofun, nofun⟩
  | inr hname =>
    obtain ⟨n, -, rfl⟩ := List.mem_map.mp hname
    exact ⟨nofun, nofun⟩

/-! ## The root -/

/-- The path of a text that is not empty is not. -/
private theorem pathOfText_nonEmpty {chars : List Char} (h : chars ≠ []) :
    (pathOfText chars).NonEmpty := by
  unfold pathOfText
  split
  · exact absurd rfl h
  · exact .inl rfl
  · refine .inr ?_
    simp [pathParts, List.splitOn_ne_nil]

/-- The root's uri ends with one slash, and the scheme with two. -/
private theorem rootUriFor_nonEmpty (root : Path) : (uriToPath (rootUriFor root)).NonEmpty := by
  apply pathOfText_nonEmpty
  rw [rootUriFor, String.toList_ofList, stripPrefixOrSelf]
  set stem := (pathToUri root).toList.rdropWhile (· == '/') with hstem
  split
  · -- With nothing behind the scheme, the stem would be `file:/`.
    rename_i hprefix
    intro hnil
    obtain ⟨rest, hrest⟩ := List.isPrefixOf_iff_prefix.mp hprefix
    have hwhole : stem ++ ['/'] = "file:/".toList ++ ['/'] := by
      rw [← hrest, List.drop_left] at hnil
      rw [← hrest, hnil]
      rfl
    have hslash : stem = "file:/".toList := List.append_cancel_right hwhole
    have hne : stem ≠ [] := by
      rw [hslash]
      decide
    have hlast : ¬ (stem.getLast hne == '/') = true :=
      -- Yet the last character that `rdropWhile` keeps is not a slash.
      List.rdropWhile_last_not (· == '/') (pathToUri root).toList hne
    apply hlast
    simp only [hslash]
    rfl
  · exact List.append_ne_nil_of_right_ne_nil _ (by decide)

/-! ## What is let through -/

/-- What is said of a path that is let through. -/
structure Confined (fs : FileSystem String) (root p : RawPath String) : Prop where
  /-- A path that resolves is canonical, and below the canonical root. -/
  resolved : ∀ l, fs.Resolves p l → p = .ofLocation l ∧ ∃ r, fs.Leads root r ∧ r <+: l
  /-- One that does not has no `.` and no `..`, and is below the root. -/
  unresolved : (¬ ∃ l, fs.Resolves p l) →
    (∀ c ∈ p.components, c ≠ .curDir ∧ c ≠ .parentDir) ∧
    (∀ r, fs.Resolves root r → (RawPath.ofLocation r).components <+: p.components) ∧
    ((¬ ∃ r, fs.Resolves root r) → root.components <+: p.components)

section Confine

variable {fs : FileSystem String} (real : Canonicalize fs)

private theorem canonicalizeOrSelf_of_resolves {p : RawPath String} {l : List String}
    (h : fs.Resolves p l) : canonicalizeOrSelf real p = .ofLocation l := by
  rw [canonicalizeOrSelf, (real.run_eq_some_iff p l).mpr h]
  rfl

private theorem canonicalizeOrSelf_of_not {p : RawPath String} (h : ¬ ∃ l, fs.Resolves p l) :
    canonicalizeOrSelf real p = p := by
  cases hrun : real.run p with
  | none =>
    rw [canonicalizeOrSelf, hrun]
    rfl
  | some l => exact absurd ⟨l, (real.run_eq_some_iff p l).mp hrun⟩ h

/-- A path whose components are the beginning of a canonical one's leads there, since none of them
    is a link. -/
private theorem leads_of_prefix {root : RawPath String} (hroot : root.NonEmpty) {l : List String}
    (hnode : fs.IsNode l) (h : root.components <+: (RawPath.ofLocation l).components) :
    ∃ r, fs.Leads root r ∧ r <+: l := by
  rw [RawPath.components_ofLocation, RawPath.components] at h
  -- A relative root has a part, and no part is a prefix of an absolute location.
  have habsolute : root.absolute = true := by
    by_contra hrelative
    have hparts := hroot.resolve_left hrelative
    rw [RawPath.start, if_neg hrelative] at h
    obtain ⟨part, parts, hcons⟩ := List.exists_cons_of_ne_nil hparts
    rw [hcons] at h
    cases part with
    | here => cases (List.cons_prefix_cons.mp h).1
    | up => cases (List.cons_prefix_cons.mp h).1
    | name n => cases (List.cons_prefix_cons.mp h).1
  -- The names of the root are the first names of the location; the other parts do not count.
  have hnames : ∀ (parts : List (PathPart String)) (l : List String),
      parts.filterMap PathPart.component <+: l.map .normal →
      ∃ r : List String, parts.filter (fun part => part.component.isSome) = r.map .name ∧
        r <+: l := by
    intro parts
    induction parts with
    | nil => exact fun l _ => ⟨[], rfl, List.nil_prefix⟩
    | cons part parts ih =>
      intro l h
      cases part with
      | here => exact ih l h
      | up =>
        cases l with
        | nil => exact absurd (List.prefix_nil.mp h) (List.cons_ne_nil _ _)
        | cons n l => cases (List.cons_prefix_cons.mp h).1
      | name n =>
        cases l with
        | nil => exact absurd (List.prefix_nil.mp h) (List.cons_ne_nil _ _)
        | cons m l =>
          obtain ⟨heq, hrest⟩ := List.cons_prefix_cons.mp h
          cases heq
          obtain ⟨r, hparts, hprefix⟩ := ih l hrest
          refine ⟨n :: r, ?_, List.cons_prefix_cons.mpr ⟨rfl, hprefix⟩⟩
          rw [List.map_cons, ← hparts]
          rfl
  rw [RawPath.start, if_pos habsolute] at h
  obtain ⟨r, hparts, hprefix⟩ := hnames root.parts l (List.cons_prefix_cons.mp h).2
  refine ⟨r, ?_, hprefix⟩
  rw [FileSystem.Leads, hparts, FileSystem.startOf, if_pos habsolute]
  -- The location is a node, so is each directory on the way to it.
  have hwalk : fs.Walk [] (r.map .name) ([] ++ r) :=
    FileSystem.walk_names (FileSystem.isNode_of_below hnode hprefix)
  exact hwalk

end Confine

/-- Whatever links the file system has, `confine` lets through what is confined only. -/
theorem confine_confines {fs : FileSystem String} (real : Canonicalize fs) {rootUri : String}
    (hroot : (uriToPath rootUri).NonEmpty) (uri : String) {p : RawPath String}
    (h : confine real rootUri uri = .ok p) : Confined fs (uriToPath rootUri) p := by
  rw [confine] at h
  split at h
  · rename_i hbelow
    cases h
    rw [RawPath.startsWith, List.isPrefixOf_iff_prefix] at hbelow
    -- The normalized path has names alone, so its file system meaning is the one of its names.
    obtain ⟨absolute, names, hnormal⟩ := lexicallyNormalize_names (uriToPath uri)
    rw [hnormal] at hbelow ⊢
    set normal : RawPath String := ⟨absolute, names.map .name⟩ with hnormal'
    by_cases hresolves : ∃ l, fs.Resolves normal l
    · obtain ⟨l, hl⟩ := hresolves
      have hnode : fs.IsNode l := hl.2.isNode
      have hcanonical := FileSystem.resolves_ofLocation hnode
      rw [canonicalizeOrSelf_of_resolves real hl] at hbelow ⊢
      constructor
      case resolved =>
        intro l' hl'
        obtain rfl : l' = l := hl'.2.unique hcanonical.2
        -- The file exists, so what is returned is its one location; then by whether the root
        -- exists.
        refine ⟨rfl, ?_⟩
        by_cases hrootResolves : ∃ r, fs.Resolves (uriToPath rootUri) r
        · obtain ⟨r, hr⟩ := hrootResolves
          rw [canonicalizeOrSelf_of_resolves real hr] at hbelow
          exact ⟨r, hr.leads, RawPath.startsWith_ofLocation_iff.mp hbelow⟩
        · rw [canonicalizeOrSelf_of_not real hrootResolves] at hbelow
          exact leads_of_prefix hroot hnode hbelow
      case unresolved => exact fun hnone => absurd ⟨l, hcanonical⟩ hnone
    · -- The file does not exist: the path is compared as it is written.
      rw [canonicalizeOrSelf_of_not real hresolves] at hbelow ⊢
      constructor
      case resolved => exact fun l hl => absurd ⟨l, hl⟩ hresolves
      case unresolved =>
        refine fun _ => ⟨fun c hc => components_of_names hc, fun r hr => ?_, fun hnone => ?_⟩
        · rw [canonicalizeOrSelf_of_resolves real hr] at hbelow
          exact hbelow
        · rw [canonicalizeOrSelf_of_not real hnone] at hbelow
          exact hbelow
  · exact nomatch h

/-! ## A workspace behind a link -/

/-- `/ws` is a link to the workspace `/repo`, whose link `out` leads out of it. -/
def linkedEntries : List (List String × FsEntry String) :=
  [([], .dir), (["repo"], .dir), (["repo", "a.py"], .file),
   (["repo", "out"], .link ⟨true, [.name "etc"]⟩), (["ws"], .link ⟨false, [.name "repo"]⟩),
   (["etc"], .dir), (["etc", "passwd"], .file)]

def linkedFs : FileSystem String where
  entry l := linkedEntries.lookup l
  cwd := []
  root_dir := rfl
  parent_dir l n h := by
    have hparents : ∀ key ∈ linkedEntries.map Prod.fst, key ≠ [] →
        linkedEntries.lookup key.dropLast = some .dir := by decide
    have hkey : l ++ [n] ∈ linkedEntries.map Prod.fst := by
      by_contra hnot
      apply h
      rw [List.lookup_eq_none_iff]
      intro pair hpair
      rw [bne_iff_ne]
      intro heq
      exact hnot (List.mem_map.mpr ⟨pair, hpair, heq.symm⟩)
    have hparent := hparents _ hkey (by simp)
    rwa [List.dropLast_concat] at hparent

/-- `/ws`. -/
def wsPath : Path := [⟨"ws", by decide, by decide⟩]

/-- The source file is let through, by its canonical path. -/
theorem confine_confines_linked : ∃ real : Canonicalize linkedFs,
    confine real (rootUriFor wsPath) "file:///ws/./a.py" = .ok (.ofLocation ["repo", "a.py"]) ∧
      Confined linkedFs (uriToPath (rootUriFor wsPath)) (.ofLocation ["repo", "a.py"]) := by
  obtain ⟨real⟩ := Canonicalize.nonempty linkedFs
  -- `/ws` links to `/repo`, so the root and the file both resolve there.
  have hlink : linkedFs.Walk [] [.name "repo"] ["repo"] :=
    .name rfl (.inr rfl) (.done (.inr rfl))
  have hroot : linkedFs.Resolves (uriToPath (rootUriFor wsPath)) ["repo"] := by
    have hpath : uriToPath (rootUriFor wsPath) = ⟨true, [.name "ws", .here]⟩ := by decide
    rw [hpath]
    exact ⟨.inl rfl, .link rfl rfl (.inr nofun) hlink (.here rfl (.done (.inr rfl)))⟩
  have hfile : linkedFs.Resolves (lexicallyNormalize (uriToPath "file:///ws/./a.py"))
      ["repo", "a.py"] := by
    have hpath : lexicallyNormalize (uriToPath "file:///ws/./a.py") =
        ⟨true, [.name "ws", .name "a.py"]⟩ := by decide
    rw [hpath]
    exact ⟨.inl rfl, .link rfl rfl (.inr nofun) hlink
      (.name rfl (.inl rfl) (.done (.inl rfl)))⟩
  have hconfine : confine real (rootUriFor wsPath) "file:///ws/./a.py" =
      .ok (.ofLocation ["repo", "a.py"]) := by
    rw [confine, canonicalizeOrSelf_of_resolves real hroot,
      canonicalizeOrSelf_of_resolves real hfile]
    rfl
  exact ⟨real, hconfine, confine_confines real (rootUriFor_nonEmpty wsPath) _ hconfine⟩

end Semnav.Query
