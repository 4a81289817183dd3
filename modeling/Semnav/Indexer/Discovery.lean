import Semnav.ForStd.FileTree
import Semnav.Indexer.Reconcile

/-!
# Which files are discovered

The walk over the workspace that finds the files of the index (`src/indexer/discovery.rs`), with
the rules that the `ignore` crate documents for it: of the files that hold ignore rules, `.ignore`
comes before `.gitignore`, `.git/info/exclude` and the global file, and of those of one kind the
nearest directory's comes first; git's are read in a repository only, up to its top; and what no
rule speaks for is left out if it is hidden.  What a rule file says of a path is a parameter.

File names are text; a name that is not UTF-8 is left out, and so are pipes, sockets and devices.
-/

namespace Semnav.Indexer

open Semnav.ForStd Semnav.Adapters

/-! ## Paths -/

/-- The name of a file or a directory. -/
structure FileName where
  text : String
  ne_empty : text ≠ ""
  no_slash : '/' ∉ text.toList
deriving DecidableEq

/-- The crate's `is_hidden`. -/
def FileName.isHidden (name : FileName) : Bool := name.text.toList.head? == some '.'

/-- An absolute path, by its names. -/
abbrev Path := List FileName

/-- `Path::to_string_lossy`. -/
def Path.toStringLossy (path : Path) : String :=
  if path = [] then "/" else String.ofList (path.flatMap fun name => '/' :: name.text.toList)

/-- `path_to_uri`. -/
def pathToUri (path : Path) : String :=
  let s := Path.toStringLossy path
  if s.toList.head? == some '/' then "file://" ++ s else "file:///" ++ s

/-! ## Ignore rules -/

/-- What ignore rules say of a path. -/
inductive Match where
  | none
  | ignore
  | whitelist
deriving DecidableEq

/-- The first verdict, or else the second. -/
def Match.or : Match → Match → Match
  | .none, m => m
  | m, _ => m

/-- A file of ignore rules, compiled: `Gitignore::matched`, by a path and whether it is a
    directory. -/
abbrev Gitignore := Path → Bool → Match

/-- What the walk reads in a directory. -/
structure IgnoreRules where
  /-- `.ignore`. -/
  ignore : Gitignore
  /-- `.gitignore`. -/
  gitignore : Gitignore
  /-- `.git/info/exclude`. -/
  exclude : Gitignore
  /-- There is a `.git`. -/
  hasGit : Bool

/-- A directory without rules. -/
def IgnoreRules.empty : IgnoreRules :=
  ⟨fun _ _ => .none, fun _ _ => .none, fun _ _ => .none, false⟩

/-- The verdict of the nearest directory that has one. -/
def nearestMatch (rules : IgnoreRules → Gitignore) (levels : List IgnoreRules) : Gitignore :=
  fun path isDir => levels.foldr (fun level m => (rules level path isDir).or m) .none

/-- The directories up to the top of the repository. -/
def gitLevels : List IgnoreRules → List IgnoreRules
  | [] => []
  | level :: above => if level.hasGit then [level] else level :: gitLevels above

/-- The verdict of all rules, those of `levels` from the nearest directory up. -/
def matchedIgnore (globalIgnore : Gitignore) (levels : List IgnoreRules) : Gitignore :=
  fun path isDir =>
    let m := nearestMatch (·.ignore) levels path isDir
    if levels.any (·.hasGit) then
      ((m.or (nearestMatch (·.gitignore) (gitLevels levels) path isDir)).or
        (nearestMatch (·.exclude) (gitLevels levels) path isDir)).or (globalIgnore path isDir)
    else m

/-- What `WalkBuilder` leaves out with `hidden`, `git_ignore`, `git_global` and `git_exclude`. -/
def ignorePruning (globalIgnore : Gitignore) : Pruning (List IgnoreRules) FileName IgnoreRules where
  enter levels rules := rules :: levels
  skip levels dir name isDir :=
    match matchedIgnore globalIgnore levels (dir ++ [name]) isDir with
    | .ignore => true
    | .whitelist => false
    | .none => name.isHidden

/-! ## The walk -/

/-- A directory tree with the ignore rules of each directory and the bytes of each file, `none`
    where they may not be read. -/
abbrev SourceTree := FileTree FileName IgnoreRules (Option FileBytes)

/-- The directory that is indexed, and what is around it. -/
structure Workspace where
  root : Path
  /-- The root with its links resolved. -/
  canonicalRoot : Path
  /-- The rules of the directories above the root, the nearest first. -/
  above : List IgnoreRules
  globalIgnore : Gitignore
  rules : IgnoreRules
  children : List (FileName × SourceTree)
  distinct : FileTree.NamesDistinct (.dir rules children : SourceTree)

/-- The walk met a directory that cannot be read. -/
structure WalkError where
  path : Path
deriving DecidableEq

namespace Workspace

variable (ws : Workspace)

/-- The tree at the root. -/
def tree : SourceTree := .dir ws.rules ws.children

/-- What `WalkBuilder::build` yields. -/
def walk : List (Visit FileName) :=
  (ignorePruning ws.globalIgnore).walk ws.above ws.root ws.tree

/-- One round of the loop of `discover_files`. -/
def collect (adapters : List LanguageAdapter) (uris : List String) :
    Visit FileName → Except WalkError (List String)
  | .denied path => .error ⟨path⟩
  | .entry path type =>
    if type = .file then
      let uri := pathToUri path
      if (selectForUri adapters uri).isSome then .ok (uris ++ [uri]) else .ok uris
    else .ok uris

/-- `discover_files`. -/
def discoverFiles (adapters : List LanguageAdapter) : Except WalkError (List String) :=
  ws.walk.foldlM (collect adapters) []

end Workspace

end Semnav.Indexer
