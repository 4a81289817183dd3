import Mathlib.Data.List.DropRight
import Semnav.ForStd.PosixFs
import Semnav.Indexer.Discovery

/-!
# Confining a path to the workspace

The gate between a client's uri and a read of a file (`QueryEngine::confine` of
`src/query/mod.rs`).  What the file system makes of a path is the parameter `Canonicalize`.
-/

namespace Semnav.Query

open Semnav.ForStd Semnav.Indexer

/-- A piece between two slashes. -/
def pathPart (piece : List Char) : PathPart String :=
  if piece = [] ∨ piece = ['.'] then .here
  else if piece = ['.', '.'] then .up
  else .name (String.ofList piece)

/-- The pieces of a path after its leading slash. -/
def pathParts (chars : List Char) : List (PathPart String) :=
  (chars.splitOn '/').map pathPart

/-- `PathBuf::from`. -/
def pathOfText (chars : List Char) : RawPath String :=
  match chars with
  | [] => ⟨false, []⟩
  | '/' :: rest => ⟨true, pathParts rest⟩
  | c :: rest => ⟨false, pathParts (c :: rest)⟩

/-- `uri_to_path`: strip the scheme. -/
def uriToPath (uri : String) : RawPath String :=
  pathOfText (stripPrefixOrSelf uri.toList "file://".toList)

/-- `root_uri_for`: the root's uri with exactly one trailing slash. -/
def rootUriFor (root : Path) : String :=
  String.ofList ((pathToUri root).toList.rdropWhile (· == '/') ++ ['/'])

/-- `lexically_normalize`: collapse `.` and `..` without touching the file system. -/
def lexicallyNormalize (path : RawPath String) : RawPath String :=
  path.components.foldl (fun result component =>
    match component with
    | .parentDir => result.pop
    | .curDir => result
    | other => result.push other) ⟨false, []⟩

/-- `fs::canonicalize(path).unwrap_or(path)`. -/
def canonicalizeOrSelf {fs : FileSystem String} (real : Canonicalize fs)
    (path : RawPath String) : RawPath String :=
  ((real.run path).map RawPath.ofLocation).getD path

/-- `confine`: the path of a uri if it is below the root, or the text of the error. -/
def confine {fs : FileSystem String} (real : Canonicalize fs) (rootUri uri : String) :
    Except String (RawPath String) :=
  let root := canonicalizeOrSelf real (uriToPath rootUri)
  let resolved := canonicalizeOrSelf real (lexicallyNormalize (uriToPath uri))
  if resolved.startsWith root then .ok resolved
  else .error ("path escapes workspace root: " ++ uri)

end Semnav.Query
