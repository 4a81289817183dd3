import Semnav.Adapters.Kind

/-!
# Language adapters

Which adapter owns a uri and what counts as external (`src/adapters/mod.rs` and the built-in
adapters).  How a server is launched and provisioned is left out.
-/

namespace Semnav.Adapters

open Semnav.ForStd

/-- What an adapter knows about its language. -/
structure LanguageAdapter where
  languageName : String
  /-- File extensions, each with its leading dot. -/
  fileExtensions : List String
  /-- Path fragments of dependencies and of the standard library. -/
  externalPathMarkers : List String
deriving DecidableEq

/-- What follows the last dot: `s.rsplit_once('.')`, second part. -/
def afterLastDot (s : String) : Option String :=
  if '.' ∈ s.toList then
    some (String.ofList (s.toList.reverse.takeWhile (· ≠ '.')).reverse)
  else none

namespace LanguageAdapter

variable (adapter : LanguageAdapter)

/-- Whether `uri` is a source file this adapter owns. -/
def matchesUri (uri : String) : Bool :=
  match afterLastDot uri with
  | none => false
  | some raw => adapter.fileExtensions.any fun e =>
      toAsciiLowercase e == "." ++ toAsciiLowercase raw

/-- Not under `rootUri`, or inside a known dependency path marker. -/
def isExternal (uri rootUri : String) : Bool :=
  !rootUri.toList.isPrefixOf uri.toList ||
  adapter.externalPathMarkers.any fun marker => containsStr uri marker

end LanguageAdapter

/-- Python via pyright. -/
def pythonAdapter : LanguageAdapter :=
  ⟨"python", [".py"], ["/site-packages/", "/.venv/lib/", "/typeshed-fallback/"]⟩

/-- TypeScript via tsserver. -/
def typeScriptAdapter : LanguageAdapter := ⟨"typescript", [".ts", ".tsx"], ["/node_modules/"]⟩

/-- Rust via rust-analyzer. -/
def rustAdapter : LanguageAdapter :=
  ⟨"rust", [".rs"], ["/target/", "/.cargo/registry/", "/.cargo/git/"]⟩

/-- Go via gopls. -/
def goAdapter : LanguageAdapter := ⟨"go", [".go"], ["/vendor/", "/pkg/mod/"]⟩

/-- `builtin_adapters`: the shipped adapters, then the user-configured ones. -/
def builtinAdapters (custom : List LanguageAdapter) : List LanguageAdapter :=
  [pythonAdapter, typeScriptAdapter, rustAdapter, goAdapter] ++ custom

/-- `select_for_uri`: the first adapter that owns `uri`. -/
def selectForUri (adapters : List LanguageAdapter) (uri : String) : Option LanguageAdapter :=
  adapters.find? (·.matchesUri uri)

end Semnav.Adapters
