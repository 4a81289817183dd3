import Mathlib.Data.List.Range
import Semnav.ForStd.Str
import Semnav.Adapters.Language

/-!
# What counts as external, and where the repository lies

The markers of dependencies are looked for in the whole uri, and the path of the root is a part of
it: a checkout below a directory with a marker's name is external as a whole.

## Key results

- `isExternal_below_root`: a file below the root is external by its own path or by the root's
- `external_same_iff`: when two places of the repository agree
-/

namespace Semnav.Adapters

open Semnav.ForStd

namespace LanguageAdapter

variable (adapter : LanguageAdapter)

/-- A marker occurs below the root, the slash before the relative path included. -/
def markedBelow (path : String) : Bool :=
  adapter.externalPathMarkers.any fun marker => containsStr ("/" ++ path) marker

/-- A marker begins in the path of the root, which is given without its slash. -/
def markedAbove (root path : String) : Bool :=
  adapter.externalPathMarkers.any fun marker =>
    (List.range root.toList.length).any fun i =>
      marker.toList.isPrefixOf ((root ++ "/" ++ path).toList.drop i)

end LanguageAdapter

/-- A marker in the uri begins in the root's path, or at its slash or later. -/
private theorem containsStr_below (root path marker : String) :
    containsStr (root ++ "/" ++ path) marker =
      ((List.range root.toList.length).any (fun i =>
        marker.toList.isPrefixOf ((root ++ "/" ++ path).toList.drop i)) ||
      containsStr ("/" ++ path) marker) := by
  have hchars : (root ++ "/" ++ path).toList = root.toList ++ ("/" ++ path).toList := by
    simp only [String.toList_append, List.append_assoc]
  unfold containsStr
  rw [hchars, List.length_append, Nat.add_assoc, List.range_add, List.any_append, List.any_map]
  congr 1
  apply congrArg
  funext j
  show marker.toList.isPrefixOf
    ((root.toList ++ ("/" ++ path).toList).drop (root.toList.length + j)) = _
  rw [List.drop_append, List.drop_of_length_le (Nat.le_add_right _ _), List.nil_append,
    Nat.add_sub_cancel_left]

/-- A file below the root is external when its own path has a marker or the root's has. -/
private theorem isExternal_below_root (adapter : LanguageAdapter) (root path : String) :
    adapter.isExternal (root ++ "/" ++ path) (root ++ "/") =
      (adapter.markedAbove root path || adapter.markedBelow path) := by
  have hbelow : (root ++ "/").toList.isPrefixOf (root ++ "/" ++ path).toList = true := by
    have hchars : (root ++ "/" ++ path).toList = (root ++ "/").toList ++ path.toList :=
      String.toList_append
    rw [List.isPrefixOf_iff_prefix, hchars]
    exact List.prefix_append _ _
  unfold LanguageAdapter.isExternal LanguageAdapter.markedAbove LanguageAdapter.markedBelow
  rw [hbelow, Bool.not_true, Bool.false_or]
  induction adapter.externalPathMarkers with
  | nil => rfl
  | cons marker markers ih =>
    rw [List.any_cons, List.any_cons, List.any_cons, ih, containsStr_below]
    ac_rfl

/-- Two places of a repository agree on a file exactly when it has a marker below the root, or
    when the paths of both roots have one or neither has. -/
theorem external_same_iff (adapter : LanguageAdapter) (root₁ root₂ path : String) :
    adapter.isExternal (root₁ ++ "/" ++ path) (root₁ ++ "/") =
        adapter.isExternal (root₂ ++ "/" ++ path) (root₂ ++ "/") ↔
      adapter.markedBelow path = true ∨
        adapter.markedAbove root₁ path = adapter.markedAbove root₂ path := by
  rw [isExternal_below_root, isExternal_below_root]
  cases adapter.markedBelow path with
  | true => simp
  | false => simp

/-- A Go repository in a directory that is called `vendor`, and elsewhere. -/
theorem external_below_vendor :
    goAdapter.isExternal "file:///home/u/vendor/app/main.go" "file:///home/u/vendor/app/" ≠
      goAdapter.isExternal "file:///home/u/app/main.go" "file:///home/u/app/" := by
  decide

end Semnav.Adapters
