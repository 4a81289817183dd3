import Semnav.ForStd.Str

/-!
# `SymbolKind` and `NodeKind`

The LSP's symbol kinds and the label under which an adapter stores them in
`nodes.node_kind` (`src/adapters/kind.rs`, `src/adapters/mod.rs`).
-/

namespace Semnav.Adapters

/-- LSP `SymbolKind` (protocol values 1-26). -/
inductive SymbolKind where
  | file | module | namespace | package | «class» | method | property | field | constructor
  | enum | interface | function | variable | constant | string | number | boolean | array
  | object | key | null | enumMember | struct | event | operator | typeParameter
deriving DecidableEq

namespace SymbolKind

/-- The protocol value (`kind as u32`). -/
def toU32 : SymbolKind → Nat
  | .file => 1 | .module => 2 | .namespace => 3 | .package => 4 | .class => 5 | .method => 6
  | .property => 7 | .field => 8 | .constructor => 9 | .enum => 10 | .interface => 11
  | .function => 12 | .variable => 13 | .constant => 14 | .string => 15 | .number => 16
  | .boolean => 17 | .array => 18 | .object => 19 | .key => 20 | .null => 21
  | .enumMember => 22 | .struct => 23 | .event => 24 | .operator => 25 | .typeParameter => 26

/-- Parse a raw LSP kind number; `none` for unknown values. -/
def fromU32 : Nat → Option SymbolKind
  | 1 => some .file | 2 => some .module | 3 => some .namespace | 4 => some .package
  | 5 => some .class | 6 => some .method | 7 => some .property | 8 => some .field
  | 9 => some .constructor | 10 => some .enum | 11 => some .interface | 12 => some .function
  | 13 => some .variable | 14 => some .constant | 15 => some .string | 16 => some .number
  | 17 => some .boolean | 18 => some .array | 19 => some .object | 20 => some .key
  | 21 => some .null | 22 => some .enumMember | 23 => some .struct | 24 => some .event
  | 25 => some .operator | 26 => some .typeParameter
  | _ => none

theorem fromU32_toU32 (k : SymbolKind) : fromU32 k.toU32 = some k := by
  cases k <;> rfl

/-- Stable label used for `nodes.node_kind`. -/
def name : SymbolKind → String
  | .file => "File" | .module => "Module" | .namespace => "Namespace" | .package => "Package"
  | .class => "Class" | .method => "Method" | .property => "Property" | .field => "Field"
  | .constructor => "Constructor" | .enum => "Enum" | .interface => "Interface"
  | .function => "Function" | .variable => "Variable" | .constant => "Constant"
  | .string => "String" | .number => "Number" | .boolean => "Boolean" | .array => "Array"
  | .object => "Object" | .key => "Key" | .null => "Null" | .enumMember => "EnumMember"
  | .struct => "Struct" | .event => "Event" | .operator => "Operator"
  | .typeParameter => "TypeParameter"

end SymbolKind

/-- Adapter-classified node kind. -/
inductive NodeKind where
  | standard (kind : SymbolKind)
  | custom (label : String)
deriving DecidableEq

/-- Serialize to the `nodes.node_kind` column label. -/
def NodeKind.toLabel : NodeKind → String
  | .standard kind => kind.name
  | .custom label => label

namespace NodeKind

/-- The declaration keywords a hover signature may start with. -/
def keywords : List String :=
  ["type", "interface", "class", "function", "const", "let", "var", "enum", "namespace", "module"]

/-- The modifiers skipped before the keyword. -/
def modifiers : List String :=
  ["export", "declare", "default", "public", "private", "protected", "readonly", "abstract",
   "async", "static"]

/-- Extract the leading declaration keyword from a hover signature. -/
def constructFromHover (hoverText : String) : Option String := do
  let firstLine ← ((ForStd.lines hoverText).map ForStd.trim).find? fun line =>
    !line.isEmpty && !line.startsWith "```"
  let word ← (ForStd.splitWhitespace firstLine).find? fun w => !modifiers.contains w
  if keywords.contains word then some word else none

end NodeKind

/-- `LanguageAdapter::map_symbol_kind`: no adapter overrides the default. -/
def mapSymbolKind (lsp : Nat) : NodeKind :=
  match SymbolKind.fromU32 lsp with
  | some kind => .standard kind
  | none => .custom ("Unknown(" ++ toString lsp ++ ")")

end Semnav.Adapters
