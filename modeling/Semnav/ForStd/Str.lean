/-!
# `str` methods

The string methods of Rust's `core` that the program uses, over lists of characters: `contains`,
`to_ascii_lowercase`, `trim`, `lines` and `split_whitespace`.
-/

namespace Semnav.ForStd

/-- `char::is_whitespace`: the Unicode property `White_Space`. -/
def isWhiteSpace (c : Char) : Bool :=
  let n := c.toNat
  (9 ≤ n && n ≤ 13) || n == 0x20 || n == 0x85 || n == 0xA0 || n == 0x1680 ||
  (0x2000 ≤ n && n ≤ 0x200A) || n == 0x2028 || n == 0x2029 || n == 0x202F || n == 0x205F ||
  n == 0x3000

/-- `s.contains(pat)`. -/
def containsStr (s pat : String) : Bool :=
  (List.range (s.toList.length + 1)).any fun i => pat.toList.isPrefixOf (s.toList.drop i)

/-- `to_ascii_lowercase`, which `Char.toLower` is character by character. -/
def toAsciiLowercase (s : String) : String := String.ofList (s.toList.map Char.toLower)

/-- `str::trim`. -/
def trim (s : String) : String :=
  String.ofList (((s.toList.dropWhile isWhiteSpace).reverse.dropWhile isWhiteSpace).reverse)

/-- A line without the `\r` of its `\r\n`. -/
def stripCarriageReturn (line : List Char) : List Char :=
  if line.getLast? = some '\r' then line.dropLast else line

/-- `str::lines`: the last line may have no line ending, and none comes after a final one. -/
def lines (s : String) : List String :=
  let pieces := s.toList.splitOn '\n'
  let last := pieces.getLastD []
  let unended := if last.isEmpty then [] else [last]
  (pieces.dropLast.map stripCarriageReturn ++ unended).map String.ofList

/-- `str::split_whitespace`. -/
def splitWhitespace (s : String) : List String :=
  ((s.toList.splitOnP isWhiteSpace).filter (!·.isEmpty)).map String.ofList

end Semnav.ForStd
