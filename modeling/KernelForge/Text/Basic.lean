/-!
# Parts of texts

Texts inside texts, the lines of a text, and white space: the Unicode property `White_Space`, which
is trimmed from settings and build logs.
-/

namespace KernelForge.Text

/-- Whether `pattern` stands somewhere inside a list of characters. -/
def occursIn (pattern : List Char) : List Char → Bool
  | [] => pattern.isEmpty
  | c :: rest => pattern.isPrefixOf (c :: rest) || occursIn pattern rest

/-- Whether `pattern` stands somewhere inside `text`. -/
def contains (text pattern : String) : Bool :=
  occursIn pattern.toList text.toList

/-! ### Lines

A line ends at a line feed, which may be preceded by a carriage return; both belong to the line
end. A text that ends with a line end has no empty line after it. -/

/-- Drop the carriage return that stands last in a line, given the line backwards. -/
def dropReturn : List Char → List Char
  | '\r' :: rest => rest
  | line => line

/-- Split off lines; `line` holds the characters of the current line, last one first. -/
def linesFrom (line : List Char) : List Char → List (List Char)
  | [] => if line.isEmpty then [] else [line.reverse]
  | '\n' :: rest => (dropReturn line).reverse :: linesFrom [] rest
  | c :: rest => linesFrom (c :: line) rest

/-- The lines of a text without their line ends. -/
def lines (text : String) : List String :=
  (linesFrom [] text.toList).map String.ofList

/-! ### White space -/

/-- Whether a character is white space. -/
def isBlank (c : Char) : Bool :=
  let n := c.toNat
  (9 ≤ n && n ≤ 13) || n == 0x20 || n == 0x85 || n == 0xA0 || n == 0x1680 ||
    (0x2000 ≤ n && n ≤ 0x200A) || n == 0x2028 || n == 0x2029 || n == 0x202F || n == 0x205F ||
    n == 0x3000

/-- Remove white space at the end. -/
def trimEnd (text : String) : String :=
  String.ofList (text.toList.reverse.dropWhile isBlank).reverse

/-- Remove white space on both sides. -/
def trim (text : String) : String :=
  trimEnd (String.ofList (text.toList.dropWhile isBlank))

/-- Whether a text holds nothing but white space. -/
def allBlank (text : String) : Bool :=
  text.toList.all isBlank

/-- Lower-case the ASCII letters and keep everything else. -/
def lowerAscii (text : String) : String :=
  String.ofList (text.toList.map Char.toLower)

end KernelForge.Text
