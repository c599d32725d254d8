import KernelForge.Text.Hex
import KernelForge.Text.Visible

/-!
# Quoted text

Text is written between double quotes in two ways: as a string literal of the kernel language, and
in the form in which diagnostics show it.
-/

namespace KernelForge

/-! ### String literals

A quote, a backslash, a line feed and a tab have escapes of their own, other printable ASCII
characters stand for themselves, and every remaining character is written as its UTF-8 bytes, each
as a two-digit hexadecimal escape. -/

namespace Quoted

/-- Printable ASCII, the blank included. -/
def isPlain (c : Char) : Bool :=
  ' ' ≤ c && c ≤ '~'

/-- The hexadecimal escape of one byte. -/
def escapeByte (b : UInt8) : List Char :=
  '\\' :: 'x' :: Hex.ofByte b

/-- How one character is written inside a literal. -/
def escape (c : Char) : List Char :=
  if c = '"' then ['\\', '"']
  else if c = '\\' then ['\\', '\\']
  else if c = '\n' then ['\\', 'n']
  else if c = '\t' then ['\\', 't']
  else if isPlain c then [c]
  else (String.utf8EncodeChar c).flatMap escapeByte

/-- The literal, quotes included. -/
def literal (text : String) : String :=
  String.ofList ('"' :: text.toList.flatMap escape ++ ['"'])

end Quoted

/-! ### Diagnostics

There are escapes for the quote, the backslash and the common controls, and the code point in braces
for every other character that is not visible. -/

namespace Escaped

/-- The code point of a character between braces, in hexadecimal. -/
def codePoint (c : Char) : List Char :=
  "\\u\x7b".toList ++ Nat.toDigits 16 c.toNat ++ ['\x7d']

/-- How one character is shown. -/
def escape (c : Char) : List Char :=
  if c = '\x00' then ['\\', '0']
  else if c = '\t' then ['\\', 't']
  else if c = '\r' then ['\\', 'r']
  else if c = '\n' then ['\\', 'n']
  else if c = '\\' then ['\\', '\\']
  else if c = '"' then ['\\', '"']
  else if Text.isVisible c then [c]
  else codePoint c

/-- A text as diagnostics quote it. -/
def quote (text : String) : String :=
  String.ofList ('"' :: text.toList.flatMap escape ++ ['"'])

end Escaped

end KernelForge
