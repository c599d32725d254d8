/-!
# Hexadecimal text

Lower-case hexadecimal digits, as used by escapes, handles and byte strings.
-/

namespace KernelForge.Hex

/-- The lower-case digit for a value below sixteen. -/
def digit (n : Nat) : Char :=
  if n < 10 then Char.ofNat (48 + n) else Char.ofNat (87 + n)

/-- The two digits of a byte, high half first. -/
def ofByte (b : UInt8) : List Char :=
  [digit (b.toNat / 16), digit (b.toNat % 16)]

/-- Two digits for each byte. -/
def ofBytes (bytes : List UInt8) : String :=
  String.ofList (bytes.flatMap ofByte)

/-- A number in as few hexadecimal digits as it needs, `0` for zero. -/
def ofNat (n : Nat) : String :=
  String.ofList (Nat.toDigits 16 n)

/-- The value of a digit in either case. -/
def value? (c : Char) : Option Nat :=
  if '0' ≤ c ∧ c ≤ '9' then some (c.toNat - 48)
  else if 'a' ≤ c ∧ c ≤ 'f' then some (c.toNat - 87)
  else if 'A' ≤ c ∧ c ≤ 'F' then some (c.toNat - 55)
  else none

/-- Read pairs of digits as bytes; nothing if a character is no digit or one is left over. -/
def bytes? : List Char → Option (List UInt8)
  | [] => some []
  | [_] => none
  | hi :: lo :: rest => do
    let h ← value? hi
    let l ← value? lo
    let bytes ← bytes? rest
    return UInt8.ofNat (16 * h + l) :: bytes

/-- Read digits as a number, most significant first. -/
def nat? (cs : List Char) : Option Nat :=
  cs.foldlM (fun n c => (16 * n + ·) <$> value? c) 0

end KernelForge.Hex
