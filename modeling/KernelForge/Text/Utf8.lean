/-!
# Reading UTF-8 that may be malformed

Names and build logs come from a device as bytes. They are read up to the first zero byte, and
every maximal malformed piece is read as one replacement character.
-/

namespace KernelForge.Utf8

/-- The character that stands for a malformed piece. -/
def replacement : Char := '\uFFFD'

/-- The bytes that may follow a given leading byte of a longer character: how many more bytes the
character has and the range of the first of them. The range excludes overlong forms, surrogates and
values past the last code point. -/
def lead? (b : UInt8) : Option (Nat × UInt8 × UInt8) :=
  if 0xC2 ≤ b && b ≤ 0xDF then some (1, 0x80, 0xBF)
  else if b == 0xE0 then some (2, 0xA0, 0xBF)
  else if b == 0xED then some (2, 0x80, 0x9F)
  else if 0xE1 ≤ b && b ≤ 0xEF then some (2, 0x80, 0xBF)
  else if b == 0xF0 then some (3, 0x90, 0xBF)
  else if 0xF1 ≤ b && b ≤ 0xF3 then some (3, 0x80, 0xBF)
  else if b == 0xF4 then some (3, 0x80, 0x8F)
  else none

/-- The payload bits of a leading byte that announces `more` further bytes. -/
def leadBits (b : UInt8) (more : Nat) : Nat :=
  b.toNat % Nat.pow 2 (6 - more)

/-- A character under construction: its value so far, the bytes still missing and the range allowed
for the next one. -/
structure Pending where
  value : Nat
  missing : Nat
  lo : UInt8
  hi : UInt8

/-- Read on with the byte `b` when no character is under construction. -/
def begin (b : UInt8) : List Char × Option Pending :=
  if b < 0x80 then ([Char.ofNat b.toNat], none)
  else match lead? b with
    | some (more, lo, hi) => ([], some ⟨leadBits b more, more, lo, hi⟩)
    | none => ([replacement], none)

/-- Read on with the byte `b`: the characters that are now complete and the one under construction.
A byte that does not continue the pending character ends it as malformed and is read afresh. -/
def step (pending : Option Pending) (b : UInt8) : List Char × Option Pending :=
  match pending with
  | none => begin b
  | some p =>
    if p.lo ≤ b && b ≤ p.hi then
      let value := 64 * p.value + b.toNat % 64
      if p.missing ≤ 1 then ([Char.ofNat value], none)
      else ([], some ⟨value, p.missing - 1, 0x80, 0xBF⟩)
    else
      let (cs, next) := begin b
      (replacement :: cs, next)

/-- Read bytes from a given point on; a character cut off by the end is malformed. -/
def decodeFrom (pending : Option Pending) : List UInt8 → List Char
  | [] => if pending.isSome then [replacement] else []
  | b :: rest =>
    let (cs, next) := step pending b
    cs ++ decodeFrom next rest

/-- Read bytes as UTF-8, one replacement character for each maximal malformed piece. -/
def decode (bytes : List UInt8) : String :=
  String.ofList (decodeFrom none bytes)

/-- Read bytes up to the first zero byte. -/
def decodeTerminated (bytes : List UInt8) : String :=
  decode (bytes.takeWhile (· != 0))

/-- The UTF-8 bytes of a text. -/
def encode (text : String) : List UInt8 :=
  text.toList.flatMap String.utf8EncodeChar

end KernelForge.Utf8
