/-!
# Binary floating-point numbers

A floating-point number is given by its bits. `Binary.decode` reads them as a sign and an exact
number `mantissa * 2 ^ exponent`, or as an infinity or a value that is no number.
-/

namespace KernelForge.Binary

/-- A power of two. -/
def twoTo (n : Nat) : Nat :=
  Nat.pow 2 n

/-- The widths of the two fields below the sign bit. -/
structure Format where
  fractionBits : Nat
  exponentBits : Nat

/-- The 32-bit format. -/
def single : Format := ⟨23, 8⟩

/-- The 64-bit format. -/
def double : Format := ⟨52, 11⟩

/-- A finite magnitude `mantissa * 2 ^ exponent`. `atPower` holds where the gap to the next smaller
number is half the gap to the next larger one. -/
structure Magnitude where
  mantissa : Nat
  exponent : Int
  atPower : Bool
deriving DecidableEq

/-- What a bit pattern stands for. -/
inductive Value
  | notANumber
  | infinite (negative : Bool)
  | finite (negative : Bool) (magnitude : Magnitude)
deriving DecidableEq

/-- The offset of the stored exponent. -/
def Format.bias (f : Format) : Nat :=
  twoTo (f.exponentBits - 1) - 1

/-- Read a bit pattern. -/
def decode (f : Format) (bits : Nat) : Value :=
  let fraction := bits % twoTo f.fractionBits
  let stored := bits / twoTo f.fractionBits % twoTo f.exponentBits
  let negative := bits / twoTo (f.fractionBits + f.exponentBits) % 2 == 1
  let unit : Int := (1 : Int) - f.bias - f.fractionBits
  if stored == twoTo f.exponentBits - 1 then
    if fraction == 0 then .infinite negative else .notANumber
  else if stored == 0 then
    .finite negative ⟨fraction, unit, false⟩
  else
    .finite negative
      ⟨twoTo f.fractionBits + fraction, unit + stored - 1, fraction == 0 && 1 < stored⟩

end KernelForge.Binary
