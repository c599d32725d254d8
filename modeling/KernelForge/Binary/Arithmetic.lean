import KernelForge.Binary.Format

/-!
# Arithmetic on floating-point numbers

Products and sums of bit patterns. Both are computed exactly and then rounded once, to the nearest
number of the format, and to the one with an even fraction where two are equally near.
-/

namespace KernelForge.Binary

/-- The sign bit of a format. -/
def Format.signBit (f : Format) : Nat :=
  twoTo (f.fractionBits + f.exponentBits)

/-- The bits of positive infinity. -/
def Format.infinity (f : Format) : Nat :=
  (twoTo f.exponentBits - 1) * twoTo f.fractionBits

/-- The highest fraction bit. It tells quiet patterns that are no number from signalling ones. -/
def Format.quietBit (f : Format) : Nat :=
  twoTo (f.fractionBits - 1)

/-- The result of an operation that has none: a quiet pattern with the sign set. -/
def Format.undefined (f : Format) : Nat :=
  f.signBit + f.infinity + f.quietBit

/-- The exponent of the last place of the smallest numbers. -/
def Format.leastExponent (f : Format) : Int :=
  (1 : Int) - f.bias - f.fractionBits

/-- The bits of a sign. -/
def Format.signed (f : Format) (negative : Bool) (bits : Nat) : Nat :=
  if negative then f.signBit + bits else bits

/-- Divide by `2 ^ shift` and round to the nearest natural number, a half to the even one. -/
def roundShift (n shift : Nat) : Nat :=
  let low := n / twoTo shift
  let rest := 2 * (n % twoTo shift)
  if twoTo shift < rest ∨ (twoTo shift = rest ∧ low % 2 = 1) then low + 1 else low

/-- The magnitude nearest to `mantissa * 2 ^ exponent`. A mantissa that rounds up to the next power of
two carries into the exponent bits, and a magnitude past the greatest finite one is infinity. -/
def roundMagnitude (f : Format) (mantissa : Nat) (exponent : Int) : Nat :=
  let excess := exponent + mantissa.log2 - f.fractionBits
  let place := max excess f.leastExponent
  let scaled :=
    if place ≤ exponent then mantissa * twoTo (exponent - place).toNat
    else roundShift mantissa (place - exponent).toNat
  min (scaled + (place - f.leastExponent).toNat * twoTo f.fractionBits) f.infinity

/-- The number nearest to a signed exact one. -/
def round (f : Format) (negative : Bool) (mantissa : Nat) (exponent : Int) : Nat :=
  f.signed negative (if mantissa = 0 then 0 else roundMagnitude f mantissa exponent)

/-- The first of two patterns that is no number, made quiet. -/
def propagated? (f : Format) (a b : Nat) : Option Nat :=
  if decode f a = .notANumber then some (a ||| f.quietBit)
  else if decode f b = .notANumber then some (b ||| f.quietBit)
  else none

/-- The product of two numbers. -/
def mul (f : Format) (a b : Nat) : Nat :=
  match propagated? f a b with
  | some bits => bits
  | none =>
    match decode f a, decode f b with
    | .infinite s, .infinite t => f.signed (s != t) f.infinity
    | .infinite s, .finite t m | .finite t m, .infinite s =>
      if m.mantissa = 0 then f.undefined else f.signed (s != t) f.infinity
    | .finite s m, .finite t n =>
      round f (s != t) (m.mantissa * n.mantissa) (m.exponent + n.exponent)
    | _, _ => f.undefined

/-- The mantissa of a signed magnitude at a smaller or equal exponent. -/
def aligned (negative : Bool) (m : Magnitude) (exponent : Int) : Int :=
  let scaled : Int := m.mantissa * twoTo (m.exponent - exponent).toNat
  if negative then -scaled else scaled

/-- The sum of two numbers. A sum of zero is negative only if both numbers are. -/
def add (f : Format) (a b : Nat) : Nat :=
  match propagated? f a b with
  | some bits => bits
  | none =>
    match decode f a, decode f b with
    | .infinite s, .infinite t => if s = t then f.signed s f.infinity else f.undefined
    | .infinite s, .finite _ _ | .finite _ _, .infinite s => f.signed s f.infinity
    | .finite s m, .finite t n =>
      let exponent := min m.exponent n.exponent
      let sum := aligned s m exponent + aligned t n exponent
      let negative := if sum = 0 then s && t else decide (sum < 0)
      round f negative sum.natAbs exponent
    | _, _ => f.undefined

/-- One number times another, plus a third, rounded after each step. -/
def scaleAdd (f : Format) (alpha x y : Nat) : Nat :=
  add f (mul f alpha x) y

end KernelForge.Binary
