import KernelForge.Binary.Format

/-!
# The fewest decimal digits that read back

Every number in the interval that rounds to a given binary number reads back as it. The interval
ends half way to the neighbours and includes its ends if the mantissa is even. Among the decimal
grids, coarsest first, the first one with a point in the interval gives the digits; of two such
points the nearer one is taken, and the larger one if both are equally near.
-/

namespace KernelForge.Decimal

open Binary (Magnitude twoTo)

/-- A decimal number `coefficient * 10 ^ scale`. -/
structure Scaled where
  coefficient : Nat
  scale : Int
deriving DecidableEq

/-- The factors by which a magnitude is compared with multiples of `10 ^ scale`: with `(up, down)`
the magnitude is `mantissa * up / down` units. -/
def factors (m : Magnitude) (scale : Int) : Nat × Nat :=
  (twoTo m.exponent.toNat * Nat.pow 10 (-scale).toNat,
    twoTo (-m.exponent).toNat * Nat.pow 10 scale.toNat)

/-- Whether `coefficient` units read back as `m`. All sides are in quarters of a mantissa step. -/
def readsBack (m : Magnitude) (up down coefficient : Nat) : Bool :=
  let low := (4 * m.mantissa - if m.atPower then 1 else 2) * up
  let high := (4 * m.mantissa + 2) * up
  let point := 4 * coefficient * down
  if m.mantissa % 2 == 0 then low ≤ point && point ≤ high else low < point && point < high

/-- The point of the grid `10 ^ scale` that reads back as `m` and is nearest to it, if there is
one. -/
def onGrid? (m : Magnitude) (scale : Int) : Option Scaled :=
  let (up, down) := factors m scale
  let below := m.mantissa * up / down
  let rest := m.mantissa * up % down
  let lowFits := readsBack m up down below
  let highFits := rest != 0 && readsBack m up down (below + 1)
  if highFits && (!lowFits || down ≤ 2 * rest) then some ⟨below + 1, scale⟩
  else if lowFits then some ⟨below, scale⟩
  else none

/-- How many decimal digits a number has. -/
def digitCount (n : Nat) : Nat :=
  (Nat.toDigits 10 n).length

/-- The exponent of the leading decimal digit of a positive magnitude. -/
def leadingExponent (m : Magnitude) : Int :=
  let (up, down) := factors m 0
  let num := m.mantissa * up
  if down ≤ num then (digitCount (num / down) : Int) - 1
  else -(digitCount ((down + num - 1) / num - 1) : Int)

/-- More digits than this are never needed in the formats used. -/
def maxDigits : Nat := 17

/-- The decimal number with the fewest digits that reads back as a positive magnitude. -/
def shortest (m : Magnitude) : Scaled :=
  let lead := leadingExponent m
  let scale (digits : Nat) : Int := lead - digits
  ((List.range maxDigits).findSome? fun n => onGrid? m (scale n)).getD
    ⟨m.mantissa * (factors m (scale maxDigits)).1 / (factors m (scale maxDigits)).2,
      scale maxDigits⟩

end KernelForge.Decimal
