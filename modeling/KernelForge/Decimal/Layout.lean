import KernelForge.Decimal.Shortest

/-!
# Writing floating-point numbers

Where the shortest digits go: in positional form for everyday magnitudes, with an exponent for very
small and very large ones.
-/

namespace KernelForge.Decimal

/-- The exponents of the leading digit that are written positionally, ends included. -/
structure Layout where
  least : Int
  most : Int

/-- Numbers from `0.0001` up to below `10 ^ 16` are written positionally, always with a digit after
the point; others as one digit, the remaining ones after a point, and the exponent after an `e`. -/
def plain : Layout := ⟨-4, 15⟩

/-- The digits of a positive decimal number without trailing zeros. -/
def significant (coefficient : Nat) : List Char :=
  ((Nat.toDigits 10 coefficient).reverse.dropWhile (· == '0')).reverse

/-- A text of zeros. -/
def zeros (count : Nat) : List Char :=
  List.replicate count '0'

/-- Digits with the point after the digit of weight one. -/
def positional (digits : List Char) (exponent : Int) : List Char :=
  if exponent < 0 then
    "0.".toList ++ zeros ((-exponent).toNat - 1) ++ digits
  else
    let whole := exponent.toNat + 1
    let fraction := digits.drop whole
    digits.take whole ++ zeros (whole - digits.length) ++ ['.'] ++
      if fraction.isEmpty then ['0'] else fraction

/-- Digits with the point after the first one, and the exponent of that one. -/
def exponential (digits : List Char) (exponent : Int) : List Char :=
  digits.take 1 ++ (if digits.length ≤ 1 then [] else '.' :: digits.drop 1) ++
    'e' :: (toString exponent).toList

/-- A positive decimal number in a given layout. -/
def Scaled.render (layout : Layout) (d : Scaled) : List Char :=
  let digits := significant d.coefficient
  let exponent := d.scale + digitCount d.coefficient - 1
  if layout.least ≤ exponent && exponent ≤ layout.most then positional digits exponent
  else exponential digits exponent

/-- A finite magnitude in the shortest form that reads back. -/
def renderMagnitude (m : Binary.Magnitude) : List Char :=
  if m.mantissa == 0 then "0.0".toList else (shortest m).render plain

/-- A floating-point value as diagnostics show it. -/
def renderValue : Binary.Value → String
  | .notANumber => "NaN"
  | .infinite negative => if negative then "-inf" else "inf"
  | .finite negative m => String.ofList ((if negative then ['-'] else []) ++ renderMagnitude m)

end KernelForge.Decimal
