/-!
Numerals as JSON writes them, and which of them are within the range of double precision.
-/

namespace DiskShell.Json

/-- A written number: its sign, the whole part, the digits after the point (none without a point)
and the exponent, if there is one. -/
structure Numeral where
  negative : Bool
  whole : Nat
  fraction : List (Fin 10)
  exponent : Option Int
  deriving DecidableEq, Repr

namespace Numeral

def ofNat (n : Nat) : Numeral := ⟨false, n, [], none⟩

/-- The value of a numeral that is written with digits only. -/
def natural? (n : Numeral) : Option Nat :=
  if n.negative || !n.fraction.isEmpty || n.exponent.isSome then none else some n.whole

/-! ## Range -/

/-- The first number that 64 bits do not hold. -/
def wordLimit : Nat := 18446744073709551616

/-- Drops digits on the right until 64 bits hold the rest, and counts them on top of `dropped`. -/
def trimWhole (n dropped : Nat) : Nat × Nat :=
  if n < wordLimit then (n, dropped) else trimWhole (n / 10) (dropped + 1)
termination_by n
decreasing_by
  simp only [wordLimit] at *
  omega

/-- Takes digits after the point into the significand as long as 64 bits hold it. -/
def takeFraction (significand : Nat) (scale : Int) : List (Fin 10) → Nat × Int
  | [] => (significand, scale)
  | d :: ds =>
    if significand * 10 + d < wordLimit then takeFraction (significand * 10 + d) (scale - 1) ds
    else (significand, scale)

/-- The leading digits that 64 bits hold, and the power of ten that they are scaled by. -/
def scaled (n : Numeral) : Nat × Int :=
  let (significand, dropped) := trimWhole n.whole 0
  let (significand, scale) := takeFraction significand dropped n.fraction
  (significand, scale + n.exponent.getD 0)

/-- The nearest number of at most 53 bits; of two that are equally near, the even one. -/
def nearest53 (n : Nat) : Nat :=
  let unit := Nat.pow 2 (n.log2 + 1 - 53)
  let below := n / unit
  let rest := n % unit
  if unit < 2 * rest || (2 * rest == unit && below % 2 == 1) then (below + 1) * unit
  else below * unit

/-- Halfway between the greatest double and the next power of two. -/
def doubleLimit : Nat := Nat.pow 2 1024 - Nat.pow 2 970

/-- The significand and the power of ten are rounded to doubles and then multiplied. The numeral is
out of range if the rounded product is; a number too close to zero is in range. -/
def inRange (n : Numeral) : Bool :=
  let (significand, scale) := n.scaled
  if significand == 0 || scale < 0 then true
  else if 308 < scale then false
  else nearest53 significand * nearest53 (Nat.pow 10 scale.toNat) < doubleLimit

end Numeral

end DiskShell.Json
