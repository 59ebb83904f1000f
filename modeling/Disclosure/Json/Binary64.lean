/-! Finite binary floating-point numbers of 64 bits.

A value is a sign and a whole number of units of `2^-1074`, itself a significand
below `2^53` times a power of two. Arithmetic is exact on naturals and then rounded
once to the nearest value, ties to the even significand (`nearest`). -/
namespace Disclosure

/-- The value `± significand * 2^scale * 2^-1074`. -/
structure Binary64 where
  negative : Bool
  significand : Nat
  scale : Nat
  deriving Repr, DecidableEq

namespace Binary64

/-- The nearest whole number to `num / den`, an exact half going to the even one. -/
def roundQuotient (num den : Nat) : Nat :=
  let q := num / den
  let r := num % den
  if 2 * r < den ∨ (2 * r = den ∧ q % 2 = 0) then q else q + 1

/-- The nearest magnitude to `num / den`, as significand and scale. There is none
from the midpoint above the largest one upward. -/
def nearest (num den : Nat) : Option (Nat × Nat) :=
  let scale := (num * Nat.pow 2 1074 / den).log2 - 52
  let significand := roundQuotient (num * Nat.pow 2 1074) (den * Nat.pow 2 scale)
  let rounded := if significand = Nat.pow 2 53 then (Nat.pow 2 52, scale + 1) else (significand, scale)
  if rounded.2 ≤ 2045 then some rounded else none

/-- A magnitude, in units of `2^-1074`. -/
def units (magnitude : Nat × Nat) : Nat :=
  magnitude.1 * Nat.pow 2 magnitude.2

/-- Values of `10^k` for `k ≤ 308` are in range. -/
def powerOfTen (k : Nat) : Nat × Nat :=
  (nearest (Nat.pow 10 k) 1).getD (0, 0)

def mul (x y : Nat × Nat) : Option (Nat × Nat) :=
  nearest (units x * units y) (Nat.pow 2 2148)

def div (x y : Nat × Nat) : Option (Nat × Nat) :=
  nearest (units x) (units y)

/-- Scales a magnitude down by `10^k`, at most 308 places at a time, each step
rounded. -/
def scaleDown (x : Nat × Nat) (k : Nat) : Nat × Nat :=
  if x.1 = 0 then x
  else if k ≤ 308 then (div x (powerOfTen k)).getD (0, 0)
  else scaleDown ((div x (powerOfTen 308)).getD (0, 0)) (k - 308)
termination_by k

/-- The magnitude `significand * 10^exponent`, by rounding the significand, then
scaling it with the rounded power of ten; `none` when it overflows. -/
def magnitude? (significand : Nat) (exponent : Int) : Option (Nat × Nat) := do
  let x ← nearest significand 1
  if exponent < 0 then some (scaleDown x exponent.natAbs)
  else if x.1 = 0 then some x
  else if exponent ≤ 308 then mul x (powerOfTen exponent.toNat)
  else none

def ofScientific? (negative : Bool) (significand : Nat) (exponent : Int) : Option Binary64 :=
  (magnitude? significand exponent).map fun m => ⟨negative, m.1, m.2⟩

end Binary64
end Disclosure
