import Disclosure.Json.Binary64
import Disclosure.Text

/-! The shortest decimal text of a double.

`shortest` picks the fewest decimal digits that still lie in the interval of reals
rounding to the value, and of those the digits nearest to it. `Layout` decides which
exponents are written positionally. -/
namespace Disclosure.Binary64

/-- A decimal `digits * 10^exponent`. -/
structure Scientific where
  digits : Nat
  exponent : Int
  deriving Repr, DecidableEq

/-- The exponent of the leading decimal digit of a magnitude in units of `2^-1074`. -/
def leadingExponent (units : Nat) : Int :=
  ((Nat.toDigits 10 (units * Nat.pow 10 400 / Nat.pow 2 1074)).length : Int) - 401

/-- A quarter unit of the last place is the grain: the value is four significands,
and the interval that rounds to it reaches two quarters up and, below a power of
two, one quarter down. -/
structure Interval where
  value : Nat
  lower : Nat
  upper : Nat
  closed : Bool

def interval (magnitude : Nat × Nat) : Interval :=
  let grain := Nat.pow 2 magnitude.2
  let below := if magnitude.1 = Nat.pow 2 52 ∧ magnitude.2 ≠ 0 then 1 else 2
  { value := 4 * magnitude.1 * grain
    lower := (4 * magnitude.1 - below) * grain
    upper := (4 * magnitude.1 + 2) * grain
    closed := magnitude.1 % 2 == 0 }

/-- Whether `num / den`, in quarters of `2^-1074`, rounds to the value. -/
def Interval.holds (i : Interval) (num den : Nat) : Bool :=
  if i.closed then i.lower * den ≤ num ∧ num ≤ i.upper * den
  else i.lower * den < num ∧ num < i.upper * den

/-- The decimal with its last digit at `10^exponent` that is nearest to the value
among the two around it that round to it; a tie goes to the even digit. -/
def onGrid (i : Interval) (exponent : Int) : Option Nat :=
  let scale := 4 * Nat.pow 2 1074
  let num := scale * Nat.pow 10 exponent.toNat
  let den := Nat.pow 10 (-exponent).toNat
  let low := i.value * den / num
  let rest := i.value * den % num
  let fits := fun n => i.holds (n * num) den
  if fits low ∧ (¬ fits (low + 1) ∨ 2 * rest < num ∨ (2 * rest = num ∧ low % 2 = 0)) then some low
  else if fits (low + 1) then some (low + 1)
  else none

/-- Tries grids of `count` more places, the coarser first. -/
def refine (i : Interval) (exponent : Int) : (count : Nat) → Scientific
  | 0 => ⟨0, 0⟩
  | count + 1 =>
    match onGrid i exponent with
    | some digits => ⟨digits, exponent⟩
    | none => refine i (exponent - 1) count

def shortest (magnitude : Nat × Nat) : Scientific :=
  if magnitude.1 = 0 then ⟨0, 0⟩
  else refine (interval magnitude) (leadingExponent (units magnitude)) 17

/-- The decimal point is placed by position for exponents of the leading digit from
`lowest` to `highest`, and by an exponent otherwise. -/
structure Layout where
  lowest : Int
  highest : Int

def stripZeros (digits : List Char) : List Char :=
  (digits.reverse.dropWhile (· = '0')).reverse

def exponentText (e : Int) : String :=
  if e < 0 then "e-" ++ Decimal.write e.natAbs else "e+" ++ Decimal.write e.natAbs

def Layout.write (layout : Layout) (d : Scientific) : String :=
  let all := Nat.toDigits 10 d.digits
  let e : Int := d.exponent + all.length - 1
  let digits := stripZeros all
  if d.digits = 0 then "0.0"
  else if e < layout.lowest ∨ layout.highest < e then
    String.ofList (digits.take 1) ++
      (if digits.length ≤ 1 then "" else "." ++ String.ofList (digits.drop 1)) ++ exponentText e
  else if e < 0 then
    "0." ++ String.ofList (List.replicate (e.natAbs - 1) '0' ++ digits)
  else
    let whole := digits.take (e.toNat + 1)
    let fraction := digits.drop (e.toNat + 1)
    String.ofList (whole ++ List.replicate (e.toNat + 1 - whole.length) '0') ++ "." ++
      (if fraction = [] then "0" else String.ofList fraction)

def Layout.text (layout : Layout) (x : Binary64) : String :=
  (if x.negative then "-" else "") ++ layout.write (shortest (x.significand, x.scale))

end Disclosure.Binary64
