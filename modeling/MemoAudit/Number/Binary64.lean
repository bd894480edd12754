/-!
# Numbers in the double format

A number written with a point or an exponent is held in the double format: fifty-three binary digits
at a scale between fixed bounds.  `Decimal.toBinary64` rounds the exact decimal to the nearest such
number, a tie to the even neighbour, in exact arithmetic on natural numbers.

Main statement: `roundDiv` is never more than half a unit off (`roundDiv_error`).
-/

namespace MemoAudit

/-! ## Rounded quotients -/

/-- The whole number nearest to `num / den`, and of two nearest ones the even one. -/
def roundDiv (num den : Nat) : Nat :=
  let quotient := num / den
  let twice := 2 * (num % den)
  if twice < den then quotient
  else if den < twice then quotient + 1
  else quotient + quotient % 2

/-- A rounded quotient misses the exact one by at most one half. -/
theorem roundDiv_error (num den : Nat) (h : 0 < den) :
    2 * num ≤ 2 * (den * roundDiv num den) + den ∧
      2 * (den * roundDiv num den) ≤ 2 * num + den := by
  have exact := Nat.div_add_mod num den
  have below := Nat.mod_lt num h
  have up : den * (num / den + 1) = den * (num / den) + den := Nat.mul_succ _ _
  unfold roundDiv
  dsimp only
  split
  · omega
  · split
    · omega
    · rcases Nat.mod_two_eq_zero_or_one (num / den) with even | odd
      · rw [even, Nat.add_zero]
        omega
      · rw [odd]
        omega

/-! ## The format -/

/-- A number in the double format: a whole multiple of a power of two, or nothing finite. -/
inductive Binary64 where
  /-- The number `significand * 2 ^ exponent`. -/
  | finite (significand : Int) (exponent : Int)
  | notFinite
  deriving DecidableEq, Repr, Inhabited

namespace Binary64

/-- How many binary digits a significand has at most. -/
def precision : Nat := 53

/-- The exponent of the smallest positive number. -/
def leastExponent : Int := -1074

/-- The exponent of the largest numbers with a full significand. -/
def greatestExponent : Int := 971

/-- The whole number that a finite number is, if it is one. -/
def toInt? : Binary64 → Option Int
  | .notFinite => none
  | .finite significand exponent =>
    let scale : Int := Int.ofNat (Nat.pow 2 exponent.natAbs)
    if 0 ≤ exponent then some (significand * scale)
    else if significand % scale = 0 then some (significand / scale)
    else none

/-- The quotient `num / den` in units of `2 ^ exponent`, as a numerator and a denominator. -/
def scaled (num den : Nat) (exponent : Int) : Nat × Nat :=
  if 0 ≤ exponent then (num, den * Nat.pow 2 exponent.natAbs)
  else (num * Nat.pow 2 exponent.natAbs, den)

/-- The exponent at which the nonzero quotient `num / den` is rounded: the least one at which it has
no more than `precision` binary digits before the point, within the bounds of the format. -/
def exponentFor (num den : Nat) : Int :=
  let low := max leastExponent ((num.log2 : Int) - den.log2 - precision)
  let (scaledNum, scaledDen) := scaled num den low
  if scaledNum / scaledDen < Nat.pow 2 precision then low else low + 1

/-- The number nearest to `num / den`; one beyond the largest finite number is not finite. -/
def nearest (negative : Bool) (num den : Nat) : Binary64 :=
  let exponent := exponentFor num den
  let (scaledNum, scaledDen) := scaled num den exponent
  let significand := roundDiv scaledNum scaledDen
  if greatestExponent < exponent
      || (exponent = greatestExponent && Nat.pow 2 precision ≤ significand) then .notFinite
  else .finite (if negative then -(significand : Int) else significand) exponent

end Binary64

/-! ## Decimals -/

/-- The number `digits * 10 ^ exponent`, with its sign. -/
structure Decimal where
  negative : Bool := false
  digits : Nat
  exponent : Int
  deriving DecidableEq, Repr, Inhabited

namespace Decimal

/-- Every decimal of at least this many places before the point is beyond the double format. -/
def overflowPlaces : Int := 310

/-- Every decimal with at least this many zeros after the point is nearer to zero than to any other
number of the double format. -/
def underflowZeros : Int := 330

/-- How many digits stand before the point; negative if zeros follow it. -/
def places (d : Decimal) : Int := d.exponent + (Nat.toDigits 10 d.digits).length

/-- The nearest number of the double format.  Decimals far outside its bounds are settled by their
number of places alone. -/
def toBinary64 (d : Decimal) : Binary64 :=
  let power := Nat.pow 10 d.exponent.natAbs
  if d.digits = 0 ∨ d.places ≤ -underflowZeros then .finite 0 0
  else if overflowPlaces ≤ d.places then .notFinite
  else if 0 ≤ d.exponent then .nearest d.negative (d.digits * power) 1
  else .nearest d.negative d.digits power

end Decimal

end MemoAudit
