/-!
Numbers with a point, as double precision holds them. A finite number is a
count of units of `2 ^ -1074`, the distance between the two numbers nearest to
zero, and a sign. Not every count is a number: only 53 binary digits are kept,
so numbers lie further apart the larger they are.

Each operation takes the exact result, a quotient `a / d` of counts, and rounds
it once, to the nearest number and of two equally near ones to the even one.
-/

namespace BeanContainer

/-- A number of double precision. -/
inductive Double where
  /-- What is no number. -/
  | nan
  | infinite (negative : Bool)
  /-- The number `units / 2 ^ 1074` with its sign, which zero has too. -/
  | finite (negative : Bool) (units : Nat)
deriving DecidableEq, Inhabited, Repr

namespace Double

/-- The units in one. -/
def one : Nat := Nat.pow 2 1074

/-- The first count that is too large for a finite number. -/
def bound : Nat := Nat.pow 2 1024 * one

/-- How far apart the numbers about a count lie. -/
def gap (units : Nat) : Nat := Nat.pow 2 (units.log2 - 52)

/-- The count nearest to `a / d` that is a number, of two equally near ones the even one. The
count may reach the bound. -/
def nearest (a d : Nat) : Nat :=
  let width := d * gap (a / d)
  let below := a / width
  let excess := a % width
  let steps :=
    if 2 * excess < width ∨ (2 * excess = width ∧ below % 2 = 0) then below else below + 1
  steps * gap (a / d)

/-- The number of a count; beyond the bound it is infinite. -/
def ofUnits (negative : Bool) (units : Nat) : Double :=
  if units < bound then finite negative units else infinite negative

/-- The count of the number nearest to a natural number. -/
def unitsOfNat (n : Nat) : Nat := nearest (n * one) 1

/-- The rounded product of two counts. -/
def product (a b : Nat) : Nat := nearest (a * b) one

/-- The rounded quotient of two counts. -/
def quotient (a b : Nat) : Nat := nearest (a * one) b

/-- The number nearest to a natural number. -/
def ofNat (negative : Bool) (n : Nat) : Double := ofUnits negative (unitsOfNat n)

/-- The count of the number nearest to `mantissa · 10 ^ exponent`. -/
def unitsOfDecimal (mantissa : Nat) (exponent : Int) : Nat :=
  nearest (mantissa * Nat.pow 10 exponent.toNat * one) (Nat.pow 10 (-exponent).toNat)

/-- The number nearest to `mantissa · 10 ^ exponent`. One whose first digit stands more than 400
places before or behind the point is infinite or zero, whatever its digits are. -/
def ofDecimal (negative : Bool) (mantissa : Nat) (exponent : Int) : Double :=
  let place := (Nat.toDigits 10 mantissa).length + exponent
  if mantissa = 0 ∨ place < -400 then finite negative 0
  else if 400 < place then infinite negative
  else ofUnits negative (unitsOfDecimal mantissa exponent)

/-- Whether a number is zero, of either sign. -/
def isZero : Double → Bool
  | finite _ units => units = 0
  | _ => false

end Double

end BeanContainer
