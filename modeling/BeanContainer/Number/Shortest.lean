import BeanContainer.Number.Double

/-!
How numbers of double precision are written: with the fewest decimal digits
that read back as the same number, and of those the nearest ones. There is
never an exponent.
-/

namespace BeanContainer.Double

/-- Whether a decimal number is read as the number of a count. -/
def readsBack (units mantissa : Nat) (exponent : Int) : Bool :=
  unitsOfDecimal mantissa exponent = units

/-- The place of the first digit of a count other than zero: it lies below `10 ^ place`, and not
below a tenth of that. -/
def firstPlace (units : Nat) : Int :=
  if one ≤ units then (Nat.toDigits 10 (units / one)).length
  else 1 - ((Nat.toDigits 10 (one / units)).length : Int)

/-- The multiple of `10 ^ exponent` that reads back as a count: one of the two next to it, the
nearer one if both do, and the upper one if they are equally near. -/
def onGrid (units : Nat) (exponent : Int) : Option Nat :=
  let a := units * Nat.pow 10 (-exponent).toNat
  let d := one * Nat.pow 10 exponent.toNat
  let below := a / d
  let upper := readsBack units (below + 1) exponent
  if readsBack units below exponent && (!upper || 2 * (a % d) < d) then some below
  else if upper then some (below + 1)
  else none

/-- The shortest decimal that reads back as a count other than zero: a mantissa and an exponent
of ten. Seventeen digits are always enough; without them the count would be written exactly. -/
def shortest (units : Nat) : Nat × Int :=
  let attempt (digits : Nat) : Option (Nat × Int) :=
    let exponent := firstPlace units - 1 - digits
    (onGrid units exponent).map fun mantissa => (mantissa, exponent)
  ((List.range 17).findSome? attempt).getD (units * Nat.pow 5 1074, -1074)

/-- A decimal number without an exponent and without zeros behind its last other digit. -/
def positional (mantissa : Nat) (exponent : Int) : String :=
  let digits := Nat.toDigits 10 mantissa
  if 0 ≤ exponent then String.ofList (digits ++ List.replicate exponent.toNat '0')
  else
    let places := (-exponent).toNat
    let padded := List.replicate (places + 1 - digits.length) '0' ++ digits
    let (whole, fraction) := padded.splitAt (padded.length - places)
    match (fraction.reverse.dropWhile fun c => c = '0').reverse with
    | [] => String.ofList whole
    | fraction => String.ofList (whole ++ '.' :: fraction)

/-- The sign of a negative number. -/
def sign (negative : Bool) : String := if negative then "-" else ""

/-- A written number. -/
def text : Double → String
  | nan => "NaN"
  | infinite negative => sign negative ++ "inf"
  | finite negative units =>
    sign negative ++
      if units = 0 then "0" else positional (shortest units).1 (shortest units).2

end BeanContainer.Double
