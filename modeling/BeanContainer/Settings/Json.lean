import BeanContainer.Settings.Reader
import BeanContainer.Value

/-!
Reading JSON. The text holds one value; of two fields with one name the later
counts; lists and objects lie at most 127 deep. Numbers with a point are read
in steps that each round, so the last digit may differ from that of the nearest
number; one that gets too large is refused.
-/

namespace BeanContainer.Settings.Json

/-- What is left after white space. -/
def skipSpace (cs : List Char) : List Char :=
  cs.dropWhile fun c => c = ' ' || c = '\n' || c = '\t' || c = '\r'

/-- A character given by four hexadecimal digits. One above the sixteen-bit range takes two
such groups, and half of such a pair is refused. -/
def unicodeEscape (cs : List Char) : Option (Char × List Char) := do
  let (unit, rest) ← hexDigits 0 4 cs
  if 0xDC00 ≤ unit ∧ unit ≤ 0xDFFF then none
  else if 0xD800 ≤ unit ∧ unit ≤ 0xDBFF then
    match rest with
    | '\\' :: 'u' :: rest =>
      let (low, rest) ← hexDigits 0 4 rest
      if 0xDC00 ≤ low ∧ low ≤ 0xDFFF then
        some (Char.ofNat (0x10000 + (unit - 0xD800) * 0x400 + (low - 0xDC00)), rest)
      else none
    | _ => none
  else some (Char.ofNat unit, rest)

/-- The characters of a text up to its closing quote; `fuel` bounds their number. -/
def characters : Nat → Reader (List Char)
  | 0, _ => none
  | _ + 1, [] => none
  | fuel + 1, c :: cs =>
    if c = '"' then some ([], cs)
    else if c = '\\' then do
      let (decoded, rest) ← match cs with
        | '"' :: rest => some ('"', rest)
        | '\\' :: rest => some ('\\', rest)
        | '/' :: rest => some ('/', rest)
        | 'b' :: rest => some ('\x08', rest)
        | 'f' :: rest => some ('\x0c', rest)
        | 'n' :: rest => some ('\n', rest)
        | 'r' :: rest => some ('\r', rest)
        | 't' :: rest => some ('\t', rest)
        | 'u' :: rest => unicodeEscape rest
        | _ => none
      let (more, rest) ← characters fuel rest
      return (decoded :: more, rest)
    else if c.toNat < 0x20 then none
    else do
      let (more, rest) ← characters fuel cs
      return (c :: more, rest)

/-- A text after its opening quote. -/
def text (cs : List Char) : Option (String × List Char) := do
  let (chars, rest) ← characters (cs.length + 1) cs
  return (String.ofList chars, rest)

/-- Digits taken into a number as long as it stays below `2 ^ 64`, and how many were taken. -/
def absorb (n : Nat) : List Char → Nat × Nat
  | [] => (n, 0)
  | c :: cs =>
    let m := n * 10 + (c.toNat - '0'.toNat)
    if m < Nat.pow 2 64 then
      let (m, taken) := absorb m cs
      (m, taken + 1)
    else (n, 0)

/-- The power of ten that a double precision number comes nearest to. -/
def power (n : Nat) : Nat := Double.unitsOfNat (Nat.pow 10 n)

/-- A number times a power of ten, both of which are rounded, as is each step: powers beyond the
308th are taken one such power at a time. Nothing is too small, but a number may get too large. -/
def scaled (units : Nat) (exponent : Int) : Option Nat :=
  if units = 0 then some 0
  else if 308 < exponent then none
  else if 0 ≤ exponent then
    let product := Double.product units (power exponent.toNat)
    if product < Double.bound then some product else none
  else if -308 ≤ exponent then some (Double.quotient units (power exponent.natAbs))
  else scaled (Double.quotient units (power 308)) (exponent + 308)
termination_by exponent.natAbs

/-- A number with a point, an exponent, or too many digits for an integer. Digits behind the
point count only until 64 bits are full. -/
def real (negative : Bool) (whole fraction : List Char) (exponent : Int) : Option Double :=
  let (n, taken) := absorb 0 whole
  let (n, fractionTaken) := absorb n fraction
  (scaled (Double.unitsOfNat n) (exponent + (whole.length - taken : Nat) - fractionTaken)).map
    (.finite negative)

/-- A number without its sign. An integer that 64 bits cannot hold is a number with a point, and
so is zero with a sign. -/
def number (negative : Bool) (cs : List Char) : Option (Value × List Char) := do
  let (whole, rest) ← match spanDigits cs with
    | ([], _) => none
    | (ds, rest) => some (ds, rest)
  if 1 < whole.length && whole.head? = some '0' then none
  let (fraction, rest) ← match rest with
    | '.' :: rest =>
      match spanDigits rest with
      | ([], _) => none
      | (ds, rest) => some (some ds, rest)
    | _ => some (none, rest)
  let (power, rest) ← match rest with
    | 'e' :: rest => (exponent rest).map fun r => (some r.1, r.2)
    | 'E' :: rest => (exponent rest).map fun r => (some r.1, r.2)
    | _ => some (none, rest)
  let n : Int := natOfDigits whole
  let int : Option Int :=
    if fraction.isSome || power.isSome || (negative && n = 0) then none
    else sized (if negative then -n else n)
  match int with
  | some n => return (.int n, rest)
  | none => return (.real (← real negative whole (fraction.getD []) (power.getD 0)), rest)

mutual

/-- A value. `depth` bounds how deep lists and objects may lie in it, and `fuel` the number of
its parts. -/
def value (depth : Nat) : Nat → List Char → Option (Value × List Char)
  | 0, _ => none
  | fuel + 1, cs =>
    match skipSpace cs with
    | '"' :: rest => do
      let (s, rest) ← text rest
      return (.text s, rest)
    | '[' :: rest =>
      match depth with
      | 0 => none
      | depth + 1 =>
        match skipSpace rest with
        | ']' :: rest => some (.list [], rest)
        | rest => do
          let (vs, rest) ← items depth fuel rest
          return (.list vs, rest)
    | '{' :: rest =>
      match depth with
      | 0 => none
      | depth + 1 =>
        match skipSpace rest with
        | '}' :: rest => some (.object [], rest)
        | rest => do
          let (fs, rest) ← fields depth fuel rest
          return (Value.ofFields fs, rest)
    | 't' :: 'r' :: 'u' :: 'e' :: rest => some (.bool true, rest)
    | 'f' :: 'a' :: 'l' :: 's' :: 'e' :: rest => some (.bool false, rest)
    | 'n' :: 'u' :: 'l' :: 'l' :: rest => some (.null, rest)
    | '-' :: rest => number true rest
    | rest => number false rest

/-- The items of a list up to its closing bracket. -/
def items (depth : Nat) : Nat → List Char → Option (List Value × List Char)
  | 0, _ => none
  | fuel + 1, cs => do
    let (v, rest) ← value depth fuel cs
    match skipSpace rest with
    | ',' :: rest =>
      let (vs, rest) ← items depth fuel rest
      return (v :: vs, rest)
    | ']' :: rest => return ([v], rest)
    | _ => none

/-- The fields of an object up to its closing brace. -/
def fields (depth : Nat) : Nat → List Char → Option (List (String × Value) × List Char)
  | 0, _ => none
  | fuel + 1, cs =>
    match skipSpace cs with
    | '"' :: rest => do
      let (name, rest) ← text rest
      match skipSpace rest with
      | ':' :: rest =>
        let (v, rest) ← value depth fuel rest
        match skipSpace rest with
        | ',' :: rest =>
          let (fs, rest) ← fields depth fuel rest
          return ((name, v) :: fs, rest)
        | '}' :: rest => return ([(name, v)], rest)
        | _ => none
      | _ => none
    | _ => none

end

/-- The value that a text holds. -/
def read (s : String) : Option Value := do
  let (v, rest) ← value 127 (2 * s.length + 2) s.toList
  if (skipSpace rest).isEmpty then return v else none

end BeanContainer.Settings.Json
