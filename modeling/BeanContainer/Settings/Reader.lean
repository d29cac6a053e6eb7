/-!
Reading texts from left to right: what the notations of settings share. A
reader takes the characters that are left and answers what it read together
with those that are left then, or nothing if the text is not written as it
should be.
-/

namespace BeanContainer.Settings

/-- Takes something off the front of a text. -/
abbrev Reader (α : Type) := List Char → Option (α × List Char)

/-- What is left after blanks and tabs. -/
def skipBlank (cs : List Char) : List Char := cs.dropWhile fun c => c = ' ' || c = '\t'

/-- The value of a hexadecimal digit. -/
def hexDigit? (c : Char) : Option Nat :=
  if c.isDigit then some (c.toNat - '0'.toNat)
  else if 'a' ≤ c ∧ c ≤ 'f' then some (c.toNat - 'a'.toNat + 10)
  else if 'A' ≤ c ∧ c ≤ 'F' then some (c.toNat - 'A'.toNat + 10)
  else none

/-- Exactly `n` hexadecimal digits after those already read. -/
def hexDigits (read : Nat) : Nat → Reader Nat
  | 0, cs => some (read, cs)
  | _ + 1, [] => none
  | n + 1, c :: cs => do hexDigits (read * 16 + (← hexDigit? c)) n cs

/-- The number that decimal digits spell. -/
def natOfDigits (digits : List Char) : Nat :=
  digits.foldl (fun n c => n * 10 + (c.toNat - '0'.toNat)) 0

/-- The number that digits of a base spell. -/
def natOfBase (base : Nat) (digits : List Char) : Nat :=
  digits.foldl (fun n c => n * base + (hexDigit? c).getD 0) 0

/-- An integer that 64 bits hold. -/
def sized (n : Int) : Option Int :=
  if -Int.pow 2 63 ≤ n ∧ n < Int.pow 2 63 then some n else none

/-- The digits at the front of a text, and what follows them. -/
def spanDigits (cs : List Char) : List Char × List Char := cs.span Char.isDigit

/-- An exponent after its letter: a sign, which may be missing, and digits. -/
def exponent : Reader Int
  | '-' :: cs => digits true cs
  | '+' :: cs => digits false cs
  | cs => digits false cs
where
  digits (negative : Bool) (cs : List Char) : Option (Int × List Char) :=
    match spanDigits cs with
    | ([], _) => none
    | (ds, rest) => some (if negative then -(natOfDigits ds : Int) else natOfDigits ds, rest)

end BeanContainer.Settings
