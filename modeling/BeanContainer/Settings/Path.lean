import BeanContainer.Settings.Reader
import BeanContainer.Value

/-!
Paths through a tree of values. A path is written as names with points between
them, and indices in square brackets may follow each name. Case does not count
in names: a tree holds them in small letters.
-/

namespace BeanContainer.Settings

/-- One step down a tree. -/
inductive Step where
  /-- To the field of an object. -/
  | field (name : String)
  /-- To an item of a list; a negative index counts from the end. -/
  | item (index : Int)
deriving DecidableEq, Repr

/-! ## Written paths -/

/-- Whether a character may stand in a name of a path. -/
def isNameChar (c : Char) : Bool := c.isAlphanum || c = '_' || c = '-' || c = ' '

/-- An index of 64 bits after its opening bracket. -/
def index (cs : List Char) : Option (Int × List Char) :=
  match skipBlank cs with
  | '-' :: rest => digits true rest
  | rest => digits false rest
where
  digits (negative : Bool) (cs : List Char) : Option (Int × List Char) :=
    match spanDigits cs with
    | ([], _) => none
    | (ds, rest) =>
      match skipBlank rest with
      | ']' :: rest => (sized (if negative then -natOfDigits ds else natOfDigits ds)).map (·, rest)
      | _ => none

/-- The steps after the first one. `fuel` bounds their number. -/
def laterSteps : Nat → List Char → Option (List Step)
  | 0, _ => none
  | _ + 1, [] => some []
  | fuel + 1, '.' :: cs => do
    match cs.span isNameChar with
    | ([], _) => none
    | (name, rest) => return .field (String.ofList name) :: (← laterSteps fuel rest)
  | fuel + 1, '[' :: cs => do
    let (i, rest) ← index cs
    return .item i :: (← laterSteps fuel rest)
  | _, _ => none

/-- The steps of a path; it starts with a name. -/
def readPath (s : String) : Option (List Step) :=
  laterSteps (s.length + 2) ('.' :: s.toList)

/-- The path that a name leads along. A name that is not written as a path is a single field. -/
def pathOf (name : String) : List Step := (readPath name).getD [.field name]

/-! ## Putting values into a tree -/

/-- A text in small letters. Outside ASCII only the sign of the kelvin has one that may stand in
a path. -/
def lower (s : String) : String := s.map fun c => if c = '\u212A' then 'k' else c.toLower

/-- The fields of an object; anything else has none. -/
def fieldsOf : Value → List (String × Value)
  | .object fields => fields
  | _ => []

/-- The items of a list; anything else has none. -/
def itemsOf : Value → List Value
  | .list items => items
  | _ => []

mutual

/-- A value laid over another one, which may be missing: the fields of an object are laid over
those of the other one by name, and all else replaces it. -/
def overlay : Value → Option Value → Value
  | .object fields, old => overlayFields fields (old.getD (.object []))
  | v, _ => v

/-- Fields laid over a value one after another. What is no object gives way to the first one. -/
def overlayFields : List (String × Value) → Value → Value
  | [], old => old
  | (name, v) :: rest, old =>
    let kept := fieldsOf old
    let name := lower name
    overlayFields rest (.object (Value.putField name (overlay v (kept.lookup name)) kept))

end

/-- The place that an index names in a list of some length, if it is not before the start. -/
def placeOf (i : Int) (length : Nat) : Option Nat :=
  if 0 ≤ i then some i.toNat
  else if i.natAbs ≤ length then some (length - i.natAbs)
  else none

/-- Puts a value at the end of a path into a value, which may be missing. On the way, what is no
object or no list gives way to one, and a list grows as far as an index reaches. -/
def put (v : Value) : List Step → Option Value → Value
  | [], old => overlay v old
  | .field name :: steps, old =>
    let kept := fieldsOf (old.getD .null)
    let name := lower name
    .object (Value.putField name (put v steps (kept.lookup name)) kept)
  | .item i :: steps, old =>
    let kept := itemsOf (old.getD .null)
    match placeOf i kept.length with
    | none => .list kept
    | some n =>
      let grown := kept ++ List.replicate (n + 1 - kept.length) .null
      .list (grown.set n (if steps.isEmpty then v else put v steps grown[n]?))

end BeanContainer.Settings
