import BeanContainer.Text.Quoted

/-!
What is known of the type a bean will have: a name, and the identity of the
type once it is resolved. Two descriptions match by identity when both have
one, and by name otherwise.
-/

namespace BeanContainer

/-- A type by its name, with its identity once that is known. -/
structure TypeInfo where
  /-- The full name. -/
  name : String
  /-- The identity, missing while only the name was declared. -/
  id : Option String := none
deriving DecidableEq, Inhabited, Repr

namespace TypeInfo

/-- Whether the identity is known. -/
def isResolved (t : TypeInfo) : Bool := t.id.isSome

/-- The part of a name after its last double colon, read from its end. -/
def lastSegment : List Char → List Char → List Char
  | ':' :: ':' :: _, segment => segment
  | c :: rest, segment => lastSegment rest (c :: segment)
  | [], segment => segment

/-- The name without the path before it. -/
def shortName (t : TypeInfo) : String := String.ofList (lastSegment t.name.toList.reverse [])

/-- Whether two descriptions stand for one type: by identity when both are resolved,
else by full or short name. -/
def denotesSame (t u : TypeInfo) : Bool :=
  match t.id, u.id with
  | some a, some b => a = b
  | _, _ => t.name = u.name || t.shortName = u.shortName

/-- A type written out with its fields, as it appears inside messages. -/
def written (t : TypeInfo) : String :=
  Text.record "TypeInfo"
    [("name", Text.quote t.name), ("id", Text.optional (t.id.map fun i => "TypeId(" ++ i ++ ")"))]

end TypeInfo

end BeanContainer
