import BeanContainer.Collection.OrderedMap
import BeanContainer.Error

/-!
The singletons of a factory: the finished instances in the order in which they
were finished, and the flags of beans whose making is under way. A flag is set
when the making of a bean begins and taken back when it ends, whether that
succeeded or not; beginning while the flag is set is the sign of a circular
reference.
-/

namespace BeanContainer

/-- Finished singletons and the flags of unfinished beans. -/
structure SingletonRegistry where
  /-- The finished singletons, oldest first. -/
  objects : OrderedMap String Instance := {}
  /-- Singletons in the making. -/
  inCreation : OrderedSet String := {}
  /-- Prototypes, and beans of other scopes, in the making. -/
  prototypesInCreation : OrderedSet String := {}
  /-- Whether all singletons are being destroyed. -/
  inDestruction : Bool := false
deriving DecidableEq, Inhabited

/-- The right to make a bean, held from the beginning of its making to the end. -/
inductive Guard where
  | singleton (name : String)
  | prototype (name : String)
deriving DecidableEq, Repr

namespace SingletonRegistry

/-- The names of the finished singletons, oldest first. -/
def names (r : SingletonRegistry) : List String := r.objects.keys

/-- The number of finished singletons. -/
def size (r : SingletonRegistry) : Nat := r.objects.size

/-- The singleton of a name. -/
def get? (r : SingletonRegistry) (name : String) : Option Instance := r.objects.get? name

/-- Whether a name has a finished singleton. -/
def contains (r : SingletonRegistry) (name : String) : Bool := r.objects.contains name

/-- Registers a singleton made elsewhere; a name that has one is refused. -/
def register (r : SingletonRegistry) (name : String) (i : Instance) :
    Except BeanError SingletonRegistry :=
  match r.get? name with
  | some existing => .error (.illegalState (.singletonExists name existing))
  | none => .ok { r with objects := r.objects.insert name i }

/-- Adds a finished singleton unless the name has one, and answers the one that counts. -/
def add (r : SingletonRegistry) (name : String) (i : Instance) : Instance × SingletonRegistry :=
  match r.get? name with
  | some existing => (existing, r)
  | none => (i, { r with objects := r.objects.insert name i })

/-- Drops a singleton; the others keep their order. -/
def erase (r : SingletonRegistry) (name : String) : SingletonRegistry :=
  { r with objects := r.objects.erase name }

/-- Drops all singletons and the flags of those in the making. -/
def clear (r : SingletonRegistry) : SingletonRegistry :=
  { r with objects := {}, inCreation := {} }

/-- Sets the flag of a singleton, which must not be set. -/
def beginSingleton (r : SingletonRegistry) (name : String) : Except BeanError SingletonRegistry :=
  if r.inCreation.contains name then .error (.currentlyInCreation name)
  else .ok { r with inCreation := r.inCreation.insert name }

/-- Takes back the flag of a singleton. -/
def endSingleton (r : SingletonRegistry) (name : String) : SingletonRegistry :=
  { r with inCreation := r.inCreation.erase name }

/-- Sets the flag of a prototype, which must not be set. -/
def beginPrototype (r : SingletonRegistry) (name : String) : Except BeanError SingletonRegistry :=
  if r.prototypesInCreation.contains name then .error (.currentlyInCreation name)
  else .ok { r with prototypesInCreation := r.prototypesInCreation.insert name }

/-- Takes back the flag of a prototype. -/
def endPrototype (r : SingletonRegistry) (name : String) : SingletonRegistry :=
  { r with prototypesInCreation := r.prototypesInCreation.erase name }

/-- Sets or takes back the flag of a singleton from outside. -/
def setInCreation (r : SingletonRegistry) (name : String) (value : Bool) : SingletonRegistry :=
  if value then { r with inCreation := r.inCreation.insert name } else r.endSingleton name

/-- Whether a singleton is in the making. -/
def isInCreation (r : SingletonRegistry) (name : String) : Bool := r.inCreation.contains name

/-- Whether a prototype is in the making. -/
def isPrototypeInCreation (r : SingletonRegistry) (name : String) : Bool :=
  r.prototypesInCreation.contains name

/-- Sets the flag that a guard stands for, which must not be set. -/
def acquire (r : SingletonRegistry) : Guard → Except BeanError SingletonRegistry
  | .singleton name => r.beginSingleton name
  | .prototype name => r.beginPrototype name

/-- Takes back the flag that a guard stands for, whoever set it last. -/
def release (r : SingletonRegistry) : Guard → SingletonRegistry
  | .singleton name => r.endSingleton name
  | .prototype name => r.endPrototype name

/-- Says whether all singletons are being destroyed. -/
def setInDestruction (r : SingletonRegistry) (value : Bool) : SingletonRegistry :=
  { r with inDestruction := value }

/-- The registry in messages. -/
def written (r : SingletonRegistry) : String :=
  Text.record "DefaultSingletonRegistry"
    [("singletons", Text.quotedNames r.names), ("in_destruction", Text.truth r.inDestruction)]

end SingletonRegistry

end BeanContainer
