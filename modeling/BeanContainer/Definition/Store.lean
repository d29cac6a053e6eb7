import BeanContainer.Definition.Merged
import BeanContainer.Error

/-!
The registered definitions and the cache of merged ones.

The store counts its changes in a generation number. A merge remembers the
generation it started from, and the cache takes its result only while the store
is still at that generation, so a merge that a change has overtaken is not kept.
-/

namespace BeanContainer

/-- The registered definitions in registration order. -/
structure DefinitionStore where
  /-- The number of changes so far. -/
  generation : Nat := 0
  definitions : OrderedMap String Definition := {}
deriving DecidableEq, Inhabited

namespace DefinitionStore

/-- The names in registration order. -/
def names (s : DefinitionStore) : List String := s.definitions.keys

/-- The number of definitions. -/
def size (s : DefinitionStore) : Nat := s.definitions.size

/-- Whether a name is defined. -/
def contains (s : DefinitionStore) (name : String) : Bool := s.definitions.contains name

/-- The definition of a name. -/
def get? (s : DefinitionStore) (name : String) : Option Definition := s.definitions.get? name

/-- Defines a name. A known name is refused unless overriding is allowed, and keeps its place
when it is redefined. -/
def insert (s : DefinitionStore) (name : String) (d : Definition) (allowOverriding : Bool) :
    Except BeanError DefinitionStore :=
  match s.get? name with
  | some existing =>
    if allowOverriding then .ok ⟨s.generation + 1, s.definitions.insert name d⟩
    else .error (.definitionStore name (.redefined existing.type))
  | none => .ok ⟨s.generation + 1, s.definitions.insert name d⟩

/-- Drops a definition; dropping an unknown name is no change. -/
def erase (s : DefinitionStore) (name : String) : DefinitionStore :=
  if s.contains name then ⟨s.generation + 1, s.definitions.erase name⟩ else s

end DefinitionStore

/-- Merged definitions by name. -/
structure MergedCache where
  entries : OrderedMap String MergedRef := {}
deriving DecidableEq, Inhabited

namespace MergedCache

/-- The cached merge of a name. -/
def get? (c : MergedCache) (name : String) : Option MergedRef := c.entries.get? name

/-- The number of cached merges. -/
def size (c : MergedCache) : Nat := c.entries.size

/-- Whether nothing is cached. -/
def isEmpty (c : MergedCache) : Bool := c.entries.isEmpty

/-- Offers a merge that started at a generation of the store. It is kept if the store has not
changed since and the name has no merge yet. Answers the merge that counts from now on. -/
def insertIfCurrent (c : MergedCache) (name : String) (merged : MergedRef) (generation : Nat)
    (store : DefinitionStore) : MergedRef × MergedCache :=
  if store.generation = generation then
    match c.get? name with
    | some kept => (kept, c)
    | none => (merged, ⟨c.entries.insert name merged⟩)
  else (merged, c)

/-- Drops the merge of a name. -/
def evict (c : MergedCache) (name : String) : MergedCache := ⟨c.entries.erase name⟩

/-- Drops all merges. -/
def clear (_ : MergedCache) : MergedCache := {}

end MergedCache

end BeanContainer
