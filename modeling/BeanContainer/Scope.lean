import BeanContainer.Collection.OrderedMap
import BeanContainer.Instance
import BeanContainer.Text.Quoted

/-!
Scopes beyond singleton and prototype. An in-memory scope keeps the instance
first made under each name until the name is removed or the scope is cleared,
and one destruction callback per name. A transient scope keeps no instance,
and every callback.
-/

namespace BeanContainer

/-- What a scope does when it is cleared. -/
inductive ScopeCallback where
  /-- Destroys a bean with the post-processors that were in force when it was made. -/
  | destroyBean (bean : String) (instance_ : Instance) (processors : List Nat)
  /-- Tells that it was called, and fails if it has a text to fail with. -/
  | report (name : String) (failure : Option String)
deriving DecidableEq

/-- A scope that a factory may register. -/
inductive Scope where
  | inMemory (name : String) (instances : OrderedMap String Instance)
      (callbacks : OrderedMap String ScopeCallback)
  | transient (callbacks : List (String × ScopeCallback))
deriving DecidableEq

namespace Scope

instance : Inhabited Scope := ⟨transient []⟩

/-- A fresh scope that keeps its instances. -/
def newInMemory (name : String) : Scope := inMemory name {} {}

/-- A fresh scope that keeps none. -/
def newTransient : Scope := transient []

/-- The instance kept under a name. -/
def get? : Scope → String → Option Instance
  | inMemory _ instances _, name => instances.get? name
  | transient _, _ => none

/-- The instances kept, oldest first. -/
def stored : Scope → List (String × Instance)
  | inMemory _ instances _ => instances.entries
  | transient _ => []

/-- Keeps an instance under a name that has none, and answers the instance that counts. -/
def keep : Scope → String → Instance → Instance × Scope
  | inMemory scope instances callbacks, name, i =>
    match instances.get? name with
    | some kept => (kept, inMemory scope instances callbacks)
    | none => (i, inMemory scope (instances.insert name i) callbacks)
  | transient callbacks, _, i => (i, transient callbacks)

/-- Drops what is kept under a name, the callback too, and answers the instance. -/
def remove : Scope → String → Option Instance × Scope
  | inMemory scope instances callbacks, name =>
    (instances.get? name, inMemory scope (instances.erase name) (callbacks.erase name))
  | transient callbacks, _ => (none, transient callbacks)

/-- Registers a callback; an in-memory scope has at most one for a name. -/
def addCallback : Scope → String → ScopeCallback → Scope
  | inMemory scope instances callbacks, name, c =>
    inMemory scope instances (callbacks.insert name c)
  | transient callbacks, name, c => transient (callbacks ++ [(name, c)])

/-- The callbacks in the order in which clearing runs them: an in-memory scope goes from the
newest to the oldest, a transient one from the oldest to the newest. -/
def pending : Scope → List (String × ScopeCallback)
  | inMemory _ _ callbacks => callbacks.entries.reverse
  | transient callbacks => callbacks

/-- The scope with nothing kept. -/
def emptied : Scope → Scope
  | inMemory scope _ _ => inMemory scope {} {}
  | transient _ => transient []

/-- A scope in messages. The random number of a conversation is written `ID`. -/
def written : Scope → String
  | inMemory name instances _ =>
    Text.record "InMemoryScope"
      [("name", Text.quote name), ("conversation_id", Text.quote "ID"),
        ("instances", Text.quotedNames instances.keys)]
  | transient _ => "Transient"

end Scope

end BeanContainer
