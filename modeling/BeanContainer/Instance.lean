/-!
Bean instances as a container sees them: an identity, the name they were made
under, and the capabilities that their kind stands for.
-/

namespace BeanContainer

/-- What an instance can do beyond existing. -/
inductive Kind where
  /-- Nothing. -/
  | plain
  /-- It can be destroyed. -/
  | closer
  /-- It wants to hear when all singletons are made. -/
  | ready
  /-- Both. -/
  | full
deriving DecidableEq, Inhabited, Repr

namespace Kind

/-- Whether an instance of this kind has a destroy callback. -/
def isDisposable : Kind → Bool
  | closer | full => true
  | plain | ready => false

/-- Whether an instance of this kind hears when all singletons are made. -/
def isSmartInitializing : Kind → Bool
  | ready | full => true
  | plain | closer => false

/-- The kind's name. -/
def label : Kind → String
  | plain => "Plain"
  | closer => "Closer"
  | ready => "Ready"
  | full => "Full"

end Kind

/-- A bean instance. Two instances are the same object exactly when their numbers agree. -/
structure Instance where
  /-- The number given at its making. -/
  id : Nat
  /-- The name it was made under. -/
  name : String
  /-- What it can do. -/
  kind : Kind
deriving DecidableEq, Inhabited, Repr

/-- An instance in messages: its kind and its number. -/
def Instance.written (i : Instance) : String := i.kind.label ++ "#" ++ toString i.id

end BeanContainer
