import BeanContainer.Text.Replace

/-!
Value resolvers. A resolver turns a text into another one or into nothing; a
factory applies its resolvers one after another, and nothing stays nothing.
A `Substitution` is a resolver given by tables.
-/

namespace BeanContainer

/-- A resolver of embedded values. -/
abbrev ValueResolver := String → Option String

/-- Applies resolvers one after another, as long as there is a value. -/
def resolveThrough (resolvers : List ValueResolver) (value : String) : Option String :=
  resolvers.foldlM (fun v r => r v) value

/-- A resolver given by tables. -/
structure Substitution where
  /-- Whole values with what they become. -/
  exact : List (String × Option String) := []
  /-- Parts to replace in any other value, in order. -/
  replacements : List (String × String) := []
  /-- Whether any other value becomes nothing. -/
  dropsRest : Bool := false
deriving Inhabited

/-- The resolver that a substitution describes. -/
def Substitution.apply (s : Substitution) : ValueResolver := fun value =>
  match s.exact.lookup value with
  | some result => result
  | none =>
    if s.dropsRest then none
    else some (s.replacements.foldl (fun v r => Text.replaceAll v r.1 r.2) value)

end BeanContainer
