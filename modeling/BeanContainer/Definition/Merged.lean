import BeanContainer.Definition.Basic

/-!
Merged definitions: a definition joined with everything above it, so that no
field is open any more. `ofRoot` closes a definition without a parent;
`ofParent` lays a definition over its merged parent. What a definition leaves
open comes from the parent, with two exceptions: being abstract and the
parent's name belong to the definition alone.
-/

namespace BeanContainer

/-- The name of the built-in scope whose beans are made once. -/
def singletonScope : String := "singleton"

/-- The name of the built-in scope whose beans are made for every lookup. -/
def prototypeScope : String := "prototype"

/-- A definition whose fields are all settled. -/
structure MergedDefinition where
  beanName : String
  /-- The parent's name as the definition itself gives it. -/
  parent : Option String
  type : Option TypeInfo
  /-- The empty scope stands for the singleton scope. -/
  scope : String
  lazy : Bool
  isAbstract : Bool
  dependsOn : List String
  autowireCandidate : Bool
  primary : Bool
  role : Role
  priority : Option Int
  arguments : Arguments
  properties : OrderedMap String Value
  initMethod : Option String
  destroyMethod : Option String
  description : Option String
deriving DecidableEq, Inhabited

namespace MergedDefinition

/-- Closes a definition that has no parent; open fields take their defaults. -/
def ofRoot (name : String) (d : Definition) : MergedDefinition where
  beanName := name
  parent := d.parent
  type := d.type
  scope := d.scope.getD ""
  lazy := d.lazy.getD false
  isAbstract := d.isAbstract
  dependsOn := d.dependsOn.getD []
  autowireCandidate := d.autowireCandidate.getD true
  primary := d.primary.getD false
  role := d.effectiveRole
  priority := d.priority
  arguments := d.arguments
  properties := d.properties
  initMethod := d.initMethod
  destroyMethod := d.destroyMethod
  description := d.description

/-- Lays a definition over its merged parent. An empty scope counts as open. -/
def ofParent (name : String) (parent : MergedDefinition) (d : Definition) : MergedDefinition where
  beanName := name
  parent := d.parent
  type := d.type <|> parent.type
  scope := (d.scope.filter fun s => s ≠ "").getD parent.scope
  lazy := d.lazy.getD parent.lazy
  isAbstract := d.isAbstract
  dependsOn := d.dependsOn.getD parent.dependsOn
  autowireCandidate := d.autowireCandidate.getD parent.autowireCandidate
  primary := d.primary.getD parent.primary
  role := d.role.getD parent.role
  priority := d.priority <|> parent.priority
  arguments := parent.arguments.insertAll d.arguments.entries
  properties := parent.properties.insertAll d.properties.entries
  initMethod := d.initMethod <|> parent.initMethod
  destroyMethod := d.destroyMethod <|> parent.destroyMethod
  description := d.description <|> parent.description

/-- Whether beans of this definition are made once. -/
def isSingleton (m : MergedDefinition) : Bool := m.scope = singletonScope || m.scope = ""

/-- Whether beans of this definition are made for every lookup. -/
def isPrototype (m : MergedDefinition) : Bool := m.scope = prototypeScope

/-- Whether a registered scope keeps the beans of this definition. -/
def isCustomScoped (m : MergedDefinition) : Bool := !m.isSingleton && !m.isPrototype

end MergedDefinition

/-- A merged definition together with the number of the merge that made it. Asking twice
gives the same object exactly when the serial numbers agree. -/
structure MergedRef where
  serial : Nat
  definition : MergedDefinition
deriving DecidableEq, Inhabited

end BeanContainer
