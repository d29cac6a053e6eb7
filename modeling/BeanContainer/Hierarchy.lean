import BeanContainer.Merging
import BeanContainer.Script

/-!
Questions about a bean that are answered without making it. Like a lookup they
go up a chain of factories, each replacing the name by what it stands for
there, to the first one that can tell.
-/

namespace BeanContainer

/-- Whether a factory of a chain has a singleton or a definition for a name. -/
def Session.containsIn (s : Session) : List FactoryId → String → Bool
  | [], _ => false
  | f :: ancestors, name =>
    (s.factory f).containsLocal name || s.containsIn ancestors ((s.factory f).canonical name)

/-- Whether a factory or one above it can provide a bean of a name. -/
def Session.containsBean (s : Session) (f : FactoryId) (name : String) : Bool :=
  s.containsIn (s.chain f) name

/-- Goes up a chain of factories for an answer about a name; `own` tells what a factory itself
can say about a name that stands for nothing else there. -/
def askUpwards (own : FactoryId → String → Query (Option α)) : List FactoryId → String → Query α
  | [], name => throw (.noSuchDefinition name)
  | f :: ancestors, name => do
    let bean := (← theFactory f).canonical name
    match ← own f bean with
    | some answer => return answer
    | none =>
      match ancestors with
      | [] => throw (.noSuchDefinition name)
      | _ :: _ => askUpwards own ancestors bean

/-- What a definition of a factory itself says, if there is one. -/
def fromOwnDefinition (f : FactoryId) (bean : String) (answer : MergedDefinition → α) :
    Query (Option α) := do
  if (← theFactory f).definitions.contains bean then
    return some (answer (← mergedOwn f bean).definition)
  else return none

/-- Whether a bean is a singleton. A finished singleton is one whatever its definition says. -/
def isSingleton (f : FactoryId) (name : String) : Query Bool := do
  askUpwards (fun f bean => do
    if (← theFactory f).singletons.contains bean then return some true
    else fromOwnDefinition f bean MergedDefinition.isSingleton) ((← get).chain f) name

/-- Whether a bean is a prototype. Its definition counts before any finished singleton. -/
def isPrototype (f : FactoryId) (name : String) : Query Bool := do
  askUpwards (fun f bean => do
    match ← fromOwnDefinition f bean MergedDefinition.isPrototype with
    | some answer => return some answer
    | none => return if (← theFactory f).singletons.contains bean then some false else none)
    ((← get).chain f) name

/-- The type of a bean: that of the finished singleton, else the one its definition gives. -/
def beanType (env : Collaborators) (f : FactoryId) (name : String) : Query (Option TypeInfo) := do
  askUpwards (fun f bean => do
    match (← theFactory f).singletons.get? bean with
    | some i => return some (some (env.typeOf i.kind))
    | none => fromOwnDefinition f bean MergedDefinition.type) ((← get).chain f) name

/-- Whether a bean may be injected where a type is required. A definition, here or above, is
judged by the factory's rule; a singleton without one by its type. -/
def isCandidate (env : Collaborators) (f : FactoryId) (name : String) (required : TypeInfo) :
    Query Bool := do
  let factory ← theFactory f
  let bean := factory.canonical name
  if factory.definitions.contains bean then
    return factory.candidateRule (← mergedOwn f bean).definition required
  match factory.singletons.get? bean with
  | some i => return (env.typeOf i.kind).denotesSame required
  | none =>
    match factory.parent with
    | some parent =>
      return factory.candidateRule (← mergedDefinition parent bean).definition required
    | none => throw (.noSuchDefinition name)

end BeanContainer
