import BeanContainer.Script

/-!
Registering and removing definitions. Every change resets what was derived from
the old definition: the cached merge and the singleton, of the name itself and
of every definition below it.
-/

namespace BeanContainer

variable (again : Reentry)

/-- Resets what was derived from a definition: drops its cached merge, destroys its singleton
if that is asked for, and resets its children fully. Names already reset are left alone. -/
def resetDefinition (f : FactoryId) (name : String) (destroySingleton : Bool)
    (visited : OrderedSet String) : Effect (OrderedSet String) := do
  if visited.contains name then return visited
  updateFactory f fun f => { f with merged := f.merged.evict name }
  if destroySingleton then
    let failures ← again.destroy f name
    modify fun s => s.writeNotices (failures.map (.resetFailed name))
  let definitions := (← theFactory f).definitions.definitions.entries
  definitions.foldlM (fun visited (child, d) => do
    if child ≠ name && (← theFactory f).isChildOf d name then again.reset f child true visited
    else return visited) (visited.insert name)

/-- Registers a definition. A singleton of that name is destroyed if the name was defined
before or has one. -/
def registerDefinition (f : FactoryId) (name : String) (d : Definition) : Act Unit := do
  let old ← theFactory f
  tryUpdate f fun f => f.define name d
  let previous := old.definitions.get? name
  write (.defined f name)
  note (Factory.defineNotice name previous d)
  let replaces := previous.isSome || old.singletons.contains name
  let _ ← resetDefinition again f name replaces {}

/-- Removes a definition, with its singleton and its recorded dependencies. -/
def removeDefinition (f : FactoryId) (name : String) : Act Unit := do
  tryUpdate f fun f => f.undefine name
  note (.definitionRemoved name)
  let _ ← resetDefinition again f name true {}
  updateFactory f fun f => { f with dependencies := f.dependencies.removeBean name }

/-- Registers an alias. -/
def registerAlias (f : FactoryId) (name altName : String) : Query Unit := do
  let old ← theFactory f
  modify fun s => s.writeNotices (old.aliasNotices name altName)
  tryUpdate f fun f => f.registerAlias name altName
  write (.aliased f name altName)

/-- Resolves all aliases of a factory. Aliases that come to be names of definitions are only
noted. -/
def resolveAliases (f : FactoryId) (resolver : ValueResolver) : Query Unit := do
  tryUpdate f fun f => f.resolveAliases resolver
  let factory ← theFactory f
  modify fun s => s.writeNotices
    (factory.aliasesNamingDefinitions.map fun e => .aliasNamesDefinition e.1 e.2)

/-- Registers the definitions of a set, then its aliases; the first failure ends it. Answers
the number of definitions. -/
def loadSet (f : FactoryId) (set : DefinitionSet) : Act Nat := do
  set.definitions.forM fun (name, d) => registerDefinition again f name d
  set.aliases.forM fun (name, altName) => registerAlias f name altName
  return set.definitions.length

/-- Registers a singleton made elsewhere. -/
def registerSingleton (f : FactoryId) (name : String) (i : Instance) : Query Unit := do
  tryUpdate f fun f => f.registerSingleton name i
  write (.registered f name i)
  note (.singletonRegistered name)

/-- Registers a scope of a factory. -/
def registerScope (f : FactoryId) (name : String) (k : ScopeId) : Query Unit := do
  let s ← get
  let previous := (s.factory f).scopes.get? name
  tryUpdate f fun f => f.registerScope name k
  note (match previous with
    | some old => .scopeReplaced name (s.scope old).written
    | none => .scopeRegistered name)

/-- Links a factory to its parent, once and for all. No factory may become its own ancestor. -/
def setParent (f parent : FactoryId) : Query Unit := do
  if ((← get).chain parent).contains f then throw (.illegalState .parentLoop)
  if (← theFactory f).parent.isSome then throw (.illegalState .parentSet)
  updateFactory f fun f => { f with parent := some parent }
  note .parentSet

end BeanContainer
