import BeanContainer.Creation

/-!
The life of a factory as a whole: its configuration is frozen, its singletons
are made ahead of need, and beans of scopes are taken out again.
-/

namespace BeanContainer

/-- Freezes the configuration; a frozen one stays as it is. -/
def freeze (f : FactoryId) : StateM Session Unit := do
  unless (← theFactory f).frozen do
    updateFactory f fun f => { f with frozen := true }
    note .configurationFrozen

/-- Drops all cached merges. -/
def clearMetadata (f : FactoryId) : StateM Session Unit := do
  updateFactory f fun f => { f with merged := f.merged.clear }
  note .cacheCleared

variable (env : Collaborators) (again : Reentry)

/-- Makes the singleton of a definition, unless it is abstract, lazy or no singleton. -/
def preInstantiateOne (f : FactoryId) (name : String) : Act Unit := do
  let m := (← mergedOwn f name).definition
  if m.isAbstract || !m.isSingleton || m.lazy then return
  match ← (lookup env again f name).attempt with
  | .ok _ => return
  | .error e => do
    note (.preInstantiationFailed name e)
    throw e

/-- Tells a singleton that all singletons are made, if it wants to hear of it. -/
def announceTo (f : FactoryId) (name : String) : Act Unit := do
  let some i := (← theFactory f).singletons.get? name | return
  if i.kind.isSmartInitializing then
    note (.announcing name)
    write (.announced f name i)
    runFor again name (env.ready i ((← get).behaviour i))

/-- Makes all singletons that are neither abstract nor lazy, in the order of their definitions,
then tells those that have a definition about it, in the order in which they were finished.
The first failure ends it. -/
def preInstantiate (f : FactoryId) : Act Unit := do
  note .preInstantiationStarted
  let defined := (← theFactory f).definitions.names
  defined.forM (preInstantiateOne env again f)
  let finished := (← theFactory f).singletons.names
  (finished.filter fun name => defined.contains name).forM (announceTo env again f)
  note .preInstantiationFinished

/-- Takes a bean out of the scope that keeps it, and destroys it. -/
def destroyScoped (f : FactoryId) (name : String) : Act Unit := do
  let bean := (← theFactory f).canonical name
  let m := (← mergedOwn f bean).definition
  if m.isSingleton || m.isPrototype then
    throw (.illegalArgument (.notCustomScoped bean m.scope))
  let some k := (← theFactory f).scopes.get? m.scope
    | throw (.illegalState (.scopeUnknown m.scope))
  match ← modifyGet fun s => s.takeFrom k bean with
  | some i => destroyBean env again f bean i
  | none => return

end BeanContainer
