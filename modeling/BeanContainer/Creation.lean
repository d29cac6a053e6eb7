import BeanContainer.Destruction
import BeanContainer.Merging

/-!
Looking up beans, and making those that are not there yet.

A lookup is routed to the first factory, from the asked one upwards, that has a
singleton or a definition for what the name stands for there; the route alone
changes nothing. The factory it ends at makes the bean as its merged definition
says: first the beans it depends on, then the bean itself, once, each time, or
as its scope says.
-/

namespace BeanContainer

/-- Where a lookup leads. -/
inductive Route where
  /-- To a finished singleton. -/
  | cached (factory : FactoryId) (name : String) (found : Instance)
  /-- To a bean that the lookup itself is part of making. -/
  | busy (name : String)
  /-- To a definition. -/
  | defined (factory : FactoryId) (name : String)
  /-- Nowhere. -/
  | nowhere (name : String)
deriving DecidableEq

/-- The route of a name along a chain of factories. -/
def Session.route (s : Session) : List FactoryId → String → Route
  | [], name => .nowhere name
  | f :: ancestors, name =>
    let factory := s.factory f
    let bean := factory.canonical name
    match factory.singletons.get? bean with
    | some i => .cached f bean i
    | none =>
      if factory.singletons.isPrototypeInCreation bean then .busy bean
      else if factory.definitions.contains bean then .defined f bean
      else
        match ancestors with
        | [] => .nowhere name
        | _ :: _ => s.route ancestors bean

variable (env : Collaborators) (again : Reentry)

/-- Runs a collaborator on behalf of a bean in the making. -/
def runFor (name : String) (script : Script α) : Act α := do
  match ← (runScript again script : Effect (Except Failure α)) with
  | .ok a => return a
  | .error failure => throw (.creationOf name failure)

/-- Makes an instance for a bean and hands it through the post-processors, first all of them
before the initialization, then all of them after it. -/
def createBean (f : FactoryId) (name : String) (m : MergedDefinition) : Act Instance := do
  let some constructor := (← theFactory f).constructor
    | throw (.creation name .constructorMissing)
  note (.creating name m.scope)
  write (.constructing f name)
  let raw ← runFor again name (env.construct constructor f name m)
  let processors := (← theFactory f).processors
  let readied ← processors.foldlM (fun i p => do
    runFor again name (env.before ((← get).processor p) i name)) raw
  let finished ← processors.foldlM (fun i p => do
    runFor again name (env.after ((← get).processor p) i name)) readied
  write (.constructed f name finished)
  return finished

/-- Creates the beans that a bean depends on, and records the dependencies. A dependency that
needs the bean itself is refused before anything is done about it. -/
def initializeDependencies (f : FactoryId) (name : String) (m : MergedDefinition) : Act Unit :=
  m.dependsOn.forM fun dependency => do
    let factory ← theFactory f
    if factory.isDependent name dependency then
      throw (.creation name (.dependencyCycle name dependency))
    modify fun s => s.writeNotices (factory.dependentNotices dependency name)
    updateFactory f fun f => f.registerDependent dependency name
    match ← (again.lookup f dependency).attempt with
    | .ok _ => return
    | .error e => throw (.creationBy name e)

/-- Does something while a singleton counts as in the making. -/
def whileCreatingSingleton (f : FactoryId) (name : String) (body : Act α) : Act α := do
  tryUpdate f fun f => return { f with singletons := ← f.singletons.beginSingleton name }
  let result ← body.attempt
  updateFactory f fun f => { f with singletons := f.singletons.endSingleton name }
  Act.ofResult result

/-- Does something while a prototype counts as in the making. -/
def whileCreatingPrototype (f : FactoryId) (name : String) (body : Act α) : Act α := do
  tryUpdate f fun f => return { f with singletons := ← f.singletons.beginPrototype name }
  let result ← body.attempt
  updateFactory f fun f => { f with singletons := f.singletons.endPrototype name }
  Act.ofResult result

/-- Makes a singleton and caches it. What is in the cache when it is finished counts. -/
def createSingleton (f : FactoryId) (name : String) (m : MergedDefinition) : Act Instance := do
  let factory ← theFactory f
  match factory.singletons.get? name with
  | some i => return i
  | none =>
    if factory.singletons.inDestruction then throw (.creationNotAllowed name)
    whileCreatingSingleton f name do
      let made ← createBean env again f name m
      note (.singletonCached name)
      write (.cached f name made)
      modifyGet fun s =>
        let factory := s.factory f
        let (counts, singletons) := factory.singletons.add name made
        (counts, s.setFactory f { factory with singletons })

/-- Gets a bean from a scope that has it, or makes it with `maker` and lets the scope keep it.
Answers the bean that counts, and the one made, if any. -/
def Scope.getOrMake (k : ScopeId) (name : String) (maker : Act Instance) :
    Act (Instance × Option Instance) := do
  match ((← get).scope k).get? name with
  | some i => return (i, none)
  | none =>
    let made ← maker
    let counts ← modifyGet fun s => s.keepIn k name made
    return (counts, some made)

/-- Gets a bean of a registered scope. A bean that was made and has to hear of its end gets a
callback in the scope; if the scope already kept another one meanwhile, it ends at once. -/
def createScoped (f : FactoryId) (name : String) (m : MergedDefinition) : Act Instance := do
  let some k := (← theFactory f).scopes.get? m.scope
    | throw (.illegalState (.beanScopeUnknown name m.scope))
  let (counts, made) ← Scope.getOrMake k name
    (whileCreatingPrototype f name (createBean env again f name m))
  let some made := made | return counts
  unless ← requiresDestruction env f made do return counts
  let processors := (← theFactory f).processors
  if made.id = counts.id then
    modify fun s => s.setScope k ((s.scope k).addCallback name (.destroyBean name made processors))
  else
    note (.surplusInScope m.scope name)
    match ← (destroyInstance env again name made processors : Effect (Option Failure)) with
    | some failure => note (.surplusFailed name failure)
    | none => pure ()
  return counts

/-- Gets a bean that a factory defines and has no singleton of. -/
def makeDefined (f : FactoryId) (name : String) : Act Instance := do
  let merged ← mergedOwn f name
  let m := merged.definition
  if m.isAbstract then throw (.creation name .abstractDefinition)
  initializeDependencies again f name m
  if m.isSingleton then
    let i ← createSingleton env again f name m
    write (.handedOut f name i)
    return i
  else if m.isPrototype then whileCreatingPrototype f name (createBean env again f name m)
  else createScoped env again f name m

/-- Gets the bean that a route leads to, and makes it if need be. -/
def follow : Route → Act Instance
  | .cached owner bean i => do
    write (.handedOut owner bean i)
    return i
  | .busy bean => throw (.currentlyInCreation bean)
  | .defined owner bean => do
    write (.missed owner bean)
    makeDefined env again owner bean
  | .nowhere name => throw (.noSuchDefinition name)

/-- Looks up a bean, and makes it if need be. -/
def lookup (f : FactoryId) (name : String) : Act Instance := do
  let s ← get
  follow env again (s.route (s.chain f) name)

end BeanContainer
