import BeanContainer.Alias
import BeanContainer.Definition.Store
import BeanContainer.Dependency
import BeanContainer.Notice
import BeanContainer.Operation
import BeanContainer.Singleton

/-!
A factory: its definitions and aliases, its singletons and their recorded
dependencies, and the collaborators it was given. The functions here look at
or change one factory alone and call nobody.
-/

namespace BeanContainer

/-- A rule that says whether a bean may be injected where a type is required. -/
abbrev CandidateRule := MergedDefinition → TypeInfo → Bool

/-- A bean is a candidate if its definition does not exclude it and its type, if given, is the
required one. -/
def matchingCandidate : CandidateRule := fun m required =>
  m.autowireCandidate && m.type.all fun t => t.denotesSame required

/-- A bean factory. -/
structure Factory where
  settings : FactorySettings := {}
  frozen : Bool := false
  definitions : DefinitionStore := {}
  merged : MergedCache := {}
  aliases : AliasMap := {}
  singletons : SingletonRegistry := {}
  /-- Names of singletons that were registered by hand and had no definition. -/
  manualNames : OrderedSet String := {}
  dependencies : DependencyGraph := {}
  /-- The factory to ask for what is not here. -/
  parent : Option FactoryId := none
  /-- The registered scopes beyond singleton and prototype. -/
  scopes : OrderedMap String ScopeId := {}
  processors : List ProcessorId := []
  resolvers : List ValueResolver := []
  typeResolver : Option (String → Option TypeInfo) := none
  constructor : Option Constructor := none
  candidateRule : CandidateRule := matchingCandidate
  ignoredTypes : OrderedSet TypeInfo := {}
  resolvable : OrderedMap TypeInfo Instance := {}

namespace Factory

instance : Inhabited Factory := ⟨{}⟩

/-- The name that a name stands for. -/
def canonical (f : Factory) (name : String) : String := f.aliases.canonical name

/-- Whether this factory itself can provide a bean of a name. -/
def containsLocal (f : Factory) (name : String) : Bool :=
  f.singletons.contains (f.canonical name) || f.definitions.contains (f.canonical name)

/-- The definitions in order, then the singletons registered by hand that have none. -/
def beanNames (f : Factory) : List String :=
  f.definitions.names ++ f.manualNames.toList.filter fun name => !f.definitions.contains name

/-- Whether a name is taken in any way. -/
def isNameInUse (f : Factory) (name : String) : Bool :=
  f.aliases.isAlias name || f.definitions.contains name || f.singletons.contains name ||
    f.dependencies.hasDependents name

/-- Whether the bean of a name is in the making. -/
def isInCreation (f : Factory) (name : String) : Bool :=
  f.singletons.isInCreation (f.canonical name) ||
    f.singletons.isPrototypeInCreation (f.canonical name)

/-! ## Aliases -/

/-- Registers an alias, which may not be the name of a definition. -/
def registerAlias (f : Factory) (name altName : String) : Except BeanError Factory :=
  if altName ≠ name && f.definitions.contains altName then
    .error (.definitionStore altName (.aliasIsDefinition name altName))
  else do
    let aliases ← f.aliases.register name altName f.settings.allowAliasOverriding
    return { f with aliases }

/-- What registering an alias leaves in the log. -/
def aliasNotices (f : Factory) (name altName : String) : List Notice :=
  if altName ≠ name && f.definitions.contains altName then []
  else if Text.isBlank name || Text.isBlank altName then []
  else if altName = name then
    if f.aliases.isAlias altName then [.selfAliasRemoved altName] else []
  else
    let registered :=
      match f.aliases.checkCircle name altName with
      | .ok _ => [Notice.aliasRegistered altName name]
      | .error _ => []
    match f.aliases.toMap.get? altName with
    | some old =>
      if old = name then []
      else if f.settings.allowAliasOverriding then .aliasOverridden altName old name :: registered
      else []
    | none => registered

/-- Removes an alias. -/
def removeAlias (f : Factory) (altName : String) : Except BeanError Factory := do
  let aliases ← f.aliases.remove altName
  return { f with aliases }

/-- All aliases of the name that a name stands for. -/
def aliasesOf (f : Factory) (name : String) : List String :=
  f.aliases.aliasesOf (f.canonical name)

/-- Resolves all aliases and their names with a resolver. -/
def resolveAliases (f : Factory) (resolver : ValueResolver) : Except BeanError Factory := do
  let aliases ← f.aliases.resolve resolver
  return { f with aliases }

/-- The aliases that have come to be names of definitions. -/
def aliasesNamingDefinitions (f : Factory) : List (String × String) :=
  f.aliases.entries.filter fun e => f.definitions.contains e.1

/-! ## Definitions -/

/-- Refuses a definition whose names are blank where they must not be. An empty scope is open. -/
def validate (name : String) (d : Definition) : Except BeanError Unit :=
  if Text.isBlank name then .error (.definitionStore name .blankName)
  else if d.scope.any fun s => s ≠ "" && Text.isBlank s then
    .error (.definitionStore name .blankScope)
  else if d.parent.any Text.isBlank then .error (.definitionStore name .blankParent)
  else if d.dependsOn.any fun names => names.any Text.isBlank then
    .error (.definitionStore name .blankDependency)
  else .ok ()

/-- Refuses changes to the definitions of a frozen factory, if its settings say so. -/
def ensureMutable (f : Factory) (name : String) : Except BeanError Unit :=
  if f.frozen && f.settings.rejectMutationAfterFreeze then .error (.illegalState (.frozen name))
  else .ok ()

/-- Takes up a definition. Whatever was derived from an older one is not touched yet. -/
def define (f : Factory) (name : String) (d : Definition) : Except BeanError Factory := do
  validate name d
  f.ensureMutable name
  if f.aliases.isAlias name then
    throw (.definitionStore name (.nameIsAlias (f.canonical name)))
  let definitions ← f.definitions.insert name d f.settings.allowDefinitionOverriding
  return { f with definitions }

/-- What taking up a definition leaves in the log. -/
def defineNotice (name : String) (previous : Option Definition) (d : Definition) : Notice :=
  match previous with
  | none => .definitionRegistered name
  | some old =>
    if old.equivalent d then .definitionRepeated name
    else if old.effectiveRole.rank < d.effectiveRole.rank then
      .definitionRoleRaised name old.effectiveRole d.effectiveRole
    else .definitionOverridden name

/-- Drops a definition. Whatever was derived from it is not touched yet. -/
def undefine (f : Factory) (name : String) : Except BeanError Factory := do
  f.ensureMutable name
  if f.definitions.contains name then
    return { f with definitions := f.definitions.erase name }
  else throw (.noSuchDefinition name)

/-- Whether a definition names another one, through aliases, as its parent. -/
def isChildOf (f : Factory) (d : Definition) (name : String) : Bool :=
  d.parent.any fun p => f.canonical p = name

/-! ## Singletons and dependencies -/

/-- Registers a singleton made elsewhere. -/
def registerSingleton (f : Factory) (name : String) (i : Instance) : Except BeanError Factory :=
  if Text.isBlank name then .error (.illegalArgument .blankSingleton)
  else do
    let singletons ← f.singletons.register name i
    let manualNames :=
      if f.definitions.contains name then f.manualNames else f.manualNames.insert name
    return { f with singletons, manualNames }

/-- Takes a singleton out, from the names registered by hand too. -/
def takeSingleton (f : Factory) (name : String) : Option Instance × Factory :=
  (f.singletons.get? name,
    { f with singletons := f.singletons.erase name, manualNames := f.manualNames.erase name })

/-- Drops all singletons with all that is recorded about them. -/
def dropSingletons (f : Factory) : Factory :=
  { f with
    singletons := f.singletons.clear.setInDestruction false
    manualNames := {}
    dependencies := f.dependencies.clear }

/-- Records that a bean needs another one; the latter may be given by an alias. -/
def registerDependent (f : Factory) (name dependent : String) : Factory :=
  { f with dependencies := f.dependencies.register (f.canonical name) dependent }

/-- What recording a dependency leaves in the log: nothing if it is known. -/
def dependentNotices (f : Factory) (name dependent : String) : List Notice :=
  if (f.dependencies.record (f.canonical name) dependent).1 then
    [.dependencyRecorded dependent (f.canonical name)]
  else []

/-- Whether a bean needs another one, directly or not; the latter may be given by an alias. -/
def isDependent (f : Factory) (name dependent : String) : Bool :=
  f.dependencies.isDependent (f.canonical name) dependent

/-! ## Configuration -/

/-- Switches the caching of merged definitions; switching it off drops the cached ones. -/
def setCacheMetadata (f : Factory) (value : Bool) : Factory :=
  { f with
    settings := { f.settings with cacheMetadata := value }
    merged := if value then f.merged else f.merged.clear }

/-- Adds a post-processor at the end; one that is there already moves. -/
def addProcessor (f : Factory) (p : ProcessorId) : Factory :=
  { f with processors := f.processors.filter (fun q => q ≠ p) ++ [p] }

/-- Registers a scope under a name other than those of the built-in scopes. -/
def registerScope (f : Factory) (name : String) (scope : ScopeId) : Except BeanError Factory :=
  if Text.isBlank name then .error (.illegalArgument .blankScope)
  else if name = singletonScope || name = prototypeScope then
    .error (.illegalArgument (.reservedScope name))
  else .ok { f with scopes := f.scopes.insert name scope }

/-- Takes over another factory's settings and collaborators, but neither its definitions and
singletons nor its parent and constructor. -/
def copyConfiguration (f other : Factory) : Factory :=
  let f := { f with
    settings := other.settings
    typeResolver := other.typeResolver
    candidateRule := other.candidateRule
    scopes := f.scopes.insertAll other.scopes.entries
    resolvers := f.resolvers ++ other.resolvers
    ignoredTypes := f.ignoredTypes.insertAll other.ignoredTypes.toList }
  other.processors.foldl addProcessor f

/-- Resolves embedded values and the type's identity in a merged definition. A scope that
resolves to nothing becomes empty; a dependency that does so goes. -/
def settle (f : Factory) (m : MergedDefinition) : MergedDefinition :=
  let m :=
    if f.resolvers.isEmpty then m
    else { m with
      scope := if m.scope = "" then "" else (resolveThrough f.resolvers m.scope).getD ""
      dependsOn := m.dependsOn.filterMap (resolveThrough f.resolvers) }
  match f.typeResolver, m.type with
  | some resolver, some type =>
    if type.isResolved then m
    else { m with type := resolver type.name <|> some type }
  | _, _ => m

/-- Whether a type is among the ignored ones. -/
def isTypeIgnored (f : Factory) (type : TypeInfo) : Bool :=
  f.ignoredTypes.toList.any fun t => t.denotesSame type

/-- The first registered value for a type. -/
def findResolvable (f : Factory) (type : TypeInfo) : Option Instance :=
  (f.resolvable.entries.find? fun e => e.1.denotesSame type).map Prod.snd

/-! ## Views -/

/-- Everything that can be seen at one glance. -/
def view (f : Factory) : FactoryState where
  frozen := f.frozen
  definitions := f.definitions.names
  beans := f.beanNames
  singletons := f.singletons.objects.entries.map fun e => (e.1, e.2.id)
  dependents :=
    (f.beanNames.map fun n => (n, f.dependencies.dependentsOf n)).filter fun e => !e.2.isEmpty
  dependencies :=
    (f.beanNames.map fun n => (n, f.dependencies.dependenciesOf n)).filter fun e => !e.2.isEmpty
  scopes := f.scopes.keys
  processors := f.processors.length
  hasResolver := !f.resolvers.isEmpty
  hasTypeResolver := f.typeResolver.isSome
  hasParent := f.parent.isSome
  settings := f.settings

/-- The factory in messages. Its random number is written `ID`. -/
def written (f : Factory) : String :=
  Text.record "DefaultBeanFactory"
    [("factory_id", "ID"), ("definitions", Text.quotedNames f.definitions.names),
      ("singletons", Text.quotedNames f.singletons.names), ("frozen", Text.truth f.frozen),
      ("has_parent", Text.truth f.parent.isSome)]

end Factory

end BeanContainer
