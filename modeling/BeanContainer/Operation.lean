import BeanContainer.Definition.Merged
import BeanContainer.Settings.Basic
import BeanContainer.Substitution

/-!
Everything that can be asked of a session of factories, as data, and every
answer it can give. Factories, scopes and post-processors are addressed by
label; collaborators ask with the same operations as anyone outside.
-/

namespace BeanContainer

/-- The number of a factory within a session. -/
abbrev FactoryId := Nat

/-- The number of a scope within a session. -/
abbrev ScopeId := Nat

/-- The number of a post-processor within a session. -/
abbrev ProcessorId := Nat

/-- Which constructor a factory makes its instances with. -/
inductive Constructor where
  /-- One that follows the definition's own instructions; the label tells its factory. -/
  | scripted (label : String)
  /-- One that makes a plain instance of anything. -/
  | direct
deriving DecidableEq, Repr

/-- How a new instance will behave. -/
structure BeanSpec where
  kind : Kind := .closer
  /-- What destroying it fails with. -/
  failDestroy : Option String := none
  /-- What the notice that all singletons are made fails with. -/
  failReady : Option String := none
  /-- Written operations to perform when it is destroyed. -/
  destroySteps : List Value := []
  /-- Written operations to perform on that notice. -/
  readySteps : List Value := []
deriving DecidableEq, Inhabited

/-- An instance to be handed over: one that exists, or a new one. -/
inductive BeanSource where
  | existing (id : Nat)
  | fresh (spec : BeanSpec)
deriving DecidableEq

/-- What a post-processor does with a bean before or after its initialization. -/
structure ProcessingRule where
  /-- Beans it fails on. -/
  fail : List String := []
  /-- Beans it puts a new instance in the place of. -/
  replace : List String := []
  /-- How that new instance behaves. -/
  spec : BeanSpec := {}
  /-- Written operations to perform. -/
  steps : List Value := []
deriving DecidableEq, Inhabited

/-- What a post-processor does before a bean is destroyed. -/
structure DestructionRule where
  /-- Beans it fails on. -/
  fail : List String := []
  /-- Own names of the instances it cares for; all when missing. -/
  only : Option (List String) := none
  /-- Written operations to perform. -/
  steps : List Value := []
deriving DecidableEq, Inhabited

/-- A post-processor. -/
structure Processor where
  label : String
  before : Option ProcessingRule := none
  after : Option ProcessingRule := none
  destruction : Option DestructionRule := none
deriving DecidableEq, Inhabited

/-- A named set of definitions and aliases. -/
structure DefinitionSet where
  name : String
  definitions : List (String × Definition) := []
  /-- Pairs of a name and its alias. -/
  aliases : List (String × String) := []
deriving DecidableEq, Inhabited

/-- A file of settings: its text and how it is written. -/
structure SettingsFile where
  /-- Whether it is written as JSON; it is TOML otherwise. -/
  isJson : Bool
  text : String
deriving DecidableEq, Inhabited

/-- How to start an application. -/
structure BootstrapPlan where
  /-- Settings given outright; they win over any file. -/
  settings : Option ApplicationSettings := none
  file : Option SettingsFile := none
  /-- The path of the settings file. -/
  path : Option String := none
  logging : Bool := false
  /-- The label of the parent factory. -/
  parent : Option String := none
  constructor : Option Constructor := none
  /-- Labels of post-processors. -/
  processors : List String := []
  /-- Names with labels of scopes. -/
  scopes : List (String × String) := []
  sources : List DefinitionSet := []
  preInstantiate : Bool := true
deriving DecidableEq, Inhabited

/-- What can be asked of one factory. -/
inductive FactoryCall where
  | setConstructor (constructor : Option Constructor)
  | state
  | debug
  -- definitions
  | register (name : String) (definition : Definition)
  | remove (name : String)
  | definition (name : String)
  | containsDefinition (name : String)
  | isNameInUse (name : String)
  | merged (name : String)
  | loadSet (set : DefinitionSet)
  -- aliases
  | registerAlias (name altName : String)
  | removeAlias (altName : String)
  | isAlias (name : String)
  | aliases (name : String)
  | canonical (name : String)
  | resolveAliases (resolver : ValueResolver)
  -- lookup
  | get (name : String)
  | getAs (name : String) (kind : Kind)
  | contains (name : String)
  | containsLocal (name : String)
  | isSingleton (name : String)
  | isPrototype (name : String)
  | typeOf (name : String)
  | setParent (parent : String)
  -- singletons
  | registerSingleton (name : String) (source : BeanSource)
  | singleton (name : String)
  | containsSingleton (name : String)
  | setInCreation (name : String) (value : Bool)
  | isInCreation (name : String)
  -- configuration
  | allowDefinitionOverriding (value : Bool)
  | allowAliasOverriding (value : Bool)
  | cacheMetadata (value : Bool)
  | copyConfiguration (other : String)
  | addResolver (resolver : ValueResolver)
  | resolveValue (value : String)
  | setTypeResolver (resolver : Option (String → Option TypeInfo))
  | addProcessor (label : String)
  | registerScope (name label : String)
  | hasScope (name : String)
  | registerDependent (name dependent : String)
  | dependents (name : String)
  | dependencies (name : String)
  | isDependent (name dependent : String)
  | ignoreType (type : TypeInfo)
  | isTypeIgnored (type : TypeInfo)
  | registerResolvable (type : TypeInfo) (source : BeanSource)
  | findResolvable (type : TypeInfo)
  | setCandidateRule (rule : MergedDefinition → TypeInfo → Bool)
  | isCandidate (name : String) (type : TypeInfo)
  -- lifecycle
  | freeze
  | clearCache
  | preInstantiate
  | destroySingleton (name : String)
  | destroySingletons
  | destroyBean (name : String) (source : BeanSource)
  | destroyScoped (name : String)

/-- What can be asked of a session. -/
inductive Operation where
  /-- Makes a factory; a factory that had the label loses it. -/
  | newFactory (label : String) (settings : FactorySettings) (constructor : Option Constructor)
  | newProcessor (processor : Processor)
  /-- Makes a scope: an in-memory one with the given name, or a transient one. -/
  | newScope (label : String) (name : Option String)
  /-- Gets a bean from a scope; its maker fails with the given text, or makes the bean. -/
  | scopeGet (scope name : String) (spec : BeanSpec) (failure : Option String)
  | scopeRemove (scope name : String)
  | scopeCallback (scope name : String) (failure : Option String)
  | scopeClear (scope : String)
  | scopeInfo (scope : String)
  | bootstrap (label : String) (plan : BootstrapPlan)
  | describeBootstrap (plan : BootstrapPlan)
  | shutdown (label : String)
  | bootSettings (label : String)
  | on (factory : String) (call : FactoryCall)

/-- Everything about a factory that can be seen at one glance. -/
structure FactoryState where
  frozen : Bool
  definitions : List String
  /-- The definitions, then the singletons registered by hand that have no definition. -/
  beans : List String
  singletons : List (String × Nat)
  /-- For each bean with dependents, those. -/
  dependents : List (String × List String)
  /-- For each bean with dependencies, those. -/
  dependencies : List (String × List String)
  scopes : List String
  processors : Nat
  hasResolver : Bool
  hasTypeResolver : Bool
  hasParent : Bool
  settings : FactorySettings
deriving DecidableEq

/-- What can be seen of a scope. -/
structure ScopeInfo where
  /-- Name, size and written form; missing for a transient scope. -/
  memory : Option (String × Nat × String)
  /-- Whether the scope has a conversation. -/
  conversation : Bool
deriving DecidableEq

/-- The answer to an operation. -/
inductive Answer where
  | done
  | flag (value : Bool)
  | count (value : Nat)
  | text (value : String)
  | optionalText (value : Option String)
  | names (value : List String)
  | bean (value : Instance)
  | optionalBean (value : Option Instance)
  | definition (value : Definition)
  /-- A merged definition with a number that tells which answers share one object. -/
  | merged (ref : Nat) (value : MergedDefinition)
  | type (value : Option TypeInfo)
  | state (value : FactoryState)
  | loaded (count : Nat) (set : DefinitionSet)
  | scope (value : ScopeInfo)
  /-- The callbacks of a scope that were run, each with what it failed with. -/
  | callbacks (value : List (String × Option String))
  | settings (value : ApplicationSettings)
  | failed (error : BeanError)
  | failures (errors : List BeanError)
  | startFailed (error : InfrastructureError)
  /-- A label or number stands for nothing. -/
  | unknown (label : String)

/-- What collaborators report of themselves while they work. -/
inductive Event where
  | construct (factory bean scope : String)
  /-- A lookup whose failure is not passed on. -/
  | tried (name : String) (result : Except BeanError Instance)
  | before (processor bean : String) (id : Nat)
  | after (processor bean : String) (id : Nat)
  | destruction (processor bean : String) (id : Nat)
  | destroy (bean : String) (id : Nat)
  | ready (bean : String) (id : Nat)
  /-- A scope asked for a new bean. -/
  | scopeMake (name : String)
  /-- A callback of a scope was run. -/
  | callback (name : String)
  /-- A collaborator performed an operation. -/
  | nested (operation : String) (answer : Answer)

end BeanContainer
