import BeanContainer.Bootstrap
import BeanContainer.Hierarchy

/-!
Performing operations. `performOnce` says what an operation does, given the ways
back into the session for whoever it calls; `reentry` ties the knot. Each way
back costs one level of a budget, and a session whose budget is spent has no
result. A result does not depend on the budget it was found with.
-/

namespace BeanContainer

variable (env : Collaborators) (again : Reentry)

/-- The answer to an act: what its value shows, or its error. -/
def answerAct (a : Act α) (shown : α → Answer) : Effect Answer := do
  match ← a.run with
  | .ok v => return shown v
  | .error e => return .failed e

/-- The answer to a query. -/
def answerQuery (q : Query α) (shown : α → Answer) : Effect Answer := answerAct (liftM q) shown

/-- The answer to a destruction: its failures, if there are any. -/
def answerFailures (failures : List BeanError) : Answer :=
  if failures.isEmpty then .done else .failures failures

/-- The instance to be handed over under a name, made now if it is a new one. -/
def Session.takeSource (s : Session) (name : String) : BeanSource → Option Instance × Session
  | .existing id => ((s.made[id]?).map Prod.fst, s)
  | .fresh spec =>
    let (i, s) := s.make name spec
    (some i, s)

/-- Does something with an instance to be handed over. -/
def withSource (name : String) (source : BeanSource) (use : Instance → Effect Answer) :
    Effect Answer := do
  match ← modifyGet fun s => s.takeSource name source with
  | some i => use i
  | none => return .unknown name

/-- Does something with what a label stands for. -/
def withLabel (label : String) (found : Option Nat) (use : Nat → Effect Answer) : Effect Answer :=
  match found with
  | some n => use n
  | none => return .unknown label

/-- A merged definition with the number that tells which answers share it. -/
def answerMerged (merged : MergedRef) : StateM Session Answer := do
  let ref ← modifyGet fun s => s.answerMerge merged.serial
  return .merged ref merged.definition

/-- What can be asked of one factory, and the answer. -/
def callFactory (f : FactoryId) : FactoryCall → Effect Answer
  | .setConstructor constructor => do
    updateFactory f fun f => { f with constructor := constructor <|> f.constructor }
    return .done
  | .state => return .state (← theFactory f).view
  | .debug => return .text (← theFactory f).written
  -- definitions
  | .register name d => answerAct (registerDefinition again f name d) fun _ => .done
  | .remove name => answerAct (removeDefinition again f name) fun _ => .done
  | .definition name => do
    match (← theFactory f).definitions.get? name with
    | some d => return .definition d
    | none => return .failed (.noSuchDefinition name)
  | .containsDefinition name => return .flag ((← theFactory f).definitions.contains name)
  | .isNameInUse name => return .flag ((← theFactory f).isNameInUse name)
  | .merged name => do
    match ← liftM (mergedDefinition f name).run with
    | .ok merged => answerMerged merged
    | .error e => return .failed e
  | .loadSet set => answerAct (loadSet again f set) fun n => .loaded n set
  -- aliases
  | .registerAlias name altName => answerQuery (registerAlias f name altName) fun _ => .done
  | .removeAlias altName => answerQuery (tryUpdate f fun f => f.removeAlias altName) fun _ => .done
  | .isAlias name => return .flag ((← theFactory f).aliases.isAlias name)
  | .aliases name => return .names ((← theFactory f).aliasesOf name)
  | .canonical name => return .text ((← theFactory f).canonical name)
  | .resolveAliases resolver => answerQuery (resolveAliases f resolver) fun _ => .done
  -- lookup
  | .get name => answerAct (lookup env again f name) .bean
  | .getAs name kind =>
    answerAct (do
      let i ← lookup env again f name
      if i.kind = kind then return i
      else throw (.illegalState (.wrongType name (env.typeOf kind).name))) fun i => .count i.id
  | .contains name => return .flag ((← get).containsBean f name)
  | .containsLocal name => return .flag ((← theFactory f).containsLocal name)
  | .isSingleton name => answerQuery (isSingleton f name) .flag
  | .isPrototype name => answerQuery (isPrototype f name) .flag
  | .typeOf name => answerQuery (beanType env f name) .type
  | .setParent parent => do
    withLabel parent ((← get).factoryLabels.get? parent) fun p =>
      answerQuery (setParent f p) fun _ => .done
  -- singletons
  | .registerSingleton name source => withSource name source fun i =>
    answerQuery (registerSingleton f name i) fun _ => .done
  | .singleton name => return .optionalBean ((← theFactory f).singletons.get? name)
  | .containsSingleton name => return .flag ((← theFactory f).singletons.contains name)
  | .setInCreation name value => do
    updateFactory f fun f =>
      { f with singletons := f.singletons.setInCreation (f.canonical name) value }
    return .done
  | .isInCreation name => return .flag ((← theFactory f).isInCreation name)
  -- configuration
  | .allowDefinitionOverriding value => do
    updateFactory f fun f =>
      { f with settings := { f.settings with allowDefinitionOverriding := value } }
    return .done
  | .allowAliasOverriding value => do
    updateFactory f fun f =>
      { f with settings := { f.settings with allowAliasOverriding := value } }
    return .done
  | .cacheMetadata value => do
    updateFactory f fun f => f.setCacheMetadata value
    return .flag (← theFactory f).settings.cacheMetadata
  | .copyConfiguration other => do
    withLabel other ((← get).factoryLabels.get? other) fun o => do
      unless o = f do
        modify fun s => s.takeOver f o
        note .configurationCopied
      return .done
  | .addResolver resolver => do
    updateFactory f fun f => { f with resolvers := f.resolvers ++ [resolver] }
    return .done
  | .resolveValue value => return .optionalText (resolveThrough (← theFactory f).resolvers value)
  | .setTypeResolver resolver => do
    updateFactory f fun f => { f with typeResolver := resolver }
    return .flag (← theFactory f).typeResolver.isSome
  | .addProcessor label => do
    withLabel label ((← get).processorLabels.get? label) fun p => do
      updateFactory f fun f => f.addProcessor p
      return .count (← theFactory f).processors.length
  | .registerScope name label => do
    withLabel label ((← get).scopeLabels.get? label) fun k =>
      answerQuery (registerScope f name k) fun _ => .done
  | .hasScope name => return .flag ((← theFactory f).scopes.contains name)
  | .registerDependent name dependent => do
    let factory ← theFactory f
    updateFactory f fun f => f.registerDependent name dependent
    modify fun s => s.writeNotices (factory.dependentNotices name dependent)
    return .done
  | .dependents name => return .names ((← theFactory f).dependencies.dependentsOf name)
  | .dependencies name => return .names ((← theFactory f).dependencies.dependenciesOf name)
  | .isDependent name dependent => return .flag ((← theFactory f).isDependent name dependent)
  | .ignoreType type => do
    updateFactory f fun f => { f with ignoredTypes := f.ignoredTypes.insert type }
    return .done
  | .isTypeIgnored type => return .flag ((← theFactory f).isTypeIgnored type)
  | .registerResolvable type source => withSource "resolvable" source fun i => do
    note (.resolvableRegistered type)
    updateFactory f fun f => { f with resolvable := f.resolvable.insert type i }
    return .done
  | .findResolvable type => return .optionalBean ((← theFactory f).findResolvable type)
  | .setCandidateRule rule => do
    updateFactory f fun f => { f with candidateRule := rule }
    return .done
  | .isCandidate name type => answerQuery (isCandidate env f name type) .flag
  -- lifecycle
  | .freeze => do
    freeze f
    return .flag (← theFactory f).frozen
  | .clearCache => do
    clearMetadata f
    return .done
  | .preInstantiate => answerAct (preInstantiate env again f) fun _ => .done
  | .destroySingleton name => return answerFailures (← destroyCascade env again f name)
  | .destroySingletons => return answerFailures (← destroyAll env again f)
  | .destroyBean name source => withSource name source fun i =>
    answerAct (destroyBean env again f name i) fun _ => .done
  | .destroyScoped name => answerAct (destroyScoped env again f name) fun _ => .done

/-- Makes the bean that a scope asks for: reports that it was asked, then fails with the given
text or makes an instance. -/
def makeForScope (name : String) (spec : BeanSpec) (failure : Option String) : Act Instance := do
  write (.event (.scopeMake name))
  match failure with
  | some text => throw (.illegalState (.other text))
  | none => modifyGet fun s => s.make name spec

/-- The answer to clearing a scope. -/
def answerCleared (scope : Scope) (results : List (String × Option Failure)) : Answer :=
  match scope with
  | .inMemory .. =>
    answerFailures (results.filterMap fun r => r.2.map fun failure => .destructionOf r.1 failure)
  | .transient _ => .callbacks (results.map fun r => (r.1, r.2.map Failure.message))

/-- What can be seen of a scope. -/
def Scope.info : Scope → ScopeInfo
  | inMemory name instances callbacks =>
    { memory := some (name, instances.size, (inMemory name instances callbacks).written)
      conversation := true }
  | transient _ => { memory := none, conversation := false }

/-- The numbers of the processors and scopes that a plan names by label, if all of them exist. -/
def BootstrapPlan.labels (plan : BootstrapPlan) (s : Session) :
    Option (Option FactoryId × List ProcessorId × List (String × ScopeId)) := do
  let parent ← match plan.parent with
    | some label => (s.factoryLabels.get? label).map some
    | none => some none
  let processors ← plan.processors.mapM fun label => s.processorLabels.get? label
  let scopes ← plan.scopes.mapM fun (name, label) =>
    (s.scopeLabels.get? label).map fun k => (name, k)
  return (parent, processors, scopes)

/-- What can be asked of a session, and the answer. -/
def performOnce : Operation → Effect Answer
  | .newFactory label settings constructor => do
    let f ← modifyGet fun s => s.addFactory { settings, constructor }
    note .factoryCreated
    modify fun s => { s with factoryLabels := s.factoryLabels.insert label f }
    return .done
  | .newProcessor processor => do
    modify fun s => { s with
      processors := s.processors ++ [processor]
      processorLabels := s.processorLabels.insert processor.label s.processors.length }
    return .done
  | .newScope label name => do
    modify fun s => { s with
      scopes := s.scopes ++ [match name with
        | some name => .newInMemory name
        | none => .newTransient]
      scopeLabels := s.scopeLabels.insert label s.scopes.length }
    return .done
  | .scopeGet scope name spec failure => do
    withLabel scope ((← get).scopeLabels.get? scope) fun k =>
      answerAct (Scope.getOrMake k name (makeForScope name spec failure)) fun r => .bean r.1
  | .scopeRemove scope name => do
    withLabel scope ((← get).scopeLabels.get? scope) fun k => do
      return .optionalBean (← modifyGet fun s => s.takeFrom k name)
  | .scopeCallback scope name failure => do
    withLabel scope ((← get).scopeLabels.get? scope) fun k => do
      modify fun s => s.setScope k ((s.scope k).addCallback name (.report name failure))
      return .done
  | .scopeClear scope => do
    withLabel scope ((← get).scopeLabels.get? scope) fun k => do
      let cleared := (← get).scope k
      return answerCleared cleared (← clearScope env again k)
  | .scopeInfo scope => do
    withLabel scope ((← get).scopeLabels.get? scope) fun k => do
      return .scope ((← get).scope k).info
  | .bootstrap label plan => do
    match plan.labels (← get) with
    | none => return .unknown label
    | some (parent, processors, scopes) =>
      match ← (bootstrap env again plan parent processors scopes).run with
      | .ok (f, settings) => do
        modify fun s => { s with
          factoryLabels := s.factoryLabels.insert label f
          started := s.started.insert label (f, settings) }
        return .done
      | .error e => return .startFailed e
  | .describeBootstrap plan => return .text plan.written
  | .shutdown label => do
    match (← get).started.get? label with
    | none => return .unknown label
    | some (f, _) =>
      match ← (shutdown env again f).run with
      | .ok _ => return .done
      | .error e => return .startFailed e
  | .bootSettings label => do
    match (← get).started.get? label with
    | none => return .unknown label
    | some (_, settings) => return .settings settings
  | .on label call => do
    withLabel label ((← get).factoryLabels.get? label) fun f => callFactory env again f call

/-- The ways back into a session, for calls that nest at most so deeply. -/
def reentry : Nat → Reentry
  | 0 =>
    ⟨fun _ _ => ExceptT.mk fun _ => none, fun _ _ _ => none, fun _ _ _ _ _ => none,
      fun _ _ => none⟩
  | depth + 1 => {
    lookup := fun f name => lookup env (reentry depth) f name
    destroy := fun f name => destroyCascade env (reentry depth) f name
    reset := fun f name destroySingleton visited =>
      resetDefinition (reentry depth) f name destroySingleton visited
    perform := fun operation => performOnce env (reentry depth) operation }

/-- Performs an operation in a session, with calls nesting at most so deeply. -/
def perform (depth : Nat) (operation : Operation) (s : Session) : Option (Answer × Session) :=
  performOnce env (reentry env depth) operation s

/-- A session with one factory, labelled `main`, that has a constructor. -/
def Session.initial : Session where
  factories := [{ constructor := some (.scripted "main") }]
  factoryLabels := OrderedMap.ofList [("main", 0)]

end BeanContainer
