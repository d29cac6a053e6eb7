import BeanContainer.Script

/-!
Destroying beans. An instance is destroyed by the post-processors that care
for it, then by its own callback; all of them get their turn, and the first
failure counts.

A singleton is destroyed after everything that depends on it. It leaves the
cache, and its edges leave the graph, before its dependents are visited, so a
bean on a circle is visited once.
-/

namespace BeanContainer

variable (env : Collaborators) (again : Reentry)

/-- Lets the post-processors that care for an instance have their turn before its destruction.
Answers the first failure. -/
def runHooks (name : String) (i : Instance) (processors : List ProcessorId) :
    Effect (Option Failure) :=
  processors.foldlM (fun first p => do
    let processor := (← get).processor p
    match env.caresFor processor with
    | none => return first
    | some caresFor =>
      if caresFor i then
        match ← runScript again (env.beforeDestruction processor i name) with
        | .ok _ => return first
        | .error failure =>
          note (.hookFailed name failure)
          return first <|> some failure
      else return first) none

/-- Destroys an instance. Answers the first failure. -/
def destroyInstance (name : String) (i : Instance) (processors : List ProcessorId) :
    Effect (Option Failure) := do
  write (.destroying name i)
  let hooks ← runHooks env again name i processors
  let own ← if i.kind.isDisposable then do
      note (.callingDestroy name)
      match ← runScript again (env.destroy i ((← get).behaviour i)) with
      | .ok _ => pure none
      | .error failure => pure (some failure)
    else pure none
  let failure := hooks <|> own
  write (.destroyed name i failure)
  return failure

/-- Whether an instance has to hear of its end: by itself or by a post-processor. -/
def requiresDestruction (f : FactoryId) (i : Instance) : StateM Session Bool := do
  let s ← get
  return i.kind.isDisposable || (s.factory f).processors.any fun p =>
    (env.caresFor (s.processor p)).any fun caresFor => caresFor i

/-- Takes a singleton out of the cache of a factory, and writes down that it left. -/
def Session.release (s : Session) (f : FactoryId) (name : String) : Option Instance × Session :=
  let (victim, factory) := (s.factory f).takeSingleton name
  let s := s.setFactory f factory
  (victim, match victim with
    | some i => s.write (.released f name i)
    | none => s)

/-- Drops all singletons of a factory, and writes down that they left, oldest first. -/
def Session.releaseAll (s : Session) (f : FactoryId) : Session :=
  let left := (s.factory f).singletons.objects.entries
  left.foldl (fun s e => s.write (.released f e.1 e.2)) (s.modifyFactory f Factory.dropSingletons)

/-- Destroys the singleton of a name after everything that depends on it. Answers the failures,
in the order of the destructions. -/
def destroyCascade (f : FactoryId) (name : String) : Effect (List BeanError) := do
  let victim ← modifyGet fun s => s.release f name
  let dependents ← modifyGet fun s =>
    let factory := s.factory f
    let (taken, dependencies) := factory.dependencies.takeDependents name
    (taken, s.setFactory f { factory with dependencies })
  unless dependents.isEmpty do
    note (.dependentsFirst name dependents)
  let before ← dependents.foldlM (fun failures d => do
    return failures ++ (← again.destroy f d)) []
  let own ← match victim with
    | none => pure []
    | some i =>
      match ← destroyInstance env again name i (← theFactory f).processors with
      | none => pure []
      | some failure => do
        note (.singletonFailed name failure)
        pure [BeanError.destructionOf name failure]
  updateFactory f fun f => { f with dependencies := f.dependencies.removeBean name }
  return before ++ own

/-- Destroys all singletons of a factory, the newest first as far as their dependencies leave
it open. No singleton is made meanwhile. Answers the failures, in order. -/
def destroyAll (f : FactoryId) : Effect (List BeanError) := do
  write (.tearingDown f)
  updateFactory f fun f => { f with singletons := f.singletons.setInDestruction true }
  note .destructionStarted
  let names := (← theFactory f).singletons.names
  let failures ← names.reverse.foldlM (fun failures name => do
    return failures ++ (← destroyCascade env again f name)) []
  modify fun s => s.releaseAll f
  note (if failures.isEmpty then .destructionFinished else .destructionIncomplete)
  write (.tornDown f)
  return failures

/-- Destroys a given instance. -/
def destroyBean (f : FactoryId) (name : String) (i : Instance) : Act Unit := do
  match ← destroyInstance env again name i (← theFactory f).processors with
  | none => return
  | some failure => throw (.destructionOf name failure)

/-- Runs a callback of a scope. Answers its failure. -/
def runCallback : ScopeCallback → Effect (Option Failure)
  | .destroyBean bean i processors => destroyInstance env again bean i processors
  | .report name failure => do
    write (.event (.callback name))
    return failure.map .text

/-- Clears a scope: nothing is kept any more, and every callback runs. Answers the names of the
callbacks in the order in which they ran, each with its failure. -/
def clearScope (k : ScopeId) : Effect (List (String × Option Failure)) := do
  let scope := (← get).scope k
  modify fun s => s.emptyScope k
  let results ← scope.pending.mapM fun (name, callback) => do
    let failure ← runCallback env again callback
    match scope, failure with
    | .inMemory scopeName _ _, some failure => note (.scopedFailed scopeName name failure)
    | _, _ => pure ()
    return (name, failure)
  match scope with
  | .inMemory scopeName _ _ => note (.scopeCleared scopeName)
  | .transient _ => pure ()
  return results

end BeanContainer
