import BeanContainer.Factory
import BeanContainer.Scope

/-!
A session: factories, scopes and post-processors with the labels they go by,
the instances made so far, and a record of what happened.

Factories, scopes and post-processors are numbered as they are made and never
go away, so a number keeps its meaning when a label moves on. The record grows
at its front.
-/

namespace BeanContainer

/-- Something that happened in a session. -/
inductive Occurrence where
  /-- A collaborator reported something. -/
  | event (event : Event)
  /-- A line went to the log. -/
  | notice (notice : Notice)
  /-- A definition was taken up. -/
  | defined (factory : FactoryId) (name : String)
  /-- An alias was registered. -/
  | aliased (factory : FactoryId) (name altName : String)
  /-- The constructor was called for a bean. -/
  | constructing (factory : FactoryId) (name : String)
  /-- A bean is finished, post-processors included. -/
  | constructed (factory : FactoryId) (name : String) (made : Instance)
  /-- A finished singleton goes into the cache, if its name has none. -/
  | cached (factory : FactoryId) (name : String) (made : Instance)
  /-- A singleton made elsewhere has gone into the cache. -/
  | registered (factory : FactoryId) (name : String) (made : Instance)
  /-- A singleton has left the cache. -/
  | released (factory : FactoryId) (name : String) (victim : Instance)
  /-- A lookup finds a definition, but no singleton. -/
  | missed (factory : FactoryId) (name : String)
  /-- A lookup is answered with a singleton. -/
  | handedOut (factory : FactoryId) (name : String) (found : Instance)
  /-- A factory has taken over the configuration of another one. Tells whether it caches merges from
  now on, and which merges it has cached. -/
  | tookOver (factory source : FactoryId) (caching : Bool) (merged : MergedCache)
  /-- A scope has begun to keep an instance. -/
  | kept (scope : ScopeId) (name : String) (made : Instance)
  /-- An instance has left the scope that kept it. -/
  | left (scope : ScopeId) (name : String) (victim : Instance)
  /-- A singleton was told that all singletons are made. -/
  | announced (factory : FactoryId) (name : String) (hearer : Instance)
  /-- The destruction of an instance begins. -/
  | destroying (name : String) (victim : Instance)
  /-- The destruction of an instance is over. -/
  | destroyed (name : String) (victim : Instance) (failure : Option Failure)
  /-- The destruction of all singletons of a factory begins. -/
  | tearingDown (factory : FactoryId)
  /-- The destruction of all singletons of a factory is over. -/
  | tornDown (factory : FactoryId)

/-- Factories and what belongs to them. -/
structure Session where
  factories : List Factory := []
  scopes : List Scope := []
  processors : List Processor := []
  /-- The instances by number, each with its behaviour. -/
  made : List (Instance × BeanSpec) := []
  /-- The number of merges so far. -/
  merges : Nat := 0
  /-- The merges that were answered, in the order of their first answer. -/
  answered : List Nat := []
  factoryLabels : OrderedMap String FactoryId := {}
  scopeLabels : OrderedMap String ScopeId := {}
  processorLabels : OrderedMap String ProcessorId := {}
  /-- The started applications by label. -/
  started : OrderedMap String (FactoryId × ApplicationSettings) := {}
  /-- What happened, latest first. -/
  record : List Occurrence := []

namespace Session

instance : Inhabited Session := ⟨{}⟩

/-- The factory of a number; an unused number stands for an empty factory. -/
def factory (s : Session) (f : FactoryId) : Factory := s.factories.getD f {}

/-- Changes the factory of a number. -/
def modifyFactory (s : Session) (f : FactoryId) (change : Factory → Factory) : Session :=
  { s with factories := s.factories.modify f change }

/-- Puts a factory in the place of another one. -/
def setFactory (s : Session) (f : FactoryId) (new : Factory) : Session :=
  { s with factories := s.factories.set f new }

/-- Adds a factory under a new number. -/
def addFactory (s : Session) (new : Factory) : FactoryId × Session :=
  (s.factories.length, { s with factories := s.factories ++ [new] })

/-- The scope of a number. -/
def scope (s : Session) (k : ScopeId) : Scope := s.scopes.getD k default

/-- Puts a scope in the place of another one. -/
def setScope (s : Session) (k : ScopeId) (new : Scope) : Session :=
  { s with scopes := s.scopes.set k new }

/-- The post-processor of a number. -/
def processor (s : Session) (p : ProcessorId) : Processor := s.processors.getD p default

/-- The behaviour of an instance. -/
def behaviour (s : Session) (i : Instance) : BeanSpec := ((s.made[i.id]?).map Prod.snd).getD {}

/-- Makes an instance under the next number. -/
def make (s : Session) (name : String) (spec : BeanSpec) : Instance × Session :=
  let i : Instance := ⟨s.made.length, name, spec.kind⟩
  (i, { s with made := s.made ++ [(i, spec)] })

/-- Writes down what happened. -/
def write (s : Session) (o : Occurrence) : Session := { s with record := o :: s.record }

/-- Lets a factory take over the configuration of another one, and writes it down. -/
def takeOver (s : Session) (f source : FactoryId) : Session :=
  let taken := (s.factory f).copyConfiguration (s.factory source)
  (s.setFactory f taken).write (.tookOver f source taken.settings.cacheMetadata taken.merged)

/-- Offers an instance to a scope, and writes it down if the scope keeps it. Answers the instance
that counts. -/
def keepIn (s : Session) (k : ScopeId) (name : String) (made : Instance) : Instance × Session :=
  let (counts, scope) := (s.scope k).keep name made
  let kept := s.setScope k scope
  (counts, if (s.scope k).get? name = none ∧ scope.get? name = some made then
      kept.write (.kept k name made)
    else kept)

/-- Takes an instance out of the scope that keeps it, and writes down that it left. -/
def takeFrom (s : Session) (k : ScopeId) (name : String) : Option Instance × Session :=
  let (victim, scope) := (s.scope k).remove name
  let s := s.setScope k scope
  (victim, match victim with
    | some i => s.write (.left k name i)
    | none => s)

/-- Empties a scope, and writes down what left it, oldest first. -/
def emptyScope (s : Session) (k : ScopeId) : Session :=
  (s.scope k).stored.foldl (fun s e => s.write (.left k e.1 e.2))
    (s.setScope k (s.scope k).emptied)

/-- Writes a number of notices to the log, first to last. -/
def writeNotices (s : Session) (notices : List Notice) : Session :=
  notices.foldl (fun s n => s.write (.notice n)) s

/-- A factory with its ancestors, nearest first, followed for at most a number of links. -/
def chainWithin (s : Session) : Nat → FactoryId → List FactoryId
  | 0, _ => []
  | links + 1, f =>
    match (s.factory f).parent with
    | some p => f :: s.chainWithin links p
    | none => [f]

/-- A factory with its ancestors, nearest first. As no factory is its own ancestor, there are
at most as many as there are factories. -/
def chain (s : Session) (f : FactoryId) : List FactoryId := s.chainWithin s.factories.length f

/-- The number that tells which answers share a merged definition. -/
def answerMerge (s : Session) (serial : Nat) : Nat × Session :=
  match s.answered.idxOf? serial with
  | some ref => (ref, s)
  | none => (s.answered.length, { s with answered := s.answered ++ [serial] })

end Session

/-! ## Computations over a session

Three kinds, by what they may do. A `Query` calls no collaborator, so it always
ends. An `Effect` may call collaborators, which may ask the session again; it
has no result when such calls nest too deeply. An `Act` is an effect that may
fail with a `BeanError`.
-/

/-- A computation that changes a session, fails or not, and calls nobody. -/
abbrev Query := ExceptT BeanError (StateM Session)

/-- A computation that may call collaborators; without result when calls nest too deeply. -/
abbrev Effect := StateT Session Option

/-- An effect that may fail. -/
abbrev Act := ExceptT BeanError Effect

instance : MonadLift (StateM Session) Effect := ⟨fun m s => some (m s)⟩

instance : MonadLift Query Act := ⟨fun q => ExceptT.mk fun s => some (q.run s)⟩

/-- Writes down what happened. -/
def write (o : Occurrence) : StateM Session Unit := modify fun s => s.write o

/-- Writes a line to the log. -/
def note (n : Notice) : StateM Session Unit := write (.notice n)

/-- The factory of a number. -/
def theFactory (f : FactoryId) : StateM Session Factory := do return (← get).factory f

/-- Changes the factory of a number. -/
def updateFactory (f : FactoryId) (change : Factory → Factory) : StateM Session Unit :=
  modify fun s => s.modifyFactory f change

/-- Changes the factory of a number, or fails and changes nothing. -/
def tryUpdate (f : FactoryId) (change : Factory → Except BeanError Factory) : Query Unit := do
  match change (← theFactory f) with
  | .ok new => modify fun s => s.setFactory f new
  | .error e => throw e

/-- Does something that may fail and goes on either way, with its value or its error. -/
def Act.attempt (a : Act α) : Act (Except BeanError α) := ExceptT.mk do return .ok (← a.run)

/-- Continues with a result that may be an error. -/
def Act.ofResult (r : Except BeanError α) : Act α := ExceptT.mk (pure r)

end BeanContainer
