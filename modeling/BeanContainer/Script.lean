import BeanContainer.Session

/-!
Collaborators: constructors, post-processors, the callbacks of instances, and
the library that writes the log.

Constructors, post-processors and callbacks answer a call with a `Script`: a
tree that says what they do next, depending on the answers they got so far,
until they end or fail. Scripts reach the session only through its operations,
so statements about all scripts are also about collaborators that ask the
factory that is calling them. They are not about collaborators that remember
something from one call to the next: a script depends on what the call hands
over and on what the session answers, and on nothing else.

Other collaborators are plain functions, which cannot ask the session anything
or change it: which instances a post-processor cares for (`caresFor`), value
resolvers, type resolvers and candidate rules. The library that writes the log
(`LogLibrary`) may refuse to start by anything that has happened before.
-/

namespace BeanContainer

/-- What a collaborator does in answer to a call. -/
inductive Script (α : Type) where
  /-- It ends with a result. -/
  | done (result : α)
  /-- It fails. -/
  | fail (failure : Failure)
  /-- It reports something and goes on. -/
  | emit (event : Event) (next : Script α)
  /-- It makes a new instance. -/
  | make (name : String) (spec : BeanSpec) (next : Instance → Script α)
  /-- It looks up a bean in a factory it was given. -/
  | lookup (factory : FactoryId) (name : String) (next : Except BeanError Instance → Script α)
  /-- It performs an operation. -/
  | perform (operation : Operation) (next : Answer → Script α)

namespace Script

/-- Whether a script never turns to the session, whatever happens. -/
inductive Quiet : Script α → Prop where
  | done (result : α) : Quiet (done result)
  | fail (failure : Failure) : Quiet (fail failure)
  | emit {event : Event} {next : Script α} : Quiet next → Quiet (emit event next)
  | make {name : String} {spec : BeanSpec} {next : Instance → Script α} :
      (∀ i, Quiet (next i)) → Quiet (make name spec next)

/-- One script after another. -/
def bind : Script α → (α → Script β) → Script β
  | done result, k => k result
  | fail failure, _ => fail failure
  | emit event next, k => emit event (next.bind k)
  | make name spec next, k => make name spec fun i => (next i).bind k
  | lookup factory name next, k => lookup factory name fun r => (next r).bind k
  | perform operation next, k => perform operation fun a => (next a).bind k

instance : Monad Script where
  pure := done
  bind := bind

end Script

/-- The library that writes the log. Where it refuses something, it says why. -/
structure LogLibrary where
  /-- Reads a level setting. -/
  readLevel : String → Except String Unit
  /-- Takes over the log of the process. A process has one log at most. -/
  start : LoggingSettings → Session → Except String Unit

/-- The collaborators of a session. -/
structure Collaborators where
  /-- The type of the instances of a kind. -/
  typeOf : Kind → TypeInfo
  /-- Makes an instance for a bean of a factory. -/
  construct : Constructor → FactoryId → String → MergedDefinition → Script Instance
  /-- What a post-processor makes of an instance before its initialization. -/
  before : Processor → Instance → String → Script Instance
  /-- What a post-processor makes of an instance after its initialization. -/
  after : Processor → Instance → String → Script Instance
  /-- Whether a post-processor takes part in destructions, and then in which. -/
  caresFor : Processor → Option (Instance → Bool)
  /-- What a post-processor does before the destruction of an instance. -/
  beforeDestruction : Processor → Instance → String → Script Unit
  /-- The destroy callback of an instance. -/
  destroy : Instance → BeanSpec → Script Unit
  /-- The callback of an instance when all singletons are made. -/
  ready : Instance → BeanSpec → Script Unit
  /-- Writes the log. -/
  log : LogLibrary

/-- The ways back into the session that are open to collaborators, and to the session itself
where one bean leads to the next. -/
structure Reentry where
  /-- Looks up a bean of a factory. -/
  lookup : FactoryId → String → Act Instance
  /-- Destroys a singleton after everything that depends on it; answers the failures. -/
  destroy : FactoryId → String → Effect (List BeanError)
  /-- Resets what was derived from a definition, and what was derived from its children; takes
  and answers the names already reset. -/
  reset : FactoryId → String → Bool → OrderedSet String → Effect (OrderedSet String)
  /-- Performs an operation. -/
  perform : Operation → Effect Answer

/-- Follows a script to its end. -/
def runScript (again : Reentry) : Script α → Effect (Except Failure α)
  | .done result => pure (.ok result)
  | .fail failure => pure (.error failure)
  | .emit event next => do
    write (.event event)
    runScript again next
  | .make name spec next => do
    let i ← modifyGet fun s => s.make name spec
    runScript again (next i)
  | .lookup factory name next => do
    let r ← (again.lookup factory name).run
    runScript again (next r)
  | .perform operation next => do
    let a ← again.perform operation
    runScript again (next a)

end BeanContainer
