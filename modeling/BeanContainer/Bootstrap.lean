import BeanContainer.Lifecycle
import BeanContainer.Registration
import BeanContainer.Settings.Load

/-!
Starting and stopping an application. Starting reads the settings, makes the
factory, hands it its collaborators, loads the definitions, freezes the
configuration and makes the singletons, in this order; the first failure ends
it. Stopping destroys the singletons.
-/

namespace BeanContainer

/-- An effect that may fail with an infrastructure error. -/
abbrev Startup := ExceptT InfrastructureError Effect

/-- An act as a step of a start. -/
def Startup.ofAct (a : Act α) : Startup α := ExceptT.mk do
  match ← a.run with
  | .ok v => return .ok v
  | .error e => return .error (.bean e)

/-- The settings that count for a start. Settings given outright are taken as they are. -/
def BootstrapPlan.resolveSettings (plan : BootstrapPlan) :
    Except InfrastructureError ApplicationSettings :=
  match plan.settings with
  | some settings => .ok settings
  | none => (Settings.load plan.file []).mapError .config

/-- What comes of starting the log: the library reads the level, then takes over the log. -/
def LogLibrary.outcome (log : LogLibrary) (settings : LoggingSettings) (s : Session) :
    Except InfrastructureError Unit := do
  (log.readLevel settings.level).mapError fun fault =>
    .bootstrapFailed ("日志级别无效 '" ++ settings.level ++ "': " ++ fault)
  (log.start settings s).mapError fun fault => .bootstrapFailed ("日志初始化失败: " ++ fault)

/-- Starts the log. -/
def startLogging (log : LogLibrary) (settings : LoggingSettings) : Startup Unit := do
  ExceptT.mk (pure (log.outcome settings (← get)))
  note .logStarted

variable (env : Collaborators) (again : Reentry)

/-- Starts an application with collaborators that are already numbered. Answers its factory and
its settings. -/
def bootstrap (plan : BootstrapPlan) (parent : Option FactoryId) (processors : List ProcessorId)
    (scopes : List (String × ScopeId)) : Startup (FactoryId × ApplicationSettings) := do
  let settings ← ExceptT.mk (pure plan.resolveSettings)
  if plan.logging then startLogging env.log settings.logging
  let f ← modifyGet fun s => s.addFactory { settings := settings.factory }
  note .factoryCreated
  match parent with
  | some parent => Startup.ofAct (setParent f parent)
  | none => pure ()
  updateFactory f fun f => { f with constructor := plan.constructor }
  updateFactory f fun f => processors.foldl Factory.addProcessor f
  scopes.forM fun (name, k) => Startup.ofAct (registerScope f name k)
  plan.sources.forM fun set => do
    let _ ← Startup.ofAct (loadSet again f set)
  freeze f
  if plan.preInstantiate then Startup.ofAct (preInstantiate env again f)
  return (f, settings)

/-- Stops an application: destroys its singletons and counts the failures. -/
def shutdown (f : FactoryId) : Startup Unit := do
  let failures ← (destroyAll env again f : Effect (List BeanError))
  unless failures.isEmpty do
    throw (.shutdownFailed failures.length)

/-- A plan in messages. -/
def BootstrapPlan.written (plan : BootstrapPlan) : String :=
  Text.record "FactoryBootstrapper"
    [("settings_path", Text.optional (plan.path.map Text.quote)),
      ("logging_enabled", Text.truth plan.logging), ("has_parent", Text.truth plan.parent.isSome),
      ("sources", Text.quotedNames (plan.sources.map DefinitionSet.name)),
      ("scopes", Text.quotedNames (plan.scopes.map Prod.fst)),
      ("post_processors", toString plan.processors.length),
      ("pre_instantiate", Text.truth plan.preInstantiate)]

end BeanContainer
