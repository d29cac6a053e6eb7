import BeanContainer.Error
import BeanContainer.Text.Blank

/-!
The settings of an application: four switches of its factory and three of its
log. Whatever a source leaves out has its default.
-/

namespace BeanContainer

/-- The switches of a factory. -/
structure FactorySettings where
  /-- A definition may be replaced by one of the same name. -/
  allowDefinitionOverriding : Bool := true
  /-- An alias may be re-pointed to another name. -/
  allowAliasOverriding : Bool := true
  /-- Merged definitions are cached. -/
  cacheMetadata : Bool := true
  /-- A frozen factory refuses changes to its definitions. -/
  rejectMutationAfterFreeze : Bool := true
deriving DecidableEq, Inhabited, Repr

/-- The switches of the log. -/
structure LoggingSettings where
  /-- A level, or a list of directives that give levels to parts of the program. -/
  level : String := "info"
  jsonFormat : Bool := false
  showTarget : Bool := true
deriving DecidableEq, Inhabited, Repr

/-- All settings of an application. -/
structure ApplicationSettings where
  factory : FactorySettings := {}
  logging : LoggingSettings := {}
deriving DecidableEq, Inhabited, Repr

/-- Refuses settings without a log level. -/
def ApplicationSettings.validate (s : ApplicationSettings) : Except ConfigError Unit :=
  if Text.isBlank s.logging.level then .error (.invalid "logging.level 不能为空") else .ok ()

end BeanContainer
