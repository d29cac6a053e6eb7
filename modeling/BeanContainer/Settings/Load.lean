import BeanContainer.Number.Shortest
import BeanContainer.Operation
import BeanContainer.Settings.Json
import BeanContainer.Settings.Path
import BeanContainer.Settings.Toml
import BeanContainer.Text.Replace

/-!
Loading the settings of an application from a file and from the environment.

Both fill one tree of values. A name of the environment gives its path after
the prefix, with two underscores between the parts, and counts for more than the
file. The tree is then read as settings: what it lacks has its default, what it
has beyond them is ignored, and a scalar may be written as another kind of
scalar where that makes sense.
-/

namespace BeanContainer.Settings

/-! ## The tree of values -/

/-- The tree that the fields of a file make. -/
def treeOfFile (fields : List (String × Value)) : Value :=
  fields.foldl (fun tree f => put f.2 (pathOf f.1) (some tree)) (.object [])

/-- What the names of the environment that concern the application start with. -/
def environmentStart : String := "adsp__"

/-- The path that a name of the environment gives, if it concerns the application. Case does
not count. -/
def environmentPath (name : String) : Option (List Step) :=
  let name := (lower name).toList
  if environmentStart.toList.isPrefixOf name then
    let rest := String.ofList (name.drop environmentStart.length)
    some (pathOf (Text.replaceAll rest "__" "."))
  else none

/-- Lays the environment over a tree; all its values are texts. A name that stands in it twice
keeps its place and takes the later value. -/
def withEnvironment (environment : List (String × String)) (tree : Value) : Value :=
  (OrderedMap.ofList environment).entries.foldl (fun tree (name, v) =>
    match environmentPath name with
    | some path => put (.text v) path (some tree)
    | none => tree) tree

/-! ## Settings from a tree -/

/-- A switch: a truth value, a word for one, or a number, of which zero is off. -/
def toSwitch : Value → Except ConfigError Bool
  | .bool b => .ok b
  | .int n => .ok (n ≠ 0)
  | .real x => .ok !x.isZero
  | .text s =>
    let word := s.toLower
    if ["1", "true", "on", "yes"].contains word then .ok true
    else if ["0", "false", "off", "no"].contains word then .ok false
    else .error .unreadable
  | _ => .error .unreadable

/-- A text; a number or a truth value is written out. -/
def toText : Value → Except ConfigError String
  | .text s => .ok s
  | .bool b => .ok (Text.truth b)
  | .int n => .ok (toString n)
  | .real x => .ok x.text
  | _ => .error .unreadable

/-- How a group of settings is given: by name, or as a list in the order of the names. -/
def groupOf (names : List String) : Value → Except ConfigError (String → Option Value)
  | .object fields => .ok fun name => fields.lookup name
  | .list items => .ok fun name => (names.zip items).lookup name
  | _ => .error .unreadable

/-- A setting of a group, or its default. -/
def setting (convert : Value → Except ConfigError α) (group : String → Option Value)
    (name : String) (default : α) : Except ConfigError α :=
  match group name with
  | some v => convert v
  | none => .ok default

/-- The switches of a factory. -/
def toFactorySettings (v : Value) : Except ConfigError FactorySettings := do
  let group ← groupOf ["allow_bean_definition_overriding", "allow_alias_overriding",
    "cache_bean_metadata", "reject_mutation_after_freeze"] v
  return {
    allowDefinitionOverriding := ← setting toSwitch group "allow_bean_definition_overriding" true
    allowAliasOverriding := ← setting toSwitch group "allow_alias_overriding" true
    cacheMetadata := ← setting toSwitch group "cache_bean_metadata" true
    rejectMutationAfterFreeze := ← setting toSwitch group "reject_mutation_after_freeze" true }

/-- The switches of the log. -/
def toLoggingSettings (v : Value) : Except ConfigError LoggingSettings := do
  let group ← groupOf ["level", "json_format", "show_target"] v
  return {
    level := ← setting toText group "level" "info"
    jsonFormat := ← setting toSwitch group "json_format" false
    showTarget := ← setting toSwitch group "show_target" true }

/-- All settings. -/
def toApplicationSettings (v : Value) : Except ConfigError ApplicationSettings := do
  let group ← groupOf ["factory", "logging"] v
  return {
    factory := ← setting toFactorySettings group "factory" {}
    logging := ← setting toLoggingSettings group "logging" {} }

/-! ## Loading -/

/-- The text without the mark that may tell its encoding. -/
def withoutMark (s : String) : String :=
  match s.toList with
  | c :: rest => if c.toNat = 0xFEFF then String.ofList rest else s
  | [] => s

/-- The tree of a file, which must hold an object. Only TOML may start with a mark. -/
def readFile (file : SettingsFile) : Except ConfigError Value :=
  match if file.isJson then Json.read file.text else Toml.read (withoutMark file.text) with
  | some (.object fields) => .ok (treeOfFile fields)
  | _ => .error .unreadable

/-- Loads the settings from a file, which may be missing, and the environment. -/
def load (file : Option SettingsFile) (environment : List (String × String)) :
    Except ConfigError ApplicationSettings := do
  let tree ← match file with
    | some file => readFile file
    | none => .ok (.object [])
  let settings ← toApplicationSettings (withEnvironment environment tree)
  settings.validate
  return settings

/-- Loads the settings from a file that must exist, and the environment. A missing file is
reported by its path. -/
def loadRequired (file : Option SettingsFile) (path : String)
    (environment : List (String × String)) : Except ConfigError ApplicationSettings :=
  match file with
  | some file => load (some file) environment
  | none => .error (.fileNotFound path)

end BeanContainer.Settings
