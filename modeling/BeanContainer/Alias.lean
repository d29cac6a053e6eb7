import BeanContainer.Collection.OrderedMap
import BeanContainer.Error
import BeanContainer.Text.Blank

/-!
Aliases: a map from alias to the name it stands for, in registration order. A
name may itself be an alias, so aliases form chains; registering keeps them
free of circles.

Searches run backwards, from a name to the aliases that stand for it. Each
step of a search uses up one entry of the map, which bounds its depth even on
a map with a circle, as resolving all aliases can leave one behind.
-/

namespace BeanContainer

/-- The aliases of a factory. -/
structure AliasMap where
  /-- Each alias with the name it stands for. -/
  toMap : OrderedMap String String := {}
deriving DecidableEq, Inhabited

namespace AliasMap

/-- The aliases with their names, in registration order. -/
def entries (m : AliasMap) : List (String × String) := m.toMap.entries

/-- Whether a name is an alias. -/
def isAlias (m : AliasMap) (name : String) : Bool := m.toMap.contains name

/-- What a name stands for after at most a number of steps along its chain. -/
def follow (m : AliasMap) : Nat → String → String
  | 0, name => name
  | steps + 1, name =>
    match m.toMap.get? name with
    | some next => m.follow steps next
    | none => name

/-- The name at the end of the chain that starts at a name. The bound is one more than the
longest chain without a circle. -/
def canonical (m : AliasMap) (name : String) : String := m.follow (m.toMap.size + 1) name

/-- Whether an alias stands for a name, directly or through other aliases, by entries of a
list; at most `depth` entries are used on one way. -/
def reaches (entries : List (String × String)) (altName : String) : Nat → String → Bool
  | 0, _ => false
  | depth + 1, name =>
    entries.any fun e => e.2 = name && (e.1 = altName || reaches entries altName depth e.1)

/-- Whether an alias stands for a name, directly or through other aliases. -/
def hasAlias (m : AliasMap) (name altName : String) : Bool :=
  reaches m.entries altName m.toMap.size name

/-- The aliases that stand for a name by entries of a list, each followed by those that stand
for it; at most `depth` entries are used on one way. -/
def collect (entries : List (String × String)) : Nat → String → List String
  | 0, _ => []
  | depth + 1, name =>
    entries.flatMap fun e => if e.2 = name then e.1 :: collect entries depth e.1 else []

/-- All aliases of a name, also those of its aliases. -/
def aliasesOf (m : AliasMap) (name : String) : List String :=
  collect m.entries m.toMap.size name

/-- Refuses a new alias for a name that is itself an alias of it. -/
def checkCircle (m : AliasMap) (name altName : String) : Except BeanError Unit :=
  if m.hasAlias altName name then .error (.illegalState (.aliasCircle name altName)) else .ok ()

/-- Registers an alias. A name as its own alias removes that alias; a known alias is
re-pointed only if that is allowed; no circle may arise. -/
def register (m : AliasMap) (name altName : String) (allowOverriding : Bool) :
    Except BeanError AliasMap := do
  if Text.isBlank name || Text.isBlank altName then
    throw (.illegalArgument .blankAlias)
  if altName = name then
    return ⟨m.toMap.erase altName⟩
  match m.toMap.get? altName with
  | some registered =>
    if registered = name then return m
    unless allowOverriding do
      throw (.illegalState (.aliasTaken name altName registered))
  | none => pure ()
  m.checkCircle name altName
  return ⟨m.toMap.insert altName name⟩

/-- Removes an alias. -/
def remove (m : AliasMap) (altName : String) : Except BeanError AliasMap :=
  if m.isAlias altName then .ok ⟨m.toMap.erase altName⟩
  else .error (.illegalState (.aliasUnknown altName))

/-- Resolves one entry of the map inside a working copy. An entry that resolves to nothing, or
to a name as its own alias, goes; one whose alias stays takes its new name in place; one whose
alias changes moves to the end, unless the new alias is there already: for the same name the
old entry just goes, for another one nothing is resolved. -/
def resolveEntry (resolve : String → Option String) (working : AliasMap)
    (entry : String × String) : Except BeanError AliasMap :=
  let (altName, name) := entry
  match resolve altName, resolve name with
  | some newAlias, some newName =>
    if newAlias = newName then .ok ⟨working.toMap.erase altName⟩
    else if newAlias = altName then
      if name = newName then .ok working else .ok ⟨working.toMap.insert altName newName⟩
    else
      match working.toMap.get? newAlias with
      | some existing =>
        if existing = newName then .ok ⟨working.toMap.erase altName⟩
        else .error (.illegalState (.aliasConflict newAlias altName existing newName))
      | none => do
        working.checkCircle newName newAlias
        return ⟨(working.toMap.erase altName).insert newAlias newName⟩
  | _, _ => .ok ⟨working.toMap.erase altName⟩

/-- Resolves every entry, one after another on a working copy. -/
def resolve (m : AliasMap) (resolver : String → Option String) : Except BeanError AliasMap :=
  m.entries.foldlM (resolveEntry resolver) m

end AliasMap

end BeanContainer
