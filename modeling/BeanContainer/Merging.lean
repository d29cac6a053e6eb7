import BeanContainer.Session

/-!
Merging definitions. A definition with a parent is merged with its merged
parent. The parent's name is looked up among the factory's own definitions
first; a definition that names itself, or a name defined elsewhere, as its
parent gets it from the parent factory.

As a definition has one parent at most, the definitions to merge lie on a line.
`Factory.lineage` walks down that line without changing anything, and the merge
climbs back up.
-/

namespace BeanContainer

/-- The line of definitions from one name up to where merging can start. -/
inductive Lineage where
  /-- The name has a cached merge. -/
  | cached (merged : MergedRef)
  /-- A definition without a parent. -/
  | root (name : String) (definition : Definition)
  /-- A definition whose parent is the rest of the line. -/
  | child (name : String) (definition : Definition) (above : Lineage)
  /-- A definition whose parent the parent factory has to know. -/
  | beyond (name : String) (definition : Definition) (parent : String)
  /-- A name that was on the line before; with the line up to it. -/
  | cycle (name : String) (path : List String)
  /-- A name that nothing defines. -/
  | missing (name : String)
deriving DecidableEq

/-- Walks from a name along its parents. `path` holds the names passed so far. A line of at
most `steps` names is walked before it must have met one of them again. -/
def Factory.walk (f : Factory) : Nat → List String → String → Lineage
  | 0, path, name => .cycle name (path ++ [name])
  | steps + 1, path, name =>
    if path.contains name then .cycle name (path ++ [name])
    else
      match f.merged.get? name with
      | some merged => .cached merged
      | none =>
        match f.definitions.get? name with
        | none => .missing name
        | some d =>
          match d.parent with
          | none => .root name d
          | some p =>
            let parent := f.canonical p
            if parent ≠ name && f.definitions.contains parent then
              .child name d (f.walk steps (path ++ [name]) parent)
            else .beyond name d parent

/-- The line of definitions that starts at a name. -/
def Factory.lineage (f : Factory) (name : String) : Lineage :=
  f.walk (f.definitions.size + 1) [] name

/-- Takes up the merge of a name: settles it, gives it a number, and offers it to the cache. -/
def settleMerge (f : FactoryId) (name : String) (m : MergedDefinition) :
    StateM Session MergedRef := do
  let factory ← theFactory f
  let settled := factory.settle m
  let serial ← modifyGet fun s => (s.merges, { s with merges := s.merges + 1 })
  note (.definitionMerged name settled.scope)
  let ref : MergedRef := ⟨serial, settled⟩
  if factory.settings.cacheMetadata then
    let (kept, merged) :=
      factory.merged.insertIfCurrent name ref factory.definitions.generation factory.definitions
    updateFactory f fun f => { f with merged }
    return kept
  else return ref

/-- Asks the parent factory for a merged parent. What it does not know either is reported of
the definition that asked. -/
def mergedAbove (above : Option (String → Query MergedRef)) (name parent : String) :
    Query MergedRef :=
  match above with
  | none =>
    throw (.definitionStore name
      (if parent = name then .selfParent parent else .parentMissing parent))
  | some ask =>
    tryCatch (ask parent) fun
      | .noSuchDefinition _ => throw (.definitionStore name (.parentMissingAbove parent))
      | e => throw e

/-- Merges the definitions of a line, the one farthest up first. -/
def mergeAlong (f : FactoryId) (above : Option (String → Query MergedRef)) :
    Lineage → Query MergedRef
  | .cached merged => pure merged
  | .root name d => settleMerge f name (.ofRoot name d)
  | .child name d line => do
    let parent ← mergeAlong f above line
    settleMerge f name (.ofParent name parent.definition d)
  | .beyond name d parentName => do
    let parent ← mergedAbove above name parentName
    settleMerge f name (.ofParent name parent.definition d)
  | .cycle name path => throw (.definitionStore name (.parentCycle path))
  | .missing name => throw (.noSuchDefinition name)

/-- Merges a definition of a factory itself. -/
def mergeLocal (f : FactoryId) (above : Option (String → Query MergedRef)) (name : String) :
    Query MergedRef := do
  mergeAlong f above ((← theFactory f).lineage name)

/-- The merged definition of a name, looked for along a chain of factories. Each factory first
replaces the name by what it stands for there. -/
def mergedIn : List FactoryId → String → Query MergedRef
  | [], name => throw (.noSuchDefinition name)
  | f :: ancestors, name => do
    let factory ← theFactory f
    let bean := factory.canonical name
    let above := match ancestors with
      | [] => none
      | _ :: _ => some (mergedIn ancestors)
    if factory.definitions.contains bean then mergeLocal f above bean
    else
      match above with
      | none => throw (.noSuchDefinition name)
      | some ask => ask bean

/-- The merged definition of a name, in a factory or above it. -/
def mergedDefinition (f : FactoryId) (name : String) : Query MergedRef := do
  mergedIn ((← get).chain f) name

/-- The merged definition of a name that the factory itself should define. -/
def mergedOwn (f : FactoryId) (name : String) : Query MergedRef := do
  match (← get).chain f with
  | [] | [_] => mergeLocal f none name
  | _ :: ancestors => mergeLocal f (some (mergedIn ancestors)) name

end BeanContainer
