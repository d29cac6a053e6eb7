import BeanContainer.Merging

/-!
Merges and replacements of definitions that run at the same time.

A merge and a replacement are both several calls on the definitions and the
cached merges of a factory, and when threads run them, other calls come in
between. Here every call is one step. A `Merger` and a `Replacer` remember what
they have read and what they are about to do; a `Workshop` is a factory with
those that work on it, and a list of `Turn`s says who makes the next step. What
the factories above merge a name to is given and does not change.
-/

namespace BeanContainer

/-- A definition that waits for its merged parent, with the generation at which it was read. -/
structure Awaiting where
  name : String
  generation : Nat
  definition : Definition
deriving DecidableEq

/-- What a merger is about to do. -/
inductive MergeStage where
  /-- To look for the cached merge of a name. -/
  | seek (name : String)
  /-- To read the definition of a name that has no cached merge. -/
  | read (name : String)
  /-- To offer a merge of a name to the cache, as of the generation it started from. -/
  | offer (name : String) (generation : Nat) (merged : MergedRef)
  /-- Nothing any more; without an answer, merging failed. -/
  | ended (answer : Option MergedRef)
deriving DecidableEq

/-- A merge in progress. -/
structure Merger where
  /-- The definitions that wait for their parents, the last one read first. -/
  awaiting : List Awaiting := []
  stage : MergeStage
deriving DecidableEq

/-- A replacement in progress. -/
inductive Replacer where
  /-- It is about to take up the definition. -/
  | define (name : String) (definition : Definition)
  /-- It is about to drop the merges of names, except of those already visited. -/
  | visit (names : List String) (visited : OrderedSet String)
  /-- It has dropped the merge of a name and is about to look for the children. -/
  | descend (name : String) (names : List String) (visited : OrderedSet String)

/-- What mergers and replacers share: a factory, and the number of merges so far. -/
structure Bench where
  factory : Factory
  merges : Nat := 0

namespace Merger

/-- Settles and numbers a merge, which is to be offered next. -/
def build (b : Bench) (awaiting : List Awaiting) (name : String) (generation : Nat)
    (m : MergedDefinition) : Bench × Merger :=
  ({ b with merges := b.merges + 1 },
    ⟨awaiting, .offer name generation ⟨b.merges, b.factory.settle m⟩⟩)

/-- Hands a merge to the definition that waits for it. -/
def deliver (b : Bench) (merged : MergedRef) : List Awaiting → Bench × Merger
  | [] => (b, ⟨[], .ended (some merged)⟩)
  | w :: awaiting =>
    build b awaiting w.name w.generation (.ofParent w.name merged.definition w.definition)

/-- One step of a merge. -/
def step (above : String → Option MergedDefinition) (b : Bench) (m : Merger) : Bench × Merger :=
  match m.stage with
  | .seek name =>
    if (m.awaiting.map Awaiting.name).contains name then (b, ⟨[], .ended none⟩)
    else
      match b.factory.merged.get? name with
      | some merged => deliver b merged m.awaiting
      | none => (b, ⟨m.awaiting, .read name⟩)
  | .read name =>
    let store := b.factory.definitions
    match store.get? name with
    | none => (b, ⟨[], .ended none⟩)
    | some d =>
      match d.parent with
      | none => build b m.awaiting name store.generation (.ofRoot name d)
      | some p =>
        let parent := b.factory.canonical p
        if parent ≠ name && store.contains parent then
          (b, ⟨⟨name, store.generation, d⟩ :: m.awaiting, .seek parent⟩)
        else
          match above parent with
          | none => (b, ⟨[], .ended none⟩)
          | some merged => build b m.awaiting name store.generation (.ofParent name merged d)
  | .offer name generation merged =>
    if b.factory.settings.cacheMetadata then
      let (kept, cache) :=
        b.factory.merged.insertIfCurrent name merged generation b.factory.definitions
      deliver { b with factory := { b.factory with merged := cache } } kept m.awaiting
    else deliver b merged m.awaiting
  | .ended _ => (b, m)

/-- The cached merge that the next step takes up for a definition to be laid over it. -/
def takesUp? (F : Factory) (m : Merger) : Option (String × MergedRef) :=
  match m.awaiting, m.stage with
  | [], _ => none
  | w :: awaiting, .seek name =>
    if ((w :: awaiting).map Awaiting.name).contains name then none
    else (F.merged.get? name).map fun merged => (name, merged)
  | _ :: _, .offer name generation _ =>
    if F.settings.cacheMetadata && F.definitions.generation = generation then
      (F.merged.get? name).map fun merged => (name, merged)
    else none
  | _ :: _, _ => none

end Merger

/-- The definitions that name another one as their parent, in order. -/
def Factory.children (F : Factory) (name : String) : List String :=
  (F.definitions.definitions.entries.filter fun e => e.1 ≠ name && F.isChildOf e.2 name).map Prod.fst

namespace Replacer

/-- One step of a replacement. A definition that is refused is the end of it. -/
def step (F : Factory) : Replacer → Factory × Replacer
  | .define name d =>
    match F.define name d with
    | .ok F => (F, .visit [name] {})
    | .error _ => (F, .visit [] {})
  | .visit [] visited => (F, .visit [] visited)
  | .visit (name :: names) visited =>
    if visited.contains name then (F, .visit names visited)
    else ({ F with merged := F.merged.evict name }, .descend name names (visited.insert name))
  | .descend name names visited => (F, .visit (F.children name ++ names) visited)

/-- Whether there is nothing left to do. -/
def isFinished : Replacer → Bool
  | .visit [] _ => true
  | _ => false

end Replacer

/-- Whether there is nothing left to do. -/
def Merger.isFinished (m : Merger) : Bool :=
  match m.stage with
  | .ended _ => true
  | _ => false

/-- A factory with the merges and the replacements in progress. -/
structure Workshop where
  bench : Bench
  mergers : List Merger := []
  replacers : List Replacer := []

/-- What happens next. -/
inductive Turn where
  /-- A merge of a name begins. -/
  | merge (name : String)
  /-- A replacement of a definition begins. -/
  | replace (name : String) (definition : Definition)
  /-- A merger makes a step. -/
  | merger (i : Nat)
  /-- A replacer makes a step. -/
  | replacer (i : Nat)

namespace Workshop

/-- The factory they work on. -/
abbrev factory (W : Workshop) : Factory := W.bench.factory

/-- Whether everyone is finished. -/
def isFinished (W : Workshop) : Bool :=
  W.mergers.all Merger.isFinished && W.replacers.all Replacer.isFinished

/-- The cached merge that a turn takes up for a definition to be laid over it. -/
def takesUp? (W : Workshop) : Turn → Option (String × MergedRef)
  | .merger i => W.mergers[i]?.bind fun m => m.takesUp? W.factory
  | _ => none

variable (above : String → Option MergedDefinition)

/-- One turn. -/
def turn (W : Workshop) : Turn → Workshop
  | .merge name => { W with mergers := W.mergers ++ [{ stage := .seek name }] }
  | .replace name d => { W with replacers := W.replacers ++ [.define name d] }
  | .merger i =>
    match W.mergers[i]? with
    | none => W
    | some m =>
      let (bench, m) := m.step above W.bench
      { W with bench, mergers := W.mergers.set i m }
  | .replacer i =>
    match W.replacers[i]? with
    | none => W
    | some r =>
      let (factory, r) := r.step W.factory
      { W with bench := { W.bench with factory }, replacers := W.replacers.set i r }

/-- All turns of a schedule. -/
def after (W : Workshop) (schedule : List Turn) : Workshop := schedule.foldl (turn above) W

end Workshop

end BeanContainer
