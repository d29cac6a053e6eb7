import BeanContainer.Collection.OrderedMap
import BeanContainer.Text.Quoted

/-!
The graph of recorded dependencies. An edge says that one bean, the dependent,
needs another. Edges are kept in both directions, each side in the order in
which its names first came, and neither side keeps a name without edges.
-/

namespace BeanContainer

/-- Recorded dependencies between bean names. -/
structure DependencyGraph where
  /-- For each bean, who depends on it. -/
  dependents : OrderedMap String (OrderedSet String) := {}
  /-- For each bean, what it depends on. -/
  dependencies : OrderedMap String (OrderedSet String) := {}
deriving DecidableEq, Inhabited

namespace DependencyGraph

/-- The set under a name, empty when there is none. -/
def edgesOf (side : OrderedMap String (OrderedSet String)) (name : String) : OrderedSet String :=
  (side.get? name).getD {}

/-- Adds one end of an edge to a side. -/
def link (side : OrderedMap String (OrderedSet String)) (key name : String) :
    OrderedMap String (OrderedSet String) :=
  side.insert key ((edgesOf side key).insert name)

/-- Takes one end of an edge from a side; a name left without edges goes. -/
def unlink (side : OrderedMap String (OrderedSet String)) (key name : String) :
    OrderedMap String (OrderedSet String) :=
  match side.get? key with
  | none => side
  | some set =>
    let rest := set.erase name
    if rest.isEmpty then side.erase key else side.insert key rest

/-- Whether the edge is recorded. -/
def hasEdge (g : DependencyGraph) (bean dependent : String) : Bool :=
  (edgesOf g.dependents bean).contains dependent

/-- Records that `dependent` needs `bean`. -/
def register (g : DependencyGraph) (bean dependent : String) : DependencyGraph :=
  ⟨link g.dependents bean dependent, link g.dependencies dependent bean⟩

/-- Records that `dependent` needs `bean`, and answers whether the edge is new. -/
def record (g : DependencyGraph) (bean dependent : String) : Bool × DependencyGraph :=
  (!g.hasEdge bean dependent, g.register bean dependent)

/-- Who depends on a bean, oldest edge first. -/
def dependentsOf (g : DependencyGraph) (bean : String) : List String :=
  (edgesOf g.dependents bean).toList

/-- What a bean depends on, oldest edge first. -/
def dependenciesOf (g : DependencyGraph) (bean : String) : List String :=
  (edgesOf g.dependencies bean).toList

/-- Whether anything depends on a bean. -/
def hasDependents (g : DependencyGraph) (bean : String) : Bool :=
  !(edgesOf g.dependents bean).isEmpty

/-- What a search has found out: whether it met its goal, and the beans it has looked at. -/
structure Search where
  found : Bool := false
  seen : List String := []

/-- Looks for a dependent behind a bean, depth first, and never twice at one bean. One way of
the search is at most `depth` beans long. -/
def search (g : DependencyGraph) (goal : String) : Nat → Search → String → Search
  | 0, s, _ => s
  | depth + 1, s, bean =>
    if s.found || s.seen.contains bean then s
    else
      let s := { s with seen := bean :: s.seen }
      if g.hasEdge bean goal then { s with found := true }
      else (g.dependentsOf bean).foldl (g.search goal depth) s

/-- Whether `dependent` needs `bean`, directly or through other beans. A way through the graph
without repetition has at most one bean more than there are beans with dependents. -/
def isDependent (g : DependencyGraph) (bean dependent : String) : Bool :=
  (g.search dependent (g.dependents.size + 1) {} bean).found

/-- Takes out every edge to a bean's dependents, and answers those dependents. -/
def takeDependents (g : DependencyGraph) (bean : String) : List String × DependencyGraph :=
  let taken := g.dependentsOf bean
  (taken, ⟨g.dependents.erase bean, taken.foldl (fun side d => unlink side d bean) g.dependencies⟩)

/-- Takes out every edge at a bean, in either direction. -/
def removeBean (g : DependencyGraph) (bean : String) : DependencyGraph :=
  let g := (g.takeDependents bean).2
  let needs := g.dependenciesOf bean
  ⟨needs.foldl (fun side d => unlink side d bean) g.dependents, g.dependencies.erase bean⟩

/-- Takes out all edges. -/
def clear (_ : DependencyGraph) : DependencyGraph := {}

/-- Whether there is no edge. -/
def isEmpty (g : DependencyGraph) : Bool := g.dependents.isEmpty

/-- One side of a graph written out. -/
def writtenSide (side : OrderedMap String (OrderedSet String)) : String :=
  Text.braced (side.entries.map fun e =>
    Text.quote e.1 ++ ": " ++ Text.braced (e.2.toList.map Text.quote))

/-- A graph written out. -/
def written (g : DependencyGraph) : String :=
  Text.record "DependencyGraph"
    [("dependent_beans", writtenSide g.dependents),
      ("dependencies_for_bean", writtenSide g.dependencies)]

end DependencyGraph

end BeanContainer
