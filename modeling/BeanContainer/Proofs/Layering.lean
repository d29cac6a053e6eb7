import BeanContainer.Definition.Merged
import BeanContainer.Proofs.OrderedMap

/-!
Definitions laid over one another. Along a line of definitions, each the parent
of the next, a merged definition has every field from the nearest definition,
counted from the end of the line, that gives one (`settles_ofLine`). What a
definition gives differs from field to field: an empty list of dependencies is
given, an empty scope is not, and arguments and properties are given one by one.

One more definition on the line is asked first, and the others only for what it
leaves open (`nearest_concat`); so one step keeps all fields right, and a line
of any length follows.
-/

namespace BeanContainer

namespace Arguments

variable {a : Arguments} {i j : Nat} {v : Value}

theorem lookup_putEntry : ∀ {es : List (Nat × Value)},
    (putEntry i v es).lookup j = if j = i then some v else es.lookup j
  | [] => lookup_cons_eq_ite
  | (k, w) :: rest => by
    unfold putEntry
    split
    · exact lookup_cons_eq_ite
    split
    · rename_i hik
      subst hik
      rw [lookup_cons_eq_ite, lookup_cons_eq_ite]
      split <;> rfl
    · rename_i hlt hne
      rw [lookup_cons_eq_ite, lookup_putEntry, lookup_cons_eq_ite]
      by_cases hj : j = k
      · subst hj
        simp [Ne.symm hne]
      · simp [hj]

theorem get?_insert : (a.insert i v).get? j = if j = i then some v else a.get? j := lookup_putEntry

/-- The arguments of a definition come before those they are added to. -/
theorem get?_insertAll {b : Arguments} : (a.insertAll b.entries).get? i = (b.get? i).or (a.get? i) :=
  lookup_foldl_insert (fun _ _ _ _ => get?_insert) (b.ascending.imp Nat.ne_of_lt)

end Arguments

/-- A line of definitions by name, each the parent of the next. -/
abbrev DefinitionLine := List (String × Definition)

/-- What the nearest definition, counted from the end of a line, gives. -/
def nearest {α : Type} (given : Definition → Option α) (line : DefinitionLine) : Option α :=
  line.reverse.findSome? fun e => given e.2

/-- The scope that a definition gives; the empty one is none. -/
def Definition.givenScope (d : Definition) : Option String := d.scope.filter fun s => s ≠ ""

namespace MergedDefinition

/-- The merge of the last definition of a line that begins with one without a parent. -/
def ofLine (root : String × Definition) (below : DefinitionLine) : MergedDefinition :=
  below.foldl (fun m e => .ofParent e.1 m e.2) (.ofRoot root.1 root.2)

/-- A merged definition has its fields from a line of definitions: each from the nearest one that
gives it, and what belongs to a definition alone from the last. -/
structure Settles (line : DefinitionLine) (m : MergedDefinition) : Prop where
  last : ∃ d, line.getLast? = some (m.beanName, d) ∧ m.isAbstract = d.isAbstract ∧ m.parent = d.parent
  type : m.type = nearest (·.type) line
  scope : m.scope = (nearest (·.givenScope) line).getD ""
  lazy : m.lazy = (nearest (·.lazy) line).getD false
  dependsOn : m.dependsOn = (nearest (·.dependsOn) line).getD []
  autowireCandidate : m.autowireCandidate = (nearest (·.autowireCandidate) line).getD true
  primary : m.primary = (nearest (·.primary) line).getD false
  role : m.role = (nearest (·.role) line).getD .application
  priority : m.priority = nearest (·.priority) line
  initMethod : m.initMethod = nearest (·.initMethod) line
  destroyMethod : m.destroyMethod = nearest (·.destroyMethod) line
  description : m.description = nearest (·.description) line
  argument : ∀ i, m.arguments.get? i = nearest (·.arguments.get? i) line
  property : ∀ p, m.properties.get? p = nearest (·.properties.get? p) line
  /-- The names stand in the order in which the definitions of the line first give them. -/
  propertyNames : m.properties.keys = (line.flatMap fun e => e.2.properties.keys).eraseDups

variable {α : Type} {given : Definition → Option α} {line : DefinitionLine} {n : String}
  {d : Definition} {m : MergedDefinition} {a : α}

theorem nearest_singleton : nearest given [(n, d)] = given d := by
  unfold nearest
  cases h : given d <;> simp [h]

theorem nearest_concat : nearest given (line ++ [(n, d)]) = (given d).or (nearest given line) := by
  unfold nearest
  rw [List.reverse_concat, List.findSome?_cons]
  cases given d <;> rfl

theorem getD_nearest_concat :
    (nearest given (line ++ [(n, d)])).getD a = (given d).getD ((nearest given line).getD a) := by
  rw [nearest_concat, Option.getD_or]

theorem Settles.ofRoot : Settles [(n, d)] (.ofRoot n d) where
  last := ⟨d, rfl, rfl, rfl⟩
  type := by rw [nearest_singleton]; rfl
  scope := by
    rw [nearest_singleton, Definition.givenScope, MergedDefinition.ofRoot]
    cases d.scope with
    | none => rfl
    | some s => by_cases hs : s = "" <;> simp [Option.filter, hs]
  lazy := by rw [nearest_singleton]; rfl
  dependsOn := by rw [nearest_singleton]; rfl
  autowireCandidate := by rw [nearest_singleton]; rfl
  primary := by rw [nearest_singleton]; rfl
  role := by rw [nearest_singleton]; rfl
  priority := by rw [nearest_singleton]; rfl
  initMethod := by rw [nearest_singleton]; rfl
  destroyMethod := by rw [nearest_singleton]; rfl
  description := by rw [nearest_singleton]; rfl
  argument i := by rw [nearest_singleton]; rfl
  property p := by rw [nearest_singleton]; rfl
  propertyNames := by
    rw [List.flatMap_singleton]
    exact (eraseDups_of_nodup d.properties.nodup_keys).symm

/-- Laying one more definition over a merge keeps every field right: what the definition leaves open
stays as it was. -/
theorem Settles.ofParent (h : Settles line m) : Settles (line ++ [(n, d)]) (.ofParent n m d) where
  last := ⟨d, List.getLast?_concat, rfl, rfl⟩
  type := by rw [nearest_concat, ← h.type]; exact Option.orElse_eq_or
  scope := by rw [getD_nearest_concat, ← h.scope]; rfl
  lazy := by rw [getD_nearest_concat, ← h.lazy]; rfl
  dependsOn := by rw [getD_nearest_concat, ← h.dependsOn]; rfl
  autowireCandidate := by rw [getD_nearest_concat, ← h.autowireCandidate]; rfl
  primary := by rw [getD_nearest_concat, ← h.primary]; rfl
  role := by rw [getD_nearest_concat, ← h.role]; rfl
  priority := by rw [nearest_concat, ← h.priority]; exact Option.orElse_eq_or
  initMethod := by rw [nearest_concat, ← h.initMethod]; exact Option.orElse_eq_or
  destroyMethod := by rw [nearest_concat, ← h.destroyMethod]; exact Option.orElse_eq_or
  description := by rw [nearest_concat, ← h.description]; exact Option.orElse_eq_or
  argument i := by rw [nearest_concat, ← h.argument]; exact Arguments.get?_insertAll
  property p := by rw [nearest_concat, ← h.property]; exact OrderedMap.get?_insertAll d.properties.nodup
  propertyNames := by
    have hkeys : (MergedDefinition.ofParent n m d).properties.keys =
        (m.properties.keys ++ d.properties.keys).eraseDups := OrderedMap.keys_insertAll
    have hsame (given : List String) : d.properties.keys.removeAll given.eraseDups =
        d.properties.keys.removeAll given := List.filter_congr fun x _ => by simp [List.mem_eraseDups]
    rw [hkeys, List.flatMap_append, List.flatMap_singleton, List.eraseDups_append, List.eraseDups_append,
      eraseDups_of_nodup m.properties.nodup_keys, h.propertyNames, hsame]

theorem Settles.foldl (h : Settles line m) : ∀ below : DefinitionLine,
    Settles (line ++ below) (below.foldl (fun m e => .ofParent e.1 m e.2) m) := by
  intro below
  induction below generalizing line m with
  | nil => rwa [List.append_nil]
  | cons e below ih =>
    rw [List.append_cons]
    exact ih h.ofParent

/-- **A merged definition has each field from the nearest definition that gives it**, on a line of
any length, and the default where none does. -/
theorem settles_ofLine (root : String × Definition) (below : DefinitionLine) :
    Settles (root :: below) (ofLine root below) :=
  Settles.ofRoot.foldl below

/-- A name given again keeps its place, and an empty scope leaves the scope to those before. -/
example :
    let m := ofLine ("base", { scope := some "prototype", properties := .ofList [("a", .null), ("b", .null)] })
      [("child", { scope := some "", properties := .ofList [("c", .null), ("a", .bool true)] })]
    m.scope = "prototype" ∧ m.properties.entries = [("a", .bool true), ("b", .null), ("c", .null)] := by
  decide +kernel

end MergedDefinition

end BeanContainer
