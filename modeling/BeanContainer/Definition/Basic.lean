import BeanContainer.Collection.OrderedMap
import BeanContainer.TypeInfo
import BeanContainer.Value

/-!
Bean definitions as they are registered. A definition is a recipe for a bean
in which nearly every field may be left open, to be filled from its parent
definition or by a default.
-/

namespace BeanContainer

/-- How close a bean is to the application's own purpose. -/
inductive Role where
  /-- A part of the application itself. -/
  | application
  /-- A supporting part of a larger configuration. -/
  | support
  /-- Purely internal. -/
  | infrastructure
deriving DecidableEq, Inhabited, Repr

namespace Role

/-- The place of a role in the order application, support, infrastructure. -/
def rank : Role → Nat
  | application => 0
  | support => 1
  | infrastructure => 2

/-- The role's name in messages. -/
def label : Role → String
  | application => "Application"
  | support => "Support"
  | infrastructure => "Infrastructure"

end Role

/-- Constructor arguments by position, in ascending order of position. -/
structure Arguments where
  /-- The positions and their values. -/
  entries : List (Nat × Value) := []
  /-- Positions ascend. -/
  ascending : (entries.map Prod.fst).Pairwise (· < ·) := by exact List.Pairwise.nil

namespace Arguments

@[ext] theorem ext_entries {a b : Arguments} (h : a.entries = b.entries) : a = b := by
  cases a; cases b; cases h; rfl

instance : DecidableEq Arguments := fun a b =>
  if h : a.entries = b.entries then isTrue (ext_entries h) else isFalse fun e => h (e ▸ rfl)

/-- No arguments. -/
def empty : Arguments := {}

instance : Inhabited Arguments := ⟨empty⟩

/-- Puts a value at a position among entries in ascending order. -/
def putEntry (i : Nat) (v : Value) : List (Nat × Value) → List (Nat × Value)
  | [] => [(i, v)]
  | (j, w) :: rest =>
    if i < j then (i, v) :: (j, w) :: rest
    else if i = j then (i, v) :: rest
    else (j, w) :: putEntry i v rest

theorem mem_putEntry {i : Nat} {v : Value} :
    ∀ {es : List (Nat × Value)} {j : Nat}, j ∈ (putEntry i v es).map Prod.fst →
      j = i ∨ j ∈ es.map Prod.fst
  | [], j, h => by simpa [putEntry] using h
  | (k, w) :: rest, j, h => by
    unfold putEntry at h
    split at h
    · simpa using h
    · split at h
      · simp only [List.map_cons, List.mem_cons] at h ⊢
        rcases h with h | h
        · exact .inl h
        · exact .inr (.inr h)
      · simp only [List.map_cons, List.mem_cons] at h ⊢
        rcases h with h | h
        · exact .inr (.inl h)
        · exact (mem_putEntry h).imp id .inr

theorem ascending_putEntry {i : Nat} {v : Value} :
    ∀ {es : List (Nat × Value)}, (es.map Prod.fst).Pairwise (· < ·) →
      ((putEntry i v es).map Prod.fst).Pairwise (· < ·)
  | [], _ => by simp [putEntry]
  | (k, w) :: rest, h => by
    simp only [List.map_cons, List.pairwise_cons] at h
    unfold putEntry
    split
    · rename_i hik
      simp only [List.map_cons, List.pairwise_cons, List.mem_cons]
      refine ⟨?_, h⟩
      rintro j (rfl | hj)
      · exact hik
      · exact Nat.lt_trans hik (h.1 j hj)
    · split
      · rename_i hik
        subst hik
        simpa using h
      · rename_i hlt hne
        simp only [List.map_cons, List.pairwise_cons]
        refine ⟨fun j hj => ?_, ascending_putEntry h.2⟩
        rcases mem_putEntry hj with rfl | hj
        · omega
        · exact h.1 j hj

/-- Puts a value at a position. -/
def insert (a : Arguments) (i : Nat) (v : Value) : Arguments :=
  ⟨putEntry i v a.entries, ascending_putEntry a.ascending⟩

/-- The value at a position. -/
def get? (a : Arguments) (i : Nat) : Option Value := a.entries.lookup i

/-- Inserts the pairs of a list one after another. -/
def insertAll (a : Arguments) (pairs : List (Nat × Value)) : Arguments :=
  pairs.foldl (fun a p => a.insert p.1 p.2) a

end Arguments

/-- A bean definition as registered; a field without a value is open. -/
structure Definition where
  type : Option TypeInfo := none
  scope : Option String := none
  lazy : Option Bool := none
  /-- A template for other definitions only; never inherited. -/
  isAbstract : Bool := false
  parent : Option String := none
  /-- Names of the beans to create first; an empty list is a value, not an open field. -/
  dependsOn : Option (List String) := none
  autowireCandidate : Option Bool := none
  primary : Option Bool := none
  role : Option Role := none
  priority : Option Int := none
  arguments : Arguments := .empty
  properties : OrderedMap String Value := {}
  initMethod : Option String := none
  destroyMethod : Option String := none
  description : Option String := none
deriving DecidableEq, Inhabited

namespace Definition

/-- The role that counts: the one given, else that of a part of the application. -/
def effectiveRole (d : Definition) : Role := d.role.getD .application

/-- Whether two property maps hold the same values, in whatever order. -/
def sameProperties (a b : OrderedMap String Value) : Bool :=
  a.size = b.size && a.entries.all fun e => b.get? e.1 = some e.2

/-- Whether two definitions say the same; the order of their properties does not count. -/
def equivalent (a b : Definition) : Bool :=
  { a with properties := {} } = { b with properties := {} } &&
    sameProperties a.properties b.properties

end Definition

end BeanContainer
