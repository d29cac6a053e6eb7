/-!
Maps and sets that keep the order in which their keys first came.

Both are lists without repetition, and the proof of that is a field, so no
operation has to argue about duplicates again. `insert` on a known key keeps
its place; `erase` closes the gap and moves nothing else.
-/

namespace BeanContainer

/-- A finite map whose entries stand in the order in which their keys were first inserted. -/
structure OrderedMap (κ : Type u) (α : Type v) where
  /-- The entries, oldest key first. -/
  entries : List (κ × α) := []
  /-- No key stands twice. -/
  nodup : (entries.map Prod.fst).Nodup := by exact List.nodup_nil

namespace OrderedMap

variable {κ : Type u} {α : Type v}

@[ext] theorem ext_entries {m n : OrderedMap κ α} (h : m.entries = n.entries) : m = n := by
  cases m; cases n; cases h; rfl

instance [DecidableEq κ] [DecidableEq α] : DecidableEq (OrderedMap κ α) := fun m n =>
  if h : m.entries = n.entries then isTrue (ext_entries h) else isFalse fun e => h (e ▸ rfl)

/-- The map without entries. -/
def empty : OrderedMap κ α := {}

instance : Inhabited (OrderedMap κ α) := ⟨empty⟩

/-- The keys, oldest first. -/
def keys (m : OrderedMap κ α) : List κ := m.entries.map Prod.fst

/-- The number of entries. -/
def size (m : OrderedMap κ α) : Nat := m.entries.length

/-- Whether there is no entry. -/
def isEmpty (m : OrderedMap κ α) : Bool := m.entries.isEmpty

variable [DecidableEq κ]

/-- The value under a key. -/
def get? (m : OrderedMap κ α) (k : κ) : Option α := m.entries.lookup k

/-- Whether a key has a value. -/
def contains (m : OrderedMap κ α) (k : κ) : Bool := m.keys.contains k

/-- Puts a value under a key: a known key keeps its place, a new one goes to the end. -/
def insert (m : OrderedMap κ α) (k : κ) (v : α) : OrderedMap κ α :=
  if h : k ∈ m.keys then
    ⟨m.entries.map fun e => if e.1 = k then (k, v) else e, by
      have : (m.entries.map fun e => if e.1 = k then (k, v) else e).map Prod.fst = m.keys := by
        rw [List.map_map, keys]
        refine List.map_congr_left fun e _ => ?_
        by_cases he : e.1 = k <;> simp [he]
      rw [this]; exact m.nodup⟩
  else
    ⟨m.entries ++ [(k, v)], by
      rw [List.map_append, List.nodup_append]
      refine ⟨m.nodup, by simp, ?_⟩
      intro a ha b hb
      simp only [List.map_cons, List.map_nil, List.mem_singleton] at hb
      subst hb
      exact fun e => h (e ▸ ha)⟩

/-- Drops a key; the others keep their order. -/
def erase (m : OrderedMap κ α) (k : κ) : OrderedMap κ α :=
  ⟨m.entries.filter fun e => e.1 ≠ k, m.nodup.sublist (List.filter_sublist.map _)⟩

/-- Inserts the pairs of a list one after another, so a later pair wins. -/
def insertAll (m : OrderedMap κ α) (pairs : List (κ × α)) : OrderedMap κ α :=
  pairs.foldl (fun m p => m.insert p.1 p.2) m

/-- The map that a list of pairs spells out. -/
def ofList (pairs : List (κ × α)) : OrderedMap κ α := empty.insertAll pairs

end OrderedMap

/-- A finite set whose elements stand in the order in which they were first inserted. -/
structure OrderedSet (κ : Type u) where
  /-- The elements, oldest first. -/
  toList : List κ := []
  /-- No element stands twice. -/
  nodup : toList.Nodup := by exact List.nodup_nil

namespace OrderedSet

variable {κ : Type u}

@[ext] theorem ext_toList {s t : OrderedSet κ} (h : s.toList = t.toList) : s = t := by
  cases s; cases t; cases h; rfl

instance [DecidableEq κ] : DecidableEq (OrderedSet κ) := fun s t =>
  if h : s.toList = t.toList then isTrue (ext_toList h) else isFalse fun e => h (e ▸ rfl)

/-- The set without elements. -/
def empty : OrderedSet κ := {}

instance : Inhabited (OrderedSet κ) := ⟨empty⟩

/-- Whether there is no element. -/
def isEmpty (s : OrderedSet κ) : Bool := s.toList.isEmpty

variable [DecidableEq κ]

/-- Whether an element is in the set. -/
def contains (s : OrderedSet κ) (k : κ) : Bool := s.toList.contains k

/-- Adds an element at the end, unless it is there already. -/
def insert (s : OrderedSet κ) (k : κ) : OrderedSet κ :=
  if h : k ∈ s.toList then s
  else
    ⟨s.toList ++ [k], by
      rw [List.nodup_append]
      refine ⟨s.nodup, by simp, ?_⟩
      intro a ha b hb
      simp only [List.mem_singleton] at hb
      subst hb
      exact fun e => h (e ▸ ha)⟩

/-- Drops an element; the others keep their order. -/
def erase (s : OrderedSet κ) (k : κ) : OrderedSet κ :=
  ⟨s.toList.filter fun e => e ≠ k, s.nodup.sublist List.filter_sublist⟩

/-- Adds the elements of a list one after another. -/
def insertAll (s : OrderedSet κ) (ks : List κ) : OrderedSet κ :=
  ks.foldl (fun s k => s.insert k) s

end OrderedSet

end BeanContainer
