import BeanContainer.Collection.OrderedMap
import Mathlib.Data.List.Nodup

/-!
Ordered maps and sets, read through their lookup: what each operation does to
the value under a key, to the list of keys, and to the size.
-/

namespace BeanContainer

theorem lookup_cons_eq_ite {κ : Type u} {α : Type v} [DecidableEq κ] {k l : κ} {w : α} {es : List (κ × α)} :
    ((l, w) :: es).lookup k = if k = l then some w else es.lookup k := by
  rw [List.lookup_cons]
  by_cases hk : k = l
  · simp [hk]
  · have hne : (k == l) = false := by simpa using hk
    simp [hk, hne]

/-- Pairs inserted one after another, no key twice: a key has the value of its pair, and otherwise
the one it had. -/
theorem lookup_foldl_insert {μ : Type w} {κ : Type u} {α : Type v} [DecidableEq κ]
    {insert : μ → κ → α → μ} {get? : μ → κ → Option α}
    (get?_insert : ∀ m k v l, get? (insert m k v) l = if l = k then some v else get? m l) {k : κ} :
    ∀ {pairs : List (κ × α)} {m : μ}, (pairs.map Prod.fst).Nodup →
      get? (pairs.foldl (fun m p => insert m p.1 p.2) m) k = (pairs.lookup k).or (get? m k)
  | [], _, _ => rfl
  | (l, w) :: pairs, m, h => by
    rw [List.map_cons, List.nodup_cons] at h
    rw [List.foldl_cons, lookup_foldl_insert get?_insert h.2, get?_insert, lookup_cons_eq_ite]
    by_cases hk : k = l
    · subst hk
      have hnone : pairs.lookup k = none := List.lookup_eq_none_iff.2 fun p hp => by
        simpa using fun e : k = p.1 => h.1 (List.mem_map.2 ⟨p, hp, e.symm⟩)
      simp [hnone]
    · simp [hk]

theorem eraseDups_of_nodup {κ : Type u} [DecidableEq κ] : ∀ {l : List κ}, l.Nodup → l.eraseDups = l
  | [], _ => rfl
  | k :: l, h => by
    obtain ⟨hk, hl⟩ := List.nodup_cons.1 h
    have hself : l.filter (fun x => !x == k) = l := List.filter_eq_self.2 fun x hx => by
      simpa using fun e : x = k => hk (e ▸ hx)
    rw [List.eraseDups_cons, hself, eraseDups_of_nodup hl]

namespace OrderedMap

variable {κ : Type u} {α : Type v} {m : OrderedMap κ α} {k l : κ} {v w : α}

theorem nodup_keys : m.keys.Nodup := m.nodup

theorem length_keys : m.keys.length = m.size := by simp [keys, size]

@[simp] theorem keys_empty : ({} : OrderedMap κ α).keys = [] := rfl

variable [DecidableEq κ]

theorem lookup_eq_some_iff {es : List (κ × α)} (h : (es.map Prod.fst).Nodup) :
    es.lookup k = some v ↔ (k, v) ∈ es := by
  induction es with
  | nil => simp
  | cons e es ih =>
    obtain ⟨l, w⟩ := e
    simp only [List.map_cons, List.nodup_cons, List.mem_map, not_exists, not_and] at h
    rw [List.lookup_cons]
    by_cases hk : k = l
    · subst hk
      have hn : (k, v) ∉ es := fun hm => h.1 _ hm rfl
      simp [hn, eq_comm]
    · have : (k == l) = false := by simpa using hk
      simp [this, ih h.2, hk]

theorem get?_eq_some_iff : m.get? k = some v ↔ (k, v) ∈ m.entries := lookup_eq_some_iff m.nodup

theorem mem_keys_iff : k ∈ m.keys ↔ ∃ v, m.get? k = some v := by
  simp only [keys, List.mem_map, get?_eq_some_iff]
  exact ⟨fun ⟨e, he, hk⟩ => ⟨e.2, hk ▸ he⟩, fun ⟨v, hv⟩ => ⟨_, hv, rfl⟩⟩

theorem get?_eq_none_iff : m.get? k = none ↔ k ∉ m.keys := by
  rw [mem_keys_iff, not_exists, Option.eq_none_iff_forall_ne_some]

@[simp] theorem contains_iff : m.contains k = true ↔ k ∈ m.keys := by
  simp [contains]

theorem contains_iff_get? : m.contains k = true ↔ ∃ v, m.get? k = some v := by
  rw [contains_iff, mem_keys_iff]

@[simp] theorem get?_empty : ({} : OrderedMap κ α).get? k = none := rfl

@[simp] theorem keys_insert : (m.insert k v).keys = if k ∈ m.keys then m.keys else m.keys ++ [k] := by
  unfold insert
  split
  · rename_i h
    simp only [keys, List.map_map]
    refine List.map_congr_left fun e _ => ?_
    by_cases he : e.1 = k <;> simp [he]
  · simp [keys]

theorem entries_insert_of_not_mem (h : k ∉ m.keys) : (m.insert k v).entries = m.entries ++ [(k, v)] := by
  unfold insert
  rw [dif_neg h]

theorem mem_entries_insert :
    (l, w) ∈ (m.insert k v).entries ↔ l = k ∧ w = v ∨ l ≠ k ∧ (l, w) ∈ m.entries := by
  unfold insert
  split
  · rename_i hk
    simp only [List.mem_map]
    constructor
    · rintro ⟨e, he, heq⟩
      split at heq
      · cases heq; exact .inl ⟨rfl, rfl⟩
      · rename_i hne
        subst heq
        exact .inr ⟨hne, he⟩
    · rintro (⟨rfl, rfl⟩ | ⟨hne, hl⟩)
      · obtain ⟨e, he, rfl⟩ := List.mem_map.1 hk
        exact ⟨e, he, by simp⟩
      · exact ⟨_, hl, by simp [hne]⟩
  · rename_i hk
    have hne : (l, w) ∈ m.entries → l ≠ k := fun hl e => hk (List.mem_map.2 ⟨_, hl, e⟩)
    simp only [List.mem_append, List.mem_singleton, Prod.mk.injEq]
    exact ⟨fun h => h.symm.imp id fun hl => ⟨hne hl, hl⟩, fun h => (h.imp id And.right).symm⟩

theorem get?_insert : (m.insert k v).get? l = if l = k then some v else m.get? l := by
  refine Option.ext fun w => ?_
  rw [get?_eq_some_iff, mem_entries_insert]
  by_cases hl : l = k
  · simp [hl, eq_comm]
  · simp [hl, get?_eq_some_iff]

theorem get?_insert_of_ne (h : l ≠ k) : (m.insert k v).get? l = m.get? l := by
  simp [get?_insert, h]

theorem keys_erase : (m.erase k).keys = m.keys.filter fun l => l ≠ k := by
  simp [keys, erase, List.filter_map, Function.comp_def]

theorem get?_erase : (m.erase k).get? l = if l = k then none else m.get? l := by
  refine Option.ext fun w => ?_
  rw [get?_eq_some_iff]
  simp only [erase, List.mem_filter, decide_eq_true_eq, ne_eq]
  by_cases hl : l = k
  · simp [hl]
  · simp [hl, get?_eq_some_iff]

@[simp] theorem get?_erase_self : (m.erase k).get? k = none := by simp [get?_erase]

theorem get?_erase_of_ne (h : l ≠ k) : (m.erase k).get? l = m.get? l := by simp [get?_erase, h]

theorem get?_insertAll {pairs : List (κ × α)} (h : (pairs.map Prod.fst).Nodup) :
    (m.insertAll pairs).get? k = (pairs.lookup k).or (m.get? k) :=
  lookup_foldl_insert (fun _ _ _ _ => get?_insert) h

theorem keys_insertAll {pairs : List (κ × α)} :
    (m.insertAll pairs).keys = (m.keys ++ pairs.map Prod.fst).eraseDups := by
  induction pairs generalizing m with
  | nil => simpa [insertAll] using (eraseDups_of_nodup m.nodup_keys).symm
  | cons p pairs ih =>
    have hcons : m.insertAll (p :: pairs) = (m.insert p.1 p.2).insertAll pairs := rfl
    rw [hcons, ih, keys_insert, List.map_cons]
    split
    · rename_i hp
      simp [List.eraseDups_append, List.removeAll, hp]
    · simp

theorem perm_entries_erase (h : m.get? k = some v) : m.entries.Perm ((k, v) :: (m.erase k).entries) := by
  have hnot : (k, v) ∉ (m.erase k).entries := by simp [erase]
  refine (List.perm_ext_iff_of_nodup (List.Nodup.of_map _ m.nodup)
    (List.nodup_cons.2 ⟨hnot, List.Nodup.of_map _ (m.erase k).nodup⟩)).2 fun e => ?_
  obtain ⟨l, w⟩ := e
  simp only [erase, List.mem_cons, List.mem_filter, decide_eq_true_eq, Prod.mk.injEq, ne_eq]
  by_cases hl : l = k
  · subst hl
    rw [← get?_eq_some_iff, h]
    simp [eq_comm]
  · simp [hl]

theorem size_erase_le : (m.erase k).size ≤ m.size := List.length_filter_le ..

theorem size_erase_lt (h : k ∈ m.keys) : (m.erase k).size < m.size := by
  obtain ⟨e, he, hk⟩ := List.mem_map.1 h
  exact List.length_filter_lt_length_iff_exists.2 ⟨e, he, by simp [hk]⟩

theorem size_insert_of_mem (h : k ∈ m.keys) : (m.insert k v).size = m.size := by
  rw [← length_keys, keys_insert, if_pos h, length_keys]

theorem filter_eq_lookup {es : List (κ × α)} (h : (es.map Prod.fst).Nodup) :
    es.filter (fun e => e.1 = k) = (es.lookup k).toList.map fun v => (k, v) := by
  induction es with
  | nil => rfl
  | cons e es ih =>
    obtain ⟨l, w⟩ := e
    rw [List.map_cons, List.nodup_cons] at h
    rw [List.lookup_cons]
    by_cases hk : l = k
    · subst hk
      have hnone : es.filter (fun e => e.1 = l) = [] := List.filter_eq_nil_iff.2 fun e he hl =>
        h.1 (List.mem_map.2 ⟨e, he, by simpa using hl⟩)
      simp [hnone]
    · have hne : (k == l) = false := by simpa using Ne.symm hk
      simp [hk, hne, ih h.2]

theorem filter_entries_eq :
    m.entries.filter (fun e => e.1 = k) = (m.get? k).toList.map fun v => (k, v) :=
  filter_eq_lookup m.nodup

end OrderedMap

namespace OrderedSet

variable {κ : Type u} {s : OrderedSet κ} {k l : κ}

theorem isEmpty_iff : s.isEmpty = true ↔ s.toList = [] := by simp [isEmpty]

variable [DecidableEq κ]

@[simp] theorem contains_iff : s.contains k = true ↔ k ∈ s.toList := by simp [contains]

@[simp] theorem mem_insert : l ∈ (s.insert k).toList ↔ l ∈ s.toList ∨ l = k := by
  unfold insert
  split
  · rename_i h
    exact ⟨.inl, fun hl => hl.elim id fun e => e ▸ h⟩
  · simp

@[simp] theorem mem_erase : l ∈ (s.erase k).toList ↔ l ∈ s.toList ∧ l ≠ k := by simp [erase]

theorem erase_insert_of_not_mem (h : k ∉ s.toList) : (s.insert k).erase k = s := by
  ext1
  unfold insert
  rw [dif_neg h]
  simp only [erase, List.filter_append]
  have : ∀ l ∈ s.toList, decide (l ≠ k) = true := fun l hl => by
    simpa using fun e : l = k => h (e ▸ hl)
  rw [List.filter_eq_self.2 this]
  simp

end OrderedSet

end BeanContainer
