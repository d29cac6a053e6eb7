import BeanContainer.Proofs.DependencyGraph

/-!
The graph of dependencies as one list of edges. The two sides are updated by
separate code; here each side is compared with the list on its own (`Shows`),
the second one with the edges turned round, and one lemma per operation on a
side serves both.

`mirrors_runOnGraph`: over every run from the empty graph the operations
answer what the same operations on the list answer, and every query of the
graph is a filter of the list.
-/

namespace BeanContainer.DependencyGraph

variable {g : DependencyGraph} {side : OrderedMap String (OrderedSet String)}
  {pairs edges : List (String × String)} {b d k n : String}

/-! ## Operations -/

/-- An operation that changes a graph. -/
inductive Call where
  | register (bean dependent : String)
  | takeDependents (bean : String)
  | removeBean (bean : String)
  | clear

/-- What an operation answers. -/
inductive Reply where
  | isNew (new : Bool)
  | taken (dependents : List String)
  | done
deriving DecidableEq

/-- The second names of the pairs with a first name, in their order. -/
def under (pairs : List (String × String)) (k : String) : List String :=
  (pairs.filter fun p => p.1 = k).map Prod.snd

/-- An operation on a graph. -/
def Call.onGraph : Call → DependencyGraph → Reply × DependencyGraph
  | .register b d, g => ((.isNew (g.record b d).1), (g.record b d).2)
  | .takeDependents b, g => (.taken (g.takeDependents b).1, (g.takeDependents b).2)
  | .removeBean b, g => (.done, g.removeBean b)
  | .clear, g => (.done, g.clear)

/-- The same operation on a list of edges, each written as bean and dependent. -/
def Call.onEdges : Call → List (String × String) → Reply × List (String × String)
  | .register b d, edges =>
    if (b, d) ∈ edges then (.isNew false, edges) else (.isNew true, edges ++ [(b, d)])
  | .takeDependents b, edges => (.taken (under edges b), edges.filter fun e => e.1 ≠ b)
  | .removeBean b, edges => (.done, edges.filter fun e => e.1 ≠ b ∧ e.2 ≠ b)
  | .clear, _ => (.done, [])

/-- A run of operations on a graph, with the answers in their order. -/
def runOnGraph : List Call → DependencyGraph → List Reply × DependencyGraph
  | [], g => ([], g)
  | c :: cs, g =>
    let (replies, g') := runOnGraph cs (c.onGraph g).2
    ((c.onGraph g).1 :: replies, g')

/-- A run of operations on a list of edges, with the answers in their order. -/
def runOnEdges : List Call → List (String × String) → List Reply × List (String × String)
  | [], edges => ([], edges)
  | c :: cs, edges =>
    let (replies, edges') := runOnEdges cs (c.onEdges edges).2
    ((c.onEdges edges).1 :: replies, edges')

/-! ## One side -/

/-- A side shows a list of pairs: under each key the names it is paired with, and no key without
a name. -/
structure Shows (side : OrderedMap String (OrderedSet String)) (pairs : List (String × String)) :
    Prop where
  names : ∀ k, (edgesOf side k).toList = under pairs k
  nonempty : ∀ k set, side.get? k = some set → set.toList ≠ []

theorem mem_under : n ∈ under pairs k ↔ (k, n) ∈ pairs := by
  simp only [under, List.mem_map, List.mem_filter, decide_eq_true_eq]
  constructor
  · rintro ⟨⟨_, _⟩, ⟨hp, rfl⟩, rfl⟩
    exact hp
  · exact fun h => ⟨_, ⟨h, rfl⟩, rfl⟩

theorem under_filter {p : String × String → Bool} :
    under (pairs.filter p) k = (under pairs k).filter fun n => p (k, n) := by
  unfold under
  rw [List.filter_filter, List.filter_map, List.filter_filter]
  refine congrArg _ (List.filter_congr fun q _ => ?_)
  obtain ⟨l, m⟩ := q
  by_cases hl : l = k
  · subst hl
    simp
  · simp [hl]

theorem Shows.empty : Shows {} [] where
  names _ := rfl
  nonempty k set h := by simp at h

theorem Shows.mem_edgesOf (h : Shows side pairs) : n ∈ (edgesOf side k).toList ↔ (k, n) ∈ pairs := by
  rw [h.names, mem_under]

theorem Shows.mem_keys (h : Shows side pairs) : k ∈ side.keys ↔ ∃ n, (k, n) ∈ pairs := by
  simp only [← h.mem_edgesOf]
  constructor
  · intro hk
    obtain ⟨set, hs⟩ := OrderedMap.mem_keys_iff.1 hk
    obtain ⟨n, hn⟩ := List.exists_mem_of_ne_nil _ (h.nonempty k set hs)
    exact ⟨n, by simpa [edgesOf, hs] using hn⟩
  · rintro ⟨n, hn⟩
    by_contra hk
    rw [← OrderedMap.get?_eq_none_iff] at hk
    simp [edgesOf, hk] at hn

theorem Shows.isEmpty (h : Shows side pairs) : side.isEmpty = pairs.isEmpty := by
  rw [Bool.eq_iff_iff, List.isEmpty_iff, List.eq_nil_iff_forall_not_mem]
  have hkeys : side.isEmpty = true ↔ ∀ k, k ∉ side.keys := by
    rw [← List.eq_nil_iff_forall_not_mem]
    simp [OrderedMap.isEmpty, OrderedMap.keys]
  rw [hkeys]
  simp only [h.mem_keys, not_exists, Prod.forall]

theorem Shows.link (h : Shows side pairs) :
    Shows (link side k n) (if (k, n) ∈ pairs then pairs else pairs ++ [(k, n)]) where
  names l := by
    unfold DependencyGraph.link
    rw [edgesOf_insert]
    by_cases hl : l = k
    · subst hl
      simp only [if_true, OrderedSet.insert, h.mem_edgesOf]
      split
      · exact h.names l
      · simp [h.names, under]
    · rw [if_neg hl, h.names]
      split
      · rfl
      · simp [under, Ne.symm hl]
  nonempty l set hs := by
    unfold DependencyGraph.link at hs
    rw [OrderedMap.get?_insert] at hs
    split at hs
    · cases hs
      exact List.ne_nil_of_mem (OrderedSet.mem_insert.2 (.inr rfl))
    · exact h.nonempty l set hs

theorem Shows.erase (h : Shows side pairs) : Shows (side.erase k) (pairs.filter fun p => p.1 ≠ k) where
  names l := by
    rw [edgesOf_erase, under_filter]
    by_cases hl : l = k
    · simp [hl]
    · simp [hl, h.names]
  nonempty l set hs := by
    rw [OrderedMap.get?_erase] at hs
    split at hs
    · cases hs
    · exact h.nonempty l set hs

theorem Shows.unlink (h : Shows side pairs) :
    Shows (unlink side k n) (pairs.filter fun p => p ≠ (k, n)) where
  names l := by
    rw [edgesOf_unlink, under_filter]
    by_cases hl : l = k
    · subst hl
      simp [OrderedSet.erase, h.names]
    · simp [hl, h.names]
  nonempty l set hs := by
    unfold DependencyGraph.unlink at hs
    split at hs
    · exact h.nonempty l set hs
    · dsimp only at hs
      split at hs
      · rw [OrderedMap.get?_erase] at hs
        split at hs
        · cases hs
        · exact h.nonempty l set hs
      · next hrest =>
        rw [OrderedMap.get?_insert] at hs
        split at hs
        · cases hs
          exact fun he => hrest (OrderedSet.isEmpty_iff.2 he)
        · exact h.nonempty l set hs

theorem Shows.foldl_unlink : ∀ (ks : List String) {side : OrderedMap String (OrderedSet String)}
    {pairs : List (String × String)}, Shows side pairs →
      Shows (ks.foldl (fun side k => DependencyGraph.unlink side k n) side)
        (pairs.filter fun p => ¬ (p.1 ∈ ks ∧ p.2 = n))
  | [], _, _, h => by simpa using h
  | k :: ks, _, pairs, h => by
    have := Shows.foldl_unlink ks (h.unlink (k := k) (n := n))
    rw [List.filter_filter] at this
    rw [List.foldl_cons]
    refine cast (congrArg _ (List.filter_congr fun p _ => ?_)) this
    obtain ⟨l, m⟩ := p
    rw [← Bool.decide_and, decide_eq_decide, List.mem_cons, ne_eq, Prod.mk.injEq]
    tauto

/-! ## Both sides -/

/-- A graph mirrors a list of edges: its sides show them, one each way round, and none stands
twice. -/
structure Mirrors (g : DependencyGraph) (edges : List (String × String)) : Prop where
  nodup : edges.Nodup
  dependents : Shows g.dependents edges
  dependencies : Shows g.dependencies (edges.map Prod.swap)

theorem mem_map_swap : (d, b) ∈ edges.map Prod.swap ↔ (b, d) ∈ edges := by
  simp

theorem filter_map_swap {p q : String × String → Bool} (h : ∀ b d, (b, d) ∈ edges → p (d, b) = q (b, d)) :
    (edges.map Prod.swap).filter p = (edges.filter q).map Prod.swap := by
  rw [List.filter_map]
  exact congrArg _ (List.filter_congr fun e he => h e.1 e.2 he)

theorem Mirrors.empty : Mirrors {} [] := ⟨List.nodup_nil, .empty, .empty⟩

theorem Mirrors.hasEdge (h : Mirrors g edges) : g.hasEdge b d = true ↔ (b, d) ∈ edges := by
  simp only [DependencyGraph.hasEdge, OrderedSet.contains_iff, h.dependents.mem_edgesOf]

theorem Mirrors.dependentsOf (h : Mirrors g edges) : g.dependentsOf b = under edges b :=
  h.dependents.names b

theorem Mirrors.dependenciesOf (h : Mirrors g edges) :
    g.dependenciesOf d = (edges.filter fun e => e.2 = d).map Prod.fst := by
  refine (h.dependencies.names d).trans ?_
  rw [under, filter_map_swap (q := fun e => e.2 = d) fun _ _ _ => rfl, List.map_map]
  rfl

theorem Mirrors.hasDependents (h : Mirrors g edges) :
    g.hasDependents b = edges.any fun e => e.1 = b := by
  have : g.hasDependents b = !(under edges b).isEmpty := by
    rw [← h.dependents.names]
    rfl
  rw [this, Bool.eq_iff_iff]
  simp [under]

theorem Mirrors.register (h : Mirrors g edges) :
    Mirrors (g.register b d) (if (b, d) ∈ edges then edges else edges ++ [(b, d)]) := by
  refine ⟨?_, h.dependents.link, ?_⟩
  · split
    · exact h.nodup
    · next hnew => exact List.nodup_append.2 ⟨h.nodup, by simp, by rintro e he _ hb rfl; simp_all⟩
  · have := h.dependencies.link (k := d) (n := b)
    refine cast (congrArg _ ?_) this
    simp only [mem_map_swap]
    split
    · rfl
    · simp

theorem Mirrors.takeDependents (h : Mirrors g edges) :
    Mirrors (g.takeDependents b).2 (edges.filter fun e => e.1 ≠ b) := by
  refine ⟨h.nodup.filter _, h.dependents.erase, ?_⟩
  have := h.dependencies.foldl_unlink (n := b) (g.dependentsOf b)
  rwa [filter_map_swap (q := fun e => e.1 ≠ b)] at this
  -- An edge from the bean leads to one of those taken.
  intro c d he
  rw [decide_eq_decide, h.dependentsOf, mem_under]
  exact not_congr (and_iff_right_of_imp fun hc => hc ▸ he)

theorem Mirrors.removeBean (h : Mirrors g edges) :
    Mirrors (g.removeBean b) (edges.filter fun e => e.1 ≠ b ∧ e.2 ≠ b) := by
  have ht := h.takeDependents (b := b)
  have hboth : (edges.filter fun e => e.1 ≠ b ∧ e.2 ≠ b) =
      (edges.filter fun e => e.1 ≠ b).filter fun e => e.2 ≠ b := by
    rw [List.filter_filter]
    exact List.filter_congr fun e _ => by rw [Bool.and_comm, Bool.decide_and]
  rw [hboth]
  refine ⟨ht.nodup.filter _, ?_, ?_⟩
  · have := ht.dependents.foldl_unlink (n := b) ((g.takeDependents b).2.dependenciesOf b)
    refine cast (congrArg _ (List.filter_congr fun e he => ?_)) this
    rw [decide_eq_decide, ht.dependenciesOf]
    -- An edge to the bean comes from one of those it needs.
    exact not_congr (and_iff_right_of_imp fun hb =>
      List.mem_map.2 ⟨e, List.mem_filter.2 ⟨he, by simpa using hb⟩, rfl⟩)
  · have := ht.dependencies.erase (k := b)
    rwa [filter_map_swap (q := fun e => e.2 ≠ b) fun _ _ _ => rfl] at this

/-! ## Runs -/

/-- **One operation**: the answers agree, and what the graph mirrored it mirrors again. -/
theorem Mirrors.onGraph (h : Mirrors g edges) (c : Call) :
    (c.onGraph g).1 = (c.onEdges edges).1 ∧ Mirrors (c.onGraph g).2 (c.onEdges edges).2 := by
  cases c with
  | register b d =>
    have hreg := h.register (b := b) (d := d)
    have hedge := h.hasEdge (b := b) (d := d)
    simp only [Call.onGraph, Call.onEdges, record]
    by_cases he : (b, d) ∈ edges
    · rw [if_pos he] at hreg
      simp [he, hedge.2 he, hreg]
    · rw [if_neg he] at hreg
      have : g.hasEdge b d = false := by
        rw [← Bool.not_eq_true, hedge]
        exact he
      simp [he, this, hreg]
  | takeDependents b => exact ⟨congrArg Reply.taken h.dependentsOf, h.takeDependents⟩
  | removeBean b => exact ⟨rfl, h.removeBean⟩
  | clear => exact ⟨rfl, .empty⟩

theorem Mirrors.runOnGraph : ∀ (cs : List Call) {g : DependencyGraph} {edges : List (String × String)},
    Mirrors g edges → (runOnGraph cs g).1 = (runOnEdges cs edges).1 ∧
      Mirrors (DependencyGraph.runOnGraph cs g).2 (runOnEdges cs edges).2
  | [], _, _, h => ⟨rfl, h⟩
  | c :: cs, _, _, h => by
    obtain ⟨hreply, hnext⟩ := h.onGraph c
    obtain ⟨hreplies, hend⟩ := Mirrors.runOnGraph cs hnext
    exact ⟨by simp only [DependencyGraph.runOnGraph, runOnEdges, hreply, hreplies], hend⟩

/-- **The graph is a list of edges**: after every run of operations on the empty graph, the
answers are those of the run on the empty list, no edge stands twice, the queries are the filters
of the list, and neither side keeps a name without edges. -/
theorem mirrors_runOnGraph (cs : List Call) :
    let edges := (runOnEdges cs []).2
    let g := (runOnGraph cs {}).2
    (runOnGraph cs {}).1 = (runOnEdges cs []).1 ∧ edges.Nodup ∧
    (∀ b, g.dependentsOf b = (edges.filter fun e => e.1 = b).map Prod.snd) ∧
    (∀ d, g.dependenciesOf d = (edges.filter fun e => e.2 = d).map Prod.fst) ∧
    (∀ b, g.hasDependents b = edges.any fun e => e.1 = b) ∧
    g.isEmpty = edges.isEmpty ∧
    (∀ e ∈ g.dependents.entries, e.2.toList ≠ []) ∧
    ∀ e ∈ g.dependencies.entries, e.2.toList ≠ [] := by
  obtain ⟨hreplies, h⟩ := Mirrors.empty.runOnGraph cs
  refine ⟨hreplies, h.nodup, fun _ => h.dependentsOf, fun _ => h.dependenciesOf,
    fun _ => h.hasDependents, h.dependents.isEmpty, fun e he => ?_, fun e he => ?_⟩
  · exact h.dependents.nonempty _ _ (OrderedMap.get?_eq_some_iff.2 he)
  · exact h.dependencies.nonempty _ _ (OrderedMap.get?_eq_some_iff.2 he)

end BeanContainer.DependencyGraph
