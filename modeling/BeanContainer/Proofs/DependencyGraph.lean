import BeanContainer.Dependency
import BeanContainer.Proofs.OrderedMap
import Mathlib.Data.List.Chain
import Mathlib.Logic.Relation

/-!
The graph of dependencies, read as a relation. `hasEdge` is the one view that
counts: every operation is described by what it does to it, and a search finds
exactly what the edges lead to (`isDependent_iff_transGen`).

Nothing here needs the two directions of the graph to agree.
-/

namespace BeanContainer.DependencyGraph

open Relation

variable {g : DependencyGraph} {side : OrderedMap String (OrderedSet String)} {a b c d n : String}

/-! ## One side of a graph -/

theorem edgesOf_insert {set : OrderedSet String} :
    edgesOf (side.insert a set) b = if b = a then set else edgesOf side b := by
  unfold edgesOf
  rw [OrderedMap.get?_insert]
  split <;> rfl

theorem edgesOf_erase : edgesOf (side.erase a) b = if b = a then {} else edgesOf side b := by
  unfold edgesOf
  rw [OrderedMap.get?_erase]
  split <;> rfl

theorem mem_edgesOf_link :
    d ∈ (edgesOf (link side a c) b).toList ↔ d ∈ (edgesOf side b).toList ∨ b = a ∧ d = c := by
  unfold link
  rw [edgesOf_insert]
  by_cases hb : b = a
  · simp [hb]
  · simp [hb]

theorem edgesOf_unlink :
    edgesOf (unlink side a c) b = if b = a then (edgesOf side a).erase c else edgesOf side b := by
  unfold unlink
  cases hs : side.get? a with
  | none =>
    by_cases hb : b = a
    · subst hb
      have : edgesOf side b = {} := by simp [edgesOf, hs]
      simp [this, OrderedSet.erase]
    · simp [hb]
  | some set =>
    have he : edgesOf side a = set := by simp [edgesOf, hs]
    simp only [he]
    split
    · rename_i hempty
      rw [edgesOf_erase]
      split
      · exact OrderedSet.ext_toList (OrderedSet.isEmpty_iff.1 hempty).symm
      · rfl
    · exact edgesOf_insert

theorem mem_edgesOf_unlink :
    d ∈ (edgesOf (unlink side a c) b).toList ↔ d ∈ (edgesOf side b).toList ∧ ¬ (b = a ∧ d = c) := by
  rw [edgesOf_unlink]
  by_cases hb : b = a
  · simp [hb]
  · simp [hb]

theorem mem_edgesOf_foldl_unlink : ∀ {ns : List String} {side : OrderedMap String (OrderedSet String)},
    d ∈ (edgesOf (ns.foldl (fun side n => unlink side n c) side) b).toList ↔
      d ∈ (edgesOf side b).toList ∧ ¬ (b ∈ ns ∧ d = c)
  | [], _ => by simp
  | n :: ns, side => by
    rw [List.foldl_cons, mem_edgesOf_foldl_unlink, mem_edgesOf_unlink, List.mem_cons]
    tauto

theorem size_unlink_le : (unlink side a c).size ≤ side.size := by
  unfold unlink
  cases hs : side.get? a with
  | none => exact Nat.le_refl _
  | some set =>
    simp only
    split
    · exact OrderedMap.size_erase_le
    · exact Nat.le_of_eq (OrderedMap.size_insert_of_mem (OrderedMap.mem_keys_iff.2 ⟨_, hs⟩))

theorem size_foldl_unlink_le : ∀ (ns : List String) (side : OrderedMap String (OrderedSet String)),
    (ns.foldl (fun side n => unlink side n c) side).size ≤ side.size
  | [], _ => Nat.le_refl _
  | _ :: ns, _ => Nat.le_trans (size_foldl_unlink_le ns _) size_unlink_le

/-! ## Edges -/

theorem mem_dependentsOf : d ∈ g.dependentsOf b ↔ g.hasEdge b d = true := by
  simp [dependentsOf, hasEdge]

@[simp] theorem not_hasEdge_empty : ¬ ({} : DependencyGraph).hasEdge b d = true := by
  simp [hasEdge, edgesOf]

theorem hasEdge_register :
    (g.register a c).hasEdge b d = true ↔ g.hasEdge b d = true ∨ b = a ∧ d = c := by
  simp only [hasEdge, register, OrderedSet.contains_iff]
  exact mem_edgesOf_link

@[simp] theorem takeDependents_fst : (g.takeDependents n).1 = g.dependentsOf n := rfl

theorem hasEdge_takeDependents :
    (g.takeDependents n).2.hasEdge b d = true ↔ g.hasEdge b d = true ∧ b ≠ n := by
  simp only [hasEdge, takeDependents, OrderedSet.contains_iff, edgesOf_erase]
  by_cases hb : b = n
  · simp [hb]
  · simp [hb]

theorem hasEdge_removeBean : (g.removeBean n).hasEdge b d = true ↔
    g.hasEdge b d = true ∧ b ≠ n ∧ ¬ (b ∈ (g.takeDependents n).2.dependenciesOf n ∧ d = n) := by
  simp only [removeBean, hasEdge, OrderedSet.contains_iff, mem_edgesOf_foldl_unlink]
  rw [← OrderedSet.contains_iff, ← hasEdge, hasEdge_takeDependents, ← OrderedSet.contains_iff,
    ← hasEdge, and_assoc]

theorem hasEdge_of_removeBean (h : (g.removeBean n).hasEdge b d = true) : g.hasEdge b d = true :=
  (hasEdge_removeBean.1 h).1

theorem hasEdge_removeBean_of_ne (h : g.hasEdge b d = true) (hb : b ≠ n) (hd : d ≠ n) :
    (g.removeBean n).hasEdge b d = true :=
  hasEdge_removeBean.2 ⟨h, hb, fun hn => hd hn.2⟩

theorem size_takeDependents_lt (h : g.dependentsOf n ≠ []) :
    (g.takeDependents n).2.dependents.size < g.dependents.size := by
  refine OrderedMap.size_erase_lt ?_
  rw [OrderedMap.mem_keys_iff]
  cases hs : g.dependents.get? n with
  | none => exact absurd (by simp [dependentsOf, edgesOf, hs]) h
  | some set => exact ⟨set, rfl⟩

theorem size_takeDependents_le : (g.takeDependents n).2.dependents.size ≤ g.dependents.size :=
  OrderedMap.size_erase_le

theorem size_removeBean_le : (g.removeBean n).dependents.size ≤ g.dependents.size :=
  Nat.le_trans (size_foldl_unlink_le _ _) size_takeDependents_le

/-! ## Searching -/

/-- The relation between a bean and those that depend on it. -/
def Edge (g : DependencyGraph) (b d : String) : Prop := g.hasEdge b d = true

/-- Beans with dependents that a search has not looked at. -/
def unseen (g : DependencyGraph) (seen : List String) : List String :=
  g.dependents.keys.filter fun b => !seen.contains b

theorem length_unseen_lt {seen : List String} (hb : b ∉ seen) (hd : g.Edge b d) :
    (g.unseen (b :: seen)).length < (g.unseen seen).length := by
  have hkey : b ∈ g.dependents.keys := by
    rw [OrderedMap.mem_keys_iff]
    cases hs : g.dependents.get? b with
    | none => simp [Edge, hasEdge, edgesOf, hs] at hd
    | some set => exact ⟨set, rfl⟩
  have : g.unseen (b :: seen) = (g.unseen seen).filter fun a => a ≠ b := by
    simp only [unseen, List.filter_filter]
    refine List.filter_congr fun a _ => ?_
    by_cases ha : a = b <;> simp [ha]
  rw [this]
  exact List.length_filter_lt_length_iff_exists.2 ⟨b, by simp [unseen, hkey, hb], by simp⟩

theorem length_unseen_le_of_subset {seen seen' : List String} (h : seen ⊆ seen') :
    (g.unseen seen').length ≤ (g.unseen seen).length := by
  refine (List.monotone_filter_right _ fun b hb => ?_).length_le
  simp only [Bool.not_eq_true', List.contains_eq_mem, decide_eq_false_iff_not] at hb ⊢
  exact fun hs => hb (h hs)

theorem transGen_of_search_found {goal : String} : ∀ {depth : Nat} {s : Search} {bean : String},
    (g.search goal depth s bean).found = true → s.found = true ∨ TransGen g.Edge bean goal
  | 0, _, _, h => .inl h
  | depth + 1, s, bean, h => by
    unfold search at h
    split at h
    · exact .inl h
    · split at h
      · rename_i hgoal
        exact .inr (.single hgoal)
      · rename_i hskip _
        simp only [Bool.or_eq_true, not_or, Bool.not_eq_true] at hskip
        right
        -- Along the dependents: a goal met so far is met behind one of them.
        have key : ∀ (ds : List String) (s : Search), (∀ d ∈ ds, g.Edge bean d) → s.found = false →
            (ds.foldl (g.search goal depth) s).found = true → TransGen g.Edge bean goal := by
          intro ds
          induction ds with
          | nil => intro s _ hs h; simp [hs] at h
          | cons d ds ih =>
            intro s hds hs h
            cases hf : (g.search goal depth s d).found with
            | true =>
              have := (transGen_of_search_found hf).resolve_left (by simp [hs])
              exact .head (hds d (by simp)) this
            | false => exact ih _ (fun e he => hds e (by simp [he])) hf h
        exact key (g.dependentsOf bean) ⟨s.found, bean :: s.seen⟩
          (fun d hd => mem_dependentsOf.1 hd) hskip.1 h

/-- What a search without a find has looked at is closed under edges, none of which leads to
the goal. -/
structure Exhausted (g : DependencyGraph) (goal : String) (s s' : Search) : Prop where
  grows : s.seen ⊆ s'.seen
  closed : ∀ b ∈ s'.seen, b ∉ s.seen → ¬ g.Edge b goal ∧ ∀ d, g.Edge b d → d ∈ s'.seen

theorem Exhausted.refl {goal : String} (s : Search) : Exhausted g goal s s :=
  ⟨fun _ h => h, fun _ h h' => absurd h h'⟩

theorem Exhausted.trans {goal : String} {s t u : Search} (h : Exhausted g goal s t)
    (h' : Exhausted g goal t u) : Exhausted g goal s u where
  grows := fun _ hb => h'.grows (h.grows hb)
  closed b hb hs := by
    by_cases ht : b ∈ t.seen
    · exact ⟨(h.closed b ht hs).1, fun d hd => h'.grows ((h.closed b ht hs).2 d hd)⟩
    · exact h'.closed b hb ht

theorem exhausted_of_search_not_found {goal : String} : ∀ {depth : Nat} {s : Search} {bean : String},
    (g.unseen s.seen).length < depth → s.found = false →
      (g.search goal depth s bean).found = false →
        Exhausted g goal s (g.search goal depth s bean) ∧ bean ∈ (g.search goal depth s bean).seen
  | 0, _, _, hlt, _, _ => absurd hlt (Nat.not_lt_zero _)
  | depth + 1, s, bean, hlt, hs, h => by
    unfold search at h ⊢
    by_cases hseen : bean ∈ s.seen
    · rw [if_pos (by simp [hseen])]
      exact ⟨.refl s, hseen⟩
    rw [if_neg (by simp [hs, hseen])] at h ⊢
    by_cases hgoal : g.hasEdge bean goal = true
    · simp [hgoal] at h
    simp only [hgoal, Bool.false_eq_true, if_false] at h ⊢
    -- Behind every dependent looked at so far the search is exhausted.
    have key : ∀ (ds : List String) (t : Search), (∀ d ∈ ds, g.Edge bean d) →
        bean :: s.seen ⊆ t.seen → t.found = false → (ds.foldl (g.search goal depth) t).found = false →
        Exhausted g goal t (ds.foldl (g.search goal depth) t) ∧
          ∀ d ∈ ds, d ∈ (ds.foldl (g.search goal depth) t).seen := by
      intro ds
      induction ds with
      | nil => intro t _ _ _ _; exact ⟨.refl t, by simp⟩
      | cons d ds ih =>
        intro t hds hsub ht h
        have hd : g.Edge bean d := hds d (by simp)
        have hroom : (g.unseen t.seen).length < depth := by
          have h1 := length_unseen_lt hseen hd
          have h2 := length_unseen_le_of_subset (g := g) hsub
          omega
        have hnext : (g.search goal depth t d).found = false := by
          cases hf : (g.search goal depth t d).found with
          | false => rfl
          | true =>
            have hstay : ∀ (l : List String) (u : Search), u.found = true →
                (l.foldl (g.search goal depth) u).found = true := by
              intro l
              induction l with
              | nil => exact fun u hu => hu
              | cons e l ihl =>
                intro u hu
                refine ihl _ ?_
                cases depth with
                | zero => exact hu
                | succ k => unfold search; simp [hu]
            rw [List.foldl_cons, hstay ds _ hf] at h
            cases h
        obtain ⟨hex, hmem⟩ := exhausted_of_search_not_found hroom ht hnext
        obtain ⟨hex', hmem'⟩ := ih _ (fun e he => hds e (by simp [he]))
          (fun x hx => hex.grows (hsub hx)) hnext h
        refine ⟨hex.trans hex', fun e he => ?_⟩
        rcases List.mem_cons.1 he with rfl | he
        · exact hex'.grows hmem
        · exact hmem' e he
    obtain ⟨hex, hmem⟩ := key (g.dependentsOf bean) ⟨s.found, bean :: s.seen⟩
      (fun d hd => mem_dependentsOf.1 hd) (fun _ h => h) hs h
    refine ⟨⟨fun x hx => hex.grows (by simp [hx]), fun x hx hxs => ?_⟩, hex.grows (by simp)⟩
    by_cases hx' : x = bean
    · subst hx'
      exact ⟨hgoal, fun d hd => hmem d (mem_dependentsOf.2 hd)⟩
    · exact hex.closed x hx (by simp [hx', hxs])

/-- **A search finds exactly what lies behind a bean**, on every graph: a bean needs another one
when edges lead from the latter to the former. -/
theorem isDependent_iff_transGen : g.isDependent b d = true ↔ TransGen g.Edge b d := by
  constructor
  · intro h
    exact (transGen_of_search_found h).resolve_left (by simp)
  · intro h
    by_contra hf
    rw [Bool.not_eq_true] at hf
    have hroom : (g.unseen ({} : Search).seen).length < g.dependents.size + 1 := by
      rw [← OrderedMap.length_keys]
      exact Nat.lt_succ_of_le (List.length_filter_le ..)
    obtain ⟨hex, hb⟩ := exhausted_of_search_not_found hroom rfl hf
    -- Everything on the way is seen, the last bean before the goal too.
    have hall : ∀ x, ReflTransGen g.Edge b x →
        x ∈ (g.search d (g.dependents.size + 1) {} b).seen := by
      intro x hx
      induction hx with
      | refl => exact hb
      | tail _ he ih => exact (hex.closed _ ih (by simp)).2 _ he
    obtain ⟨x, hx, he⟩ := TransGen.tail'_iff.1 h
    exact (hex.closed x (hall x hx) (by simp)).1 he

/-! ## The bound of a search -/

theorem seen_subset_search {goal : String} : ∀ {depth : Nat} {s : Search} {bean : String},
    s.seen ⊆ (g.search goal depth s bean).seen
  | 0, _, _ => fun _ h => h
  | depth + 1, s, bean => by
    unfold search
    split
    · exact fun _ h => h
    split
    · exact List.subset_cons_self _ _
    · have key : ∀ (ds : List String) (t : Search), t.seen ⊆ (ds.foldl (g.search goal depth) t).seen := by
        intro ds
        induction ds with
        | nil => exact fun _ _ h => h
        | cons d ds ih => exact fun t _ h => ih _ (seen_subset_search h)
      exact fun _ h => key _ ⟨s.found, bean :: s.seen⟩ (List.mem_cons_of_mem bean h)

/-- More depth than there are beans with dependents to look at changes nothing: no way of the search
goes through one of them twice. -/
theorem search_succ {goal : String} : ∀ {depth : Nat} {s : Search} {bean : String},
    (g.unseen s.seen).length < depth → g.search goal (depth + 1) s bean = g.search goal depth s bean
  | 0, _, _, hlt => absurd hlt (Nat.not_lt_zero _)
  | depth + 1, s, bean, hlt => by
    rw [search, search]
    split
    · rfl
    split
    · rfl
    · rename_i hskip _
      simp only [Bool.or_eq_true, List.contains_eq_mem, decide_eq_true_eq, not_or] at hskip
      have key : ∀ (ds : List String) (t : Search), (∀ d ∈ ds, g.Edge bean d) → bean :: s.seen ⊆ t.seen →
          ds.foldl (g.search goal (depth + 1)) t = ds.foldl (g.search goal depth) t := by
        intro ds
        induction ds with
        | nil => exact fun _ _ _ => rfl
        | cons d ds ih =>
          intro t hds hsub
          have hroom : (g.unseen t.seen).length < depth := by
            have h1 := length_unseen_lt hskip.2 (hds d List.mem_cons_self)
            have h2 := length_unseen_le_of_subset (g := g) hsub
            omega
          rw [List.foldl_cons, List.foldl_cons, search_succ hroom]
          exact ih _ (fun e he => hds e (List.mem_cons_of_mem d he)) fun _ h => seen_subset_search (hsub h)
      exact key _ _ (fun d hd => mem_dependentsOf.1 hd) fun _ h => h

theorem search_eq_of_lt {goal : String} {depth : Nat} (h : g.dependents.size < depth) :
    g.search goal depth {} b = g.search goal (g.dependents.size + 1) {} b := by
  have hunseen : (g.unseen ({} : Search).seen).length ≤ g.dependents.size := by
    rw [← OrderedMap.length_keys]
    exact List.length_filter_le ..
  obtain ⟨more, rfl⟩ := Nat.exists_eq_add_of_lt h
  induction more with
  | zero => rfl
  | succ more ih =>
    have hroom : (g.unseen ({} : Search).seen).length < g.dependents.size + more + 1 := by omega
    exact (search_succ hroom).trans (ih (by omega))

/-! ## Ways through the graph -/

/-- A way from one bean to another, with the beans between them: each depends on the one before. -/
def Way (g : DependencyGraph) (b : String) (between : List String) (d : String) : Prop :=
  List.IsChain g.Edge (b :: (between ++ [d]))

theorem way_nil : g.Way b [] d ↔ g.Edge b d := by simp [Way]

theorem way_cons {between : List String} : g.Way b (c :: between) d ↔ g.Edge b c ∧ g.Way c between d :=
  List.isChain_cons_cons

theorem Way.transGen {between : List String} (h : g.Way b between d) : TransGen g.Edge b d := by
  induction between generalizing b with
  | nil => exact .single (way_nil.1 h)
  | cons c between ih => exact .head (way_cons.1 h).1 (ih (way_cons.1 h).2)

theorem Way.rest {before after between : List String} (h : g.Way c between d)
    (he : c :: between = before ++ b :: after) : g.Way b after d := by
  unfold Way at h
  rw [← List.cons_append, he, List.append_assoc] at h
  exact h.right_of_append

/-- What edges lead to, a way without repetition leads to: a way that comes back to the bean it
starts from is taken up where it was there last. -/
theorem exists_way_nodup (h : TransGen g.Edge b d) : ∃ between, g.Way b between d ∧ (b :: between).Nodup := by
  induction h using TransGen.head_induction_on with
  | single h => exact ⟨[], way_nil.2 h, List.nodup_singleton _⟩
  | @head b c h _ ih =>
    obtain ⟨between, hway, hnodup⟩ := ih
    by_cases hb : b ∈ c :: between
    · obtain ⟨before, after, he⟩ := List.append_of_mem hb
      rw [he] at hnodup
      exact ⟨after, hway.rest he, (List.nodup_append.1 hnodup).2.1⟩
    · exact ⟨c :: between, way_cons.2 ⟨h, hway⟩, List.nodup_cons.2 ⟨hb, hnodup⟩⟩

/-- **A bean needs another one when a way through the graph leads there**, on every graph, and itself
when it is on a circle. No search is cut short: more depth finds the same and looks at the same. -/
theorem isDependent_iff_way (g : DependencyGraph) (b d : String) :
    (∀ depth, g.dependents.size < depth →
      g.search d depth {} b = g.search d (g.dependents.size + 1) {} b) ∧
    (g.isDependent b d = true ↔ ∃ between, g.Way b between d) ∧
    (g.isDependent b b = true ↔ ∃ between, g.Way b between b ∧ (b :: between).Nodup) := by
  refine ⟨fun _ => search_eq_of_lt, ?_, ?_⟩
  · rw [isDependent_iff_transGen]
    constructor
    · intro h
      obtain ⟨between, hway, -⟩ := exists_way_nodup h
      exact ⟨between, hway⟩
    · rintro ⟨between, hway⟩
      exact hway.transGen
  · rw [isDependent_iff_transGen]
    exact ⟨exists_way_nodup, fun ⟨_, hway, _⟩ => hway.transGen⟩

/-- A bean that needs itself alone, and two that need each other. -/
example :
    let g := (({} : DependencyGraph).register "a" "a").register "b" "c" |>.register "c" "b"
    g.isDependent "a" "a" = true ∧ g.isDependent "b" "b" = true ∧ g.isDependent "a" "b" = false := by
  decide +kernel

end BeanContainer.DependencyGraph
