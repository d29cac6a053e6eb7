import BeanContainer.Proofs.Changes
import BeanContainer.Proofs.EdgeList
import BeanContainer.Proofs.Resets
import BeanContainer.Proofs.Teardown

/-!
What goes with a definition, if no callback interferes. A cascade destroys what
its bean leads to along the edges, and these edges go (`sweeps_destroyCascade`). A
reset drops the merges of a definition and all below it, and starts a cascade for
each (`yields_resetDefinition_swept`).

Edges are deleted on the way, so every cascade finds a smaller graph. Nothing is
missed for that: a way into what was swept before ends there, and another one is
still whole (`reach_union`).
-/

namespace BeanContainer

open Relation Session

/-! ## What leads where -/

section

variable {E E' : String → String → Prop} {S T : Set String} {b d n x : String}

/-- What some names lead to, and these names themselves. -/
def reach (E : String → String → Prop) (S : Set String) : Set String :=
  {x | ∃ n ∈ S, ReflTransGen E n x}

theorem subset_reach : S ⊆ reach E S := fun n hn => ⟨n, hn, .refl⟩

theorem reach_closed (hb : b ∈ reach E S) (h : E b d) : d ∈ reach E S := by
  obtain ⟨n, hn, hnb⟩ := hb
  exact ⟨n, hn, hnb.tail h⟩

theorem reach_mono (hE : ∀ b d, E' b d → E b d) (hS : S ⊆ T) : reach E' S ⊆ reach E T := by
  rintro x ⟨n, hn, hx⟩
  exact ⟨n, hS hn, ReflTransGen.mono hE _ _ hx⟩

theorem reach_empty : reach E ∅ = ∅ := Set.eq_empty_of_forall_notMem fun _ ⟨_, hn, _⟩ => hn

/-- When what some names lead to is gone with its edges, what others lead to is left, or went too. -/
theorem reach_union (h : ∀ b d, E' b d ↔ E b d ∧ b ∉ reach E S ∧ d ∉ reach E S) :
    reach E S ∪ reach E' T = reach E (S ∪ T) := by
  refine Set.Subset.antisymm (Set.union_subset ?_ ?_) ?_
  · exact reach_mono (fun _ _ h => h) Set.subset_union_left
  · exact reach_mono (fun b d he => ((h b d).1 he).1) Set.subset_union_right
  · rintro x ⟨n, hn | hn, hx⟩
    · exact .inl ⟨n, hn, hx⟩
    · have hway : x ∈ reach E S ∨ ReflTransGen E' n x := by
        induction hx with
        | refl => exact .inr .refl
        | @tail b c _ he ih =>
          by_cases hc : c ∈ reach E S
          · exact .inl hc
          · have hb : b ∉ reach E S := fun hb => hc (reach_closed hb he)
            exact .inr ((ih.resolve_left hb).tail ((h b c).2 ⟨he, hb, hc⟩))
      exact hway.imp id fun hway => ⟨n, hn, hway⟩

/-- What a name leads to, its dependents lead to without it. -/
theorem insert_reach (h : ∀ b d, E' b d ↔ E b d ∧ b ≠ n) :
    insert n (reach E' {d | E n d}) = reach E ({n} : Set String) := by
  refine Set.Subset.antisymm (Set.insert_subset (subset_reach rfl) ?_) ?_
  · rintro x ⟨d, hd, hx⟩
    exact ⟨n, rfl, .head hd (ReflTransGen.mono (fun b c he => ((h b c).1 he).1) _ _ hx)⟩
  · rintro x ⟨m, rfl, hx⟩
    induction hx with
    | refl => exact .inl rfl
    | @tail b c _ he ih =>
      by_cases hb : b = m
      · exact .inr (subset_reach (hb ▸ he))
      · exact .inr (reach_closed (ih.resolve_left hb) ((h b c).2 ⟨he, hb⟩))

end

/-! ## Sweeping -/

section

variable {α : Type} {l : List α} {p q r : α → Prop} {_ : DecidablePred p} {_ : DecidablePred q}
  {_ : DecidablePred r}

theorem filter_filter_of_iff (h : ∀ a, r a ↔ p a ∧ q a) :
    (l.filter fun a => p a).filter (fun a => q a) = l.filter fun a => r a := by
  rw [List.filter_filter]
  refine List.filter_congr fun a _ => ?_
  rw [← Bool.decide_and, decide_eq_decide, h, and_comm]

theorem perm_filter_append (h : ∀ a, r a ↔ p a ∨ q a) :
    ((l.filter fun a => p a) ++ (l.filter fun a => ¬ p a).filter fun a => q a).Perm
      (l.filter fun a => r a) := by
  refine (List.Perm.of_eq ?_).trans (List.filter_append_perm (fun a => p a) (l.filter fun a => r a))
  congr 1
  · rw [List.filter_filter]
    refine List.filter_congr fun a _ => ?_
    rw [← Bool.decide_and, decide_eq_decide, h]
    tauto
  · rw [List.filter_filter, List.filter_filter]
    refine List.filter_congr fun a _ => ?_
    by_cases hp : p a <;> simp [hp, h]

end

open Classical in
/-- A factory has lost the cached merges of the names in `D`, and of those in `K` the singletons, the names
registered by hand and the edges. All else is as it was. -/
structure Factory.Loses (D K : Set String) (F F' : Factory) : Prop where
  rest : F' = { F with
    merged := F'.merged
    singletons := { F.singletons with objects := F'.singletons.objects }
    manualNames := F'.manualNames
    dependencies := F'.dependencies }
  merged : F'.merged.entries.entries = F.merged.entries.entries.filter fun e => e.1 ∉ D
  objects : F'.singletons.objects.entries = F.singletons.objects.entries.filter fun e => e.1 ∉ K
  manualNames : F'.manualNames.toList = F.manualNames.toList.filter fun n => n ∉ K
  edges : ∀ {edges}, F.dependencies.Mirrors edges →
    F'.dependencies.Mirrors (edges.filter fun e => e.1 ∉ K ∧ e.2 ∉ K)
  size : F'.dependencies.dependents.size ≤ F.dependencies.dependents.size

namespace Factory.Loses

variable {D D' K K' : Set String} {F F' F'' : Factory} {n : String}

theorem refl (F : Factory) : Loses ∅ ∅ F F where
  rest := rfl
  merged := by simp
  objects := by simp
  manualNames := by simp
  edges hm := by simpa using hm
  size := Nat.le_refl _

theorem trans (h : Loses D K F F') (h' : Loses D' K' F' F'') : Loses (D ∪ D') (K ∪ K') F F'' where
  rest := by rw [h'.rest, h.rest]
  merged := by
    rw [h'.merged, h.merged]
    exact filter_filter_of_iff fun e => not_or
  objects := by
    rw [h'.objects, h.objects]
    exact filter_filter_of_iff fun e => not_or
  manualNames := by
    rw [h'.manualNames, h.manualNames]
    exact filter_filter_of_iff fun n => not_or
  edges hm := by
    refine cast (congrArg _ (filter_filter_of_iff fun e => ?_)) (h'.edges (h.edges hm))
    simp only [Set.mem_union]
    tauto
  size := h'.size.trans h.size

theorem evict : Loses {n} ∅ F { F with merged := F.merged.evict n } where
  rest := rfl
  merged := List.filter_congr fun e _ => decide_eq_decide.2 Iff.rfl
  objects := by simp
  manualNames := by simp
  edges hm := by simpa using hm
  size := Nat.le_refl _

theorem definitions (h : Loses D K F F') : F'.definitions = F.definitions := by rw [h.rest]

theorem processors (h : Loses D K F F') : F'.processors = F.processors := by rw [h.rest]

theorem isChildOf (h : Loses D K F F') : F'.isChildOf = F.isChildOf := by
  rw [h.rest]
  rfl

theorem childOf (h : Loses D K F F') : F'.ChildOf = F.ChildOf := by
  unfold ChildOf
  rw [h.definitions, h.isChildOf]

/-- A bean that leaves the cache before others are lost, and its edges after them, is lost with them. -/
theorem around (h : Loses ∅ K { F with
      singletons := F.singletons.erase n
      manualNames := F.manualNames.erase n
      dependencies := (F.dependencies.takeDependents n).2 } F') :
    Loses ∅ (insert n K) F { F' with dependencies := F'.dependencies.removeBean n } where
  rest := by
    rw [h.rest]
    rfl
  merged := h.merged
  objects := by
    refine h.objects.trans ?_
    exact filter_filter_of_iff fun e => not_or
  manualNames := by
    refine h.manualNames.trans ?_
    exact filter_filter_of_iff fun e => not_or
  edges hm := by
    classical
    have := (h.edges hm.takeDependents).removeBean (b := n)
    rw [List.filter_filter, List.filter_filter] at this
    refine cast (congrArg _ (List.filter_congr fun e _ => ?_)) this
    rw [← Bool.decide_and, ← Bool.decide_and, decide_eq_decide]
    simp only [Set.mem_insert_iff]
    tauto
  size := DependencyGraph.size_removeBean_le.trans (h.size.trans DependencyGraph.size_takeDependents_le)

theorem dropEdges (h : Loses D K F F') (hn : n ∈ K) :
    Loses D K F { F' with dependencies := F'.dependencies.removeBean n } where
  rest := by
    rw [h.rest]
  merged := h.merged
  objects := h.objects
  manualNames := h.manualNames
  edges hm := by
    classical
    have := (h.edges hm).removeBean (b := n)
    rw [List.filter_filter] at this
    refine cast (congrArg _ (List.filter_congr fun e _ => ?_)) this
    rw [← Bool.decide_and, decide_eq_decide]
    exact ⟨fun he => he.2, fun he => ⟨⟨fun e' => he.1 (e' ▸ hn), fun e' => he.2 (e' ▸ hn)⟩, he⟩⟩
  size := DependencyGraph.size_removeBean_le.trans h.size

/-- What was lost leaves the edges that touch none of it. -/
theorem edge_iff (h : Loses D K F F') {edges : List (String × String)} (hm : F.dependencies.Mirrors edges)
    {b d : String} : F'.dependencies.Edge b d ↔ F.dependencies.Edge b d ∧ b ∉ K ∧ d ∉ K := by
  unfold DependencyGraph.Edge
  rw [(h.edges hm).hasEdge, hm.hasEdge]
  simp

end Factory.Loses

open Classical in
/-- Some names are swept from a factory: it has lost the merges of those in `D` and what it had of those in
`K`, whose singletons were destroyed, each by one of the destructions that `ran`. -/
structure Swept (env : Collaborators) (f : FactoryId) (D K : Set String) (ran : List Destruction)
    (s t : Session) : Prop where
  session : t = { s with factories := t.factories, record := t.record, made := t.made }
  others : t.factories = (s.setFactory f (t.factory f)).factories
  factory : (s.factory f).Loses D K (t.factory f)
  victims : (ran.map fun x => (x.name, x.victim)).Perm
    ((s.factory f).singletons.objects.entries.filter fun e => e.1 ∈ K)
  real : ∀ x ∈ ran, x.Ran env (s.factory f).processors
  record : t.record.filter Occurrence.isDestruction =
    (ran.flatMap Destruction.occurrences).reverse ++ s.record.filter Occurrence.isDestruction

namespace Session

variable {s t : Session} {f : FactoryId} {n : String}

theorem factories_eq_of_set {F : Factory} (hf : f < s.factories.length)
    (h : t.factories = s.factories.set f F) : t.factories = (s.setFactory f (t.factory f)).factories := by
  have hself : t.factory f = F := by
    unfold factory
    rw [h]
    simp [hf]
  rw [hself, h]
  rfl

theorem detach_same : s.detach f n =
    { s with factories := (s.detach f n).factories, record := (s.detach f n).record } := by
  have hrelease : (s.release f n).2 =
      { s with factories := (s.release f n).2.factories, record := (s.release f n).2.record } := by
    unfold release
    dsimp only
    split <;> rfl
  unfold detach takeDependents setFactory
  generalize (s.release f n).2 = r at hrelease ⊢
  rw [hrelease]

theorem factories_detach (hf : f < s.factories.length) :
    (s.detach f n).factories = s.factories.set f ((s.detach f n).factory f) := by
  refine factories_eq_of_set (F := { (s.release f n).2.factory f with
    dependencies := (((s.release f n).2.factory f).dependencies.takeDependents n).2 }) hf ?_
  unfold detach takeDependents setFactory
  rw [factories_release]
  simp [setFactory]

end Session

namespace Swept

variable {env : Collaborators} {f : FactoryId} {D D' K K' : Set String} {ran ran' : List Destruction}
  {s t u : Session} {n : String}

theorem length (h : Swept env f D K ran s t) : t.factories.length = s.factories.length := by
  rw [h.others, length_setFactory]

theorem factory_of_ne (h : Swept env f D K ran s t) {g : FactoryId} (hg : g ≠ f) :
    t.factory g = s.factory g := by
  have hset : t.factory g = (s.setFactory f (t.factory f)).factory g := by
    change t.factories.getD g {} = (s.setFactory f (t.factory f)).factory g
    rw [h.others]
    rfl
  exact hset.trans (factory_setFactory_of_ne hg)

theorem of_told (h : t = { s with record := t.record, made := t.made })
    (hrecord : t.record.filter Occurrence.isDestruction = s.record.filter Occurrence.isDestruction) :
    Swept env f ∅ ∅ [] s t := by
  have hfactories : t.factories = s.factories := by rw [h]
  have hfactory : t.factory f = s.factory f := by
    unfold Session.factory
    rw [hfactories]
  exact {
    session := h.trans (by rw [hfactories])
    others := by rw [hfactory, setFactory_factory, hfactories]
    factory := hfactory ▸ .refl _
    victims := by simp
    real := by simp
    record := hrecord }

theorem of_remarks (h : s.Remarks t) : Swept env f ∅ ∅ [] s t :=
  .of_told h.same (h.filter_record fun _ => Occurrence.isDestruction_of_isRemark)

theorem evict (hf : f < s.factories.length) : Swept env f {n} ∅ [] s
    (s.setFactory f { s.factory f with merged := (s.factory f).merged.evict n }) where
  session := rfl
  others := by rw [factory_setFactory_self hf]
  factory := by
    rw [factory_setFactory_self hf]
    exact .evict
  victims := by simp
  real := by simp
  record := rfl

/-- **Sweeping twice is sweeping once.** -/
theorem trans (h : Swept env f D K ran s t) (h' : Swept env f D' K' ran' t u) :
    Swept env f (D ∪ D') (K ∪ K') (ran ++ ran') s u where
  session := by rw [h'.session, h.session]
  others := by
    rw [h'.others]
    unfold setFactory
    rw [h.others]
    simp [setFactory]
  factory := h.factory.trans h'.factory
  victims := by
    rw [List.map_append]
    refine (h.victims.append h'.victims).trans ?_
    rw [h.factory.objects]
    exact perm_filter_append fun e => Iff.rfl
  real x hx := (List.mem_append.1 hx).elim (h.real x) fun hx => h.factory.processors ▸ h'.real x hx
  record := by
    rw [h'.record, h.record]
    simp

theorem dropEdges (h : Swept env f D K ran s t) (hf : f < s.factories.length) (hn : n ∈ K) :
    Swept env f D K ran s (t.dropEdges f n) where
  session := by
    unfold Session.dropEdges Session.modifyFactory
    rw [h.session]
  others := by
    refine factories_eq_of_set hf (F := { t.factory f with
      dependencies := (t.factory f).dependencies.removeBean n }) ?_
    rw [Session.dropEdges, modifyFactory_eq_setFactory, setFactory, h.others, setFactory]
    simp
  factory := by
    rw [factory_dropEdges (h.length ▸ hf)]
    exact h.factory.dropEdges hn
  victims := h.victims
  real := h.real
  record := h.record

theorem edge_eq {edges : List (String × String)} (h : Swept env f D ∅ ran s t)
    (hm : (s.factory f).dependencies.Mirrors edges) : t.edge f = s.edge f := by
  funext b d
  exact propext ((h.factory.edge_iff hm).trans (by simp [Session.edge]))

/-- What some names lead to and what others lead to afterwards is what all of them led to. -/
theorem reach_union {S T : Set String} {edges : List (String × String)}
    (h : Swept env f D (reach (s.edge f) S) ran s t) (hm : (s.factory f).dependencies.Mirrors edges) :
    reach (s.edge f) S ∪ reach (t.edge f) T = reach (s.edge f) (S ∪ T) :=
  BeanContainer.reach_union fun _ _ => h.factory.edge_iff hm

theorem around {notices : List Notice} (own : List Destruction) (hf : f < s.factories.length)
    (h : Swept env f ∅ K ran ((s.detach f n).writeNotices notices) t)
    (hown : own.map (fun x => (x.name, x.victim)) = (s.singleton? f n).toList.map fun i => (n, i))
    (real : ∀ x ∈ own, x.Ran env (s.factory f).processors)
    (hu : u = { t with record := u.record, made := u.made })
    (hrec : u.record.filter Occurrence.isDestruction =
      (own.flatMap Destruction.occurrences).reverse ++ t.record.filter Occurrence.isDestruction) :
    Swept env f ∅ (insert n K) (ran ++ own) s (u.dropEdges f n) := by
  have hmid : (s.detach f n).Remarks ((s.detach f n).writeNotices notices) := .writeNotices
  have hfirst : ((s.detach f n).writeNotices notices).factory f = _ :=
    (hmid.factory f).trans (factory_detach hf)
  have hlen : f < u.factories.length := by
    rw [hu]
    change f < t.factories.length
    rw [h.length, hmid.factories, factories_detach hf]
    simpa using hf
  have hfactory : u.factory f = t.factory f := by
    rw [hu]
    rfl
  constructor
  case session =>
    change { u with factories := _ } = _
    rw [hu, h.session, hmid.same, detach_same]
    rfl
  case others =>
    refine factories_eq_of_set hf (F := { u.factory f with
      dependencies := (u.factory f).dependencies.removeBean n }) ?_
    rw [Session.dropEdges, modifyFactory_eq_setFactory, setFactory, show u.factories = t.factories by rw [hu],
      h.others, setFactory, hmid.factories, factories_detach hf]
    simp
  case factory =>
    rw [factory_dropEdges hlen, hfactory]
    exact (hfirst ▸ h.factory).around
  case victims =>
    have hown' : (s.singleton? f n).toList.map (fun i => (n, i)) =
        (s.factory f).singletons.objects.entries.filter fun e => e.1 = n := by
      exact OrderedMap.filter_entries_eq.symm
    rw [List.map_append, hown, hown']
    refine (h.victims.append_right _).trans (List.perm_append_comm.trans ?_)
    rw [hfirst]
    exact perm_filter_append fun e => Iff.rfl
  case real =>
    intro x hx
    rcases List.mem_append.1 hx with hx | hx
    · have := h.real x hx
      rwa [hfirst] at this
    · exact real x hx
  case record =>
    rw [Session.dropEdges, record_modifyFactory, hrec, h.record,
      hmid.filter_record fun _ => Occurrence.isDestruction_of_isRemark, filter_record_detach]
    simp

end Swept

/-! ## Cascades -/

section

variable {env : Collaborators} {again : Reentry} {f : FactoryId} {n : Nat}

/-- Destroying a bean sweeps whatever it leads to, as long as at most `n` beans have dependents. -/
def Sweeps (env : Collaborators) (f : FactoryId) (n : Nat) (destroy : String → Effect (List BeanError)) :
    Prop :=
  ∀ ⦃s name edges⦄, f < s.factories.length → (s.factory f).dependencies.Mirrors edges →
    (s.factory f).dependencies.dependents.size ≤ n →
    Yields False (destroy name) s fun _ t => ∃ ran, Swept env f ∅ (reach (s.edge f) {name}) ran s t

theorem Sweeps.foldlM {destroy : String → Effect (List BeanError)} (h : Sweeps env f n destroy) :
    ∀ {names : List String} {before : List BeanError} {s : Session} {edges : List (String × String)},
      f < s.factories.length → (s.factory f).dependencies.Mirrors edges →
      (s.factory f).dependencies.dependents.size ≤ n →
      Yields False (names.foldlM (fun failures name => do return failures ++ (← destroy name)) before) s
        fun _ t => ∃ ran, Swept env f ∅ (reach (s.edge f) {x | x ∈ names}) ran s t
  | [], before, s, edges, _, _, _ => by
    refine ⟨[], ?_⟩
    have hnone : reach (s.edge f) {x | x ∈ ([] : List String)} = ∅ := by
      simp [reach_empty]
    rw [hnone]
    exact .of_remarks (.refl s)
  | name :: names, before, s, edges, hf, hm, hsize => by
    simp only [List.foldlM_cons, yields_bind, yields_pure]
    refine (h hf hm hsize).mono ?_
    rintro failures t ⟨ran, ht⟩
    have hall : reach (s.edge f) {name} ∪ reach (t.edge f) {x | x ∈ names} =
        reach (s.edge f) {x | x ∈ name :: names} := by
      rw [ht.reach_union hm]
      congr 1
      ext x
      simp
    refine (h.foldlM (ht.length ▸ hf) (ht.factory.edges hm) (ht.factory.size.trans hsize)).mono ?_
    rintro failures u ⟨ran', hu⟩
    have hboth := ht.trans hu
    rw [hall, Set.union_empty] at hboth
    exact ⟨_, hboth⟩

theorem yields_dependents_swept (below : ∀ k, k + 1 = n → Sweeps env f k (again.destroy f)) {s : Session}
    {name : String} {edges : List (String × String)} {notices : List Notice}
    (hf : f < s.factories.length) (hm : (s.factory f).dependencies.Mirrors edges)
    (hsize : (s.factory f).dependencies.dependents.size ≤ n) :
    Yields False (((s.factory f).dependencies.dependentsOf name).foldlM
      (fun failures d => do return failures ++ (← again.destroy f d)) [])
      ((s.detach f name).writeNotices notices) fun _ t => ∃ ran, Swept env f ∅
        (reach ((s.detach f name).edge f) {d | s.edge f name d}) ran
        ((s.detach f name).writeNotices notices) t := by
  have hmid : (s.detach f name).Remarks ((s.detach f name).writeNotices notices) := .writeNotices
  have hset : {d | s.edge f name d} = {d | d ∈ (s.factory f).dependencies.dependentsOf name} := by
    ext d
    exact DependencyGraph.mem_dependentsOf.symm
  rw [hset]
  by_cases hnil : (s.factory f).dependencies.dependentsOf name = []
  · have hnone : reach ((s.detach f name).edge f) {d | d ∈ ([] : List String)} = ∅ := by
      simp [reach_empty]
    rw [hnil, hnone]
    exact ⟨[], .of_remarks (.refl _)⟩
  · have hlen : f < (s.detach f name).factories.length := by
      rw [factories_detach hf]
      simpa using hf
    have hmirrors : ((s.detach f name).factory f).dependencies.Mirrors (edges.filter fun e => e.1 ≠ name) := by
      rw [factory_detach hf]
      exact hm.takeDependents
    have hlt := size_dependents_detach_lt hf hnil
    have hedge : (s.detach f name).edge f = ((s.detach f name).writeNotices notices).edge f := by
      unfold Session.edge
      rw [hmid.factory]
    rw [hedge]
    exact (below (n - 1) (by omega)).foldlM (by rwa [hmid.factories]) (by rwa [hmid.factory])
      (by rw [hmid.factory]; omega)

/-- A cascade sweeps its bean, given that a level below its dependents are swept. -/
theorem sweeps_of_reentry (quiet : env.QuietEnds)
    (below : ∀ k, k + 1 = n → Sweeps env f k (again.destroy f)) :
    Sweeps env f n (destroyCascade env again f) := by
  intro s name edges hf hm hsize
  rw [yields_destroyCascade hf, ← insert_reach fun b d => edge_detach hf]
  refine (yields_dependents_swept below hf hm hsize).mono ?_
  rintro before t ⟨ran, ht⟩
  cases hv : (s.factory f).singletons.get? name with
  | none => exact ⟨ran ++ [], ht.around [] hf (by simp [hv]) (by simp) rfl rfl⟩
  | some i =>
    have hproc : (t.factory f).processors = (s.factory f).processors := by
      rw [ht.factory.processors, Remarks.writeNotices.factory, factory_detach hf]
    dsimp only
    rw [hproc]
    refine (yields_destroyInstance_ran quiet).mono ?_
    rintro failure u ⟨hu, hran⟩
    cases failure with
    | none =>
      exact ⟨_, ht.around [⟨name, i, none⟩] hf (by simp [hv]) (by simpa using hran) hu.same hu.filter_record⟩
    | some failure =>
      refine ⟨_, ht.around [⟨name, i, some failure⟩] hf (by simp [hv]) (by simpa using hran) ?_ ?_⟩
      · rw [hu.same]
        rfl
      · rw [record_write, List.filter_cons_of_neg Bool.false_ne_true, hu.filter_record]

/-- **A cascade sweeps whatever its bean leads to.** Every level of it uses up a bean with dependents, so
its budget need not be larger than the number of these. -/
theorem sweeps_destroyCascade (quiet : env.QuietEnds) :
    ∀ n, Sweeps env f n (destroyCascade env (reentry env n) f) := by
  intro n
  induction n with
  | zero => exact sweeps_of_reentry quiet fun k hk => absurd hk (by omega)
  | succ n ih =>
    refine sweeps_of_reentry quiet fun k hk => ?_
    obtain rfl : k = n := by omega
    exact ih

end

/-! ## Resets -/

theorem Factory.length_unmet_le {F : Factory} {path path' : List String} (h : path ⊆ path') :
    (F.unmet path').length ≤ (F.unmet path).length := by
  refine List.Sublist.length_le (List.monotone_filter_right _ fun n hn => ?_)
  simp only [List.contains_eq_mem, Bool.not_eq_true', decide_eq_false_iff_not] at hn ⊢
  exact fun hmem => hn (h hmem)

theorem Factory.Loses.unmet {D K : Set String} {F F' : Factory} (h : F.Loses D K F') :
    F'.unmet = F.unmet := by
  rw [h.rest]
  rfl

/-- A visit of some names, of which those in `V` had been visited before, has come to those in `D`: to the
others among them, and to all children of where it came. -/
structure Factory.Descends (B : Factory) (V : OrderedSet String) (names : List String) (D : Set String)
    (V' : OrderedSet String) : Prop where
  visited : ∀ {x}, x ∈ V'.toList ↔ x ∈ V.toList ∨ x ∈ D
  fresh : ∀ x ∈ D, x ∉ V.toList
  named : ∀ x ∈ names, x ∈ V'.toList
  closed : ∀ x ∈ D, ∀ c, B.ChildOf c x → c ∈ V'.toList
  below : ∀ x ∈ D, ∃ a ∈ names, x ∈ B.Below a

namespace Factory.Descends

variable {B : Factory} {V V' W : OrderedSet String} {names more : List String} {D D' : Set String}
  {name : String}

theorem nil : B.Descends V [] ∅ V where
  visited := by simp
  fresh := by simp
  named := by simp
  closed := by simp
  below := by simp

theorem of_mem (h : name ∈ V.toList) : B.Descends V [name] ∅ V where
  visited := by simp
  fresh := by simp
  named := by simpa using h
  closed := by simp
  below := by simp

theorem trans (h : B.Descends V names D V') (h' : B.Descends V' more D' W) :
    B.Descends V (names ++ more) (D ∪ D') W where
  visited := by
    intro x
    rw [h'.visited, h.visited, or_assoc, Set.mem_union]
  fresh x hx hV := hx.elim (fun hx => h.fresh x hx hV) fun hx => h'.fresh x hx (h.visited.2 (.inl hV))
  named x hx := (List.mem_append.1 hx).elim (fun hx => h'.visited.2 (.inl (h.named x hx))) (h'.named x)
  closed x hx c hc := hx.elim (fun hx => h'.visited.2 (.inl (h.closed x hx c hc)))
    fun hx => h'.closed x hx c hc
  below x hx := by
    rcases hx with hx | hx
    · obtain ⟨a, ha, hxa⟩ := h.below x hx
      exact ⟨a, List.mem_append_left _ ha, hxa⟩
    · obtain ⟨a, ha, hxa⟩ := h'.below x hx
      exact ⟨a, List.mem_append_right _ ha, hxa⟩

theorem child (hname : name ∉ V.toList) (h : B.Descends (V.insert name) names D V')
    (children : ∀ c, c ∈ names ↔ B.ChildOf c name) : B.Descends V [name] (insert name D) V' where
  visited := by
    intro x
    rw [h.visited, OrderedSet.mem_insert, Set.mem_insert_iff, or_assoc]
  fresh := by
    rintro x (rfl | hx)
    · exact hname
    · exact fun hV => h.fresh x hx (OrderedSet.mem_insert.2 (.inl hV))
  named x hx := by
    obtain rfl := List.mem_singleton.1 hx
    exact h.visited.2 (.inl (OrderedSet.mem_insert.2 (.inr rfl)))
  closed := by
    rintro x (rfl | hx) c hc
    · exact h.named c ((children c).2 hc)
    · exact h.closed x hx c hc
  below := by
    rintro x (rfl | hx)
    · exact ⟨x, by simp, mem_below_self⟩
    · obtain ⟨c, hc, hx⟩ := h.below x hx
      exact ⟨name, by simp, ReflTransGen.head ((children c).1 hc) hx⟩

/-- From the start, a visit comes to all that is below. -/
theorem eq_below (h : B.Descends {} [name] D V) : D = B.Below name := by
  have hall : ∀ {x}, x ∈ V.toList → x ∈ D := fun hx => (h.visited.1 hx).resolve_left (by simp)
  refine Set.Subset.antisymm (fun x hx => ?_) fun x hx => ?_
  · obtain ⟨a, ha, hx⟩ := h.below x hx
    rwa [List.mem_singleton.1 ha] at hx
  · induction hx with
    | refl => exact hall (h.named name (by simp))
    | tail _ hc ih => exact hall (h.closed _ ih _ hc)

end Factory.Descends

theorem Factory.Loses.descends {D K : Set String} {F F' : Factory} (h : F.Loses D K F')
    {V V' : OrderedSet String} {names : List String} {S : Set String}
    (hvisit : F'.Descends V names S V') : F.Descends V names S V' where
  visited := hvisit.visited
  fresh := hvisit.fresh
  named := hvisit.named
  closed := h.childOf ▸ hvisit.closed
  below := by
    have hbelow : F'.Below = F.Below := by
      unfold Factory.Below
      rw [h.childOf]
    exact hbelow ▸ hvisit.below

section

variable {env : Collaborators} {again : Reentry} {f : FactoryId} {n : Nat}

/-- Resetting a name visits it and what is below it, and sweeps that: the merges of all, and whatever
these lead to; the name's own singleton may be exempt. There is room for it as long as the definitions not
visited yet and the beans with dependents are fewer than `n`. -/
def SweepsResets (env : Collaborators) (f : FactoryId) (n : Nat)
    (reset : String → Bool → OrderedSet String → Effect (OrderedSet String)) : Prop :=
  ∀ ⦃s V name destroySingleton edges⦄, f < s.factories.length →
    (s.factory f).dependencies.Mirrors edges →
    (name ∉ V.toList → ((s.factory f).unmet (V.toList ++ [name])).length +
      (s.factory f).dependencies.dependents.size < n) →
    Yields False (reset name destroySingleton V) s fun V' t => ∃ D ran,
      (s.factory f).Descends V [name] D V' ∧
      Swept env f D (reach (s.edge f) (if destroySingleton then D else D \ {name})) ran s t

theorem SweepsResets.children {reset : String → Bool → OrderedSet String → Effect (OrderedSet String)}
    (h : SweepsResets env f n reset) {name : String} :
    ∀ {entries : List (String × Definition)} {s : Session} {V : OrderedSet String}
      {edges : List (String × String)}, f < s.factories.length →
      (s.factory f).dependencies.Mirrors edges →
      (∀ e ∈ entries, (s.factory f).definitions.get? e.1 = some e.2) →
      ((s.factory f).unmet V.toList).length + (s.factory f).dependencies.dependents.size ≤ n →
      Yields False (entries.foldlM (fun visited (child, d) => do
          if child ≠ name && (← theFactory f).isChildOf d name then reset child true visited
          else return visited) V) s fun V' t => ∃ D ran,
        (s.factory f).Descends V ((entries.filter fun e =>
          e.1 ≠ name && (s.factory f).isChildOf e.2 name).map Prod.fst) D V' ∧
        Swept env f D (reach (s.edge f) D) ran s t
  | [], s, V, _, _, _, _, _ => by
    refine ⟨∅, [], .nil, ?_⟩
    rw [reach_empty]
    exact .of_remarks (.refl s)
  | (c, d) :: entries, s, V, edges, hf, hm, hdef, hroom => by
    simp only [List.foldlM_cons, yields_bind, yields_lift]
    change Yields False (if (decide (c ≠ name) && (s.factory f).isChildOf d name) = true then _ else _) s _
    by_cases hc : (decide (c ≠ name) && (s.factory f).isChildOf d name) = true
    · have hkey : c ∈ (s.factory f).definitions.definitions.keys :=
        OrderedMap.mem_keys_iff.2 ⟨d, hdef (c, d) (by simp)⟩
      rw [if_pos hc, List.filter_cons_of_pos (by simpa using hc), List.map_cons]
      refine (h hf hm fun hV => ?_).mono ?_
      · have := Factory.length_unmet_lt hkey hV
        omega
      · rintro V₁ t ⟨D, ran, hvisit, ht⟩
        rw [if_pos rfl] at ht
        have hsub : V.toList ⊆ V₁.toList := fun x hx => hvisit.visited.2 (.inl hx)
        have hless := Factory.length_unmet_le (F := s.factory f) hsub
        have hsize := ht.factory.size
        refine (h.children (ht.length ▸ hf) (ht.factory.edges hm)
          (fun e he => ?_) ?_).mono ?_
        · rw [ht.factory.definitions]
          exact hdef e (by simp [he])
        · rw [ht.factory.unmet]
          omega
        · rintro W u ⟨D', ran', hvisit', hu⟩
          have hboth := ht.trans hu
          rw [ht.factory.isChildOf] at hvisit'
          rw [ht.reach_union hm] at hboth
          exact ⟨D ∪ D', _, hvisit.trans (ht.factory.descends hvisit'), hboth⟩
    · rw [if_neg hc, yields_pure, List.filter_cons_of_neg (by simpa using hc)]
      exact h.children hf hm (fun e he => hdef e (by simp [he])) hroom

theorem SweepsResets.rest {reset : String → Bool → OrderedSet String → Effect (OrderedSet String)}
    (h : SweepsResets env f n reset) {s : Session} {V : OrderedSet String} {name : String}
    {edges : List (String × String)} (hf : f < s.factories.length)
    (hm : (s.factory f).dependencies.Mirrors edges) (hV : name ∉ V.toList)
    (hroom : ((s.factory f).unmet (V.insert name).toList).length +
      (s.factory f).dependencies.dependents.size ≤ n) :
    Yields False (do
      let definitions := (← theFactory f).definitions.definitions.entries
      definitions.foldlM (fun visited (child, d) => do
        if child ≠ name && (← theFactory f).isChildOf d name then reset child true visited
        else return visited) (V.insert name)) s fun V' t => ∃ D ran, name ∉ D ∧
      (s.factory f).Descends V [name] (insert name D) V' ∧
      Swept env f D (reach (s.edge f) D) ran s t := by
  simp only [yields_bind, yields_lift, theFactory_apply]
  refine (h.children hf hm (fun e he => OrderedMap.get?_eq_some_iff.2 he) hroom).mono ?_
  rintro V' t ⟨D, ran, hvisit, ht⟩
  refine ⟨D, ran, fun hD => hvisit.fresh name hD (OrderedSet.mem_insert.2 (.inr rfl)),
    hvisit.child hV fun c => ?_, ht⟩
  simp only [List.mem_map, List.mem_filter, Bool.and_eq_true, decide_eq_true_eq, Factory.ChildOf]
  constructor
  · rintro ⟨⟨c, d⟩, ⟨he, hne, hof⟩, rfl⟩
    exact ⟨d, OrderedMap.get?_eq_some_iff.2 he, hne, hof⟩
  · rintro ⟨d, hd, hne, hof⟩
    exact ⟨(c, d), ⟨OrderedMap.get?_eq_some_iff.1 hd, hne, hof⟩, rfl⟩

/-- A reset visits its name, given that a level below its children are reset. -/
theorem sweepsResets_of_reentry (hdestroy : ∀ k, k + 1 = n → Sweeps env f k (again.destroy f))
    (hreset : ∀ k, k + 1 = n → SweepsResets env f k (again.reset f)) :
    SweepsResets env f n (resetDefinition again f) := by
  intro s V name destroySingleton edges hf hm hroom
  unfold resetDefinition
  by_cases hV : name ∈ V.toList
  · rw [if_pos (by simpa using hV)]
    refine ⟨∅, [], .of_mem hV, ?_⟩
    rw [Set.empty_sdiff, ite_self, reach_empty]
    exact .of_remarks (.refl s)
  · rw [if_neg (by simpa using hV), yields_bind, yields_lift, updateFactory_apply,
      modifyFactory_eq_setFactory]
    dsimp only
    have hevict : Swept env f {name} ∅ [] s _ := .evict hf
    have hinsert : (V.insert name).toList = V.toList ++ [name] := by simp [OrderedSet.insert, hV]
    have hroom := hinsert ▸ hroom hV
    obtain ⟨k, rfl⟩ := Nat.exists_eq_succ_of_ne_zero (Nat.ne_zero_of_lt hroom)
    cases destroySingleton with
    | false =>
      simp only [Bool.false_eq_true, if_false]
      refine ((hreset k rfl).rest (hevict.length ▸ hf) (hevict.factory.edges hm) hV ?_).mono ?_
      · rw [hevict.factory.unmet]
        have := hevict.factory.size
        omega
      · rintro V' u ⟨D, ran, hname, hvisit, hu⟩
        have hboth := hevict.trans hu
        rw [Set.empty_union, hevict.edge_eq hm, Set.singleton_union, List.nil_append] at hboth
        refine ⟨insert name D, ran, hevict.factory.descends hvisit, ?_⟩
        rwa [Set.insert_sdiff_self_of_notMem hname]
    | true =>
      simp only [if_true]
      rw [yields_bind]
      refine (hdestroy k rfl (hevict.length ▸ hf) (hevict.factory.edges hm) ?_).mono ?_
      · have := hevict.factory.size
        omega
      · rintro failures t ⟨ran, ht⟩
        -- The name itself is swept, with what it leads to, before its children are.
        have hself := (hevict.trans ht).trans
          (.of_remarks (Remarks.writeNotices : Remarks t (t.writeNotices (failures.map (.resetFailed name)))))
        simp only [Set.union_empty, Set.empty_union, hevict.edge_eq hm] at hself
        have hsize := hself.factory.size
        rw [yields_bind, yields_modify]
        refine ((hreset k rfl).rest (hself.length ▸ hf) (hself.factory.edges hm) hV
          (by rw [hself.factory.unmet]; omega)).mono ?_
        rintro V' u ⟨D, ran', hname, hvisit, hu⟩
        have hboth := hself.trans hu
        rw [hself.reach_union hm, Set.singleton_union] at hboth
        exact ⟨insert name D, _, hself.factory.descends hvisit, hboth⟩

/-- **A reset sweeps its name and what is below it.** Every level uses up a definition not visited yet, or
a bean with dependents. -/
theorem sweepsResets_resetDefinition (quiet : env.QuietEnds) :
    ∀ n, SweepsResets env f n (resetDefinition (reentry env n) f) := by
  intro n
  induction n with
  | zero => exact sweepsResets_of_reentry (fun k hk => absurd hk (by omega)) fun k hk => absurd hk (by omega)
  | succ n ih =>
    refine sweepsResets_of_reentry (fun k hk => ?_) fun k hk => ?_
    · obtain rfl : k = n := by omega
      exact sweeps_destroyCascade quiet k
    · obtain rfl : k = n := by omega
      exact ih

/-- A whole reset sweeps a name and all below it, and whatever these lead to. -/
theorem yields_resetDefinition_swept (quiet : env.QuietEnds) {s : Session} {name : String}
    {destroySingleton : Bool} {edges : List (String × String)} (hf : f < s.factories.length)
    (hm : (s.factory f).dependencies.Mirrors edges)
    (hroom : ((s.factory f).unmet [name]).length + (s.factory f).dependencies.dependents.size < n) :
    Yields False (resetDefinition (reentry env n) f name destroySingleton {}) s fun _ t => ∃ ran,
      let D := (s.factory f).Below name
      Swept env f D (reach (s.edge f) (if destroySingleton then D else D \ {name})) ran s t := by
  refine (sweepsResets_resetDefinition quiet n (V := {}) hf hm fun _ => ?_).mono ?_
  · exact hroom
  · rintro V t ⟨D, ran, hvisit, ht⟩
    exact ⟨ran, hvisit.eq_below ▸ ht⟩

end

end BeanContainer
