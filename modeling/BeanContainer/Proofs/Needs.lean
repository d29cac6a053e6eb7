import BeanContainer.Proofs.Reading
import BeanContainer.Proofs.Teardown

/-!
What the beans of a factory need, as far as their merged definitions say so. The
names there are whatever the aliases make of them, so the bean that is needed
may be one of another factory; `Needs` holds between beans of the factory
itself.

A bean is `Settled` if what it needs does not go on without end. An edge that
leads to a settled bean for a reason is on no circle
(`not_transGen_of_settled`), which is what a later destruction asks for.
-/

namespace BeanContainer

open Relation

namespace Session

/-- The merged definition that a factory has for a name of its own, if merging succeeds. -/
def merged? (s : Session) (f : FactoryId) (n : String) : Option MergedDefinition :=
  ((mergedOwn f n).run s).1.toOption.map MergedRef.definition

/-- A factory defines a name. -/
abbrev Defines (s : Session) (f : FactoryId) (n : String) : Prop :=
  (s.factory f).definitions.contains n = true

/-- The merged definition of a bean says that it depends on what another name stands for. -/
def DependsOn (s : Session) (f : FactoryId) (n c : String) : Prop :=
  ∃ m d, s.Own f n m ∧ d ∈ m.dependsOn ∧ (s.factory f).canonical d = c

/-- A bean of the factory is needed by another one. -/
def Needs (s : Session) (f : FactoryId) (c n : String) : Prop := s.Defines f c ∧ s.DependsOn f n c

/-- What a bean needs does not go on without end. -/
abbrev Settled (s : Session) (f : FactoryId) : String → Prop := Acc (s.Needs f)

/-- A name is defined as that of a singleton. -/
def DefinesSingleton (s : Session) (f : FactoryId) (c : String) : Prop :=
  s.Defines f c ∧ ∃ m, s.Own f c m ∧ m.isSingleton = true

variable {U : Set FactoryId} {s t : Session} {f : FactoryId} {n c : String} {m : MergedDefinition}

theorem merged?_eq_some_iff (hl : s.Linked U) (hf : f ∈ U) : s.merged? f n = some m ↔ s.Own f n m := by
  have h : Ends (mergedOwn f n) s _ := ends_mergedOwn hl hf
  rw [h.2 m, merged?]
  cases ((mergedOwn f n).run s).1 with
  | ok ref => simp [Except.toOption]
  | error e => simp [Except.toOption]

theorem merged?_write {o : Occurrence} : (s.write o).merged? f n = s.merged? f n :=
  congrArg (fun r => (Except.toOption r).map MergedRef.definition)
    (unrecorded_mergedOwn s (s.write o) ⟨rfl, rfl⟩).1

theorem Reads.definitions (h : s.Reads U t) : (t.factory f).definitions = (s.factory f).definitions :=
  Factory.definitions_of_blueprint (Factory.blueprint_of_recipe (h.recipe f))

theorem Reads.canonical (h : s.Reads U t) : (t.factory f).canonical = (s.factory f).canonical :=
  Factory.canonical_of_blueprint (Factory.blueprint_of_recipe (h.recipe f))

theorem Reads.aliases (h : s.Reads U t) : (t.factory f).aliases = (s.factory f).aliases :=
  show (t.factory f).recipe.aliases = _ by rw [h.recipe f]; rfl

theorem route_cons (ancestors : List FactoryId) (name : String) :
    let c := (s.factory f).canonical name
    (∃ i, s.singleton? f c = some i ∧ s.route (f :: ancestors) name = .cached f c i) ∨
      (s.factory f).singletons.isPrototypeInCreation c = true ∧
        s.route (f :: ancestors) name = .busy c ∨
      s.Defines f c ∧ s.route (f :: ancestors) name = .defined f c ∨
      ¬ s.Defines f c ∧ (s.route (f :: ancestors) name = .nowhere name ∨
        s.route (f :: ancestors) name = s.route ancestors c) := by
  intro c
  unfold Session.route
  simp only
  split
  · rename_i i hi
    exact .inl ⟨i, hi, rfl⟩
  · right
    split
    · rename_i hbusy
      exact .inl ⟨hbusy, rfl⟩
    · right
      split
      · rename_i hdef
        exact .inl ⟨hdef, rfl⟩
      · rename_i hdef
        refine .inr ⟨hdef, ?_⟩
        split
        · exact .inl rfl
        · exact .inr rfl

theorem singleton?_eq_none_of_names (h : (s.factory f).singletons.names = []) :
    s.singleton? f n = none := by
  refine OrderedMap.get?_eq_none_iff.2 (?_ : n ∉ (s.factory f).singletons.names)
  simp [h]

/-- Where every edge has its reason and leads to a settled bean, no edge is on a circle. -/
theorem not_transGen_of_settled {E : String → String → Prop}
    (reasons : ∀ {c n}, E c n → s.DependsOn f n c ∧ s.Defines f n ∧ s.Settled f n) (h : E c n) :
    ¬ TransGen E n c := by
  -- From a bean of the factory on, edges pass through beans of the factory.
  have needs {x y} (hx : s.Defines f x) (hxy : TransGen E x y) : TransGen (s.Needs f) x y := by
    induction hxy with
    | single he => exact .single ⟨hx, (reasons he).1⟩
    | tail hxb he ih =>
      obtain ⟨b, -, hb⟩ := TransGen.tail'_iff.1 hxb
      exact ih.tail ⟨(reasons hb).2.1, (reasons he).1⟩
  have irrefl {x} (hx : Acc (TransGen (s.Needs f)) x) : ¬ TransGen (s.Needs f) x x := by
    induction hx with
    | intro x _ ih => exact fun h => ih x h h
  intro back
  obtain ⟨-, hn, hsettled⟩ := reasons h
  exact irrefl hsettled.transGen (needs hn (back.tail h))

/-! ## What is added -/

variable {d x b : String} {made : Instance}

theorem singletons_addEdge (hf : f < s.factories.length) :
    ((s.addEdge f d n).factory f).singletons = (s.factory f).singletons := by
  rw [addEdge, factory_modifyFactory_self hf]
  rfl

theorem singleton?_addEdge (hf : f < s.factories.length) :
    (s.addEdge f d n).singleton? f x = s.singleton? f x := by
  unfold Session.singleton?
  rw [singletons_addEdge hf]

theorem edge_addEdge (hf : f < s.factories.length) : (s.addEdge f d n).edge f b x ↔
    s.edge f b x ∨ b = (s.factory f).canonical d ∧ x = n := by
  unfold Session.edge DependencyGraph.Edge
  rw [addEdge, factory_modifyFactory_self hf]
  exact DependencyGraph.hasEdge_register

theorem Reads.addEdge (hf : f ∈ U) : s.Reads U (s.addEdge f d n) := .modifyFactory hf rfl rfl

theorem factory_addSingleton (hf : f < s.factories.length) (hnone : s.singleton? f n = none) :
    (s.addSingleton f n made).factory f = { s.factory f with
      singletons := { (s.factory f).singletons with
        objects := (s.factory f).singletons.objects.insert n made } } := by
  have hadd : ((s.factory f).singletons.add n made).2 = { (s.factory f).singletons with
      objects := (s.factory f).singletons.objects.insert n made } := by
    unfold SingletonRegistry.add
    rw [show (s.factory f).singletons.get? n = none from hnone]
  rw [addSingleton, factory_setFactory_self hf, hadd]

theorem edge_addSingleton (hf : f < s.factories.length) :
    (s.addSingleton f n made).edge f = s.edge f := by
  unfold Session.edge
  rw [addSingleton, factory_setFactory_self hf]

theorem singleton?_addSingleton (hf : f < s.factories.length) (hnone : s.singleton? f n = none) :
    (s.addSingleton f n made).singleton? f x = if x = n then some made else s.singleton? f x := by
  unfold Session.singleton? SingletonRegistry.get?
  rw [factory_addSingleton hf hnone]
  exact OrderedMap.get?_insert

theorem names_addSingleton (hf : f < s.factories.length) (hnone : s.singleton? f n = none) :
    ((s.addSingleton f n made).factory f).singletons.names =
      (s.factory f).singletons.names ++ [n] := by
  unfold SingletonRegistry.names
  rw [factory_addSingleton hf hnone]
  exact OrderedMap.keys_insert.trans (if_neg (OrderedMap.get?_eq_none_iff.1 hnone))

theorem Reads.addSingleton (hf : f ∈ U) : s.Reads U (s.addSingleton f n made) :=
  .setFactory hf rfl rfl

end Session

/-- Edges and singletons have only been added. -/
structure Grown (f : FactoryId) (s t : Session) : Prop where
  edges : ∀ {c n}, s.edge f c n → t.edge f c n
  singletons : ∀ {n i}, s.singleton? f n = some i → t.singleton? f n = some i

namespace Grown

variable {s t u : Session} {f : FactoryId} {d n : String} {made : Instance}

theorem refl (s : Session) : Grown f s s := ⟨id, id⟩

theorem of_factories (h : t.factories = s.factories) : Grown f s t := by
  have hf : t.factory f = s.factory f := by unfold Session.factory; rw [h]
  constructor
  · unfold Session.edge
    rw [hf]
    exact id
  · unfold Session.singleton?
    rw [hf]
    exact id

theorem trans (h : Grown f s t) (h' : Grown f t u) : Grown f s u :=
  ⟨fun he => h'.edges (h.edges he), fun hi => h'.singletons (h.singletons hi)⟩

theorem addEdge (hf : f < s.factories.length) : Grown f s (s.addEdge f d n) where
  edges he := (Session.edge_addEdge hf).2 (.inl he)
  singletons hi := (Session.singleton?_addEdge hf).trans hi

theorem addSingleton (hf : f < s.factories.length) (hnone : s.singleton? f n = none) :
    Grown f s (s.addSingleton f n made) where
  edges he := by rwa [Session.edge_addSingleton hf]
  singletons {x i} hi := by
    rw [Session.singleton?_addSingleton hf hnone, if_neg, hi]
    rintro rfl
    cases hnone.symm.trans hi

end Grown

/-- The same singletons are there, and the same dependencies are recorded. -/
structure Alike (f : FactoryId) (s t : Session) : Prop where
  objects : (t.factory f).singletons.objects = (s.factory f).singletons.objects
  dependencies : (t.factory f).dependencies = (s.factory f).dependencies

namespace Alike

variable {s t u : Session} {f : FactoryId}

theorem of_factory (h : t.factory f = s.factory f) : Alike f s t := ⟨by rw [h], by rw [h]⟩

theorem trans (h : Alike f s t) (h' : Alike f t u) : Alike f s u :=
  ⟨h'.objects.trans h.objects, h'.dependencies.trans h.dependencies⟩

theorem flags (hlen : f < s.factories.length) {singletons : SingletonRegistry}
    (h : singletons.objects = (s.factory f).singletons.objects) :
    Alike f s (s.setFactory f { s.factory f with singletons }) where
  objects := by rw [Session.factory_setFactory_self hlen]; exact h
  dependencies := by rw [Session.factory_setFactory_self hlen]

theorem singleton? (h : Alike f s t) (n : String) : t.singleton? f n = s.singleton? f n := by
  unfold Session.singleton? SingletonRegistry.get?
  rw [h.objects]

theorem names (h : Alike f s t) : (t.factory f).singletons.names = (s.factory f).singletons.names := by
  unfold SingletonRegistry.names
  rw [h.objects]

theorem edge (h : Alike f s t) : t.edge f = s.edge f := by
  unfold Session.edge
  rw [h.dependencies]

theorem grown (h : Alike f s t) : Grown f s t :=
  ⟨fun he => by rwa [h.edge], fun hi => by rwa [h.singleton?]⟩

end Alike

theorem Precedes.append {l : List α} {a b : α} (h : Precedes l a b) (l' : List α) :
    Precedes (l ++ l') a b := by
  obtain ⟨pre, mid, post, rfl⟩ := h
  exact ⟨pre, mid, post ++ l', by simp⟩

theorem precedes_append_self {l : List α} {a b : α} (h : a ∈ l) : Precedes (l ++ [b]) a b :=
  precedes_of_mem (show l ++ [b] = l ++ b :: [] from rfl) h

end BeanContainer
