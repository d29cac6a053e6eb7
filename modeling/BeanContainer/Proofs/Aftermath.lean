import BeanContainer.Proofs.Sweeps
import Mathlib.Data.List.Perm.Subperm

/-!
What a definition leaves behind that is replaced or removed. The merges of all
that is below it are dropped, the singletons of all that and of whatever needs it
are destroyed, and their edges go; nothing else does (`callFactory_redefine`).

That edges go by the name at either end takes a graph whose two sides agree. They
do in every session that operations lead to (`mirrored_of_run`).
-/

namespace BeanContainer

open Relation Session

variable {env : Collaborators} {again : Reentry} {s t : Session} {f : FactoryId} {name : String}

/-! ## Graphs whose sides agree -/

/-- Both sides of each factory's graph show the same edges. -/
def Session.Mirrored (s : Session) : Prop := ∀ g, ∃ edges, (s.factory g).dependencies.Mirrors edges

theorem Session.Mirrored.of_dependencies (h : s.Mirrored)
    (same : ∀ g, (t.factory g).dependencies = (s.factory g).dependencies) : t.Mirrored := fun g =>
  same g ▸ h g

theorem Session.Mirrored.setFactory (h : s.Mirrored) {new : Factory}
    (hnew : ∀ edges, (s.factory f).dependencies.Mirrors edges →
      ∃ edges', new.dependencies.Mirrors edges') : (s.setFactory f new).Mirrored := fun g =>
  rel_setFactory (R := fun F F' => (∃ edges, F.dependencies.Mirrors edges) →
    ∃ edges, F'.dependencies.Mirrors edges) (fun _ => id) (fun ⟨edges, hm⟩ => hnew edges hm) (h g)

theorem Session.BeanChange.mirrored {U : Set FactoryId} (h : s.BeanChange U t) (hs : s.Mirrored) :
    t.Mirrored := by
  have told {u : Session} (hu : u.factories = s.factories) : u.Mirrored :=
    hs.of_dependencies fun g => by
      unfold Session.factory
      rw [hu]
  cases h with
  | making h =>
    cases h with
    | addEdge =>
      rw [Session.addEdge, modifyFactory_eq_setFactory]
      exact hs.setFactory fun _ hm => ⟨_, hm.register⟩
    | _ => exact told rfl
  | ending h =>
    cases h with
    | tell => exact told rfl
    | tearDown =>
      rw [modifyFactory_eq_setFactory]
      exact hs.setFactory fun edges hm => ⟨edges, hm⟩
    | takeDependents => exact hs.setFactory fun _ hm => ⟨_, hm.takeDependents⟩
    | dropEdges =>
      rw [Session.dropEdges, modifyFactory_eq_setFactory]
      exact hs.setFactory fun _ hm => ⟨_, hm.removeBean⟩
    | release =>
      refine hs.of_dependencies fun g => ?_
      rw [factory_release]
      exact proj_setFactory (p := Factory.dependencies) rfl
    | tornDown =>
      refine fun g => ?_
      rw [factory_write, factory_write, factory_releaseAll, modifyFactory_eq_setFactory]
      exact hs.setFactory (fun _ _ => ⟨[], .empty⟩) g
  | cache => exact (told rfl).setFactory fun edges hm => ⟨edges, hm⟩
  | begin => exact hs.setFactory fun edges hm => ⟨edges, hm⟩
  | finish =>
    rw [modifyFactory_eq_setFactory]
    exact hs.setFactory fun edges hm => ⟨edges, hm⟩
  | keep => exact told factories_keepIn
  | addCallback => exact told rfl
  | take => exact told factories_takeFrom
  | empty => exact told factories_emptyScope

theorem Factory.Change.dependencies {F F' : Factory} (h : F.Change F') :
    F'.dependencies = F.dependencies := by
  cases h with
  | define h => obtain ⟨_, rfl, -⟩ := define_spec h; rfl
  | undefine h => obtain ⟨_, rfl, -⟩ := undefine_spec h; rfl
  | registerAlias h => obtain ⟨_, rfl⟩ := registerAlias_spec h; rfl
  | removeAlias h => obtain ⟨_, rfl⟩ := removeAlias_spec h; rfl
  | resolveAliases h => obtain ⟨_, rfl⟩ := resolveAliases_spec h; rfl
  | _ => rfl

/-- **Every change leaves graphs whose sides agree.** -/
theorem Session.Change.mirrored (h : s.Change t) (hs : s.Mirrored) : t.Mirrored := by
  cases h with
  | bean h => exact h.mirrored hs
  | factory h => exact hs.setFactory fun edges hm => ⟨edges, h.dependencies ▸ hm⟩
  | takeOver => exact hs.setFactory fun edges hm => ⟨edges, copyConfiguration_eq ▸ hm⟩
  | register h =>
    obtain ⟨-, rfl⟩ := registerSingleton_eq_ok h
    exact hs.setFactory fun edges hm => ⟨edges, hm⟩
  | setParent =>
    rw [modifyFactory_eq_setFactory]
    exact hs.setFactory fun edges hm => ⟨edges, hm⟩
  | addFactory =>
    intro g
    obtain hlen | rfl | hlen := Nat.lt_trichotomy g s.factories.length
    · rw [factory_addFactory_of_lt hlen]
      exact hs g
    · rw [factory_addFactory_self]
      exact ⟨[], .empty⟩
    · rw [factory_of_length_le (by rwa [length_addFactory])]
      exact ⟨[], .empty⟩
  | addProcessor | addScope | label => exact hs

/-- **Whatever was asked of a session**, the sides of its graphs agree. -/
theorem mirrored_of_run (h : Run env Session.initial s) : s.Mirrored := by
  have hinitial : Session.initial.Mirrored := fun g => by
    rcases g with _ | g <;> exact ⟨[], .empty⟩
  have hchanges := h.changes
  clear h
  induction hchanges with
  | refl => exact hinitial
  | tail _ hc ih => exact hc.mirrored ih

/-! ## Definitions that change -/

/-- A session whose factory has got other definitions. -/
abbrev Session.withDefinitions (s : Session) (f : FactoryId) (store : DefinitionStore) : Session :=
  s.setFactory f { s.factory f with definitions := store }

theorem Factory.length_unmet_redefined {F : Factory} {store : DefinitionStore}
    (others : ∀ x ≠ name, store.get? x = F.definitions.get? x) :
    ({ F with definitions := store }.unmet [name]).length ≤ F.definitions.size := by
  have hnodup : ({ F with definitions := store }.unmet [name]).Nodup :=
    store.definitions.nodup_keys.filter _
  have hsub : { F with definitions := store }.unmet [name] ⊆ F.definitions.names := by
    intro x hx
    obtain ⟨hx, hne⟩ := List.mem_filter.1 hx
    have hne : x ≠ name := by simpa using hne
    obtain ⟨d, hd⟩ := OrderedMap.mem_keys_iff.1 hx
    exact OrderedMap.mem_keys_iff.2 ⟨d, (others x hne).symm.trans hd⟩
  exact (List.subperm_of_subset hnodup hsub).length_le.trans (Nat.le_of_eq OrderedMap.length_keys)

/-- The reset after a change of one definition. Only the names it visits lose anything. -/
theorem yields_reset_redefined (quiet : env.QuietEnds) {edges : List (String × String)} {depth : Nat}
    {store : DefinitionStore} {destroySingleton : Bool} {u : Session} (hf : f < s.factories.length)
    (hm : (s.factory f).dependencies.Mirrors edges)
    (others : ∀ x ≠ name, store.get? x = (s.factory f).definitions.get? x)
    (hdepth : (s.factory f).definitions.size + (s.factory f).dependencies.dependents.size < depth)
    (hu : Swept env f ∅ ∅ [] (s.withDefinitions f store) u) :
    Yields False (resetDefinition (reentry env depth) f name destroySingleton {}) u fun _ t => ∃ ran,
      let D := (t.factory f).Below name
      Swept env f D (reach (s.edge f) (if destroySingleton then D else D \ {name})) ran
        (s.withDefinitions f store) t := by
  have hself : (s.withDefinitions f store).factory f = { s.factory f with definitions := store } :=
    factory_setFactory_self hf
  have hm' : ((s.withDefinitions f store).factory f).dependencies.Mirrors edges := by rwa [hself]
  have hedge : u.edge f = s.edge f := by
    rw [hu.edge_eq hm', Session.edge, hself]
  have hless := Factory.length_unmet_redefined others
  have hsize : (u.factory f).dependencies.dependents.size ≤ (s.factory f).dependencies.dependents.size :=
    hu.factory.size.trans (Nat.le_of_eq (by rw [hself]))
  refine (yields_resetDefinition_swept quiet (hu.length ▸ by simpa using hf) (hu.factory.edges hm') ?_).mono ?_
  · rw [hu.factory.unmet, hself]
    exact Nat.lt_of_le_of_lt (Nat.add_le_add hless hsize) hdepth
  · rintro V t ⟨ran, ht⟩
    have hbelow : (t.factory f).Below = (u.factory f).Below := by
      unfold Factory.Below
      rw [ht.factory.childOf]
    have hboth := hu.trans ht
    rw [Set.empty_union, Set.empty_union, List.nil_append, hedge] at hboth
    exact ⟨ran, hbelow ▸ hboth⟩

theorem yields_registerDefinition_swept (quiet : env.QuietEnds) {edges : List (String × String)}
    {depth : Nat} {d : Definition} {F : Factory} (hf : f < s.factories.length)
    (hm : (s.factory f).dependencies.Mirrors edges) (hF : (s.factory f).define name d = .ok F)
    (hdepth : (s.factory f).definitions.size + (s.factory f).dependencies.dependents.size < depth) :
    Yields False (registerDefinition (reentry env depth) f name d).run s fun r t => r = .ok () ∧ ∃ ran,
      let D := (t.factory f).Below name
      Swept env f D (reach (s.edge f) (if (s.factory f).definitions.contains name ||
        (s.factory f).singletons.contains name then D else D \ {name})) ran
        (s.withDefinitions f F.definitions) t := by
  unfold registerDefinition
  simp only [yields_run_bind, yields_run_liftState, theFactory_apply, yields_run_liftQuery]
  unfold tryUpdate
  simp only [ends_bind, ends_lift, theFactory_apply, hF, ends_modify, write_apply, note_apply,
    yields_run_liftEffect]
  obtain ⟨store, rfl, others⟩ := define_spec hF
  have hcontains : (s.factory f).definitions.contains name =
      ((s.factory f).definitions.get? name).isSome := by
    rw [Bool.eq_iff_iff, Option.isSome_iff_exists]
    exact OrderedMap.contains_iff_get?
  rw [hcontains]
  have htold : Swept env f ∅ ∅ [] (s.withDefinitions f store)
      (((s.withDefinitions f store).write (.defined f name)).write
        (.notice (Factory.defineNotice name ((s.factory f).definitions.get? name) d))) := .of_told rfl rfl
  exact (yields_reset_redefined quiet hf hm others hdepth htold).mono fun _ t ht => ⟨rfl, ht⟩

theorem yields_removeDefinition_swept (quiet : env.QuietEnds) {edges : List (String × String)}
    {depth : Nat} {F : Factory} (hf : f < s.factories.length)
    (hm : (s.factory f).dependencies.Mirrors edges) (hF : (s.factory f).undefine name = .ok F)
    (hdepth : (s.factory f).definitions.size + (s.factory f).dependencies.dependents.size < depth) :
    Yields False (removeDefinition (reentry env depth) f name).run s fun r t => r = .ok () ∧ ∃ ran,
      let D := (t.factory f).Below name
      Swept env f D (reach (s.edge f) D) ran (s.withDefinitions f F.definitions) t := by
  unfold removeDefinition
  simp only [yields_run_bind, yields_run_liftQuery]
  unfold tryUpdate
  simp only [ends_bind, ends_lift, theFactory_apply, hF, ends_modify, yields_run_liftState, note_apply,
    yields_run_liftEffect, updateFactory_apply]
  obtain ⟨store, rfl, others⟩ := undefine_spec hF
  have htold : Swept env f ∅ ∅ [] (s.withDefinitions f store)
      ((s.withDefinitions f store).write (.notice (.definitionRemoved name))) := .of_told rfl rfl
  refine (yields_reset_redefined quiet hf hm others hdepth htold).mono ?_
  rintro V t ⟨ran, ht⟩
  simp only [if_true] at ht
  have hlost : Swept env f _ _ ran (s.withDefinitions f store) (t.dropEdges f name) :=
    ht.dropEdges (by simpa using hf) (subset_reach Factory.mem_below_self)
  have hbelow : ((t.dropEdges f name).factory f).Below = (t.factory f).Below := by
    unfold Factory.Below
    rw [hlost.factory.childOf, ht.factory.childOf]
  refine ⟨trivial, ran, ?_⟩
  change Swept env f (((t.dropEdges f name).factory f).Below name)
    (reach (s.edge f) (((t.dropEdges f name).factory f).Below name)) ran _ (t.dropEdges f name)
  rwa [hbelow]

/-- Registers a definition of a name, or removes the one it has. -/
def FactoryCall.redefine (name : String) : Option Definition → FactoryCall
  | some d => .register name d
  | none => .remove name

/-- A call that redefines a name fails and changes nothing, or the name is reset after the change. -/
theorem yields_redefine (quiet : env.QuietEnds) (hf : f < s.factories.length)
    {edges : List (String × String)} (hm : (s.factory f).dependencies.Mirrors edges)
    {change : Option Definition} {depth : Nat}
    (hdepth : (s.factory f).definitions.size + (s.factory f).dependencies.dependents.size < depth) :
    Yields False (callFactory env (reentry env depth) f (.redefine name change)) s fun a t =>
      (∃ e, a = .failed e ∧ t = s) ∨ a = .done ∧ ∃ store ran,
        store.definitions = change.elim ((s.factory f).definitions.definitions.erase name)
          ((s.factory f).definitions.definitions.insert name) ∧
        let D := (t.factory f).Below name
        Swept env f D (reach (s.edge f) (if change.isSome ∧ (s.factory f).definitions.contains name = false ∧
          (s.factory f).singletons.contains name = false then D \ {name} else D)) ran
          (s.withDefinitions f store) t := by
  cases change with
  | some d =>
    change Yields False (answerAct _ _) s _
    rw [yields_answerAct_iff]
    cases hF : (s.factory f).define name d with
    | error e => exact yields_registerDefinition_error hF (.inl ⟨e, rfl, rfl⟩)
    | ok F =>
      refine (yields_registerDefinition_swept quiet hf hm hF hdepth).mono ?_
      rintro _ t ⟨rfl, ran, ht⟩
      refine .inr ⟨rfl, F.definitions, ran, by rw [define_eq_ok hF]; rfl, ?_⟩
      cases hdefined : (s.factory f).definitions.contains name <;>
        cases hsingleton : (s.factory f).singletons.contains name <;>
          simpa [hdefined, hsingleton] using ht
  | none =>
    change Yields False (answerAct _ _) s _
    rw [yields_answerAct_iff]
    cases hF : (s.factory f).undefine name with
    | error e => exact yields_removeDefinition_error hF (.inl ⟨e, rfl, rfl⟩)
    | ok F =>
      refine (yields_removeDefinition_swept quiet hf hm hF hdepth).mono ?_
      rintro _ t ⟨rfl, ran, ht⟩
      exact .inr ⟨rfl, F.definitions, ran, by rw [undefine_eq_ok hF]; rfl, by simpa using ht⟩

open Classical in
/-- **What a definition that is registered or removed takes with it.**

The call fails and changes nothing, or it succeeds. Let `D` be the name and all that has it above it then,
and `K` what `D` leads to along recorded edges, `D` without the name if that is new and has no singleton. The
merges cached are the former ones outside `D`, the singletons the former ones outside `K`, in their order;
those in `K` were destroyed, each once and by whatever it may fail with; and the edges are the former ones that
touch nothing in `K`. -/
theorem callFactory_redefine (quiet : env.QuietEnds) (hf : f < s.factories.length)
    {edges : List (String × String)} (mirrors : (s.factory f).dependencies.Mirrors edges) (name : String)
    (change : Option Definition) {depth : Nat}
    (hdepth : (s.factory f).definitions.size + (s.factory f).dependencies.dependents.size < depth) :
    ∃ a t, callFactory env (reentry env depth) f (.redefine name change) s = some (a, t) ∧
      ((∃ e, a = .failed e ∧ t = s) ∨ a = .done ∧
        let F := s.factory f
        let F' := t.factory f
        let D := F'.Below name
        let fresh := change.isSome ∧ F.definitions.contains name = false ∧ F.singletons.contains name = false
        let K := reach (s.edge f) (if fresh then D \ {name} else D)
        F'.definitions.definitions = change.elim (F.definitions.definitions.erase name)
          (F.definitions.definitions.insert name) ∧
        F'.merged.entries.entries = F.merged.entries.entries.filter (fun e => e.1 ∉ D) ∧
        F'.singletons.objects.entries = F.singletons.objects.entries.filter (fun e => e.1 ∉ K) ∧
        F'.dependencies.Mirrors (edges.filter fun e => e.1 ∉ K ∧ e.2 ∉ K) ∧
        (∃ ran : List Destruction,
          (ran.map fun x => (x.name, x.victim)).Perm
            (F.singletons.objects.entries.filter fun e => e.1 ∈ K) ∧
          (∀ x ∈ ran, x.Ran env F.processors) ∧
          t.record.filter Occurrence.isDestruction =
            (ran.flatMap Destruction.occurrences).reverse ++ s.record.filter Occurrence.isDestruction) ∧
        F' = { F with
          definitions := F'.definitions
          merged := F'.merged
          singletons := { F.singletons with objects := F'.singletons.objects }
          manualNames := F'.manualNames
          dependencies := F'.dependencies } ∧
        ∀ g ≠ f, t.factory g = s.factory g) := by
  refine yields_false_iff.1 ((yields_redefine quiet hf mirrors hdepth).mono fun a t h => ?_)
  obtain ⟨e, ha, hsame⟩ | ⟨ha, store, ran, hstore, ht⟩ := h
  · exact .inl ⟨e, ha, hsame⟩
  · have hself : (s.withDefinitions f store).factory f = { s.factory f with definitions := store } :=
      factory_setFactory_self hf
    have hfactory := ht.factory
    have hvictims := ht.victims
    have hreal := ht.real
    rw [hself] at hfactory hvictims hreal
    have hdefinitions : (t.factory f).definitions = store := hfactory.definitions
    refine .inr ⟨ha, by rw [hdefinitions, hstore], hfactory.merged, hfactory.objects, hfactory.edges mirrors,
      ⟨ran, hvictims, hreal, ht.record⟩, ?_, fun g hg => ?_⟩
    · rw [hdefinitions]
      exact hfactory.rest
    · exact (ht.factory_of_ne hg).trans (factory_setFactory_of_ne hg)

/-- Four singletons, and two definitions that have each other as parents, one of them under an alias. The
first one needs a bean that needs it; the second one cannot be destroyed properly. -/
def Session.meshed : Session where
  factories :=
    let definitions := OrderedMap.ofList
      [("a", { parent := some "b" }), ("b", { parent := some "x" }), ("c", {})]
    let objects := OrderedMap.ofList [("a", ⟨0, "a", .closer⟩), ("b", ⟨1, "b", .closer⟩),
      ("c", ⟨2, "c", .closer⟩), ("d", ⟨3, "d", .closer⟩)]
    [{ definitions := { definitions }
       aliases := { toMap := OrderedMap.ofList [("x", "a")] }
       merged := ⟨OrderedMap.ofList [("b", ⟨0, default⟩), ("c", ⟨1, default⟩)]⟩
       singletons := { objects }
       dependencies := (DependencyGraph.register {} "a" "d").register "d" "a" }]
  made := [(⟨0, "a", .closer⟩, {}), (⟨1, "b", .closer⟩, { failDestroy := some "stuck" }),
    (⟨2, "c", .closer⟩, {}), (⟨3, "d", .closer⟩, {})]

/-- When the first one is registered anew, one singleton and one merge are left, and no edge; the others
were destroyed, each once. -/
theorem meshed_redefine :
    let env := Scripted.collaborators (fun k => ⟨k.label, none⟩) fun _ => none
    env.QuietEnds ∧ 0 < Session.meshed.factories.length ∧
      (Session.meshed.factory 0).dependencies.Mirrors [("a", "d"), ("d", "a")] ∧
      ∃ (ran : List Destruction) (t : Session),
        callFactory env (reentry env 6) 0 (.redefine "a" (some { parent := some "b" })) Session.meshed =
          some (.done, t) ∧
        (t.factory 0).singletons.names = ["c"] ∧ (t.factory 0).merged.entries.keys = ["c"] ∧
        (t.factory 0).dependencies.Mirrors [] ∧ (ran.map Destruction.name).Perm ["a", "b", "d"] ∧
        t.record.filter Occurrence.isDestruction = (ran.flatMap Destruction.occurrences).reverse := by
  intro env
  have quiet : env.QuietEnds := Scripted.quietEnds
  have hf : 0 < Session.meshed.factories.length := by decide
  have mirrors : (Session.meshed.factory 0).dependencies.Mirrors [("a", "d"), ("d", "a")] :=
    (DependencyGraph.Mirrors.empty.register (b := "a") (d := "d")).register (b := "d") (d := "a")
  have hdepth : (Session.meshed.factory 0).definitions.size +
      (Session.meshed.factory 0).dependencies.dependents.size < 6 := by decide
  refine ⟨quiet, hf, mirrors, ?_⟩
  obtain ⟨a, t, hrun, h⟩ :=
    callFactory_redefine quiet hf mirrors "a" (some { parent := some "b" }) hdepth
  have hleft : (callFactory env (reentry env 6) 0 (.redefine "a" (some { parent := some "b" }))
      Session.meshed).map (fun r => ((r.2.factory 0).singletons.names,
        (r.2.factory 0).merged.entries.keys)) = some (["c"], ["c"]) := by decide +kernel
  rw [hrun] at hleft
  obtain ⟨hnames, hmerged⟩ := Prod.mk.inj (Option.some.inj hleft)
  obtain ⟨e, -, rfl⟩ | ⟨rfl, -, -, hobjects, hedges, ⟨ran, hvictims, -, hrecord⟩, -⟩ := h
  · exact absurd (show (Session.meshed.factory 0).singletons.names = ["c"] from hnames) (by decide)
  · refine ⟨ran, t, hrun, hnames, hmerged, ?_, ?_, hrecord.trans (List.append_nil _)⟩
    · -- either edge has the name itself at one of its ends
      refine cast (congrArg _ (List.filter_eq_nil_iff.2 fun e he => ?_)) hedges
      rw [if_neg (by decide)]
      have hself : "a" ∈ reach (Session.meshed.edge 0) ((t.factory 0).Below "a") :=
        subset_reach Factory.mem_below_self
      obtain rfl | rfl : e = ("a", "d") ∨ e = ("d", "a") := by simpa using he
      · simpa using fun h => absurd hself h
      · simpa using fun _ => hself
    · -- who was destroyed and who is left are all there were
      have hall := (hvictims.append_right _).trans (List.filter_append_perm _ _)
      classical rw [← hobjects.trans (List.filter_congr fun _ _ => decide_not)] at hall
      have hall : ((ran.map fun x => (x.name, x.victim)).map Prod.fst ++ ["c"]).Perm
          ((Session.meshed.factory 0).singletons.objects.entries.map Prod.fst) := by
        have := hall.map Prod.fst
        rwa [List.map_append, show (t.factory 0).singletons.objects.entries.map Prod.fst = ["c"] from hnames]
          at this
      rw [List.map_map] at hall
      exact (List.perm_append_right_iff ["c"]).1 (hall.trans (by decide))

end BeanContainer
