import BeanContainer.Proofs.Permitted

/-!
The names of a factory's beans: its definitions, then the singletons that were
registered by hand and have none. The latter are names of their own, beside the
definitions and the cache of singletons, so each change of those has to see to
them.

Between operations they are the cached singletons without a definition, in the
order of the cache (`Factory.InStep`). While a definition comes or goes they may
differ by its name, and no longer than until the singleton of that name has left
the cache (`Factory.InStep.released`). Whatever else happens to a factory whose
definitions stay keeps them in step (`covers_standing`), so a whole run does
(`PermittedRun.beanNames_eq`).
-/

namespace BeanContainer

open Session

/-- The cached singletons without a definition, in the order of the cache. -/
def Factory.undefinedSingletons (F : Factory) : List String :=
  F.singletons.names.filter fun n => !F.definitions.contains n

/-- The names of singletons registered by hand are those of the cached singletons without a definition.
No merge is cached but of a definition. -/
structure Factory.InStep (F : Factory) : Prop where
  manual : F.manualNames.toList = F.undefinedSingletons
  merged : ∀ n ref, F.merged.get? n = some ref → F.definitions.contains n = true

/-- A change that leaves the definitions alone, and a factory in step. -/
def Factory.StaysInStep (F F' : Factory) : Prop := F'.definitions = F.definitions ∧ (F.InStep → F'.InStep)

variable {F F' : Factory} {name n : String} {s t : Session} {f g : FactoryId} {D : DefinitionStore}

/-! ## One factory -/

theorem inStep_new {settings : FactorySettings} {constructor : Option Constructor} :
    Factory.InStep { settings, constructor } where
  manual := rfl
  merged _ _ h := by cases h

/-- The definitions come first, then the cached singletons that have none, each bean once. -/
theorem Factory.InStep.beanNames (h : F.InStep) :
    F.beanNames = F.definitions.names ++ F.undefinedSingletons ∧ F.beanNames.Nodup := by
  have hnames : F.beanNames = F.definitions.names ++ F.undefinedSingletons := by
    rw [Factory.beanNames, h.manual, undefinedSingletons, List.filter_filter]
    simp only [Bool.and_self]
  refine ⟨hnames, hnames ▸ List.nodup_append.2 ⟨OrderedMap.nodup_keys, ?_, ?_⟩⟩
  · exact OrderedMap.nodup_keys.filter _
  · rintro n hn _ hm rfl
    have hundefined := (List.mem_filter.1 hm).2
    rw [DefinitionStore.contains, OrderedMap.contains_iff.2 hn] at hundefined
    cases hundefined

theorem staysInStep_of_names (definitions : F'.definitions = F.definitions)
    (objects : F'.singletons.objects = F.singletons.objects) (manual : F'.manualNames = F.manualNames)
    (merged : ∀ n ref, F'.merged.get? n = some ref → F.merged.get? n = some ref) : F.StaysInStep F' := by
  refine ⟨definitions, fun h => ⟨?_, fun n ref hm => ?_⟩⟩
  · rw [manual, h.manual, Factory.undefinedSingletons, Factory.undefinedSingletons, definitions,
      SingletonRegistry.names, SingletonRegistry.names, objects]
  · rw [definitions]
    exact h.merged n ref (merged n ref hm)

theorem staysInStep_flags {r : SingletonRegistry} (h : r.objects = F.singletons.objects) :
    F.StaysInStep { F with singletons := r } := staysInStep_of_names rfl h rfl fun _ _ => id

theorem staysInStep_dependencies {dependencies : DependencyGraph} :
    F.StaysInStep { F with dependencies } := staysInStep_of_names rfl rfl rfl fun _ _ => id

theorem staysInStep_keepMerge {ref : MergedRef} (hn : F.definitions.contains n = true) :
    F.StaysInStep { F with merged := ⟨F.merged.entries.insert n ref⟩ } := by
  refine ⟨rfl, fun h => ⟨h.manual, fun x kept hm => ?_⟩⟩
  by_cases hx : x = n
  · exact hx ▸ hn
  · exact h.merged x kept ((OrderedMap.get?_insert_of_ne hx).symm.trans hm)

theorem names_insert {r : SingletonRegistry} {i : Instance} (hn : r.get? n = none) :
    SingletonRegistry.names { r with objects := r.objects.insert n i } = r.names ++ [n] := by
  rw [SingletonRegistry.names, OrderedMap.keys_insert, if_neg (OrderedMap.get?_eq_none_iff.1 hn)]
  rfl

/-- A bean that is made has a definition, so its name is no other one. -/
theorem staysInStep_add {made : Instance} (hn : F.definitions.contains n = true) :
    F.StaysInStep { F with singletons := (F.singletons.add n made).2 } := by
  unfold SingletonRegistry.add
  split
  · exact .intro rfl id
  · next hnone =>
    refine ⟨rfl, fun h => ⟨?_, h.merged⟩⟩
    rw [h.manual, Factory.undefinedSingletons, Factory.undefinedSingletons, names_insert hnone,
      List.filter_append]
    simp [hn]

/-- A singleton that is registered by hand gets its name listed if it has no definition. -/
theorem staysInStep_register {i : Instance} (hr : F.registerSingleton name i = .ok F') :
    F.StaysInStep F' := by
  obtain ⟨hnone, rfl⟩ := registerSingleton_eq_ok hr
  refine ⟨rfl, fun h => ⟨?_, h.merged⟩⟩
  rw [Factory.undefinedSingletons, names_insert hnone, List.filter_append]
  by_cases hdef : F.definitions.contains name = true
  · simp only [hdef, if_true, h.manual, Factory.undefinedSingletons]
    simp [hdef]
  · have hnew : name ∉ F.manualNames.toList := by
      rw [h.manual]
      exact fun hm => OrderedMap.get?_eq_none_iff.1 hnone (List.mem_filter.1 hm).1
    have hlast : (F.manualNames.insert name).toList = F.manualNames.toList ++ [name] := by
      unfold OrderedSet.insert
      rw [dif_neg hnew]
    simp only [hdef, if_false, hlast, h.manual, Factory.undefinedSingletons, Bool.false_eq_true]
    simp [hdef]

theorem undefinedSingletons_take :
    (F.takeSingleton name).2.undefinedSingletons = F.undefinedSingletons.filter fun n => n ≠ name := by
  simp only [Factory.undefinedSingletons, Factory.takeSingleton, SingletonRegistry.names,
    SingletonRegistry.erase, OrderedMap.keys_erase, List.filter_filter]
  exact List.filter_congr fun n _ => Bool.and_comm ..

theorem staysInStep_take : F.StaysInStep (F.takeSingleton name).2 := by
  refine ⟨rfl, fun h => ⟨?_, h.merged⟩⟩
  rw [undefinedSingletons_take, ← h.manual]
  rfl

theorem staysInStep_dropSingletons : F.StaysInStep F.dropSingletons := ⟨rfl, fun h => ⟨rfl, h.merged⟩⟩

theorem FactoryCall.Does.staysInStep {call : FactoryCall} (h : call.Does F F') : F.StaysInStep F' := by
  cases h with
  | registerAlias h | loadAlias h =>
    obtain ⟨_, rfl⟩ := registerAlias_spec h
    exact staysInStep_of_names rfl rfl rfl fun _ _ => id
  | removeAlias h =>
    obtain ⟨_, rfl⟩ := removeAlias_spec h
    exact staysInStep_of_names rfl rfl rfl fun _ _ => id
  | resolveAliases h =>
    obtain ⟨_, rfl⟩ := resolveAliases_spec h
    exact staysInStep_of_names rfl rfl rfl fun _ _ => id
  | @cacheMetadata value =>
    refine staysInStep_of_names rfl rfl rfl fun n ref hm => ?_
    cases value with
    | true => exact hm
    | false => cases hm
  | clearCache => exact staysInStep_of_names rfl rfl rfl fun _ _ hm => by cases hm
  | @setInCreation n value =>
    refine staysInStep_flags ?_
    cases value <;> rfl
  | freeze | configure => exact staysInStep_of_names rfl rfl rfl fun _ _ => id

theorem staysInStep_takeOver {other : Factory} : F.StaysInStep (F.copyConfiguration other) := by
  rw [copyConfiguration_eq]
  exact staysInStep_of_names rfl rfl rfl fun _ _ => id

/-! ## Definitions that come and go -/

/-- A factory with other definitions, after the merge of a name was dropped. -/
abbrev Factory.redefined (F : Factory) (D : DefinitionStore) (name : String) : Factory :=
  { F with definitions := D, merged := F.merged.evict name }

namespace Factory.InStep

variable (h : F.InStep) (others : ∀ x ≠ name, D.contains x = F.definitions.contains x)
include h others

theorem merged_redefined (ref : MergedRef) (hm : (F.redefined D name).merged.get? n = some ref) :
    D.contains n = true := by
  have hne : n ≠ name := by
    rintro rfl
    exact absurd hm (by simp [MergedCache.evict, MergedCache.get?])
  rw [others n hne]
  exact h.merged n ref ((OrderedMap.get?_erase_of_ne hne).symm.trans hm)

/-- Where a name has no singleton, it makes no difference whether it is defined. -/
theorem unused (hfree : F.singletons.contains name = false) : (F.redefined D name).InStep where
  manual := by
    refine h.manual.trans (List.filter_congr fun n hn => ?_)
    have hne : n ≠ name := by
      rintro rfl
      exact Bool.false_ne_true (hfree.symm.trans (OrderedMap.contains_iff.2 hn))
    rw [others n hne]
  merged _ := h.merged_redefined others

/-- **Where a name has a singleton, names are in step again as soon as that has left the cache.** -/
theorem released : ((F.redefined D name).takeSingleton name).2.InStep where
  manual := by
    rw [undefinedSingletons_take]
    change F.manualNames.toList.filter (fun n => n ≠ name) = _
    rw [h.manual, undefinedSingletons, undefinedSingletons, List.filter_filter, List.filter_filter]
    refine List.filter_congr fun n _ => ?_
    by_cases hne : n = name
    · simp [hne]
    · rw [others n hne]
  merged _ := h.merged_redefined others

end Factory.InStep

/-! ## One factory in a session -/

/-- A factory that exists has these definitions, and its names are in step. -/
structure Session.Standing (f : FactoryId) (D : DefinitionStore) (s : Session) : Prop where
  lt_length : f < s.factories.length
  definitions : (s.factory f).definitions = D
  inStep : (s.factory f).InStep

namespace Session.Standing

variable (h : s.Standing f D)
include h

theorem of_factories (ht : t.factories = s.factories) : t.Standing f D := by
  have hfactory : t.factory f = s.factory f := by
    unfold factory
    rw [ht]
  exact ⟨ht ▸ h.lt_length, hfactory ▸ h.definitions, hfactory ▸ h.inStep⟩

theorem setFactory {F : Factory} (hF : g = f → (s.factory g).StaysInStep F) :
    (s.setFactory g F).Standing f D := by
  have hstays : (s.factory f).StaysInStep ((s.setFactory g F).factory f) := by
    by_cases hg : f = g
    · subst hg
      rw [factory_setFactory_self h.lt_length]
      exact hF rfl
    · rw [factory_setFactory_of_ne hg]
      exact ⟨rfl, id⟩
  exact ⟨by rw [length_setFactory]; exact h.lt_length, hstays.1.trans h.definitions, hstays.2 h.inStep⟩

theorem modifyFactory {change : Factory → Factory} (hF : (s.factory g).StaysInStep (change (s.factory g))) :
    (s.modifyFactory g change).Standing f D := by
  rw [modifyFactory_eq_setFactory]
  exact h.setFactory fun _ => hF

theorem making (hst : s.MakingChange Set.univ t) : t.Standing f D := by
  cases hst with
  | addEdge => exact h.modifyFactory staysInStep_dependencies
  | count | tell | construct | miss | handOut => exact h.of_factories rfl

theorem ending (hst : s.EndingChange Set.univ t) : t.Standing f D := by
  cases hst with
  | tell => exact h.of_factories rfl
  | tearDown => exact h.modifyFactory (staysInStep_flags rfl)
  | takeDependents => exact h.setFactory fun _ => staysInStep_dependencies
  | dropEdges => exact h.modifyFactory staysInStep_dependencies
  | release => exact (h.setFactory fun _ => staysInStep_take).of_factories factories_release
  | @tornDown g =>
    have hdropped : (s.modifyFactory g Factory.dropSingletons).Standing f D :=
      h.modifyFactory staysInStep_dropSingletons
    exact hdropped.of_factories factories_releaseAll

theorem scope (hst : s.ScopeChange t) : t.Standing f D := by
  cases hst with
  | keep => exact h.of_factories factories_keepIn
  | addCallback => exact h.of_factories rfl
  | take => exact h.of_factories factories_takeFrom
  | empty => exact h.of_factories factories_emptyScope

theorem settleMerge {m : MergedDefinition} (hn : g = f → D.contains n = true) :
    (settleMerge g n m s).2.Standing f D := by
  rw [settleMerge_apply]
  have hnoted : ({ s with merges := s.merges + 1 }.write
      (.notice (.definitionMerged n ((s.factory g).settle m).scope))).Standing f D := h.of_factories rfl
  dsimp only
  split
  · split
    · exact hnoted.modifyFactory (staysInStep_of_names rfl rfl rfl fun _ _ => id)
    · rw [modifyFactory_eq_setFactory]
      refine hnoted.setFactory fun hg => staysInStep_keepMerge ?_
      subst hg
      exact h.definitions ▸ hn rfl
  · exact hnoted

theorem mergedOwn : Ends (mergedOwn g n) s fun r _ => ∀ ref, r = .ok ref → g = f → D.contains n = true := by
  by_cases hg : g = f
  · subst hg
    cases hm : (s.factory g).merged.get? n with
    | some ref => exact fun _ _ _ => h.definitions ▸ h.inStep.merged n ref hm
    | none =>
      cases hd : (s.factory g).definitions.get? n with
      | some d => exact fun _ _ _ => h.definitions ▸ OrderedMap.contains_iff_get?.2 ⟨d, hd⟩
      | none =>
        refine (ends_mergedOwn_missing hm hd).mono ?_
        rintro _ _ ⟨rfl, -⟩ _ ⟨⟩
  · exact fun _ _ h => absurd h hg

end Session.Standing

/-- All calls but those of a factory that are there to change its definitions. -/
def keepingDefinitions (f : FactoryId) : FactoryId → FactoryCall → Bool :=
  restricting f fun call => !call.redefines

/-- To leave the definitions of a factory alone, and keep its names in step. -/
def standing (f : FactoryId) (D : DefinitionStore) : Manner :=
  .upholding (Session.Standing f D) fun g n _ => g = f → D.contains n = true

theorem covers_standing : (standing f D).Covers Set.univ :=
  have steps : MergeSteps Set.univ (standing f D).Start (fun g n => g = f → D.contains n = true)
      fun _ => Asks (standing f D) :=
    mergeSteps_asks (fun hs hn hg => by subst hg; exact hs.definitions ▸ hn)
      (fun _ _ hn hs => hs.settleMerge hn) fun _ _ _ _ => trivial
  have making : (standing f D).CoversMaking Set.univ :=
    { making := fun _ hst hs => hs.making hst
      cache := by
        intro s g n m made _ _ hn _ hs
        refine (hs.of_factories rfl : (s.write (.cached g n made)).Standing f D).setFactory fun hg => ?_
        subst hg
        exact staysInStep_add (hs.definitions ▸ hn rfl)
      hold := fun hs _ hg => hs.setFactory fun _ =>
        staysInStep_flags (SingletonRegistry.objects_of_acquire hg)
      unhold := by
        intro s t g guard singletons hs _ hg hst _
        have ht : t.Standing f D :=
          hst (hs.setFactory fun _ => staysInStep_flags (SingletonRegistry.objects_of_acquire hg))
        exact ht.modifyFactory (staysInStep_flags SingletonRegistry.objects_release)
      parent := fun _ _ _ => trivial
      ownMerges := fun hs hf => steps.mergedOwn hf _ hs
      merges := fun hs hf => steps.mergedDefinition hf _ hs
      merged := fun hs _ => hs.mergedOwn }
  making.covers (fun _ hst hs => hs.ending hst) fun _ hst hs => hs.scope hst

theorem resets_standing : (standing f D).Resets g where
  evict _ hs := hs.modifyFactory (staysInStep_of_names rfl rfl rfl fun n ref hm => by
    rw [MergedCache.get?, MergedCache.evict, OrderedMap.get?_erase] at hm
    split at hm
    · cases hm
    · exact hm)
  tell _ _ _ hs := hs.of_factories rfl

theorem redefines_standing (hg : g ≠ f) : (standing f D).Redefines g where
  toResets := resets_standing
  define _ _ hs := hs.setFactory fun h => absurd h hg
  undefine _ _ hs := hs.setFactory fun h => absurd h hg
  dropEdges _ hs := hs.modifyFactory staysInStep_dependencies

/-- **As long as its definitions stay, whatever happens keeps the names of a factory in step.** -/
theorem coversOperations_standing :
    (standing f D).CoversOperations fun g call => keepingDefinitions f g call = true where
  toCovers := covers_standing
  does _ _ _ hd hs := hs.setFactory fun _ => hd.staysInStep
  takeOver _ _ _ hs := (hs.setFactory fun _ => staysInStep_takeOver).of_factories rfl
  register hs _ hr _ := (hs.setFactory fun _ => staysInStep_register hr).of_factories rfl
  link hs _ _ _ _ _ := hs.modifyFactory (staysInStep_of_names rfl rfl rfl fun _ _ => id)
  addProcessor _ hs := hs.of_factories rfl
  addScope _ hs := hs.of_factories rfl
  addFactory := by
    intro s settings constructor _ hs
    have hsame : (s.addFactory { settings, constructor }).2.factory f = s.factory f :=
      factory_addFactory_of_lt hs.lt_length
    exact ⟨by simp [Nat.lt_succ_of_lt hs.lt_length], hsame ▸ hs.definitions, hsame ▸ hs.inStep⟩
  label _ _ hs := hs.of_factories rfl
  definitions := by
    intro g call hP hcall
    have hg : g ≠ f := by
      rintro rfl
      simp [keepingDefinitions, hcall] at hP
    exact .inl (redefines_standing hg)
  fresh hs := by
    have hg := Nat.ne_of_gt hs.lt_length
    exact ⟨redefines_standing hg, fun _ => restricting_of_ne hg⟩

/-! ## Definitions that change -/

section

variable {env : Collaborators} {depth : Nat}

/-- The ways back for collaborators that leave the definitions of a factory alone. -/
abbrev reentryKeeping (env : Collaborators) (f : FactoryId) (depth : Nat) : Reentry :=
  reentryPermitting env (keepingDefinitions f) depth

theorem keepOperations_reentryKeeping : (reentryKeeping env f depth).KeepOperations (standing f D) :=
  coversOperations_standing.permitting depth

/-- The singleton of a bean leaves the cache before anything else is done about its end. -/
theorem yields_destroy_released (hs : (s.release f name).2.Standing f D) :
    Yields True ((reentryKeeping env f depth).destroy f name) s fun _ t => t.Standing f D := by
  cases depth with
  | zero => exact trivial
  | succ depth =>
    have ha : (reentryKeeping env f depth).KeepOperations (standing f D) := keepOperations_reentryKeeping
    exact (yields_destroyCascade_released covers_standing.toCoversDestroying (coversOperations_standing.collaborators ha)
      ha.toKeep trivial hs).mono fun _ _ ht => ht.1 hs

/-- **A reset brings the names in step** after a change of that definition alone, if it destroys the
singleton of that name where there is one. -/
theorem yields_resetDefinition_standing {store : DefinitionStore} {destroySingleton : Bool}
    (hf : f < s.factories.length) (hF : F.InStep)
    (hs : s.factory f = { F with definitions := store })
    (others : ∀ x ≠ name, store.get? x = F.definitions.get? x)
    (hdestroy : destroySingleton = false → F.singletons.contains name = false) :
    Yields True (resetDefinition (reentryKeeping env f depth) f name destroySingleton {}) s
      fun _ t => t.Standing f store := by
  have ha : (reentryKeeping env f depth).KeepResets (standing f store) f :=
    keepOperations_reentryKeeping.keepResets resets_standing
  set u := s.modifyFactory f fun F => { F with merged := F.merged.evict name }
  have hlen : f < u.factories.length := by rwa [length_modifyFactory]
  have hu : u.factory f = F.redefined store name := by
    rw [factory_modifyFactory_self hf, hs]
  have hcontains (x) (hx : x ≠ name) : store.contains x = F.definitions.contains x :=
    contains_of_get?_eq (others x hx)
  unfold resetDefinition
  rw [if_neg (by simp [OrderedSet.contains]), yields_bind, yields_lift, updateFactory_apply]
  dsimp only
  split
  · have hreleased : (u.release f name).2.factory f = ((F.redefined store name).takeSingleton name).2 := by
      rw [factory_release, factory_setFactory_self hlen, hu]
    have hu : (u.release f name).2.Standing f store := ⟨by rwa [length_release], by rw [hreleased]; rfl,
      hreleased ▸ hF.released hcontains⟩
    rw [yields_bind]
    refine (yields_destroy_released hu).mono fun failures t ht => ?_
    rw [yields_bind, yields_modify]
    have hnoted : (t.writeNotices (failures.map (.resetFailed name))).Standing f store :=
      ht.of_factories Session.Remarks.writeNotices.factories
    exact (keeps_resetChildren ha _ hnoted).mono fun _ _ hv => hv hnoted
  · next hkeep =>
    have hu : u.Standing f store := ⟨hlen, by rw [hu],
      hu ▸ hF.unused hcontains (hdestroy (by simpa using hkeep))⟩
    exact (keeps_resetChildren ha _ hu).mono fun _ _ hv => hv hu

/-- The names of a factory that exists are in step, whatever its definitions. -/
def Session.InStep (f : FactoryId) (s : Session) : Prop := ∃ D, s.Standing f D

/-- To keep the names of a factory in step. -/
abbrev keepingInStep (f : FactoryId) : Manner := .upholding (Session.InStep f) fun _ _ _ => True

theorem keepDefinitions_inStep : (reentryKeeping env f depth).KeepDefinitions (keepingInStep f) f where
  register name d := by
    rintro s ⟨D, hs⟩
    unfold registerDefinition tryUpdate
    simp only [yields_run_bind, yields_run_liftState, theFactory_apply, yields_run_liftQuery, ends_bind,
      ends_lift]
    cases hd : (s.factory f).define name d with
    | error e => exact id
    | ok F =>
      obtain ⟨store, rfl, others⟩ := define_spec hd
      simp only [ends_modify, write_apply, note_apply, yields_run_liftEffect]
      refine (yields_resetDefinition_standing (by simpa using hs.lt_length) hs.inStep ?_ others ?_).mono
        fun _ t ht _ => ⟨store, ht⟩
      · simp [factory_setFactory_self hs.lt_length]
      · exact fun h => (Bool.or_eq_false_iff.1 h).2
  remove name := by
    rintro s ⟨D, hs⟩
    unfold removeDefinition tryUpdate
    simp only [yields_run_bind, yields_run_liftState, theFactory_apply, yields_run_liftQuery, ends_bind,
      ends_lift]
    cases hd : (s.factory f).undefine name with
    | error e => exact id
    | ok F =>
      obtain ⟨store, rfl, others⟩ := undefine_spec hd
      simp only [ends_modify, note_apply, yields_run_liftEffect]
      refine (yields_resetDefinition_standing (by simpa using hs.lt_length) hs.inStep ?_ others ?_).mono
        fun _ t ht => ?_
      · simp [factory_setFactory_self hs.lt_length]
      · exact fun h => by cases h
      · exact fun _ => ⟨store, ht.modifyFactory staysInStep_dependencies⟩

theorem keeps_loadSet_inStep {set : DefinitionSet} :
    Keeps (keepingInStep f) (loadSet (reentryKeeping env f depth) f set).run := by
  have aliased (name altName) : Asks (keepingInStep f) (registerAlias f name altName) :=
    asks_registerAlias
      (fun _ _ _ hF ⟨D, hs⟩ => ⟨D, hs.setFactory fun _ => (FactoryCall.Does.registerAlias hF).staysInStep⟩)
      fun _ _ _ ⟨D, hs⟩ => ⟨D, hs.of_factories rfl⟩
  unfold loadSet
  refine (keeps_run_forM fun e _ => keepDefinitions_inStep.register _ _).run_bind fun _ => ?_
  exact (keeps_run_forM fun e _ => keeps_run_query (aliased _ _)).run_bind fun _ => keeps_run_pure

theorem keeps_redefining {call : FactoryCall} (h : call.redefines = true) :
    Keeps (keepingInStep f) (callFactory env (reentryKeeping env f depth) f call) := by
  cases call with
  | register => exact keeps_answerAct (keepDefinitions_inStep.register _ _)
  | remove => exact keeps_answerAct (keepDefinitions_inStep.remove _)
  | loadSet => exact keeps_answerAct keeps_loadSet_inStep
  | _ => cases h

theorem yields_performOnce_inStep {operation : Operation} (hs : s.InStep f) :
    Yields True (performOnce env (reentryKeeping env f depth) operation) s fun _ t => t.InStep f := by
  obtain ⟨D, hD⟩ := hs
  by_cases hP : ∀ g call, operation.call? s = some (g, call) → keepingDefinitions f g call = true
  · have ha : (reentryKeeping env f depth).KeepOperations (standing f D) := keepOperations_reentryKeeping
    exact (yields_performOnce coversOperations_standing (coversOperations_standing.collaborators ha) ha hD
      hP).mono fun _ _ ht => ⟨D, ht hD⟩
  · -- It is a call of this very factory that is there to change its definitions.
    push Not at hP
    obtain ⟨g, call, hcall, hP⟩ := hP
    obtain ⟨label, rfl, hlabel⟩ := eq_on_of_call? hcall
    obtain ⟨rfl, hredefines⟩ : g = f ∧ call.redefines = true := by
      simpa [keepingDefinitions, restricting] using hP
    unfold performOnce withLabel
    rw [yields_bind, yields_get, hlabel]
    exact (keeps_redefining hredefines s ⟨D, hD⟩).mono fun _ _ ht => ht ⟨D, hD⟩

/-- **Beans are listed once each: the definitions, then the cached singletons that have none.**

Whatever is asked of a factory and of others, and whether it succeeds or not, as long as collaborators
do not change its definitions, the names that it keeps of singletons registered by hand are those of its
cached singletons without a definition, in the order of the cache. -/
theorem PermittedRun.beanNames_eq (hf : f < s.factories.length) (hs : (s.factory f).InStep)
    (run : PermittedRun env (fun _ _ => true) (keepingDefinitions f) s t) :
    (t.factory f).manualNames.toList = (t.factory f).undefinedSingletons ∧
      (t.factory f).beanNames = (t.factory f).definitions.names ++ (t.factory f).undefinedSingletons ∧
      (t.factory f).beanNames.Nodup := by
  have ht : t.InStep f := by
    induction run with
    | start => exact ⟨_, hf, rfl, hs⟩
    | perform _ _ hp ih => exact yields_true_iff.1 (yields_performOnce_inStep ih) _ _ hp
  obtain ⟨_, ht⟩ := ht
  exact ⟨ht.inStep.manual, ht.inStep.beanNames⟩

end

/-- Collaborators that follow written instructions, where a text asks to register a singleton by hand. -/
def stockists : Collaborators :=
  Scripted.collaborators (fun k => ⟨k.label, none⟩) fun
    | .text name => some ("register_singleton", .on "main" (.registerSingleton name (.fresh {})))
    | _ => none

/-- A session with a factory that is new but for its constructor. -/
def Session.stocking : Session where
  factories := [{ constructor := some .direct }]
  factoryLabels := .ofList [("main", 0)]

/-- A definition takes over the name of `tool`, which has `spare` registered when it is destroyed; and
when `base` is removed `child` goes with it. -/
theorem beanNames_stocking :
    0 < Session.stocking.factories.length ∧ (Session.stocking.factory 0).InStep ∧
      ∃ t u, PermittedRun stockists (fun _ _ => true) (keepingDefinitions 0) .stocking t ∧
        (t.factory 0).beanNames = ["base", "child", "tool", "part"] ∧
        (t.factory 0).undefinedSingletons = ["tool", "part"] ∧
        PermittedRun stockists (fun _ _ => true) (keepingDefinitions 0) t u ∧
        (u.factory 0).beanNames = ["child", "tool", "part", "spare"] ∧
        (u.factory 0).manualNames.toList = ["part", "spare"] ∧ (u.factory 0).beanNames.Nodup := by
  have hf : 0 < Session.stocking.factories.length := by decide
  have hs : (Session.stocking.factory 0).InStep := inStep_new
  have hrun : (performAll stockists (fun _ _ => true) (keepingDefinitions 0) 3
      [.on "main" (.registerSingleton "tool" (.fresh { destroySteps := [.text "spare"] })),
        .on "main" (.register "base" {}), .on "main" (.register "child" { parent := some "base" }),
        .on "main" (.get "child"), .on "main" (.registerSingleton "part" (.fresh {}))]
      .stocking).any (fun t =>
        (t.factory 0).definitions.names = ["base", "child"] &&
        (t.factory 0).undefinedSingletons = ["tool", "part"] &&
        (performAll stockists (fun _ _ => true) (keepingDefinitions 0) 3
          [.on "main" (.register "tool" {}), .on "main" (.remove "base"), .on "main" (.get "base")] t).any
          fun u => (u.factory 0).definitions.names = ["child", "tool"] &&
            (u.factory 0).undefinedSingletons = ["part", "spare"]) = true := by
    decide +kernel
  obtain ⟨t, ht, hrun⟩ := (Option.any_eq_true ..).1 hrun
  simp only [Bool.and_eq_true, decide_eq_true_eq] at hrun
  obtain ⟨⟨htdefined, htundefined⟩, hrun⟩ := hrun
  obtain ⟨u, hu, hrun⟩ := (Option.any_eq_true ..).1 hrun
  simp only [Bool.and_eq_true, decide_eq_true_eq] at hrun
  obtain ⟨hudefined, huundefined⟩ := hrun
  have hst := permittedRun_performAll ht
  have htu := permittedRun_performAll hu
  obtain ⟨-, htnames, -⟩ := hst.beanNames_eq hf hs
  obtain ⟨humanual, hunames, hunodup⟩ := (hst.trans htu).beanNames_eq hf hs
  rw [htdefined, htundefined] at htnames
  rw [hudefined, huundefined] at hunames
  exact ⟨hf, hs, t, u, hst, htnames, htundefined, htu, hunames, humanual.trans huundefined, hunodup⟩

end BeanContainer
