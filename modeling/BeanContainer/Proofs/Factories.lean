import BeanContainer.Factory
import BeanContainer.Proofs.OrderedMap

/-!
What the functions of one factory change of it, and what they leave as it is.
-/

namespace BeanContainer

variable {F new : Factory} {name altName : String}

/-! ## Definitions -/

theorem insert_eq_ok {store new : DefinitionStore} {d : Definition} {allow : Bool}
    (h : store.insert name d allow = .ok new) :
    new = ⟨store.generation + 1, store.definitions.insert name d⟩ := by
  unfold DefinitionStore.insert at h
  split at h
  · split at h
    · cases h; rfl
    · cases h
  · cases h; rfl

theorem define_eq_ok {d : Definition} (h : F.define name d = .ok new) : new = { F with
    definitions := ⟨F.definitions.generation + 1, F.definitions.definitions.insert name d⟩ } := by
  unfold Factory.define at h
  cases hv : Factory.validate name d with
  | error e => simp [hv, bind, Except.bind] at h
  | ok _ =>
    cases hm : F.ensureMutable name with
    | error e => simp [hv, hm, bind, Except.bind] at h
    | ok _ =>
      cases hi : F.definitions.insert name d F.settings.allowDefinitionOverriding with
      | error e =>
        simp only [hv, hm, hi, bind, Except.bind] at h
        split at h <;> cases h
      | ok store =>
        simp only [hv, hm, hi, bind, Except.bind] at h
        split at h
        · cases h
        · cases h
          rw [insert_eq_ok hi]

theorem define_spec {d : Definition} (h : F.define name d = .ok new) :
    ∃ store, new = { F with definitions := store } ∧
      ∀ x ≠ name, store.get? x = F.definitions.get? x :=
  ⟨_, define_eq_ok h, fun _ hx => OrderedMap.get?_insert_of_ne hx⟩

theorem undefine_eq_ok (h : F.undefine name = .ok new) : new = { F with
    definitions := ⟨F.definitions.generation + 1, F.definitions.definitions.erase name⟩ } := by
  unfold Factory.undefine at h
  cases hm : F.ensureMutable name with
  | error e => simp [hm, bind, Except.bind] at h
  | ok _ =>
    simp only [hm, bind, Except.bind] at h
    split at h
    · rename_i hc
      cases h
      rw [DefinitionStore.erase, if_pos hc]
    · cases h

theorem undefine_spec (h : F.undefine name = .ok new) :
    ∃ store, new = { F with definitions := store } ∧
      ∀ x ≠ name, store.get? x = F.definitions.get? x :=
  ⟨_, undefine_eq_ok h, fun _ hx => OrderedMap.get?_erase_of_ne hx⟩

theorem contains_of_get?_eq {store store' : DefinitionStore} (h : store'.get? name = store.get? name) :
    store'.contains name = store.contains name := by
  rw [Bool.eq_iff_iff]
  change store'.definitions.contains name = true ↔ store.definitions.contains name = true
  rw [OrderedMap.contains_iff_get?, OrderedMap.contains_iff_get?]
  exact iff_of_eq (congrArg (fun r => ∃ d, r = some d) h)

/-! ## Aliases -/

theorem aliases_of_eq_ok {r : Except BeanError AliasMap}
    (h : (do return { F with aliases := ← r } : Except BeanError Factory) = .ok new) :
    ∃ aliases, new = { F with aliases } := by
  cases r with
  | error e => cases h
  | ok aliases =>
    cases h
    exact ⟨aliases, rfl⟩

theorem registerAlias_spec (h : F.registerAlias name altName = .ok new) :
    ∃ aliases, new = { F with aliases } := by
  unfold Factory.registerAlias at h
  split at h
  · cases h
  · exact aliases_of_eq_ok h

theorem removeAlias_spec (h : F.removeAlias altName = .ok new) : ∃ aliases, new = { F with aliases } :=
  aliases_of_eq_ok h

theorem resolveAliases_spec {resolver : ValueResolver} (h : F.resolveAliases resolver = .ok new) :
    ∃ aliases, new = { F with aliases } := aliases_of_eq_ok h

/-! ## Singletons -/

theorem registerSingleton_eq_ok {i : Instance} (h : F.registerSingleton name i = .ok new) :
    F.singletons.get? name = none ∧ new = { F with
      singletons := { F.singletons with objects := F.singletons.objects.insert name i }
      manualNames := if F.definitions.contains name then F.manualNames else F.manualNames.insert name } := by
  unfold Factory.registerSingleton at h
  split at h
  · cases h
  · unfold SingletonRegistry.register at h
    cases hn : F.singletons.get? name with
    | some existing => simp [hn, bind, Except.bind] at h
    | none =>
      simp only [hn, bind, Except.bind, pure, Except.pure, Except.ok.injEq] at h
      exact ⟨rfl, h.symm⟩

theorem registerSingleton_spec {i : Instance} (h : F.registerSingleton name i = .ok new) :
    F.singletons.get? name = none ∧ ∃ manualNames, new = { F with
      singletons := { F.singletons with objects := F.singletons.objects.insert name i }
      manualNames } := (registerSingleton_eq_ok h).imp id fun h => ⟨_, h⟩

/-! ## Configuration -/

theorem Factory.foldl_addProcessor {processors : List ProcessorId} {F : Factory} :
    processors.foldl Factory.addProcessor F =
      { F with processors := (processors.foldl Factory.addProcessor F).processors } := by
  induction processors generalizing F with
  | nil => rfl
  | cons p processors ih =>
    rw [List.foldl_cons, ih]
    rfl

theorem copyConfiguration_eq {other : Factory} : F.copyConfiguration other = { F with
    settings := other.settings
    typeResolver := other.typeResolver
    candidateRule := other.candidateRule
    scopes := F.scopes.insertAll other.scopes.entries
    processors := (F.copyConfiguration other).processors
    resolvers := F.resolvers ++ other.resolvers
    ignoredTypes := F.ignoredTypes.insertAll other.ignoredTypes.toList } := by
  unfold Factory.copyConfiguration
  rw [Factory.foldl_addProcessor]

theorem singletons_copyConfiguration {other : Factory} :
    (F.copyConfiguration other).singletons = F.singletons := by rw [copyConfiguration_eq]

theorem parent_copyConfiguration {other : Factory} : (F.copyConfiguration other).parent = F.parent := by
  rw [copyConfiguration_eq]

end BeanContainer
