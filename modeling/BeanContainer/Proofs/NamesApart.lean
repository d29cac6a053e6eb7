import BeanContainer.Proofs.Aliases
import BeanContainer.Proofs.Permitted
import BeanContainer.Proofs.Providers

/-!
Names of definitions and aliases. Taking up a definition looks at the aliases,
and registering an alias looks at the definitions, so no name ever comes to be
both (`Factory.NamesApart`). Nothing but resolving all aliases can make an alias
of a definition's name (`PermittedRun.namesApart`).

A definition's name therefore stands for itself, and a lookup by it leads to that
definition (`Session.Reaches`).
-/

namespace BeanContainer

open Session

/-- No name is that of a definition and an alias, and the aliases make no circle. -/
structure Factory.NamesApart (F : Factory) : Prop where
  apart : ∀ n, F.definitions.contains n = true → F.aliases.isAlias n = false
  acyclic : F.aliases.Acyclic

variable {F F' : Factory} {name altName n : String} {s t : Session} {f : FactoryId}

/-! ## One factory -/

theorem namesApart_new {settings : FactorySettings} {constructor : Option Constructor} :
    Factory.NamesApart { settings, constructor } where
  apart _ h := by simp [DefinitionStore.contains, OrderedMap.contains, OrderedMap.keys] at h
  acyclic := AliasMap.acyclic_empty

theorem not_isAlias_of_define {d : Definition} (h : F.define name d = .ok F') :
    F.aliases.isAlias name = false := by
  unfold Factory.define at h
  rw [← Bool.not_eq_true]
  intro halias
  cases hv : Factory.validate name d with
  | error e => simp [hv, bind, Except.bind] at h
  | ok _ =>
    cases hm : F.ensureMutable name with
    | error e => simp [hv, hm, bind, Except.bind] at h
    | ok _ =>
      simp only [hv, hm, halias, bind, Except.bind, if_true] at h
      cases h

theorem registerAlias_eq_ok (h : F.registerAlias name altName = .ok F') :
    (altName ≠ name → F.definitions.contains altName = false) ∧
      ∃ aliases, F.aliases.register name altName F.settings.allowAliasOverriding = .ok aliases ∧
        F' = { F with aliases } := by
  unfold Factory.registerAlias at h
  split at h
  · cases h
  · next hfree =>
    cases hr : F.aliases.register name altName F.settings.allowAliasOverriding with
    | error e =>
      rw [hr] at h
      cases h
    | ok aliases =>
      rw [hr] at h
      cases h
      exact ⟨fun hne => by simpa [hne] using hfree, aliases, rfl, rfl⟩

theorem removeAlias_eq_ok (h : F.removeAlias altName = .ok F') :
    F' = { F with aliases := ⟨F.aliases.toMap.erase altName⟩ } := by
  unfold Factory.removeAlias AliasMap.remove at h
  split at h
  · cases h
    rfl
  · cases h

namespace Factory.NamesApart

theorem congr (h : F.NamesApart) (hdef : F'.definitions = F.definitions) (halias : F'.aliases = F.aliases) :
    F'.NamesApart := ⟨by rw [hdef, halias]; exact h.apart, halias ▸ h.acyclic⟩

theorem of_aliases (h : F.NamesApart) {aliases : AliasMap} (acyclic : aliases.Acyclic)
    (fewer : ∀ a n, aliases.StandsFor a n → F.aliases.StandsFor a n ∨ F.definitions.contains a = false) :
    Factory.NamesApart { F with aliases } where
  apart a ha := by
    refine AliasMap.not_isAlias_iff.2 fun n hn => ?_
    obtain hold | hfree := fewer a n hn
    · exact AliasMap.not_isAlias_iff.1 (h.apart a ha) n hold
    · exact Bool.false_ne_true (hfree.symm.trans ha)
  acyclic := acyclic

theorem erase (h : F.NamesApart) : Factory.NamesApart { F with aliases := ⟨F.aliases.toMap.erase altName⟩ } :=
  h.of_aliases h.acyclic.erase fun _ _ ha => .inl (AliasMap.standsFor_erase.1 ha).2

theorem define (h : F.NamesApart) {d : Definition} (hd : F.define name d = .ok F') : F'.NamesApart := by
  have hname := not_isAlias_of_define hd
  obtain ⟨store, rfl, hstore⟩ := define_spec hd
  refine ⟨fun x hx => ?_, h.acyclic⟩
  by_cases hne : x = name
  · exact hne ▸ hname
  · exact h.apart x (contains_of_get?_eq (hstore x hne) ▸ hx)

theorem undefine (h : F.NamesApart) (hd : F.undefine name = .ok F') : F'.NamesApart := by
  have hname : F.definitions.contains name = true := by
    unfold Factory.undefine at hd
    cases hm : F.ensureMutable name with
    | error e => simp [hm, bind, Except.bind] at hd
    | ok _ =>
      simp only [hm, bind, Except.bind] at hd
      split at hd
      · assumption
      · cases hd
  obtain ⟨store, rfl, hstore⟩ := undefine_spec hd
  refine ⟨fun x hx => ?_, h.acyclic⟩
  by_cases hne : x = name
  · exact hne ▸ h.apart name hname
  · exact h.apart x (contains_of_get?_eq (hstore x hne) ▸ hx)

theorem registerAlias (h : F.NamesApart) (hd : F.registerAlias name altName = .ok F') : F'.NamesApart := by
  obtain ⟨hfree, aliases, hr, rfl⟩ := registerAlias_eq_ok hd
  refine h.of_aliases (h.acyclic.register hr) fun a n ha => ?_
  obtain rfl | rfl | ⟨hne, -, rfl⟩ := AliasMap.register_cases hr
  · exact .inl ha
  · exact .inl (AliasMap.standsFor_erase.1 ha).2
  · obtain ⟨rfl, -⟩ | ⟨-, hold⟩ := AliasMap.standsFor_insert.1 ha
    · exact .inr (hfree hne)
    · exact .inl hold

theorem removeAlias (h : F.NamesApart) (hd : F.removeAlias altName = .ok F') : F'.NamesApart :=
  removeAlias_eq_ok hd ▸ h.erase

theorem redefinition (h : F.NamesApart) (hd : F.Redefinition F') : F'.NamesApart := by
  cases hd with
  | define hd => exact h.define hd
  | undefine hd => exact h.undefine hd
  | evict => exact h.congr rfl rfl

end Factory.NamesApart

/-- Whether a call is to resolve all aliases. -/
def FactoryCall.resolvesAliases : FactoryCall → Bool
  | resolveAliases _ => true
  | _ => false

theorem Factory.NamesApart.does (h : F.NamesApart) {call : FactoryCall} (hcall : call.resolvesAliases = false)
    (hd : call.Does F F') : F'.NamesApart := by
  cases hd with
  | registerAlias hd => exact h.registerAlias hd
  | loadAlias hd => exact h.registerAlias hd
  | removeAlias hd => exact h.removeAlias hd
  | resolveAliases => cases hcall
  | cacheMetadata | freeze | clearCache | setInCreation | configure => exact h.congr rfl rfl

/-! ## Runs -/

/-- All calls but those of a factory to resolve its aliases. -/
def keepingAliases (f : FactoryId) : FactoryId → FactoryCall → Bool :=
  restricting f fun call => !call.resolvesAliases

theorem lasting_namesApart :
    Lasting (fun s => f < s.factories.length ∧ (s.factory f).NamesApart) Set.univ (keepingAliases f) where
  step := by
    rintro s t ⟨hf, hs⟩ h
    refine ⟨hf.trans_le h.change.length_le, ?_⟩
    have hstep := h.step hf
    generalize t.factory f = F at hstep ⊢
    cases hstep with
    | core hcore =>
      exact hs.congr (congrArg Factory.definitions hcore : _) (congrArg Factory.aliases hcore : _)
    | keepMerge => exact hs.congr rfl rfl
    | does hP hd => exact hs.does (by simpa [keepingAliases] using hP) hd
    | takeOver => exact copyConfiguration_eq ▸ hs.congr rfl rfl
    | redefine _ hd => exact hs.redefinition hd
  refuses hf := absurd trivial hf
  fresh hs := ⟨trivial, fun _ => restricting_of_ne (Nat.ne_of_gt hs.1)⟩

/-- A lookup of a name in a factory leads to what the factory itself has under this name. -/
structure Session.Reaches (s : Session) (f : FactoryId) (n : String) : Prop where
  canonical : (s.factory f).canonical n = n
  /-- The factory is the first of those that a question goes to which has the name, and has it as it is. -/
  provider : s.provider (s.chain f) n = some (f, n)
  route : (∃ i, s.singleton? f n = some i ∧ s.route (s.chain f) n = .cached f n i) ∨
    (s.factory f).singletons.isPrototypeInCreation n = true ∧ s.route (s.chain f) n = .busy n ∨
    s.route (s.chain f) n = .defined f n
  merged : (mergedDefinition f n).run s = (mergedOwn f n).run s
  contains : s.containsBean f n = true

theorem canonical_of_not_isAlias {m : AliasMap} (h : m.isAlias n = false) : m.canonical n = n := by
  have hnone : m.toMap.get? n = none := OrderedMap.get?_eq_none_iff.2 fun hn =>
    Bool.false_ne_true (h.symm.trans (OrderedMap.contains_iff.2 hn))
  rw [AliasMap.canonical, AliasMap.follow, hnone]

theorem ends_mergedDefinition_of_defines {Q : Except BeanError MergedRef → Session → Prop}
    (hf : f < s.factories.length) (hdef : s.Defines f ((s.factory f).canonical name))
    (h : Ends (mergedOwn f ((s.factory f).canonical name)) s Q) : Ends (mergedDefinition f name) s Q := by
  obtain ⟨ancestors, hchain⟩ := chain_eq_cons hf
  have hcontains : (s.factory f).definitions.contains ((s.factory f).canonical name) = true := hdef
  unfold mergedOwn at h
  unfold mergedDefinition
  simp only [ends_bind, ends_get] at h ⊢
  rw [hchain] at h ⊢
  cases ancestors <;>
  · unfold mergedIn
    simp only [ends_bind, ends_lift, theFactory_apply, hcontains, if_true]
    exact h

theorem run_mergedDefinition_of_defines (hf : f < s.factories.length)
    (hdef : s.Defines f ((s.factory f).canonical name)) :
    (mergedDefinition f name).run s = (mergedOwn f ((s.factory f).canonical name)).run s :=
  ends_mergedDefinition_of_defines
    (Q := fun r t => (r, t) = (mergedOwn f ((s.factory f).canonical name)).run s) hf hdef rfl

theorem reaches_of_defines (hf : f < s.factories.length) (hdef : s.Defines f n)
    (hcanonical : (s.factory f).canonical n = n) : s.Reaches f n := by
  obtain ⟨ancestors, hchain⟩ := chain_eq_cons hf
  have hprovider : s.provider (s.chain f) n = some (f, n) := by
    rw [hchain, provider]
    simp only [hcanonical]
    rw [if_pos (.inl hdef)]
  refine ⟨hcanonical, hprovider, ?_, ?_, ?_⟩
  · have hroute := route_cons (s := s) (f := f) ancestors n
    simp only [hcanonical] at hroute
    rw [hchain]
    obtain hcached | hbusy | ⟨-, hdefined⟩ | ⟨hundefined, -⟩ := hroute
    · exact .inl hcached
    · exact .inr (.inl hbusy)
    · exact .inr (.inr hdefined)
    · exact absurd hdef hundefined
  · exact (run_mergedDefinition_of_defines hf (by rwa [hcanonical])).trans (by rw [hcanonical])
  · rw [containsBean, containsIn_iff, hprovider]
    rfl

/-- **No name is ever that of a definition and an alias.**

However definitions and aliases are registered and removed, by whom and with whatever settings, and
whether it is accepted or not: as long as the aliases of a factory are not all resolved, its
definitions are no aliases, so their names stand for themselves, and every lookup by the name of a
definition leads to that definition. -/
theorem PermittedRun.namesApart {env : Collaborators} (hf : f < s.factories.length)
    (hs : (s.factory f).NamesApart) (run : PermittedRun env (keepingAliases f) (keepingAliases f) s t) :
    (t.factory f).NamesApart ∧ ∀ n, t.Defines f n → t.Reaches f n := by
  obtain ⟨hlen, ht⟩ := lasting_namesApart.steps ⟨hf, hs⟩ (lasting_namesApart.changes ⟨hf, hs⟩ run)
  refine ⟨ht, fun n hn => reaches_of_defines hlen hn ?_⟩
  exact canonical_of_not_isAlias (ht.apart n hn)

/-- Collaborators that follow written instructions, where a text asks to be an alias of `bean`. -/
def claimants : Collaborators :=
  Scripted.collaborators (fun k => ⟨k.label, none⟩) fun
    | .text name => some ("register_alias", .on "main" (.registerAlias "bean" name))
    | _ => none

/-- A factory that defines `bean` and `other`; the singleton of the latter, when it is destroyed, has its
name registered as an alias. -/
def Session.contending : Session where
  factories :=
    [{ definitions := ⟨2, .ofList [("bean", {}), ("other", {})]⟩
       singletons := { objects := .ofList [("other", ⟨0, "other", .closer⟩)] } }]
  made := [(⟨0, "other", .closer⟩, { destroySteps := [.text "other"] })]
  factoryLabels := .ofList [("main", 0)]

/-- Once `other` is no definition it becomes an alias, so that it is not taken up again until it is
none. Meanwhile `bean` does not become an alias. -/
theorem namesApart_contending :
    let permitted := keepingAliases 0
    0 < Session.contending.factories.length ∧ (Session.contending.factory 0).NamesApart ∧
      ∃ t u, PermittedRun claimants permitted permitted .contending t ∧
        (t.factory 0).canonical "other" = "bean" ∧ PermittedRun claimants permitted permitted t u ∧
        u.Reaches 0 "other" ∧ u.Reaches 0 "bean" := by
  intro permitted
  have hf : 0 < Session.contending.factories.length := by decide
  have hs : (Session.contending.factory 0).NamesApart :=
    ⟨fun _ _ => rfl, AliasMap.acyclic_empty⟩
  have hrun : (performAll claimants permitted permitted 2
      [.on "main" (.remove "other"), .on "main" (.register "other" {}),
        .on "main" (.registerAlias "other" "bean")] .contending).any (fun t =>
      (t.factory 0).canonical "other" = "bean" && 0 < t.factories.length &&
      (performAll claimants permitted permitted 2
        [.on "main" (.removeAlias "other"), .on "main" (.register "other" {})] t).any fun u =>
          (u.factory 0).definitions.contains "other" && (u.factory 0).definitions.contains "bean") = true := by
    decide +kernel
  obtain ⟨t, ht, hrun⟩ := (Option.any_eq_true ..).1 hrun
  simp only [Bool.and_eq_true, decide_eq_true_eq] at hrun
  obtain ⟨⟨hother, htlen⟩, hrun⟩ := hrun
  obtain ⟨u, hu, hdefined⟩ := (Option.any_eq_true ..).1 hrun
  obtain ⟨hdother, hdbean⟩ := Bool.and_eq_true_iff.1 hdefined
  have hst := permittedRun_performAll ht
  have htu := permittedRun_performAll hu
  obtain ⟨htapart, -⟩ := hst.namesApart hf hs
  obtain ⟨-, hreaches⟩ := htu.namesApart htlen htapart
  exact ⟨hf, hs, t, u, hst, hother, htu, hreaches _ hdother, hreaches _ hdbean⟩

end BeanContainer
