import BeanContainer.Proofs.Factories
import BeanContainer.Proofs.Redefining

/-!
All that can be asked of a factory, and what it changes there.

`Factory.Change` lists what can be done at once to the definitions, the aliases,
the cached merges and the configuration of a factory, and `FactoryCall.Does` which
call does what of it. That a factory takes over the configuration of another one is
not among them: the session writes it down at the same time (`Session.takeOver`). A manner that covers what a call does, besides what happens
to beans, covers the call (`yields_callFactory_of`), as far as it covers the ways
back into the session; one that covers all changes covers all calls
(`yields_callFactory`).
-/

namespace BeanContainer

open Session

/-- What can be done at once to the definitions, the aliases, the cached merges and the
configuration of a factory. -/
inductive Factory.Change (F : Factory) : Factory → Prop
  | define {name : String} {d : Definition} {F' : Factory} : F.define name d = .ok F' → F.Change F'
  | undefine {name : String} {F' : Factory} : F.undefine name = .ok F' → F.Change F'
  | registerAlias {name altName : String} {F' : Factory} : F.registerAlias name altName = .ok F' →
      F.Change F'
  | removeAlias {altName : String} {F' : Factory} : F.removeAlias altName = .ok F' → F.Change F'
  | resolveAliases {resolver : ValueResolver} {F' : Factory} : F.resolveAliases resolver = .ok F' →
      F.Change F'
  | keepMerge {name : String} {ref : MergedRef} : F.settings.cacheMetadata = true →
      F.merged.get? name = none → F.Change { F with merged := ⟨F.merged.entries.insert name ref⟩ }
  | evict {name : String} : F.Change { F with merged := F.merged.evict name }
  | clearMerged : F.Change { F with merged := F.merged.clear }
  | setCacheMetadata {value : Bool} : F.Change (F.setCacheMetadata value)
  | freeze : F.Change { F with frozen := true }
  | setInCreation {name : String} {value : Bool} :
      F.Change { F with singletons := F.singletons.setInCreation name value }
  /-- What is left of the configuration is set. -/
  | configure {allowDefinitionOverriding allowAliasOverriding : Bool}
      {scopes : OrderedMap String ScopeId} {processors : List ProcessorId}
      {resolvers : List ValueResolver} {typeResolver : Option (String → Option TypeInfo)}
      {constructor : Option Constructor} {candidateRule : CandidateRule}
      {ignoredTypes : OrderedSet TypeInfo} {resolvable : OrderedMap TypeInfo Instance} :
      F.Change { F with
        settings := { F.settings with allowDefinitionOverriding, allowAliasOverriding }
        scopes, processors, resolvers, typeResolver, constructor, candidateRule, ignoredTypes
        resolvable }

/-- None of this changes the parent of a factory, or more of its singletons than the flags of those in
the making. -/
theorem Factory.Change.beans {F F' : Factory} (h : F.Change F') :
    (∃ inCreation, F'.singletons = { F.singletons with inCreation }) ∧ F'.parent = F.parent := by
  cases h with
  | define h => obtain ⟨_, rfl, -⟩ := define_spec h; exact ⟨⟨_, rfl⟩, rfl⟩
  | undefine h => obtain ⟨_, rfl, -⟩ := undefine_spec h; exact ⟨⟨_, rfl⟩, rfl⟩
  | registerAlias h => obtain ⟨_, rfl⟩ := registerAlias_spec h; exact ⟨⟨_, rfl⟩, rfl⟩
  | removeAlias h => obtain ⟨_, rfl⟩ := removeAlias_spec h; exact ⟨⟨_, rfl⟩, rfl⟩
  | resolveAliases h => obtain ⟨_, rfl⟩ := resolveAliases_spec h; exact ⟨⟨_, rfl⟩, rfl⟩
  | @setInCreation n value => cases value <;> exact ⟨⟨_, rfl⟩, rfl⟩
  | _ => exact ⟨⟨_, rfl⟩, rfl⟩

/-! ## Manners -/

/-- Whether a call is there to change the definitions of its factory. -/
def FactoryCall.redefines : FactoryCall → Bool
  | register .. | remove _ | loadSet _ => true
  | _ => false

/-- What a call may do at once to the aliases, the cached merges and the configuration of its factory. -/
inductive FactoryCall.Does (F : Factory) : FactoryCall → Factory → Prop
  | registerAlias {name altName : String} {F' : Factory} : F.registerAlias name altName = .ok F' →
      Does F (.registerAlias name altName) F'
  | loadAlias {set : DefinitionSet} {name altName : String} {F' : Factory} :
      F.registerAlias name altName = .ok F' → Does F (.loadSet set) F'
  | removeAlias {altName : String} {F' : Factory} : F.removeAlias altName = .ok F' →
      Does F (.removeAlias altName) F'
  | resolveAliases {resolver : ValueResolver} {F' : Factory} : F.resolveAliases resolver = .ok F' →
      Does F (.resolveAliases resolver) F'
  | cacheMetadata {value : Bool} : Does F (.cacheMetadata value) (F.setCacheMetadata value)
  | freeze : Does F .freeze { F with frozen := true }
  | clearCache : Does F .clearCache { F with merged := F.merged.clear }
  | setInCreation {name : String} {value : Bool} : Does F (.setInCreation name value)
      { F with singletons := F.singletons.setInCreation (F.canonical name) value }
  /-- What is left of the configuration is set. -/
  | configure {call : FactoryCall} {allowDefinitionOverriding allowAliasOverriding : Bool}
      {scopes : OrderedMap String ScopeId} {processors : List ProcessorId}
      {resolvers : List ValueResolver} {typeResolver : Option (String → Option TypeInfo)}
      {constructor : Option Constructor} {candidateRule : CandidateRule}
      {ignoredTypes : OrderedSet TypeInfo} {resolvable : OrderedMap TypeInfo Instance} :
      Does F call { F with
        settings := { F.settings with allowDefinitionOverriding, allowAliasOverriding }
        scopes, processors, resolvers, typeResolver, constructor, candidateRule, ignoredTypes
        resolvable }

theorem FactoryCall.Does.change {F F' : Factory} {call : FactoryCall} (h : call.Does F F') : F.Change F' := by
  cases h with
  | registerAlias h => exact .registerAlias h
  | loadAlias h => exact .registerAlias h
  | removeAlias h => exact .removeAlias h
  | resolveAliases h => exact .resolveAliases h
  | cacheMetadata => exact .setCacheMetadata
  | freeze => exact .freeze
  | clearCache => exact .clearMerged
  | setInCreation => exact .setInCreation
  | configure => exact .configure

/-- A manner covers what those calls for which `P` holds do to the factories in `U`, their definitions
apart. -/
structure Manner.CoversCallsOf (M : Manner) (U : Set FactoryId) (P : FactoryId → FactoryCall → Prop) : Prop
    extends M.Covers U where
  does : ∀ {s f call F}, M.Start s → f ∈ U → P f call → call.Does (s.factory f) F →
    M.Leads s (s.setFactory f F)
  takeOver : ∀ {s f source label}, M.Start s → f ∈ U → P f (.copyConfiguration label) →
    M.Leads s (s.takeOver f source)
  register : ∀ {s f n i F}, M.Start s → f ∈ U → (s.factory f).registerSingleton n i = .ok F →
    M.Leads s ((s.setFactory f F).write (.registered f n i))
  link : ∀ {s f p}, M.Start s → f ∈ U → p ∈ U → (s.chain p).contains f = false →
    (s.factory f).parent = none →
    M.Leads s (s.modifyFactory f fun F => { F with parent := some p })

/-- A manner covers all that is done to the factories in `U`. -/
structure Manner.CoversCalls (M : Manner) (U : Set FactoryId) : Prop
    extends M.CoversCallsOf U fun _ _ => True where
  redefines : ∀ f ∈ U, M.Redefines f

/-- The manner covers how the definitions of a factory are changed, with these ways back. -/
structure Reentry.KeepDefinitions (M : Manner) (f : FactoryId) (again : Reentry) : Prop where
  register : ∀ name d, Keeps M (registerDefinition again f name d).run
  remove : ∀ name, Keeps M (removeDefinition again f name).run

/-- The manner covers the ways back that calls of the factories in `U` take. -/
structure Reentry.KeepCalls (M : Manner) (U : Set FactoryId) (again : Reentry) : Prop
    extends again.Keep M U where
  reset : ∀ f ∈ U, ∀ name destroySingleton visited, Keeps M (again.reset f name destroySingleton visited)

variable {α β : Type} {env : Collaborators} {again : Reentry} {M : Manner} {U : Set FactoryId}
  {P : FactoryId → FactoryCall → Prop} {s : Session} {f : FactoryId} {name : String} {call : FactoryCall}

theorem Manner.Covers.coversCalls (cover : M.Covers U)
    (factory : ∀ {s f F}, M.Start s → f ∈ U → (s.factory f).Change F → M.Leads s (s.setFactory f F))
    (takeOver : ∀ {s f source}, M.Start s → f ∈ U → M.Leads s (s.takeOver f source))
    (register : ∀ {s f n i F}, M.Start s → f ∈ U → (s.factory f).registerSingleton n i = .ok F →
      M.Leads s ((s.setFactory f F).write (.registered f n i)))
    (link : ∀ {s f p}, M.Start s → f ∈ U → p ∈ U → (s.chain p).contains f = false →
      (s.factory f).parent = none → M.Leads s (s.modifyFactory f fun F => { F with parent := some p })) :
    M.CoversCalls U where
  toCovers := cover
  does hs hf _ h := factory hs hf h.change
  takeOver hs hf _ := takeOver hs hf
  register := register
  link := link
  redefines _ hf :=
    { define := fun hs h => factory hs hf (.define h)
      undefine := fun hs h => factory hs hf (.undefine h)
      evict := fun hs => modifyFactory_eq_setFactory ▸ factory hs hf .evict
      dropEdges := fun hs => cover.dropEdges hs hf
      tell := fun hs ho hg => cover.making.making hs (.tell ho fun g h => hg g h ▸ hf) }

theorem Manner.Redefines.keepDefinitions (redefines : M.Redefines f) (ha : again.KeepResets M f) :
    again.KeepDefinitions M f where
  register _ _ := keeps_registerDefinition redefines ha
  remove _ := keeps_removeDefinition redefines ha

theorem Reentry.KeepCalls.keepResets (ha : again.KeepCalls M U) (hf : f ∈ U) : again.KeepResets M f where
  destroy := ha.destroy f hf
  reset := ha.reset f hf

theorem keeps_withSource (cover : M.CoversMaking U) {source : BeanSource} {use : Instance → Effect Answer}
    (h : ∀ i, Keeps M (use i)) : Keeps M (withSource name source use) := by
  unfold withSource
  refine (cover.keeps_modifyGet fun s => ?_).bind fun found => ?_
  · cases source <;> exact .count
  · split
    · exact h _
    · exact keeps_pure

/-! ## Changes of a factory -/

namespace Manner.CoversCallsOf

variable (cover : M.CoversCallsOf U P)
include cover

theorem asks_note {n : Notice} : Asks M (liftM (note n) : Query Unit) :=
  fun _ hs => cover.making.making hs (.tell rfl nofun)

theorem asks_writeNotices {notices : List Notice} :
    Asks M (modify fun s => s.writeNotices notices : Query Unit) :=
  fun _ hs => cover.making.leads_writeNotices hs

variable (hf : f ∈ U)
include hf

theorem tell {o : Occurrence} (hs : M.Start s) (ho : o.isAside = true)
    (hg : ∀ g, o.factory? = some g → g = f) : M.Leads s (s.write o) :=
  cover.making.making hs (.tell ho fun g h => hg g h ▸ hf)

theorem keeps_updateFactory (hP : P f call) {change : Factory → Factory}
    (h : ∀ F : Factory, call.Does F (change F)) : Keeps M (liftM (updateFactory f change) : Effect Unit) := by
  intro s hs
  change M.Leads s (s.modifyFactory f change)
  rw [modifyFactory_eq_setFactory]
  exact cover.does hs hf hP (h _)

theorem asks_change (hP : P f call) {change : Factory → Except BeanError Factory}
    (h : ∀ F F', change F = .ok F' → call.Does F F') : Asks M (tryUpdate f change) :=
  asks_tryUpdate fun _ _ hs hF => cover.does hs hf hP (h _ _ hF)

/-- An alias may be registered by a call of its own, or with a set. -/
theorem asks_registerAlias {altName : String} (hP : P f call)
    (h : ∀ {F F' : Factory}, F.registerAlias name altName = .ok F' → call.Does F F') :
    Asks M (registerAlias f name altName) :=
  BeanContainer.asks_registerAlias (fun _ _ hs hF => cover.does hs hf hP (h hF))
    fun hs ho hg => cover.tell hf hs ho hg

theorem asks_resolveAliases {resolver : ValueResolver} (hP : P f (.resolveAliases resolver)) :
    Asks M (resolveAliases f resolver) := by
  unfold resolveAliases
  refine (cover.asks_change hf hP fun _ _ => .resolveAliases).bind fun _ => asks_theFactory.bind fun F => ?_
  exact cover.asks_writeNotices

theorem asks_registerSingleton {i : Instance} : Asks M (registerSingleton f name i) := by
  intro s hs
  unfold registerSingleton tryUpdate
  simp only [ends_bind, ends_lift, theFactory_apply]
  cases h : (s.factory f).registerSingleton name i with
  | error e => exact M.refl s
  | ok F =>
    have hst := cover.register hs hf h
    exact M.trans hs hst (cover.asks_note _ (M.start hs hst))

theorem asks_registerScope {k : ScopeId} (hP : P f call) : Asks M (registerScope f name k) := by
  unfold registerScope
  refine asks_get.bind fun s => (cover.asks_change hf hP fun F F' h => ?_).bind fun _ => ?_
  · unfold Factory.registerScope at h
    split at h
    · cases h
    · split at h
      · cases h
      · cases h
        exact .configure
  · exact cover.asks_note

theorem asks_setParent {parent : FactoryId} (hparent : parent ∈ U) : Asks M (setParent f parent) := by
  intro s hs
  unfold setParent
  rw [ends_bind, ends_get]
  dsimp only
  split
  · exact M.refl s
  · next hloop =>
    rw [ends_bind, ends_lift, theFactory_apply]
    dsimp only
    split
    · exact M.refl s
    · next hset =>
      have hst := cover.link hs hf hparent (by simpa using hloop) (by simpa using hset)
      exact M.trans hs hst (cover.asks_note _ (M.start hs hst))

theorem keeps_loadSet {set : DefinitionSet} (hP : P f (.loadSet set)) (hdef : again.KeepDefinitions M f) :
    Keeps M (loadSet again f set).run := by
  unfold loadSet
  refine (keeps_run_forM fun e _ => hdef.register _ _).run_bind fun _ => ?_
  exact (keeps_run_forM fun e _ => keeps_run_query (cover.asks_registerAlias hf hP .loadAlias)).run_bind
    fun _ => keeps_run_pure

theorem keeps_freeze (hP : P f .freeze) : Keeps M (liftM (freeze f) : Effect Unit) := by
  have hfreeze : Keeps M (do updateFactory f fun f => { f with frozen := true }; note .configurationFrozen
      : Effect Unit) :=
    (cover.keeps_updateFactory hf hP fun _ => .freeze).bind fun _ => cover.making.keeps_note
  intro s hs
  change M.Leads s (freeze f s).2
  unfold freeze
  simp only [bind, StateT.bind, theFactory_apply]
  split
  · exact M.refl s
  · exact hfreeze s hs

theorem keeps_clearMetadata (hP : P f .clearCache) : Keeps M (liftM (clearMetadata f) : Effect Unit) := by
  have hclear : Keeps M (do updateFactory f fun f => { f with merged := f.merged.clear }; note .cacheCleared
      : Effect Unit) :=
    (cover.keeps_updateFactory hf hP fun _ => .clearCache).bind fun _ => cover.making.keeps_note
  exact fun s hs => hclear s hs

end Manner.CoversCallsOf

/-! ## Calls -/

/-- The factory that a call makes the parent of another one, if it does, is among those in `U`. -/
def FactoryCall.LinksWithin (U : Set FactoryId) (s : Session) : FactoryCall → Prop
  | setParent label => ∀ p, s.factoryLabels.get? label = some p → p ∈ U
  | _ => True

/-- **A manner that covers what a call does covers the call**, if it covers how definitions are changed
where that is what the call is for. -/
theorem yields_callFactory_of (cover : M.CoversCallsOf U P) (h : env.Keep M U again) (ha : again.Keep M U)
    (hf : f ∈ U) (hP : P f call) (hdef : call.redefines = true → again.KeepDefinitions M f)
    (hs : M.Start s) (hcall : call.LinksWithin U s) :
    Yields True (callFactory env again f call) s fun _ t => M.Leads s t := by
  have covers := cover.toCovers
  have making := covers.making
  by_cases hread : call.isReading = true
  · exact keeps_callFactory making (h.making covers) ha.lookup hf hread s hs
  have told {m : Effect Answer} (hm : Keeps M m) {change : Factory → Factory}
      (hc : ∀ F : Factory, call.Does F (change F)) : Keeps M (do updateFactory f change; m : Effect Answer) :=
    (cover.keeps_updateFactory hf hP hc).bind fun _ => hm
  have shows {shown : Factory → Answer} : Keeps M (do return shown (← theFactory f) : Effect Answer) :=
    keeps_theFactory.bind fun _ => keeps_pure
  by_cases hlink : ∃ label, call = .setParent label
  · obtain ⟨label, rfl⟩ := hlink
    unfold callFactory
    dsimp only
    rw [yields_bind, yields_get]
    unfold withLabel
    split
    · next p hp => exact keeps_answerQuery (cover.asks_setParent hf (hcall p hp)) s hs
    · exact M.refl s
  refine (?_ : Keeps M _) s hs
  cases call <;> first | exact absurd rfl hread | (unfold callFactory; dsimp only)
  case setConstructor => exact told keeps_pure fun _ => .configure
  case register => exact keeps_answerAct ((hdef rfl).register _ _)
  case remove => exact keeps_answerAct ((hdef rfl).remove _)
  case loadSet => exact keeps_answerAct (cover.keeps_loadSet hf hP (hdef rfl))
  case registerAlias => exact keeps_answerQuery (cover.asks_registerAlias hf hP .registerAlias)
  case removeAlias => exact keeps_answerQuery (cover.asks_change hf hP fun _ _ => .removeAlias)
  case resolveAliases => exact keeps_answerQuery (cover.asks_resolveAliases hf hP)
  case setParent label => exact absurd ⟨label, rfl⟩ hlink
  case registerSingleton =>
    exact keeps_withSource making fun i => keeps_answerQuery (cover.asks_registerSingleton hf)
  case setInCreation => exact told keeps_pure fun _ => .setInCreation
  case allowDefinitionOverriding => exact told keeps_pure fun _ => .configure
  case allowAliasOverriding => exact told keeps_pure fun _ => .configure
  case cacheMetadata => exact told shows fun _ => .cacheMetadata
  case copyConfiguration =>
    refine keeps_get.bind fun s => keeps_withLabel fun o => ?_
    split
    · exact keeps_pure
    · have htaken : Keeps M (modify fun s => s.takeOver f o : Effect Unit) :=
        fun _ hs => cover.takeOver hs hf hP
      exact htaken.bind fun _ => making.keeps_note.bind fun _ => keeps_pure
  case addResolver => exact told keeps_pure fun _ => .configure
  case setTypeResolver => exact told shows fun _ => .configure
  case addProcessor =>
    exact keeps_get.bind fun s => keeps_withLabel fun p => told shows fun _ => .configure
  case registerScope =>
    exact keeps_get.bind fun s => keeps_withLabel fun k =>
      keeps_answerQuery (cover.asks_registerScope hf hP)
  case registerDependent =>
    refine keeps_theFactory.bind fun F => (making.keeps_lift fun s => .addEdge hf).bind fun _ => ?_
    exact making.keeps_writeNotices.bind fun _ => keeps_pure
  case ignoreType => exact told keeps_pure fun _ => .configure
  case registerResolvable =>
    exact keeps_withSource making fun i => making.keeps_note.bind fun _ =>
      told keeps_pure fun _ => .configure
  case setCandidateRule => exact told keeps_pure fun _ => .configure
  case freeze => exact (cover.keeps_freeze hf hP).bind fun _ => shows
  case clearCache => exact (cover.keeps_clearMetadata hf hP).bind fun _ => keeps_pure
  case destroySingleton =>
    exact (covers.cascade h ha hf).bind fun _ => keeps_pure
  case destroySingletons => exact (covers.teardown h ha hf).bind fun _ => keeps_pure
  case destroyBean =>
    exact keeps_withSource making fun i => keeps_answerAct (keeps_destroyBean covers h)
  case destroyScoped => exact keeps_answerAct (keeps_destroyScoped covers h hf)

/-- **A manner that covers all that is done to the factories in `U` covers their calls.** -/
theorem yields_callFactory (cover : M.CoversCalls U) (h : env.Keep M U again) (ha : again.KeepCalls M U)
    (hf : f ∈ U) (hs : M.Start s) (hcall : call.LinksWithin U s) :
    Yields True (callFactory env again f call) s fun _ t => M.Leads s t :=
  yields_callFactory_of cover.toCoversCallsOf h ha.toKeep hf trivial
    (fun _ => (cover.redefines f hf).keepDefinitions (ha.keepResets hf)) hs hcall

end BeanContainer
