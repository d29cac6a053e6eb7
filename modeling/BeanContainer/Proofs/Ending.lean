import BeanContainer.Proofs.Manners

/-!
What destroying beans does to a session, function by function, and what scopes
have to do with it.

`Session.EndingChange` lists the changes that destructions come down to, and
`Session.BeanChange` all that happens to beans, from their making to their end,
those of scopes included. A manner that covers these covers lookups and
destructions, and the ways back into a session that lead to them, as far as it
covers what the collaborators do (`Collaborators.Keep`). It need not cover by
itself that a singleton leaves the cache, if it covers the whole of what this is a
part of (`Manner.Covers`).
-/

namespace BeanContainer

open Session

/-! ## Changes -/

/-- Whether an occurrence tells of the destruction of an instance, or that all are to follow. -/
def Occurrence.isOfEnd : Occurrence → Bool
  | destroying .. | destroyed .. | tearingDown _ => true
  | _ => false

/-- What destroying beans of the factories in `U` may change at once. -/
inductive Session.EndingChange (U : Set FactoryId) (s : Session) : Session → Prop
  | tell {o : Occurrence} : o.isOfEnd = true → (∀ g, o.factory? = some g → g ∈ U) →
      s.EndingChange U (s.write o)
  | tearDown {f : FactoryId} : f ∈ U → s.EndingChange U
      (s.modifyFactory f fun F => { F with singletons := F.singletons.setInDestruction true })
  | takeDependents {f : FactoryId} {n : String} : f ∈ U → s.EndingChange U (s.takeDependents f n)
  | dropEdges {f : FactoryId} {n : String} : f ∈ U → s.EndingChange U (s.dropEdges f n)
  | release {f : FactoryId} {n : String} : f ∈ U → s.EndingChange U (s.release f n).2
  | tornDown {f : FactoryId} {n : Notice} : f ∈ U →
      s.EndingChange U (((s.releaseAll f).write (.notice n)).write (.tornDown f))

/-- What may happen at once to the beans of the factories in `U`, and to those in scopes. -/
inductive Session.BeanChange (U : Set FactoryId) (s : Session) : Session → Prop
  | making {t : Session} : s.MakingChange U t → s.BeanChange U t
  | ending {t : Session} : s.EndingChange U t → s.BeanChange U t
  | cache {f : FactoryId} {n : String} {made : Instance} : f ∈ U →
      s.BeanChange U ((s.write (.cached f n made)).addSingleton f n made)
  | begin {f : FactoryId} {g : Guard} {singletons : SingletonRegistry} : f ∈ U →
      (s.factory f).singletons.acquire g = .ok singletons →
      s.BeanChange U (s.setFactory f { s.factory f with singletons })
  | finish {f : FactoryId} {g : Guard} : f ∈ U → s.BeanChange U
      (s.modifyFactory f fun F => { F with singletons := F.singletons.release g })
  | keep {k : ScopeId} {n : String} {made : Instance} : s.BeanChange U (s.keepIn k n made).2
  | addCallback {k : ScopeId} {n : String} {callback : ScopeCallback} :
      s.BeanChange U (s.setScope k ((s.scope k).addCallback n callback))
  | take {k : ScopeId} {n : String} : s.BeanChange U (s.takeFrom k n).2
  | empty {k : ScopeId} : s.BeanChange U (s.emptyScope k)

theorem Session.BeanChange.same {U : Set FactoryId} {s t : Session} (h : s.BeanChange U t) :
    t = { s with factories := t.factories, scopes := t.scopes, made := t.made, merges := t.merges,
                 answered := t.answered, record := t.record } := by
  cases h with
  | making h => cases h <;> rfl
  | ending h =>
    cases h with
    | release =>
      unfold Session.release
      dsimp only
      split <;> rfl
    | tornDown =>
      unfold releaseAll
      rw [foldl_write]
      rfl
    | _ => rfl
  | keep =>
    unfold keepIn
    dsimp only
    split <;> rfl
  | take =>
    unfold takeFrom
    dsimp only
    split <;> rfl
  | empty =>
    unfold emptyScope
    rw [foldl_write]
    rfl
  | _ => rfl

/-- What may happen at once to the beans that scopes keep. -/
inductive Session.ScopeChange (s : Session) : Session → Prop
  | keep {k : ScopeId} {n : String} {made : Instance} : s.ScopeChange (s.keepIn k n made).2
  | addCallback {k : ScopeId} {n : String} {callback : ScopeCallback} :
      s.ScopeChange (s.setScope k ((s.scope k).addCallback n callback))
  | take {k : ScopeId} {n : String} : s.ScopeChange (s.takeFrom k n).2
  | empty {k : ScopeId} : s.ScopeChange (s.emptyScope k)

theorem Session.ScopeChange.bean {U : Set FactoryId} {s t : Session} (h : s.ScopeChange t) :
    s.BeanChange U t := by
  cases h with
  | keep => exact .keep
  | addCallback => exact .addCallback
  | take => exact .take
  | empty => exact .empty

/-- A manner covers all that may happen at once to the beans of the factories in `U`. -/
structure Manner.CoversBeans (M : Manner) (U : Set FactoryId) : Prop where
  bean : ∀ {s t}, M.Start s → s.BeanChange U t → M.Leads s t
  parent : ∀ {s f p}, M.Start s → f ∈ U → (s.factory f).parent = some p → p ∈ U
  ownMerges : ∀ {s f name}, M.Start s → f ∈ U → Ends (mergedOwn f name) s fun _ t => M.Leads s t
  merges : ∀ {s f name}, M.Start s → f ∈ U →
    Ends (mergedDefinition f name) s fun _ t => M.Leads s t
  merged : ∀ {s f name}, M.Start s → f ∈ U →
    Ends (mergedOwn f name) s fun r _ => ∀ ref, r = .ok ref → M.Merged f name ref.definition

/-- A manner covers what it takes to destroy beans of the factories in `U`, but for the singletons'
leaving the cache. -/
structure Manner.CoversDestroying (M : Manner) (U : Set FactoryId) : Prop where
  making : M.CoversMaking U
  destroying : ∀ {s o}, M.Start s → o.isDestruction = true → M.Leads s (s.write o)
  takeDependents : ∀ {s f n}, M.Start s → f ∈ U → M.Leads s (s.takeDependents f n)
  dropEdges : ∀ {s f n}, M.Start s → f ∈ U → M.Leads s (s.dropEdges f n)

/-! ## Collaborators and ways back -/

/-- The manner covers the ways back into the session, as far as factories in `U` are concerned. -/
structure Reentry.Keep (M : Manner) (U : Set FactoryId) (again : Reentry) : Prop where
  lookup : ∀ f ∈ U, ∀ name, Keeps M (again.lookup f name).run
  destroy : ∀ f ∈ U, ∀ name, Keeps M (again.destroy f name)

/-- The manner covers what the collaborators of the factories in `U` do, with these ways back. -/
structure Collaborators.Keep (M : Manner) (U : Set FactoryId) (env : Collaborators)
    (again : Reentry) : Prop where
  construct : ∀ c, ∀ f ∈ U, ∀ name m, Keeps M (runScript again (env.construct c f name m))
  before : ∀ p i name, Keeps M (runScript again (env.before p i name))
  after : ∀ p i name, Keeps M (runScript again (env.after p i name))
  hooks : ∀ p i name, Keeps M (runScript again (env.beforeDestruction p i name))
  destroy : ∀ i spec, Keeps M (runScript again (env.destroy i spec))
  ready : ∀ i spec, Keeps M (runScript again (env.ready i spec))

/-- The collaborators of the factories in `U` look up beans of the factories in `V` alone, and perform
none but the given operations. -/
structure Collaborators.Within (U V : Set FactoryId) (P : Operation → Prop) (env : Collaborators) :
    Prop where
  construct : ∀ c, ∀ f ∈ U, ∀ name m, (env.construct c f name m).Within V P
  before : ∀ p i name, (env.before p i name).Within V P
  after : ∀ p i name, (env.after p i name).Within V P
  hooks : ∀ p i name, (env.beforeDestruction p i name).Within V P
  destroy : ∀ i spec, (env.destroy i spec).Within V P
  ready : ∀ i spec, (env.ready i spec).Within V P

/-- A manner covers what happens to the beans of the factories in `U`, from their making to their end.
That singletons leave the cache is part of cascades and teardowns, which are covered as wholes. -/
structure Manner.Covers (M : Manner) (U : Set FactoryId) : Prop extends M.CoversDestroying U where
  scope : ∀ {s t}, M.Start s → s.ScopeChange t → M.Leads s t
  cascade : ∀ {env again f name}, env.Keep M U again → again.Keep M U → f ∈ U →
    Keeps M (destroyCascade env again f name)
  teardown : ∀ {env again f}, env.Keep M U again → again.Keep M U → f ∈ U →
    Keeps M (destroyAll env again f)

variable {M : Manner} {U : Set FactoryId} {α β : Type} {s : Session} {f : FactoryId} {name : String}
  {env : Collaborators} {again : Reentry} {i : Instance} {m : MergedDefinition}

theorem Collaborators.Within.keep (cover : M.Covers U) {V : Set FactoryId} {P : Operation → Prop}
    (h : env.Within U V P) (hlookup : ∀ f ∈ V, ∀ name, Keeps M (again.lookup f name).run)
    (hperform : ∀ operation, P operation → Keeps M (again.perform operation)) :
    env.Keep M U again where
  construct c f hf name m := keeps_runScript cover.making (h.construct c f hf name m) hlookup hperform
  before p i name := keeps_runScript cover.making (h.before p i name) hlookup hperform
  after p i name := keeps_runScript cover.making (h.after p i name) hlookup hperform
  hooks p i name := keeps_runScript cover.making (h.hooks p i name) hlookup hperform
  destroy i spec := keeps_runScript cover.making (h.destroy i spec) hlookup hperform
  ready i spec := keeps_runScript cover.making (h.ready i spec) hlookup hperform

theorem Collaborators.Quiet.within {V : Set FactoryId} {P : Operation → Prop} (quiet : env.Quiet) :
    env.Within U V P where
  construct c f _ name m := (quiet.construct c f name m).within
  before p i name := (quiet.before p i name).within
  after p i name := (quiet.after p i name).within
  hooks p i name := (quiet.hooks p i name).within
  destroy i spec := (quiet.destroy i spec).within
  ready i spec := (quiet.ready i spec).within

theorem Collaborators.Quiet.keep (cover : M.Covers U) (quiet : env.Quiet) : env.Keep M U again :=
  (quiet.within : env.Within U ∅ fun _ => False).keep cover (fun _ hf => hf.elim) fun _ h => h.elim

/-! ## Destructions -/

section

variable (cover : M.CoversDestroying U) (h : env.Keep M U again)
include cover h

theorem keeps_runHooks {processors : List ProcessorId} :
    Keeps M (runHooks env again name i processors) := by
  unfold runHooks
  refine keeps_foldlM fun first p _ => keeps_get.bind fun s => ?_
  dsimp only
  split
  · exact keeps_pure
  · split
    · refine (h.hooks _ _ _).bind fun r => ?_
      split
      · exact keeps_pure
      · exact cover.making.keeps_note.bind fun _ => keeps_pure
    · exact keeps_pure

theorem yields_destroyInstance {processors : List ProcessorId} (hs : M.Start s) :
    Yields True (destroyInstance env again name i processors) s fun failure t =>
      ∃ u, M.Leads s u ∧ t = u.write (.destroyed name i failure) := by
  have begun : M.Leads s (s.write (.destroying name i)) := cover.destroying hs rfl
  unfold destroyInstance
  rw [yields_bind, yields_lift, write_apply]
  dsimp only
  rw [yields_bind]
  refine (keeps_runHooks cover h _ (M.start hs begun)).mono fun hooks t ht => ?_
  have hst : M.Leads s t := M.trans hs begun ht
  split
  · rw [yields_bind, yields_lift, note_apply]
    dsimp only
    have noted : M.Leads s (t.write (.notice (.callingDestroy name))) :=
      M.trans hs hst (cover.making.making (M.start hs hst) (.tell rfl nofun))
    rw [yields_bind, yields_get, yields_bind]
    refine (h.destroy _ _ _ (M.start hs noted)).mono fun r u hu => ?_
    split <;> exact ⟨u, M.trans hs noted hu, rfl⟩
  · exact ⟨t, hst, rfl⟩

theorem keeps_destroyInstance {processors : List ProcessorId} :
    Keeps M (destroyInstance env again name i processors) := by
  intro s hs
  refine (yields_destroyInstance cover h hs).mono ?_
  rintro _ _ ⟨u, hu, rfl⟩
  exact M.trans hs hu (cover.destroying (M.start hs hu) rfl)

/-- All of a cascade but that its own bean leaves the cache. If that had a singleton, the end of its
destruction is told. -/
theorem yields_destroyCascade_released (ha : again.Keep M U) (hf : f ∈ U)
    (hs : M.Start (s.release f name).2) :
    Yields True (destroyCascade env again f name) s fun _ t => M.Leads (s.release f name).2 t ∧
      ∀ i, s.singleton? f name = some i → ∃ u failure, M.Leads (s.release f name).2 u ∧
        M.Leads (u.write (.destroyed name i failure)) t := by
  unfold destroyCascade
  rw [yields_bind, yields_modifyGet]
  generalize (s.release f name).2 = r at hs
  have taken : M.Leads r (r.takeDependents f name) := cover.takeDependents hs hf
  have rest (failures : List BeanError) : Keeps M (do
      updateFactory f fun f => { f with dependencies := f.dependencies.removeBean name }
      return failures : Effect (List BeanError)) :=
    Keeps.bind (fun s hs => cover.dropEdges hs hf) fun _ => keeps_pure
  rw [yields_bind, yields_modifyGet]
  refine cover.making.yields_noteUnless (M.start hs taken) fun t ht => ?_
  rw [yields_bind]
  have hrt : M.Leads r t := M.trans hs taken ht
  refine Yields.mono (keeps_foldlM (fun _ d _ => (ha.destroy f hf d).bind fun _ => keeps_pure) t
    (M.start hs hrt)) fun before u htu => ?_
  have hru : M.Leads r u := M.trans hs hrt htu
  have own : (s.release f name).1 = s.singleton? f name := rfl
  rw [own]
  cases s.singleton? f name with
  | none => exact (rest _ u (M.start hs hru)).mono fun _ v huv => ⟨M.trans hs hru huv, nofun⟩
  | some i =>
    rw [yields_bind, yields_lift, yields_bind]
    refine (yields_destroyInstance cover h (M.start hs hru)).mono ?_
    rintro failure _ ⟨v, huv, rfl⟩
    have hrv : M.Leads r v := M.trans hs hru huv
    have hrw : M.Leads r (v.write (.destroyed name i failure)) :=
      M.trans hs hrv (cover.destroying (M.start hs hrv) rfl)
    suffices hrest : Yields True _ _ fun _ t => M.Leads (v.write (.destroyed name i failure)) t from
      hrest.mono fun _ t ht => ⟨M.trans hs hrw ht, fun _ e => by cases e; exact ⟨v, failure, hrv, ht⟩⟩
    split
    · exact (keeps_pure.bind fun _ => rest _) _ (M.start hs hrw)
    · exact (cover.making.keeps_note.bind fun _ => keeps_pure.bind fun _ => rest _) _ (M.start hs hrw)

end

theorem keeps_destroyCascade (cover : M.CoversDestroying U) (h : env.Keep M U again) (ha : again.Keep M U)
    (hf : f ∈ U) (released : ∀ {s}, M.Start s → M.Leads s (s.release f name).2) :
    Keeps M (destroyCascade env again f name) := by
  intro s hs
  exact (yields_destroyCascade_released cover h ha hf (M.start hs (released hs))).mono
    fun _ _ ht => M.trans hs (released hs) ht.1

theorem keeps_destroyAll (making : M.CoversMaking U) {V : Set FactoryId} (hf : f ∈ V)
    (ending : ∀ {s t}, M.Start s → s.EndingChange V t → M.Leads s t)
    (cascade : ∀ name, Keeps M (destroyCascade env again f name)) : Keeps M (destroyAll env again f) := by
  unfold destroyAll
  refine Keeps.bind (fun s hs => ending hs (.tell (o := .tearingDown f) rfl ?_)) fun _ => ?_
  · rintro _ ⟨⟩
    exact hf
  refine Keeps.bind (fun s hs => ending hs (.tearDown hf)) fun _ => making.keeps_note.bind fun _ => ?_
  refine keeps_theFactory.bind fun F => Keeps.bind ?_ fun failures s hs => ending hs (.tornDown hf)
  exact keeps_foldlM fun _ name _ => (cascade name).bind fun _ => keeps_pure

theorem Manner.CoversMaking.covers (making : M.CoversMaking U)
    (ending : ∀ {s t}, M.Start s → s.EndingChange U t → M.Leads s t)
    (scope : ∀ {s t}, M.Start s → s.ScopeChange t → M.Leads s t) : M.Covers U := by
  have destroying : M.CoversDestroying U :=
    { making
      destroying := fun {_ o} hs ho => by
        cases o <;> first | cases ho; done | exact ending hs (.tell rfl nofun)
      takeDependents := fun hs hf => ending hs (.takeDependents hf)
      dropEdges := fun hs hf => ending hs (.dropEdges hf) }
  have cascade {env : Collaborators} {again : Reentry} {f : FactoryId} {name : String}
      (h : env.Keep M U again) (ha : again.Keep M U) (hf : f ∈ U) :
      Keeps M (destroyCascade env again f name) :=
    keeps_destroyCascade destroying h ha hf fun hs => ending hs (.release hf)
  exact { destroying with
    scope, cascade
    teardown := fun h ha hf => keeps_destroyAll making hf ending fun _ => cascade h ha hf }

/-- A manner that covers setting a flag and taking it back covers what is done in between. -/
theorem Manner.CoversBeans.covers (cover : M.CoversBeans U) : M.Covers U :=
  have making : M.CoversMaking U :=
    { making := fun hs h => cover.bean hs (.making h)
      cache := fun hs hf _ _ => cover.bean hs (.cache hf)
      hold := fun hs hf hg => M.start hs (cover.bean hs (.begin hf hg))
      unhold := fun hs hf hg ht => by
        have hst := M.trans hs (cover.bean hs (.begin hf hg)) ht
        exact M.trans hs hst (cover.bean (M.start hs hst) (.finish hf))
      parent := cover.parent
      ownMerges := cover.ownMerges
      merges := cover.merges
      merged := cover.merged }
  making.covers (fun hs h => cover.bean hs (.ending h)) fun hs h => cover.bean hs h.bean

theorem keeps_destroyBean (cover : M.Covers U) (h : env.Keep M U again) :
    Keeps M (destroyBean env again f name i).run := by
  unfold destroyBean
  refine keeps_run_theFactory.run_bind fun F =>
    (keeps_run_effect (keeps_destroyInstance cover.toCoversDestroying h)).run_bind fun failure => ?_
  split
  · exact keeps_run_pure
  · exact keeps_run_throw

theorem keeps_runCallback (cover : M.Covers U) (h : env.Keep M U again) {callback : ScopeCallback} :
    Keeps M (runCallback env again callback) := by
  cases callback with
  | destroyBean => exact keeps_destroyInstance cover.toCoversDestroying h
  | report name => exact (cover.making.keeps_write (.event (.callback name)) rfl nofun).bind fun _ => keeps_pure

theorem keeps_clearScope (cover : M.Covers U) (h : env.Keep M U again) {k : ScopeId} :
    Keeps M (clearScope env again k) := by
  unfold clearScope
  refine keeps_get.bind fun s => Keeps.bind (fun s hs => cover.scope hs .empty) fun _ => ?_
  dsimp only
  refine (keeps_mapM fun e _ => (keeps_runCallback cover h).bind fun failure => ?_).bind fun results => ?_
  · split
    · exact cover.making.keeps_note.bind fun _ => keeps_pure
    · exact keeps_pure
  · split
    · exact cover.making.keeps_note.bind fun _ => keeps_pure
    · exact keeps_pure

/-! ## Beans of scopes -/

theorem keeps_getOrMake (cover : M.Covers U) {k : ScopeId} {maker : Act Instance}
    (h : Keeps M maker.run) : Keeps M (Scope.getOrMake k name maker).run := by
  unfold Scope.getOrMake
  refine keeps_run_get.run_bind fun s => ?_
  split
  · exact keeps_run_pure
  · exact h.run_bind fun made => Keeps.run_bind (fun s hs => cover.scope hs .keep) fun counts => keeps_run_pure

theorem keeps_createScoped (cover : M.Covers U) (h : env.Keep M U again) (hf : f ∈ U)
    (hm : m.isSingleton = false) : Keeps M (createScoped env again f name m).run := by
  have hcreate : env.KeepCreation M U again := ⟨h.construct, h.before, h.after⟩
  unfold createScoped
  refine keeps_run_theFactory.run_bind fun F => ?_
  rw [whileCreatingPrototype_eq]
  split
  · have hmade : Keeps M (createBean env again f name m).run :=
      keeps_createBean cover.making hcreate hf hm
    refine (keeps_getOrMake cover (keeps_whileHolding cover.making hf hmade)).run_bind fun (counts, made) => ?_
    dsimp only
    split
    · refine Keeps.run_bind (fun s _ => M.refl s) fun required => ?_
      split
      · refine keeps_run_theFactory.run_bind fun F' => ?_
        split
        · exact Keeps.run_bind (fun s hs => cover.scope hs .addCallback) fun _ => keeps_run_pure
        · refine cover.making.keeps_run_note.run_bind fun _ =>
            (keeps_run_effect (keeps_destroyInstance cover.toCoversDestroying h)).run_bind fun failure => ?_
          split
          · exact cover.making.keeps_run_note.run_bind fun _ => keeps_run_pure
          · exact keeps_run_pure
      · exact keeps_run_pure
    · exact keeps_run_pure
  · exact keeps_run_throw

theorem Collaborators.Keep.making (cover : M.Covers U) (h : env.Keep M U again) :
    env.KeepMaking M U again where
  construct := h.construct
  before := h.before
  after := h.after
  ready := h.ready
  inScope _ hf _ _ _ hm := keeps_createScoped cover h hf hm

theorem keeps_destroyScoped (cover : M.Covers U) (h : env.Keep M U again) (hf : f ∈ U) :
    Keeps M (destroyScoped env again f name).run := by
  unfold destroyScoped
  refine keeps_run_theFactory.run_bind fun F =>
    (cover.making.keeps_run_mergedOwn hf).run_bind fun merged => ?_
  refine Keeps.run_unless (keeps_run_theFactory.run_bind fun F' => ?_)
  split
  · refine Keeps.run_bind (fun s hs => cover.scope hs .take) fun victim => ?_
    split
    · exact keeps_destroyBean cover h
    · exact keeps_run_pure
  · exact keeps_run_throw

/-! ## All ways back -/

/-- A manner covers the ways back if it covers the collaborators whenever it covers these. -/
theorem keep_reentry (cover : M.Covers U) (h : ∀ again, again.Keep M U → env.Keep M U again) :
    ∀ depth, (reentry env depth).Keep M U
  | 0 => ⟨fun _ _ _ _ _ => trivial, fun _ _ _ _ _ => trivial⟩
  | depth + 1 => by
    have ih := keep_reentry cover h depth
    exact ⟨fun f hf _ => keeps_lookup cover.making ((h _ ih).making cover) ih.lookup hf,
      fun f hf _ => cover.cascade (h _ ih) ih hf⟩

end BeanContainer
