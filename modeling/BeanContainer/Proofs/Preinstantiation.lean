import BeanContainer.Proofs.Building

/-!
Making all singletons of a factory ahead of need, with collaborators that keep
to themselves. Each function of the creation keeps `Building`; what a lookup
ends with is `Served`, and by then everything the bean needs is, so the
recursion alone shows that beans are settled.
-/

namespace BeanContainer

open Relation Session

variable {α : Type} {env : Collaborators} {again : Reentry} {start s t : Session} {f : FactoryId}
  {opened : Set String} {n name : String} {m : MergedDefinition}

/-! ## One bean -/

theorem gives_runFor_quiet {script : Script α} (h : script.Quiet) :
    Gives (runFor again name script) s fun _ t => s.Remarks t := by
  unfold runFor
  rw [gives_bind, gives_liftEffect]
  refine (yields_runScript_quiet h s).of_total.mono fun r t ht => ?_
  cases r with
  | ok a => exact gives_pure.2 ht
  | error failure => exact gives_throw

theorem gives_createBean_quiet (quiet : env.Quiet) :
    Gives (createBean env again f n m) s fun made t =>
      ∃ u v, s.Remarks u ∧ (u.write (.constructing f n)).Remarks v ∧
        t = v.write (.constructed f n made) := by
  unfold createBean
  simp only [gives_bind, gives_liftState, theFactory_apply]
  split
  · simp only [gives_bind, gives_liftState, note_apply, write_apply, theFactory_apply]
    refine (gives_runFor_quiet (quiet.construct _ _ _ _)).mono fun raw v hv => ?_
    set u := s.write (.notice (.creating n m.scope))
    have hu : s.Remarks u := .write rfl
    refine (gives_foldlM (fun i p _ v hv => ?_) hv).mono fun readied v hv => ?_
    · simp only [gives_bind, gives_get]
      exact (gives_runFor_quiet (quiet.before _ _ _)).mono fun _ _ h => hv.trans h
    refine (gives_foldlM (fun i p _ v hv => ?_) hv).mono fun finished v hv => ?_
    · simp only [gives_bind, gives_get]
      exact (gives_runFor_quiet (quiet.after _ _ _)).mono fun _ _ h => hv.trans h
    exact gives_pure.2 ⟨u, v, hu, hv, rfl⟩
  · exact gives_throw

/-- What a flag is held for happens between two changes of flags. -/
theorem gives_whileHolding {g : Guard} {body : Act α} {Q : α → Session → Prop}
    (hlen : f < s.factories.length)
    (h : ∀ t, Still f s t → Gives body t fun x u => f < u.factories.length ∧
      ∀ v, Still f u v → Q x v) :
    Gives (whileHolding f g body) s Q := by
  unfold Gives
  rw [yields_whileHolding]
  cases ha : (s.factory f).singletons.acquire g with
  | error e => exact fun _ he => by cases he
  | ok singletons =>
    have hset := Still.flags hlen (SingletonRegistry.objects_of_acquire ha)
    refine Yields.mono (h _ hset) fun r u hr x hx => ?_
    obtain ⟨hlen, hQ⟩ := hr x hx
    refine hQ _ ?_
    rw [modifyFactory_eq_setFactory]
    exact .flags hlen SingletonRegistry.objects_release

namespace Building

theorem gives_createBean (quiet : env.Quiet) (h : Building start f opened s)
    (hl : start.Linked Set.univ)
    (hready : ∀ c, start.NeedsSingleton f n c → ∃ i, s.singleton? f c = some i) :
    Gives (createBean env again f n m) s fun made t =>
      Building start f opened t ∧ t.factories = s.factories ∧
        ∃ new, t.record = new ++ start.record ∧ .constructing f n ∈ new ∧ .constructed f n made ∈ new := by
  refine (gives_createBean_quiet quiet).mono ?_
  rintro made _ ⟨u, v, hu, hv, rfl⟩
  have hbu := (h.still hl (.of_remarks hu)).constructing hl (n := n) fun c hc => by
    obtain ⟨i, hi⟩ := hready c hc
    exact ⟨i, by rwa [(Still.of_remarks hu).singleton?]⟩
  have hbv := (hbu.still hl (.of_remarks hv)).still hl (.write (o := .constructed f n made) nofun)
  refine ⟨hbv, hv.factories.trans hu.factories, ?_⟩
  obtain ⟨new, hstory⟩ := h.story
  obtain ⟨before, hbefore, -⟩ := hu.recorded
  obtain ⟨while_, hwhile, -⟩ := hv.recorded
  refine ⟨.constructed f n made :: while_ ++ .constructing f n :: before ++ new, ?_, by simp, by simp⟩
  simp [hwhile, hbefore, hstory.record]

/-- A singleton is made and cached, with all it needs there before it. -/
theorem gives_createSingleton (quiet : env.Quiet) (h : Building start f opened s)
    (hf : f < start.factories.length) (hl : start.Linked Set.univ) (hdef : start.Defines f n)
    (hset : start.Settled f n)
    (hready : ∀ c, start.NeedsSingleton f n c → s.edge f c n ∧ ∃ i, s.singleton? f c = some i) :
    Gives (createSingleton env again f n m) s fun _ t =>
      Building start f opened t ∧ Grown f s t ∧ ∃ i, t.singleton? f n = some i := by
  unfold createSingleton
  simp only [gives_bind, gives_liftState, theFactory_apply]
  cases hi : (s.factory f).singletons.get? n with
  | some i => exact gives_pure.2 ⟨h, .refl s, i, hi⟩
  | none =>
    simp only
    by_cases hd : (s.factory f).singletons.inDestruction = true
    · simp only [hd, if_true, gives_bind, gives_throw]
    simp only [hd, Bool.false_eq_true, if_false]
    rw [whileCreatingSingleton_eq]
    refine gives_whileHolding (h.length hf) fun t ht => ?_
    rw [gives_bind]
    have hready' c (hc : start.NeedsSingleton f n c) : t.edge f c n ∧ ∃ i, t.singleton? f c = some i := by
      rw [ht.edge, ht.singleton?]
      exact hready c hc
    refine ((h.still hl ht).gives_createBean quiet hl fun c hc => (hready' c hc).2).mono ?_
    rintro made u ⟨hu, hsame, new, hrecord, hmem⟩
    simp only [gives_bind, gives_liftState, note_apply, write_apply, gives_modifyGet]
    set v := (u.write (.notice (.singletonCached n))).write (.cached f n made) with hv
    have huv : Still f u v :=
      .trans (t := u.write (.notice (.singletonCached n))) (hu.linked hl) (.of_remarks (.write rfl))
        (.write fun _ e => by cases e)
    have hgrown : Grown f s v := ht.grown.trans ((Grown.of_factories hsame).trans huv.grown)
    have hnone : v.singleton? f n = none := by
      rw [huv.singleton?]
      unfold Session.singleton? Session.factory
      rw [hsame]
      exact (ht.singleton? n).trans hi
    have hb := (hu.still hl huv).addSingleton hf hl hnone hdef hset
      ⟨.cached f n made :: .notice (.singletonCached n) :: new, by simp [hv, hrecord],
        .tail _ (.tail _ hmem.1), .tail _ (.tail _ hmem.2)⟩
      fun c hc => ⟨hgrown.edges (hready c hc).1, (hready c hc).2.imp fun _ => hgrown.singletons⟩
    have hlen := (hu.still hl huv).length hf
    have hmade : (v.addSingleton f n made).singleton? f n = some made := by
      rw [singleton?_addSingleton hlen hnone, if_pos rfl]
    exact ⟨hb.length hf, fun w hw => ⟨hb.still hl hw,
      hgrown.trans ((Grown.addSingleton hlen hnone).trans hw.grown), made,
      (hw.singleton? n).trans hmade⟩⟩

theorem gives_createPrototype (quiet : env.Quiet) (h : Building start f opened s)
    (hf : f < start.factories.length) (hl : start.Linked Set.univ)
    (hready : ∀ c, start.NeedsSingleton f n c → ∃ i, s.singleton? f c = some i) :
    Gives (whileCreatingPrototype f n (createBean env again f n m)) s fun _ t =>
      Building start f opened t ∧ Grown f s t := by
  rw [whileCreatingPrototype_eq]
  refine gives_whileHolding (h.length hf) fun t ht => ?_
  have hready' c (hc : start.NeedsSingleton f n c) : ∃ i, t.singleton? f c = some i := by
    rw [ht.singleton?]
    exact hready c hc
  refine ((h.still hl ht).gives_createBean quiet hl hready').mono ?_
  rintro made u ⟨hu, hsame, -⟩
  exact ⟨hu.length hf, fun v hv => ⟨hu.still hl hv,
    ht.grown.trans ((Grown.of_factories hsame).trans hv.grown)⟩⟩

theorem gives_createScoped (quiet : env.Quiet) (h : Building start f opened s)
    (hf : f < start.factories.length) (hl : start.Linked Set.univ)
    (hready : ∀ c, start.NeedsSingleton f n c → ∃ i, s.singleton? f c = some i) :
    Gives (createScoped env again f n m) s fun _ t => Building start f opened t ∧ Grown f s t := by
  have still {t u} (ht : Building start f opened t ∧ Grown f s t) (htu : Still f t u) :
      Building start f opened u ∧ Grown f s u := ⟨ht.1.still hl htu, ht.2.trans htu.grown⟩
  have hmake (k : ScopeId) : Gives (Scope.getOrMake k n
      (whileCreatingPrototype f n (createBean env again f n m))) s fun _ t =>
        Building start f opened t ∧ Grown f s t := by
    unfold Scope.getOrMake
    rw [gives_bind, gives_get]
    split
    · exact gives_pure.2 ⟨h, .refl s⟩
    · rw [gives_bind]
      refine (h.gives_createPrototype quiet hf hl hready).mono fun made t ht => ?_
      rw [gives_bind, gives_modifyGet]
      exact gives_pure.2 (still ht .keepIn)
  unfold createScoped
  rw [gives_bind, gives_liftState]
  split
  · rw [gives_bind]
    refine (hmake _).mono ?_
    rintro ⟨counts, made⟩ t ht
    dsimp only
    split
    · rename_i made
      rw [gives_bind, gives_liftState]
      split
      · rw [gives_bind, gives_liftState]
        split
        · rw [gives_bind, gives_modify]
          exact gives_pure.2 (still ht (.of_factories rfl rfl))
        · rw [gives_bind, gives_liftState, gives_bind, gives_liftEffect]
          refine (yields_destroyInstance_quiet quiet.toQuietEnds).of_total.mono ?_
          rintro failure _ ⟨u, hu, rfl⟩
          have hbegun := still (still ht (.write (o := .notice (.surplusInScope m.scope n)) nofun))
            (.write (o := .destroying n made) nofun)
          have hended := still (still hbegun (.of_remarks hu)) (.write (o := .destroyed n made failure) nofun)
          cases failure with
          | none => exact gives_pure.2 hended
          | some failure =>
            rw [gives_bind, gives_liftState]
            exact gives_pure.2 (still hended (.write nofun))
      · exact gives_pure.2 ht
    · exact gives_pure.2 ht
  · exact gives_throw

end Building

/-! ## Lookups -/

/-- A way to look up beans of the factory keeps `Building`, and leaves the bean served. -/
def Serves (start : Session) (f : FactoryId) (look : String → Act Instance) : Prop :=
  ∀ ⦃s opened d⦄, Building start f opened s → Gives (look d) s fun _ t =>
    Building start f opened t ∧ Grown f s t ∧ Served start f t ((start.factory f).canonical d)

namespace Building

/-- When all dependencies of a bean have been looked up, it is settled. -/
theorem gives_initializeDependencies (h : Building start f opened s)
    (hf : f < start.factories.length) (hl : start.Linked Set.univ)
    (look : Serves start f (again.lookup f)) (hdef : start.Defines f n) (hown : start.Own f n m) :
    Gives (initializeDependencies again f n m) s fun _ t =>
      Building start f opened t ∧ Grown f s t ∧ start.Settled f n ∧
        ∀ c, start.DependsOn f n c → t.edge f c n ∧ Served start f t c := by
  have hall : Gives (initializeDependencies again f n m) s fun _ t =>
      Building start f (insert n opened) t ∧ Grown f s t ∧ ∀ d ∈ m.dependsOn,
        t.edge f ((start.factory f).canonical d) n ∧
          Served start f t ((start.factory f).canonical d) := by
    unfold initializeDependencies
    refine gives_forM (I := fun pre t => Building start f (insert n opened) t ∧ Grown f s t ∧
      ∀ d ∈ pre, t.edge f ((start.factory f).canonical d) n ∧
        Served start f t ((start.factory f).canonical d)) (fun pre d post hsplit t ht => ?_)
      ⟨h.open_ n, .refl s, by simp⟩
    obtain ⟨hb, hg, hdone⟩ := ht
    rw [gives_bind, gives_liftState]
    split
    · rw [gives_bind]
      exact gives_throw
    rw [gives_bind, gives_modify, gives_bind, gives_liftState, updateFactory_apply, gives_bind,
      gives_attempt]
    have hnoted : Still f t (t.writeNotices ((t.factory f).dependentNotices d n)) :=
      .of_remarks .writeNotices
    have hdep : start.DependsOn f n ((start.factory f).canonical d) :=
      ⟨m, d, hown, by rw [hsplit]; simp, rfl⟩
    have hb := hb.still hl hnoted
    have hadd := Grown.addEdge (n := n) (d := d) (hb.length hf)
    have he := (edge_addEdge (n := n) (d := d) (hb.length hf)).2 (.inr ⟨rfl, rfl⟩)
    rw [hb.reads.canonical] at he
    refine Yields.mono (look (hb.addEdge hf hl hdef hdep)) fun r u hr => ?_
    cases r with
    | error e => exact gives_throw
    | ok i =>
      obtain ⟨hb, hgu, hd⟩ := hr i rfl
      have htu : Grown f t u := hnoted.grown.trans (hadd.trans hgu)
      refine gives_pure.2 ⟨hb, hg.trans htu, fun d' hd' => ?_⟩
      rcases List.mem_append.1 hd' with hd' | hd'
      · exact ⟨htu.edges (hdone d' hd').1, (hdone d' hd').2.grown htu⟩
      · rw [List.mem_singleton.1 hd']
        exact ⟨hgu.edges he, hd⟩
  refine hall.mono fun _ t ⟨hb, hg, hdone⟩ => ?_
  have hserved c (hc : start.DependsOn f n c) : t.edge f c n ∧ Served start f t c := by
    obtain ⟨m', d, hm', hd, rfl⟩ := hc
    exact hdone d (own_unique hm' hown ▸ hd)
  have hset : start.Settled f n := ⟨_, fun c hc => ((hserved c hc.2).2 hc.1).1⟩
  exact ⟨hb.close hset, hg, hset, hserved⟩

theorem gives_makeDefined (quiet : env.Quiet) (h : Building start f opened s)
    (hf : f < start.factories.length) (hl : start.Linked Set.univ)
    (look : Serves start f (again.lookup f)) (hdef : start.Defines f n) :
    Gives (makeDefined env again f n) s fun _ t =>
      Building start f opened t ∧ Grown f s t ∧ Served start f t n := by
  unfold makeDefined
  rw [gives_bind, gives_liftQuery]
  refine (ends_mergedOwn (h.linked hl) (Set.mem_univ f)).mono ?_
  rintro _ t ⟨hmerged, hown⟩ ref rfl
  have hst : Still f s t := .of_merged hmerged
  have hown : start.Own f n ref.definition :=
    (h.reads.own_iff hl trivial).1 ((hown _).2 ⟨ref, rfl, rfl⟩)
  dsimp only
  split
  · rw [gives_bind]
    exact gives_throw
  rw [gives_bind]
  refine ((h.still hl hst).gives_initializeDependencies hf hl look hdef hown).mono ?_
  rintro - u ⟨hu, htu, hset, hserved⟩
  have hsu : Grown f s u := hst.grown.trans htu
  have hready c (hc : start.NeedsSingleton f n c) : u.edge f c n ∧ ∃ i, u.singleton? f c = some i :=
    ⟨(hserved c hc.1).1, ((hserved c hc.1).2 hc.2.1).2 hc.2⟩
  -- Of a bean that is no singleton, nothing more is asked.
  have other {u'} (hsingle : ref.definition.isSingleton = false)
      (hu' : Building start f opened u' ∧ Grown f u u') :
      Building start f opened u' ∧ Grown f s u' ∧ Served start f u' n := by
    refine ⟨hu'.1, hsu.trans hu'.2, fun _ => ⟨hset, fun hs => ?_⟩⟩
    obtain ⟨-, m, hm, hs⟩ := hs
    rw [own_unique hm hown, hsingle] at hs
    cases hs
  cases hsingle : ref.definition.isSingleton with
  | true =>
    simp only [if_true]
    rw [gives_bind]
    refine (hu.gives_createSingleton quiet hf hl hdef hset hready).mono ?_
    rintro i u' ⟨hb, hg, hi⟩
    rw [gives_bind, gives_liftState, gives_pure]
    have hst : Still f u' (u'.write (.handedOut f n i)) := .write nofun
    exact ⟨hb.still hl hst, (hsu.trans hg).trans hst.grown, fun _ => ⟨hset, fun _ => hi⟩⟩
  | false =>
    simp only [Bool.false_eq_true, if_false]
    split
    · exact (hu.gives_createPrototype quiet hf hl fun c hc => (hready c hc).2).mono
        fun _ _ => other hsingle
    · exact (hu.gives_createScoped quiet hf hl fun c hc => (hready c hc).2).mono
        fun _ _ => other hsingle

/-- A lookup that the factory itself does not answer leaves the factory alone. -/
theorem gives_follow_above (quiet : env.Quiet) (h : Building start f opened s)
    (hl : start.Linked Set.univ) (keep : again.Keep (reading {g | g ∈ start.above f}) {g | g ∈ start.above f}) :
    Gives (follow env again (s.route (start.above f) name)) s fun _ t => Still f s t := by
  have hlinked : s.Linked {g | g ∈ start.above f} := by
    have := linked_above (f := f) (h.linked hl)
    rwa [above, h.reads.chain] at this
  have cover := covers_reading {g | g ∈ start.above f}
  have making := cover.making
  refine (yields_follow making ((quiet.keep cover).making cover) keep.lookup hlinked fun _ hg => hg).mono ?_
  exact fun _ t ht _ _ => .of_outside ht (not_mem_above hl trivial)

/-- A lookup serves the bean, if the lookups of its dependencies do. -/
theorem gives_lookup (quiet : env.Quiet) (hf : f < start.factories.length)
    (hl : start.Linked Set.univ) (look : Serves start f (again.lookup f))
    (keep : again.Keep (reading {g | g ∈ start.above f}) {g | g ∈ start.above f}) :
    Serves start f (lookup env again f) := by
  intro s opened d h
  have hdef : s.Defines f = start.Defines f := by
    funext c
    rw [Defines, h.reads.definitions]
  unfold lookup
  rw [gives_bind, gives_get, h.reads.chain, ← h.reads.canonical]
  rcases chain_eq hl (Set.mem_univ f) with hc | hc
  · rw [hc]
    exact gives_throw
  rw [hc]
  rcases route_cons (s := s) (f := f) (start.above f) d with
    ⟨i, hi, hr⟩ | ⟨-, hr⟩ | ⟨hc, hr⟩ | ⟨hc, hr⟩
  · rw [hr]
    refine gives_bind.2 (gives_liftState.2 (gives_pure.2 ?_))
    have hst : Still f s (s.write (.handedOut f ((s.factory f).canonical d) i)) := .write nofun
    exact ⟨h.still hl hst, hst.grown, fun _ => ⟨(h.settled hi).2, fun _ => ⟨i, hi⟩⟩⟩
  · rw [hr]
    exact gives_throw
  · rw [hr]
    refine gives_bind.2 (gives_liftState.2 ?_)
    have hst : Still f s (s.write (.missed f ((s.factory f).canonical d))) := .write nofun
    refine ((h.still hl hst).gives_makeDefined quiet hf hl look (hdef ▸ hc)).mono ?_
    exact fun _ t ht => ⟨ht.1, hst.grown.trans ht.2.1, ht.2.2⟩
  · refine Gives.mono (P := fun _ t => Still f s t) ?_ fun _ t ht => ?_
    · rcases hr with hr | hr
      · rw [hr]
        exact gives_throw
      · rw [hr]
        exact h.gives_follow_above quiet hl keep
    · exact ⟨h.still hl ht, ht.grown, fun hc' => absurd (hdef ▸ hc') hc⟩

end Building

/-- **Every way to look up beans of a factory serves them**, however deep it may go. -/
theorem serves_reentry (quiet : env.Quiet) (hf : f < start.factories.length)
    (hl : start.Linked Set.univ) : ∀ depth, Serves start f ((reentry env depth).lookup f)
  | 0 => fun _ _ _ _ => trivial
  | depth + 1 => Building.gives_lookup quiet hf hl (serves_reentry quiet hf hl depth)
      (keep_reentry (covers_reading _) (fun _ _ => quiet.keep (covers_reading _)) depth)

/-! ## All singletons -/

namespace Building

theorem gives_preInstantiateOne (quiet : env.Quiet) (h : Building start f opened s)
    (hf : f < start.factories.length) (hl : start.Linked Set.univ) {depth : Nat} :
    Gives (preInstantiateOne env (reentry env depth) f n) s fun _ t => Building start f opened t := by
  unfold preInstantiateOne
  rw [gives_bind, gives_liftQuery]
  refine (ends_mergedOwn (h.linked hl) (Set.mem_univ f)).mono ?_
  rintro _ t ⟨hmerged, -⟩ ref rfl
  have ht : Building start f opened t := h.still hl (.of_merged hmerged)
  dsimp only
  split
  · exact gives_pure.2 ht
  · rw [gives_bind, gives_attempt]
    have look := gives_lookup quiet hf hl (serves_reentry quiet hf hl depth)
      (keep_reentry (covers_reading _) (fun _ _ => quiet.keep (covers_reading _)) depth)
    refine Yields.mono (look (d := n) ht) fun r u hr => ?_
    cases r with
    | ok i => exact gives_pure.2 (hr i rfl).1
    | error e =>
      rw [gives_bind, gives_liftState]
      exact gives_throw

theorem gives_announceTo (quiet : env.Quiet) (h : Building start f opened s)
    (hl : start.Linked Set.univ) :
    Gives (announceTo env again f n) s fun _ t => Building start f opened t := by
  unfold announceTo
  rw [gives_bind, gives_liftState]
  split
  · rename_i i _
    split
    · rw [gives_bind, gives_liftState, gives_bind, gives_liftState, gives_bind, gives_get]
      refine (gives_runFor_quiet (quiet.ready _ _)).mono fun _ t ht => ?_
      have hnoted := h.still hl (.write (o := .notice (.announcing n)) nofun)
      have htold := hnoted.still hl (.write (o := .announced f n i) nofun)
      exact htold.still hl (.of_remarks ht)
    · exact gives_pure.2 h
  · exact gives_pure.2 h

/-- **Making all singletons ahead of need keeps `Building`.** -/
theorem gives_preInstantiate (quiet : env.Quiet) (h : Building start f opened s)
    (hf : f < start.factories.length) (hl : start.Linked Set.univ) {depth : Nat} :
    Gives (preInstantiate env (reentry env depth) f) s fun _ t => Building start f opened t := by
  unfold preInstantiate
  rw [gives_bind, gives_liftState, gives_bind, gives_liftState, gives_bind]
  have hnoted : Building start f opened _ :=
    h.still hl (.write (o := .notice .preInstantiationStarted) nofun)
  refine (gives_forM (I := fun _ t => Building start f opened t)
    (fun _ _ _ _ _ ht => ht.gives_preInstantiateOne quiet hf hl) hnoted).mono fun _ t ht => ?_
  rw [gives_bind, gives_liftState, gives_bind]
  refine (gives_forM (I := fun _ t => Building start f opened t)
    (fun _ _ _ _ _ ht => ht.gives_announceTo quiet hl) ht).mono fun _ u hu => ?_
  rw [gives_liftState]
  exact hu.still hl (.write (o := .notice .preInstantiationFinished) nofun)

end Building

theorem Gives.of_answerAct {act : Act α} {Q : α → Session → Prop} (h : Gives act s Q)
    (run : answerAct act (fun _ => .done) s = some (.done, t)) : ∃ x, Q x t := by
  have : Yields True (answerAct act fun _ => .done) s fun answer t => answer = .done → ∃ x, Q x t := by
    unfold answerAct
    rw [yields_bind]
    refine Yields.mono h fun r u hr => ?_
    cases r with
    | ok x => exact fun _ => ⟨x, hr x rfl⟩
    | error e => exact fun hanswer => by cases hanswer
  exact yields_true_iff.1 this _ _ run rfl

/-- **What a singleton depends on comes first when it is made and last when it is destroyed.** In a
fresh factory whose singletons have all been made ahead of need: for a singleton `n`, and a name
that its merged definition depends on and that stands for a singleton `c` of the factory, `c` was
finished before the constructor was called for `n`, the edge between them is recorded, `c` precedes
`n` in the cache, and whatever fails when all singletons are destroyed, the destruction of `n` is
over before that of `c` begins. -/
theorem callFactory_preInstantiate (quiet : env.Quiet) (hf : f < s.factories.length)
    (hl : s.Linked Set.univ) (hfresh : (s.factory f).singletons.names = [])
    (hedges : ∀ c n, ¬ s.edge f c n) {depth : Nat}
    (run : callFactory env (reentry env depth) f .preInstantiate s = some (.done, t))
    (hn : n ∈ (t.factory f).singletons.names) {d c : String} {m' : MergedDefinition}
    (hm : t.merged? f n = some m) (hd : d ∈ m.dependsOn) (hc : (t.factory f).canonical d = c)
    (hdef : (t.factory f).definitions.contains c = true) (hm' : t.merged? f c = some m')
    (hsingle : m'.isSingleton = true) :
    (∃ new, t.record = new ++ s.record ∧ .constructing f n ∈ new ∧
      ∀ later earlier, new = later ++ .constructing f n :: earlier →
        ∃ i, t.singleton? f c = some i ∧ .constructed f c i ∈ earlier) ∧
    t.edge f c n ∧
    Precedes (t.factory f).singletons.names c n ∧
    ∀ depth', (t.factory f).dependencies.dependents.size ≤ depth' →
      ∃ (ran : List Destruction) (u : Session),
      callFactory env (reentry env depth') f .destroySingletons t =
        some (answerFailures (ran.filterMap Destruction.error?), u) ∧
      u.record.filter Occurrence.isDestruction =
        (ran.flatMap Destruction.occurrences).reverse ++ t.record.filter Occurrence.isDestruction ∧
      Precedes (ran.map Destruction.name) n c := by
  obtain ⟨-, h⟩ := ((Building.fresh hfresh hedges).gives_preInstantiate quiet hf hl).of_answerAct run
  obtain ⟨i, hi⟩ := OrderedMap.mem_keys_iff.1 hn
  have hneeds : s.NeedsSingleton f n c := by
    have hlt : t.Linked Set.univ := h.linked hl
    rw [merged?_eq_some_iff hlt (Set.mem_univ f), h.reads.own_iff hl trivial] at hm hm'
    rw [h.reads.canonical] at hc
    rw [h.reads.definitions] at hdef
    exact ⟨⟨m, d, hm, hd, hc⟩, hdef, m', hm', hsingle⟩
  obtain ⟨new, hstory⟩ := h.story
  obtain ⟨he, hprec⟩ := h.after hi hneeds
  refine ⟨⟨new, hstory.record, (hstory.made hi).1, fun later earlier hsplit =>
    hstory.before hsplit hneeds⟩, he, hprec, fun depth' hdepth => ?_⟩
  obtain ⟨ran, u, hrun, htorn⟩ := tornDown_callFactory quiet.toQuietEnds (h.length hf) hdepth
  have hback : ¬ TransGen (t.edge f) n c := not_transGen_of_settled (s := s) (f := f)
    (fun he => (h.reasons he).imp id (And.imp id (Or.resolve_left · (by simp)))) he
  obtain ⟨j, hj⟩ : ∃ j, t.singleton? f c = some j := by
    obtain ⟨pre, mid, post, hsplit⟩ := hprec
    refine OrderedMap.mem_keys_iff.1 (?_ : c ∈ (t.factory f).singletons.names)
    rw [hsplit]
    simp
  exact ⟨ran, u, hrun, htorn.record,
    htorn.order (.single he hback) (Option.isSome_iff_exists.2 ⟨j, hj⟩)
      (Option.isSome_iff_exists.2 ⟨i, hi⟩)⟩

/-- Collaborators that follow written instructions without operations, and construct by nothing but
making an instance. -/
def makers : Collaborators :=
  { Scripted.collaborators (fun k => ⟨k.label, none⟩) fun _ => none with
    construct := fun _ _ name m => .make name (Scripted.specOf m) .done }

theorem quiet_makers : makers.Quiet := Scripted.quiet fun _ _ _ _ => .make .done

/-- A web server that is defined before the database it depends on, which it knows by an alias. -/
def Session.staged : Session where
  factories := [{
    definitions := ⟨2, .ofList [("web", { dependsOn := some ["store"] }), ("db", {})]⟩
    aliases := ⟨.ofList [("store", "db")]⟩
    constructor := some .direct }]

theorem staged_preInstantiate :
    makers.Quiet ∧ 0 < Session.staged.factories.length ∧ Session.staged.Linked Set.univ ∧
      (Session.staged.factory 0).singletons.names = [] ∧ (∀ c n, ¬ Session.staged.edge 0 c n) ∧
      ∃ t m, callFactory makers (reentry makers 2) 0 .preInstantiate .staged = some (.done, t) ∧
        t.merged? 0 "web" = some m ∧ "store" ∈ m.dependsOn ∧
        (t.factory 0).canonical "store" = "db" ∧ t.edge 0 "db" "web" ∧
        (t.factory 0).singletons.names = ["db", "web"] ∧
        ∃ (ran : List Destruction) (u : Session),
          callFactory makers (reentry makers 1) 0 .destroySingletons t =
            some (answerFailures (ran.filterMap Destruction.error?), u) ∧
          Precedes (ran.map Destruction.name) "web" "db" := by
  have hlen : 0 < Session.staged.factories.length := by decide
  have hlinked : Session.staged.Linked Set.univ := by
    intro f _ p hp
    cases f with
    | zero => cases hp
    | succ f => cases hp
  have hfresh : (Session.staged.factory 0).singletons.names = [] := rfl
  have hedges : ∀ c n, ¬ Session.staged.edge 0 c n := fun c n => DependencyGraph.not_hasEdge_empty
  have hfacts : (callFactory makers (reentry makers 2) 0 .preInstantiate .staged).any (fun r =>
      (r.1 matches .done) && (r.2.factory 0).singletons.names = ["db", "web"] &&
        (r.2.merged? 0 "web").any (fun m => m.dependsOn.contains "store") &&
        (r.2.factory 0).canonical "store" = "db" && (r.2.factory 0).definitions.contains "db" &&
        (r.2.merged? 0 "db").any MergedDefinition.isSingleton &&
        (r.2.factory 0).dependencies.dependents.size ≤ 1) = true := by
    decide +kernel
  obtain ⟨⟨answer, t⟩, hrun, hfacts⟩ := (Option.any_eq_true ..).1 hfacts
  simp only [Bool.and_eq_true, decide_eq_true_eq, Option.any_eq_true, List.contains_iff_mem] at hfacts
  obtain ⟨⟨⟨⟨⟨⟨hdone, hnames⟩, m, hm, hstore⟩, hcan⟩, hdef⟩, m', hm', hsingle⟩, hsize⟩ := hfacts
  have hanswer : answer = .done := by
    cases answer <;> first | rfl | cases hdone
  subst hanswer
  obtain ⟨-, hedge, -, hdestroy⟩ := callFactory_preInstantiate quiet_makers hlen hlinked hfresh hedges
    hrun (by rw [hnames]; simp) hm hstore hcan hdef hm' hsingle
  obtain ⟨ran, u, hrun', -, hprec⟩ := hdestroy 1 hsize
  exact ⟨quiet_makers, hlen, hlinked, hfresh, hedges, t, m, hrun, hm, hstore, hcan, hedge, hnames, ran, u,
    hrun', hprec⟩

end BeanContainer
