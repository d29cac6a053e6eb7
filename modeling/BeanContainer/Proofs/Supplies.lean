import BeanContainer.Proofs.Circles
import BeanContainer.Proofs.Providers
import BeanContainer.Proofs.Scopes

/-!
Which beans are made for a lookup. A bean draws what is found for the names its
merged definition depends on, here or in a factory above (`Session.Draws`). When
the makers of beans never turn to the session, a lookup makes the bean that is
found for its name and what that bean comes to draw, and no other one, whether
it succeeds or fails.

`Supplied R` relates two sessions between which beans of `R` alone were made. A
set that has, with a bean, all that the bean draws is `SelfContained`; each
function of the creation supplies from such a set when it is asked for a bean of
it, so the recursion shows that lookups do (`supplies_reentry`).
-/

namespace BeanContainer

open Session

variable {α : Type} {env : Collaborators} {again : Reentry} {s t u : Session} {f g : FactoryId}
  {R R' : Set (FactoryId × String)} {d n x name : String} {m : MergedDefinition} {made : Instance}

/-- The makers of beans never turn to the session, and neither do beans that are told that all
singletons are made. -/
structure Collaborators.QuietMaking (env : Collaborators) : Prop where
  construct : ∀ c f name m, (env.construct c f name m).Quiet
  before : ∀ p i name, (env.before p i name).Quiet
  after : ∀ p i name, (env.after p i name).Quiet
  ready : ∀ i spec, (env.ready i spec).Quiet

theorem Collaborators.Quiet.making (h : env.Quiet) : env.QuietMaking :=
  ⟨h.construct, h.before, h.after, h.ready⟩

/-- Whether a bean is told that all singletons are made. -/
def Occurrence.isAnnouncement : Occurrence → Bool
  | announced .. => true
  | _ => false

theorem Occurrence.isAnnouncement_of_isRemark {o : Occurrence} (h : o.isRemark = true) :
    o.isAnnouncement = false := by
  cases o <;> first | rfl | cases h

namespace Session

/-- A bean depends on what is found for a name in its merged definition. -/
def Draws (s : Session) (p q : FactoryId × String) : Prop :=
  ∃ m d, s.merged? p.1 p.2 = some m ∧ d ∈ m.dependsOn ∧ s.provider (s.chain p.1) d = some q

/-- With a bean, a set has all that the bean draws. -/
def SelfContained (s : Session) (R : Set (FactoryId × String)) : Prop :=
  ∀ p ∈ R, ∀ q, s.Draws p q → q ∈ R

/-- From one session to the other, definitions were merged and beans of `R` made. Singletons were
added, none was taken away or told that all are made. -/
structure Supplied (R : Set (FactoryId × String)) (s t : Session) : Prop where
  reads : s.Reads Set.univ t
  singletons : ∀ g x, t.singleton? g x = s.singleton? g x ∨
    s.singleton? g x = none ∧ s.Defines g x ∧ (g, x) ∈ R
  told : ∃ new, t.record = new ++ s.record ∧ (∀ g x, .constructing g x ∈ new → (g, x) ∈ R) ∧
    ∀ o ∈ new, o.isAnnouncement = false

namespace Supplied

theorem trans (hl : s.Linked Set.univ) (h : s.Supplied R t) (h' : t.Supplied R u) : s.Supplied R u where
  reads := h.reads.trans hl h'.reads
  singletons g x := by
    rcases h.singletons g x with he | hnew
    · rcases h'.singletons g x with he' | ⟨hnone, hdef, hR⟩
      · exact .inl (he'.trans he)
      · refine .inr ⟨he ▸ hnone, ?_, hR⟩
        rwa [Defines, h.reads.definitions] at hdef
    · exact .inr hnew
  told := by
    obtain ⟨new, e, hmade, htold⟩ := h.told
    obtain ⟨new', e', hmade', htold'⟩ := h'.told
    refine ⟨new' ++ new, by rw [e', e, List.append_assoc], fun g x hx => ?_, fun o ho => ?_⟩
    · exact (List.mem_append.1 hx).elim (hmade' g x) (hmade g x)
    · exact (List.mem_append.1 ho).elim (htold' o) (htold o)

/-! ## Nothing is made -/

theorem of_remarks (h : s.Remarks t) : s.Supplied R t where
  reads := .of_remarks h
  singletons g x := .inl (by rw [singleton?, h.factory])
  told := by
    obtain ⟨new, e, hnew⟩ := h.recorded
    exact ⟨new, e, fun g x hx => absurd (hnew _ hx) Bool.false_ne_true,
      fun o ho => Occurrence.isAnnouncement_of_isRemark (hnew o ho)⟩

theorem refl (s : Session) : s.Supplied R s := of_remarks (.refl s)

theorem of_merged (h : s.Merged Set.univ t) : s.Supplied R t where
  reads := h.toReads
  singletons g x := .inl (by rw [singleton?, h.factory])
  told := by
    obtain ⟨new, e, hnew⟩ := h.remarked
    exact ⟨new, e, fun g x hx => absurd (hnew _ hx) Bool.false_ne_true,
      fun o ho => Occurrence.isAnnouncement_of_isRemark (hnew o ho)⟩

theorem of_objects (reads : s.Reads Set.univ t)
    (h : ∀ g, (t.factory g).singletons.objects = (s.factory g).singletons.objects)
    (hrecord : t.record = s.record) : s.Supplied R t where
  reads := reads
  singletons g x := .inl (congrArg (fun objects => OrderedMap.get? objects x) (h g))
  told := ⟨[], hrecord, by simp, by simp⟩

theorem of_factories (hf : t.factories = s.factories) (hr : t.record = s.record) : s.Supplied R t :=
  .of_objects (.of_factories hf (.of_record_eq hr)) (fun g => by unfold factory; rw [hf]) hr

theorem flags {singletons : SingletonRegistry}
    (h : singletons.objects = (s.factory f).singletons.objects) :
    s.Supplied R (s.setFactory f { s.factory f with singletons }) :=
  .of_objects (.setFactory trivial rfl rfl)
    (fun _ => proj_setFactory (p := fun F => F.singletons.objects) h) rfl

theorem recording (hl : s.Linked Set.univ) : s.Supplied R (s.recording f d n) := by
  have hadded : s.Supplied R (s.addEdge f d n) := by
    refine .of_objects (.addEdge trivial) (fun g => ?_) rfl
    rw [addEdge, modifyFactory_eq_setFactory]
    exact proj_setFactory (p := fun F => F.singletons.objects) rfl
  exact hadded.trans hl (.of_remarks .writeNotices)

/-! ## Something is made -/

theorem write {o : Occurrence} (hmade : ∀ g x, .constructing g x = o → (g, x) ∈ R)
    (htold : o.isAnnouncement = false) : s.Supplied R (s.write o) where
  reads := .write fun _ _ => trivial
  singletons _ _ := .inl rfl
  told := ⟨[o], rfl, by simpa using hmade, by simpa using htold⟩

theorem keepIn {k : ScopeId} : s.Supplied R (s.keepIn k n made).2 where
  reads := .of_factories factories_keepIn tells_keepIn
  singletons _ _ := .inl (by unfold singleton? factory; rw [factories_keepIn])
  told := by
    refine ⟨_, record_keepIn, fun g x hx => ?_, fun o ho => ?_⟩
    · split at hx <;> simp at hx
    · split at ho
      · rw [List.mem_singleton.1 ho]
        rfl
      · simp at ho

theorem addSingleton (hdef : s.Defines f n) (hR : (f, n) ∈ R) : s.Supplied R (s.addSingleton f n made) where
  reads := .addSingleton trivial
  singletons g x := by
    by_cases hx : x = n
    · subst hx
      by_cases hg : g = f
      · subst hg
        cases hi : s.singleton? g x with
        | none => exact .inr ⟨rfl, hdef, hR⟩
        | some i =>
          -- The one that is there already stays.
          have hadd : ((s.factory g).singletons.add x made).2 = (s.factory g).singletons := by
            unfold SingletonRegistry.add
            rw [show (s.factory g).singletons.get? x = some i from hi]
          rw [← hi]
          exact .inl (proj_setFactory (p := fun F => F.singletons.get? x) (by rw [hadd]))
      · exact .inl (by rw [singleton?, Session.addSingleton, factory_setFactory_of_ne hg])
    · exact .inl (proj_setFactory (p := fun F => F.singletons.get? x) (SingletonRegistry.get?_add_of_ne hx))
  told := ⟨[], rfl, by simp, by simp⟩

/-! ## What stays -/

theorem singleton?_eq (h : s.Supplied R t) (hi : s.singleton? g x = some made) :
    t.singleton? g x = some made := by
  rcases h.singletons g x with he | ⟨hnone, -⟩
  · rw [he, hi]
  · cases hnone.symm.trans hi

theorem defines_iff (h : s.Supplied R t) : t.Defines g x ↔ s.Defines g x := by
  rw [Defines, h.reads.definitions]

theorem has_iff (h : s.Supplied R t) : t.Has g x ↔ s.Has g x := by
  have cached {v : Session} : (v.factory g).singletons.contains x = true ↔ ∃ i, v.singleton? g x = some i :=
    OrderedMap.contains_iff_get?
  unfold Has
  rw [cached, cached, h.reads.definitions]
  refine or_congr_right' fun hdef => ?_
  rw [(h.singletons g x).resolve_right fun hnew => hdef hnew.2.1]

theorem provider (h : s.Supplied R t) : ∀ {chain : List FactoryId} {name : String},
    t.provider chain name = s.provider chain name
  | [], _ => rfl
  | g :: ancestors, name => by
    unfold Session.provider
    dsimp only
    rw [h.reads.canonical, if_congr h.has_iff rfl h.provider]

theorem merged? (hl : s.Linked Set.univ) (h : s.Supplied R t) : t.merged? g x = s.merged? g x := by
  refine Option.ext fun m => ?_
  rw [merged?_eq_some_iff (h.reads.linked hl) (Set.mem_univ g), merged?_eq_some_iff hl (Set.mem_univ g)]
  exact h.reads.own_iff hl trivial

theorem draws_iff (hl : s.Linked Set.univ) (h : s.Supplied R t) {p q : FactoryId × String} :
    t.Draws p q ↔ s.Draws p q := by
  unfold Draws
  rw [h.merged? hl, h.reads.chain]
  simp only [h.provider]

theorem selfContained (hl : s.Linked Set.univ) (h : s.Supplied R t) (hR : s.SelfContained R') :
    t.SelfContained R' := fun p hp q hq => hR p hp q ((h.draws_iff hl).1 hq)

end Supplied

end Session

theorem provider_of_route : ∀ {chain : List FactoryId} {name : String},
    (∃ i, s.route chain name = .cached g x i) ∨ s.route chain name = .defined g x →
    s.provider chain name = some (g, x)
  | [], _, h => by
    rcases h with ⟨i, h⟩ | h <;> cases h
  | f :: ancestors, name, h => by
    have here (hhas : s.Has f ((s.factory f).canonical name)) :
        s.provider (f :: ancestors) name = some (f, (s.factory f).canonical name) := if_pos hhas
    by_cases hhas : s.Has f ((s.factory f).canonical name)
    · rw [here hhas]
      rcases route_of_provider (here hhas) with ⟨-, -, y, -, hbusy⟩ | hroute
      · rw [hbusy] at h
        rcases h with ⟨i, h⟩ | h <;> cases h
      · rw [hroute, routeTo] at h
        split at h <;> rcases h with ⟨i, h⟩ | h <;> cases h <;> rfl
    · rw [Session.provider, if_neg hhas]
      obtain ⟨-, -, y, -, hbusy⟩ | hroute : s.GivesUp (f :: ancestors) name ∨ _ := route_of_not_has hhas
      · rw [hbusy] at h
        rcases h with ⟨i, h⟩ | h <;> cases h
      · rw [hroute] at h
        split at h
        · rcases h with ⟨i, h⟩ | h <;> cases h
        · exact provider_of_route h

/-! ## Making beans -/

/-- To make beans of a set that has all that these draw, in well linked sessions. -/
def supplying (R : Set (FactoryId × String)) : Manner where
  Start s := s.Linked Set.univ ∧ s.SelfContained R
  Leads s t := s.Supplied R t
  refl := .refl
  trans hs h h' := h.trans hs.1 h'
  start hs h := ⟨h.reads.linked hs.1, h.selfContained hs.1 hs.2⟩

/-- To do so and put nothing into a scope. -/
def crafting (R : Set (FactoryId × String)) : Manner where
  Start s := s.Linked Set.univ ∧ s.SelfContained R
  Leads s t := s.Supplied R t ∧ t.scopes = s.scopes
  refl s := ⟨.refl s, rfl⟩
  trans hs h h' := ⟨h.1.trans hs.1 h'.1, h'.2.trans h.2⟩
  start hs h := (supplying R).start hs h.1

theorem keeps_runFor_crafting {script : Script α} (h : script.Quiet) :
    Keeps (crafting R) (runFor again name script).run := by
  refine keeps_runFor fun s _ => (yields_runScript_quiet h s).of_total.mono fun _ t ht => ⟨.of_remarks ht, ?_⟩
  rw [ht.same]

theorem keeps_createBean_crafting (quiet : env.QuietMaking) (hn : (f, n) ∈ R) :
    Keeps (crafting R) (createBean env again f n m).run := by
  have told {o : Occurrence} (hmade : ∀ g x, .constructing g x = o → (g, x) ∈ R)
      (htold : o.isAnnouncement = false) : Keeps (crafting R) (liftM (write o) : Act Unit).run :=
    fun _ _ => ⟨.write hmade htold, rfl⟩
  unfold createBean
  refine keeps_run_theFactory.run_bind fun F => ?_
  split
  · refine Keeps.run_bind (told (o := .notice (.creating n m.scope)) (fun _ _ => nofun) rfl) fun _ => ?_
    refine (told (fun g x e => by cases e; exact hn) rfl).run_bind fun _ => ?_
    refine (keeps_runFor_crafting (quiet.construct _ _ _ _)).run_bind fun raw =>
      keeps_run_theFactory.run_bind fun F => ?_
    refine (keeps_run_foldlM fun _ _ _ => keeps_run_get.run_bind fun s =>
      keeps_runFor_crafting (quiet.before _ _ _)).run_bind fun readied => ?_
    refine (keeps_run_foldlM fun _ _ _ => keeps_run_get.run_bind fun s =>
      keeps_runFor_crafting (quiet.after _ _ _)).run_bind fun finished => ?_
    exact (told (o := .constructed f n finished) (fun _ _ => nofun) rfl).run_bind fun _ => keeps_run_pure
  · exact keeps_run_throw

theorem yields_whileHolding_of_flags {M : Manner} {guard : Guard} {body : Act α}
    (flags : ∀ {s f singletons}, M.Start s → singletons.objects = (s.factory f).singletons.objects →
      M.Leads s (s.setFactory f { s.factory f with singletons })) (hs : M.Start s)
    (h : ∀ t, M.Leads s t → Yields True body.run t fun _ u => M.Leads t u) :
    Yields True (whileHolding f guard body).run s fun _ t => M.Leads s t := by
  rw [yields_whileHolding]
  cases hg : (s.factory f).singletons.acquire guard with
  | error e => exact M.refl s
  | ok singletons =>
    have hset := flags hs (SingletonRegistry.objects_of_acquire hg)
    refine (h _ hset).mono fun _ t ht => ?_
    have hst := M.trans hs hset ht
    rw [modifyFactory_eq_setFactory]
    exact M.trans hs hst (flags (M.start hs hst) SingletonRegistry.objects_release)

theorem keeps_createPrototype_crafting (quiet : env.QuietMaking) (hn : (f, n) ∈ R) :
    Keeps (crafting R) (whileCreatingPrototype f n (createBean env again f n m)).run := by
  intro s hs
  rw [whileCreatingPrototype_eq]
  refine yields_whileHolding_of_flags (fun _ h => ⟨.flags h, rfl⟩) hs fun t ht => ?_
  exact keeps_createBean_crafting quiet hn t ((crafting R).start hs ht)

theorem yields_createSingleton_supplying (quiet : env.QuietMaking) (hs : (supplying R).Start s)
    (hn : (f, n) ∈ R) (hdef : s.Defines f n) :
    Yields True (createSingleton env again f n m).run s fun _ t => s.Supplied R t := by
  unfold createSingleton
  rw [yields_run_bind, yields_run_liftState, theFactory_apply]
  dsimp only
  split
  · exact .refl s
  · rw [whileCreatingSingleton_eq]
    split
    · exact .refl s
    · refine yields_whileHolding_of_flags (M := supplying R) (fun _ => .flags) hs fun t ht => ?_
      rw [yields_run_bind]
      have htstart := (supplying R).start hs ht
      refine (keeps_createBean_crafting quiet hn t htstart).mono fun r u hu => ?_
      cases r with
      | error e => exact hu.1
      | ok made =>
        have hdef : u.Defines f n := hu.1.defines_iff.2 (ht.defines_iff.2 hdef)
        have hnoted : u.Supplied R (u.write (.notice (.singletonCached n))) := .write (fun _ _ => nofun) rfl
        have htold := hnoted.trans (hu.1.reads.linked htstart.1)
          (.write (o := .cached f n made) (fun _ _ => nofun) rfl)
        exact (hu.1.trans htstart.1 htold).trans htstart.1 (.addSingleton hdef hn)

/-- A scope that has no bean of a name keeps the one that is made for it. -/
theorem yields_getOrMake_supplying {k : ScopeId} (quiet : env.QuietMaking) (hs : (supplying R).Start s)
    (hn : (f, n) ∈ R) :
    Yields True (Scope.getOrMake k n (whileCreatingPrototype f n (createBean env again f n m))).run s
      fun r t => s.Supplied R t ∧ ∀ counts made, r = .ok (counts, some made) → counts = made := by
  unfold Scope.getOrMake
  rw [yields_run_bind, yields_run_get]
  dsimp only
  split
  · exact ⟨.refl s, fun _ _ e => by cases e⟩
  · next hnone =>
    rw [yields_run_bind]
    refine (keeps_createPrototype_crafting quiet hn s hs).mono fun r t ht => ?_
    cases r with
    | error e => exact ⟨ht.1, fun _ _ e => by cases e⟩
    | ok made =>
      -- Nothing came into the scope meanwhile.
      have hnone : (t.scope k).get? n = none := by
        unfold Session.scope
        rw [ht.2]
        exact hnone
      dsimp only
      rw [yields_run_bind, yields_run_modifyGet]
      refine ⟨ht.1.trans hs.1 .keepIn, fun _ _ e => ?_⟩
      cases e
      exact Scope.keep_fst hnone

theorem keeps_createScoped_supplying (quiet : env.QuietMaking) (hn : (f, n) ∈ R) :
    Keeps (supplying R) (createScoped env again f n m).run := by
  intro s hs
  unfold createScoped
  rw [yields_run_bind, yields_run_liftState, theFactory_apply]
  dsimp only
  split
  · rw [yields_run_bind]
    refine (yields_getOrMake_supplying quiet hs hn).mono ?_
    rintro (e | ⟨counts, made⟩) t ⟨ht, hmade⟩
    · exact ht
    · dsimp only
      split
      · rename_i made
        obtain rfl := hmade _ _ rfl
        rw [yields_run_bind, yields_run_liftState]
        dsimp only
        split
        · rw [yields_run_bind, yields_run_liftState, theFactory_apply]
          dsimp only
          rw [if_pos rfl]
          exact ht.trans hs.1 (.of_factories rfl rfl)
        · exact ht
      · exact ht
  · exact .refl s

/-! ## Lookups -/

/-- A way to look up beans makes none but those of `R`, if what is found for the name is one of
them. If it succeeds, the bean is cached in case it is a singleton of the asked factory itself. -/
def Supplies (R : Set (FactoryId × String)) (look : FactoryId → String → Act Instance) : Prop :=
  ∀ ⦃s f d⦄, (supplying R).Start s → (∀ q, s.provider (s.chain f) d = some q → q ∈ R) →
    Yields True (look f d).run s fun r t => s.Supplied R t ∧
      ∀ i x, r = .ok i → s.provider (s.chain f) d = some (f, x) → s.DefinesSingleton f x →
        ∃ j, t.singleton? f x = some j

theorem yields_initializeEach_supplying (look : Supplies R again.lookup) (hn : (f, n) ∈ R) :
    ∀ {dependencies : List String} {s : Session}, (supplying R).Start s → s.merged? f n = some m →
      (∀ d ∈ dependencies, d ∈ m.dependsOn) →
      Yields True (initializeEach again f n dependencies).run s fun _ t => s.Supplied R t
  | [], s, _, _, _ => .refl s
  | d :: dependencies, s, hs, hm, hall => by
    rw [yields_initializeEach_cons]
    split
    · exact .refl s
    · have hadded : s.Supplied R (s.recording f d n) := .recording hs.1
      have hadded' := (supplying R).start hs hadded
      refine (look hadded' fun q hq => ?_).mono fun r t ht => ?_
      · rw [hadded.provider, hadded.reads.chain] at hq
        exact hs.2 _ hn q ⟨m, d, hm, hall d List.mem_cons_self, hq⟩
      · have hst := hadded.trans hs.1 ht.1
        cases r with
        | error e => exact hst
        | ok i =>
          refine (yields_initializeEach_supplying look hn ((supplying R).start hs hst)
            ((hst.merged? hs.1).trans hm) fun d hd => hall d (List.mem_cons_of_mem _ hd)).mono ?_
          exact fun _ u hu => hst.trans hs.1 hu

/-- Making a defined bean makes what it draws first. -/
theorem yields_makeDefined_supplying (quiet : env.QuietMaking) (look : Supplies R again.lookup)
    (hs : (supplying R).Start s) (hn : (f, n) ∈ R) (hdef : s.Defines f n) :
    Yields True (makeDefined env again f n).run s fun r t => s.Supplied R t ∧
      ∀ i, r = .ok i → s.DefinesSingleton f n → ∃ j, t.singleton? f n = some j := by
  rw [yields_makeDefined]
  refine (ends_mergedOwn hs.1 (Set.mem_univ f)).mono ?_
  rintro r t ⟨hmerged, hown⟩
  have hst : s.Supplied R t := .of_merged hmerged
  have ht := (supplying R).start hs hst
  cases r with
  | error e => exact ⟨hst, nofun⟩
  | ok ref =>
    have hown : s.Own f n ref.definition := (hown _).2 ⟨ref, rfl, rfl⟩
    have hm : t.merged? f n = some ref.definition :=
      (hst.merged? hs.1).trans ((merged?_eq_some_iff hs.1 (Set.mem_univ f)).2 hown)
    dsimp only
    split
    · exact ⟨hst, nofun⟩
    refine (yields_initializeEach_supplying look hn ht hm fun _ => id).mono fun r u htu => ?_
    have hsu := hst.trans hs.1 htu
    have hu := (supplying R).start hs hsu
    cases r with
    | error e => exact ⟨hsu, nofun⟩
    | ok _ =>
      have hlen : f < s.factories.length := length_lt_of_own hown
      dsimp only
      unfold makeOfKind
      split
      · rw [yields_run_bind]
        refine ((yields_createSingleton_supplying quiet hu hn (hsu.defines_iff.2 hdef)).and
          gives_createSingleton_cached).mono ?_
        rintro (e | i) v ⟨huv, hcached⟩
        · exact ⟨hsu.trans hs.1 huv, nofun⟩
        · have hsv := hsu.trans hs.1 huv
          refine ⟨hsv.trans hs.1 (.write (o := .handedOut f n i) (fun _ _ => nofun) rfl), fun _ _ _ => ⟨i, ?_⟩⟩
          exact hcached i rfl (hsv.reads.length ▸ hlen)
      · next hsingle =>
        have other {v : Session} {r : Except BeanError Instance} (huv : u.Supplied R v) : s.Supplied R v ∧
            ∀ i, r = .ok i → s.DefinesSingleton f n → ∃ j, v.singleton? f n = some j := by
          refine ⟨hsu.trans hs.1 huv, fun _ _ hdefines => ?_⟩
          obtain ⟨-, m, hm, hsingle'⟩ := hdefines
          exact absurd (own_unique hm hown ▸ hsingle') hsingle
        split
        · exact (keeps_createPrototype_crafting quiet hn u hu).mono fun _ _ hv => other hv.1
        · exact (keeps_createScoped_supplying quiet hn u hu).mono fun _ _ => other

/-- A lookup supplies, if the lookups of what is drawn do. -/
theorem supplies_lookup (quiet : env.QuietMaking) (look : Supplies R again.lookup) :
    Supplies R (lookup env again) := by
  intro s f d hs hfound
  unfold lookup
  rw [yields_run_bind, yields_run_get]
  dsimp only
  cases hr : s.route (s.chain f) d with
  | cached g x i =>
    have hprovider := provider_of_route (.inl ⟨i, hr⟩)
    have hfits : (s.route (s.chain f) d).Fits s (s.chain f) := fits_route
    rw [hr] at hfits
    refine ⟨.write (o := .handedOut g x i) (fun _ _ => nofun) rfl, fun j y _ hy _ => ⟨i, ?_⟩⟩
    obtain ⟨rfl, rfl⟩ := Prod.mk.inj (Option.some.inj (hprovider.symm.trans hy))
    exact hfits.2
  | busy x => exact ⟨.refl s, nofun⟩
  | defined g x =>
    have hprovider := provider_of_route (.inr hr)
    have hmissed : s.Supplied R (s.write (.missed g x)) := .write (fun _ _ => nofun) rfl
    refine (yields_makeDefined_supplying quiet look ((supplying R).start hs hmissed) (hfound _ hprovider)
      (defines_of_route hr).2.1).mono fun r t ht => ⟨hmissed.trans hs.1 ht.1, fun i y hi hy hdefines => ?_⟩
    obtain ⟨rfl, rfl⟩ := Prod.mk.inj (Option.some.inj (hprovider.symm.trans hy))
    refine ht.2 i hi ⟨hdefines.1, hdefines.2.imp fun m hm => ⟨?_, hm.2⟩⟩
    exact (hmissed.reads.own_iff hs.1 trivial).2 hm.1
  | nowhere x => exact ⟨.refl s, nofun⟩

/-- **A lookup makes the bean that is found for the name, and what that comes to draw, and no other
one**, whether it succeeds or fails, and however deep it goes. -/
theorem supplies_reentry (quiet : env.QuietMaking) : ∀ depth, Supplies R (reentry env depth).lookup
  | 0 => fun _ _ _ _ _ => trivial
  | depth + 1 => supplies_lookup quiet (supplies_reentry quiet depth)

end BeanContainer
