import BeanContainer.Proofs.Guards
import BeanContainer.Proofs.Quiet

/-!
What making beans does to a session, function by function.

It comes down to few changes, listed as `Session.MakingChange`, and to the flags that
are set while a bean is made. A `Manner` of changing sessions that covers these
(`Manner.CoversMaking`) covers lookups and all that they are made of: `Keeps M`
says so of a computation, and each function of the container has one lemma that
says so of it.

What the collaborators do in between is up to them, so that it is covered too is
assumed (`Collaborators.KeepMaking`).
-/

namespace BeanContainer

open Session

/-! ## Changes -/

/-- Whether an occurrence tells of the singletons in a cache, or what a lookup found there. -/
def Occurrence.isOfCache : Occurrence → Bool
  | cached .. | registered .. | released .. | missed .. | handedOut .. => true
  | _ => false

/-- Whether an occurrence may be written down at any time: nothing else goes with it. -/
def Occurrence.isAside : Occurrence → Bool
  | event _ | notice _ | defined .. | aliased .. | constructed .. | announced .. => true
  | _ => false

theorem Occurrence.isOfCache_of_isAside {o : Occurrence} (h : o.isAside = true) :
    o.isOfCache = false := by
  cases o <;> first | rfl | cases h

/-- What making beans of the factories in `U` may change at once, the flags of unfinished beans
and the cache of finished ones apart. -/
inductive Session.MakingChange (U : Set FactoryId) (s : Session) : Session → Prop
  /-- Instances are made, and merges are counted. -/
  | count {made : List (Instance × BeanSpec)} {merges : Nat} {answered : List Nat} :
      s.MakingChange U { s with made, merges, answered }
  | tell {o : Occurrence} : o.isAside = true → (∀ g, o.factory? = some g → g ∈ U) →
      s.MakingChange U (s.write o)
  /-- A constructor is called; for a singleton only while its factory does not destroy all. -/
  | construct {f : FactoryId} {n : String} {m : MergedDefinition} : f ∈ U →
      (m.isSingleton = true → (s.factory f).singletons.inDestruction = false) →
      s.MakingChange U ((s.write (.notice (.creating n m.scope))).write (.constructing f n))
  | addEdge {f : FactoryId} {d n : String} : f ∈ U → s.MakingChange U (s.addEdge f d n)
  | miss {f : FactoryId} {n : String} : f ∈ U → s.singleton? f n = none →
      s.MakingChange U (s.write (.missed f n))
  /-- A number without a factory has no cache to hand a bean out from. -/
  | handOut {f : FactoryId} {n : String} {i : Instance} : f ∈ U →
      (f < s.factories.length → s.singleton? f n = some i) →
      s.MakingChange U (s.write (.handedOut f n i))

/-- A manner of changing sessions: which ones it is about, and which changes it covers. It may know
something of the merges that are made there. -/
structure Manner where
  Start : Session → Prop
  Leads : Session → Session → Prop
  Merged : FactoryId → String → MergedDefinition → Prop := fun _ _ _ => True
  refl : ∀ s, Leads s s
  trans : ∀ {s t u}, Start s → Leads s t → Leads t u → Leads s u
  start : ∀ {s t}, Start s → Leads s t → Start t

/-- To keep a property of sessions, which may tell something of the merges that are made. -/
def Manner.upholding (I : Session → Prop) (Merged : FactoryId → String → MergedDefinition → Prop) :
    Manner where
  Start := I
  Leads s t := I s → I t
  Merged := Merged
  refl _ := id
  trans _ h h' hs := h' (h hs)
  start hs h := h hs

/-- A manner covers the making of beans of the factories in `U`: the single changes, merging, and
what is done while a flag is set. -/
structure Manner.CoversMaking (M : Manner) (U : Set FactoryId) : Prop where
  making : ∀ {s t}, M.Start s → s.MakingChange U t → M.Leads s t
  cache : ∀ {s f n m made}, M.Start s → f ∈ U → M.Merged f n m → m.isSingleton = true →
    M.Leads s ((s.write (.cached f n made)).addSingleton f n made)
  hold : ∀ {s f g singletons}, M.Start s → f ∈ U → (s.factory f).singletons.acquire g = .ok singletons →
    M.Start (s.setFactory f { s.factory f with singletons })
  unhold : ∀ {s t f g singletons}, M.Start s → f ∈ U →
    (s.factory f).singletons.acquire g = .ok singletons →
    M.Leads (s.setFactory f { s.factory f with singletons }) t →
    M.Leads s (t.modifyFactory f fun F => { F with singletons := F.singletons.release g })
  parent : ∀ {s f p}, M.Start s → f ∈ U → (s.factory f).parent = some p → p ∈ U
  ownMerges : ∀ {s f name}, M.Start s → f ∈ U → Ends (mergedOwn f name) s fun _ t => M.Leads s t
  merges : ∀ {s f name}, M.Start s → f ∈ U →
    Ends (mergedDefinition f name) s fun _ t => M.Leads s t
  merged : ∀ {s f name}, M.Start s → f ∈ U →
    Ends (mergedOwn f name) s fun r _ => ∀ ref, r = .ok ref → M.Merged f name ref.definition

variable {M : Manner} {U : Set FactoryId} {α β : Type} {s : Session} {f : FactoryId} {name : String}

/-! ## Computations -/

/-- Whatever an effect does is covered. -/
def Keeps (M : Manner) (m : Effect α) : Prop :=
  ∀ s : Session, M.Start s → Yields True m s fun _ t => M.Leads s t

theorem keeps_pure {a : α} : Keeps M (pure a : Effect α) := fun s _ => M.refl s

theorem Keeps.bind {m : Effect α} {k : α → Effect β} (h : Keeps M m) (hk : ∀ a, Keeps M (k a)) :
    Keeps M (m >>= k) := by
  intro s hs
  rw [yields_bind]
  refine (h s hs).mono fun a t ht => ?_
  exact (hk a t (M.start hs ht)).mono fun _ _ hu => M.trans hs ht hu

theorem keeps_get : Keeps M (get : Effect Session) := fun s _ => M.refl s

theorem keeps_theFactory : Keeps M (liftM (theFactory f) : Effect Factory) := fun s _ => M.refl s

theorem keeps_foldlM {step : β → α → Effect β} {l : List α} (h : ∀ b, ∀ a ∈ l, Keeps M (step b a)) :
    ∀ {b}, Keeps M (l.foldlM step b) := by
  induction l with
  | nil => exact keeps_pure
  | cons a l ih =>
    intro b
    rw [List.foldlM_cons]
    exact (h b a (by simp)).bind fun b => ih fun b a ha => h b a (by simp [ha])

theorem keeps_mapM {step : α → Effect β} {l : List α} (h : ∀ a ∈ l, Keeps M (step a)) :
    Keeps M (l.mapM step) := by
  induction l with
  | nil => exact keeps_pure
  | cons a l ih =>
    rw [List.mapM_cons]
    exact (h a (by simp)).bind fun b => (ih fun a ha => h a (by simp [ha])).bind fun bs => keeps_pure

theorem keeps_run_pure {a : α} : Keeps M (pure a : Act α).run := fun s _ => M.refl s

theorem keeps_run_throw {e : BeanError} : Keeps M (throw e : Act α).run := fun s _ => M.refl s

theorem Keeps.run_bind {a : Act α} {k : α → Act β} (h : Keeps M a.run) (hk : ∀ x, Keeps M (k x).run) :
    Keeps M (a >>= k).run := by
  intro s hs
  rw [yields_run_bind]
  refine (h s hs).mono fun r t ht => ?_
  cases r with
  | ok x => exact (hk x t (M.start hs ht)).mono fun _ _ hu => M.trans hs ht hu
  | error e => exact ht

theorem keeps_run_bind_of {a : Act α} {k : α → Act β} {P : α → Prop} (h : Keeps M a.run)
    (hP : ∀ s, M.Start s → Gives a s fun x _ => P x) (hk : ∀ x, P x → Keeps M (k x).run) :
    Keeps M (a >>= k).run := by
  intro s hs
  rw [yields_run_bind]
  refine ((h s hs).and (hP s hs)).mono fun r t ht => ?_
  cases r with
  | ok x => exact (hk x (ht.2 x rfl) t (M.start hs ht.1)).mono fun _ _ hu => M.trans hs ht.1 hu
  | error e => exact ht.1

theorem keeps_run_get : Keeps M (get : Act Session).run := fun s _ => M.refl s

theorem keeps_run_theFactory : Keeps M (liftM (theFactory f) : Act Factory).run := fun s _ => M.refl s

theorem keeps_run_effect {m : Effect α} (h : Keeps M m) : Keeps M (liftM m : Act α).run := by
  intro s hs
  rw [yields_run_liftEffect]
  exact h s hs

theorem Keeps.run_attempt {a : Act α} (h : Keeps M a.run) : Keeps M a.attempt.run := by
  intro s hs
  rw [yields_run_attempt]
  exact h s hs

theorem keeps_run_forM {step : α → Act Unit} {l : List α} (h : ∀ a ∈ l, Keeps M (step a).run) :
    Keeps M (l.forM step).run := by
  induction l with
  | nil => exact keeps_run_pure
  | cons a l ih => exact (h a (by simp)).run_bind fun _ => ih fun a ha => h a (by simp [ha])

theorem keeps_run_foldlM {step : β → α → Act β} {l : List α}
    (h : ∀ b, ∀ a ∈ l, Keeps M (step b a).run) : ∀ {b}, Keeps M (l.foldlM step b).run := by
  induction l with
  | nil => exact keeps_run_pure
  | cons a l ih =>
    intro b
    rw [List.foldlM_cons]
    exact (h b a (by simp)).run_bind fun b => ih fun b a ha => h b a (by simp [ha])

theorem Keeps.run_unless {c : Prop} [Decidable c] {e : BeanError} {a : Act α} (h : Keeps M a.run) :
    Keeps M (if c then (do throw e; a) else a : Act α).run := by
  split
  · exact keeps_run_throw.run_bind fun _ => h
  · exact h

theorem gives_unless {c : Prop} [Decidable c] {e : BeanError} {a : Act α} {Q : α → Session → Prop}
    (h : Gives a s Q) : Gives (if c then (do throw e; a) else a) s Q := by
  split
  · exact gives_bind.2 gives_throw
  · exact h

/-! ## Single changes -/

theorem mem_chain_of_closed (h : ∀ f ∈ U, ∀ p, (s.factory f).parent = some p → p ∈ U) (hf : f ∈ U) :
    ∀ g ∈ s.chain f, g ∈ U := by
  unfold Session.chain
  generalize s.factories.length = links
  induction links generalizing f with
  | zero => exact fun g hg => by simp [chainWithin] at hg
  | succ links ih =>
    intro g hg
    unfold chainWithin at hg
    split at hg
    · next p hp =>
      rcases List.mem_cons.1 hg with rfl | hg
      · exact hf
      · exact ih (h f hf p hp) g hg
    · obtain rfl := List.mem_singleton.1 hg
      exact hf

theorem leads_writeNotices (note : ∀ {s} {n : Notice}, M.Start s → M.Leads s (s.write (.notice n)))
    {notices : List Notice} (hs : M.Start s) : M.Leads s (s.writeNotices notices) := by
  induction notices generalizing s with
  | nil => exact M.refl s
  | cons n notices ih => exact M.trans hs (note hs) (ih (M.start hs (note hs)))

namespace Manner.CoversMaking

variable (cover : M.CoversMaking U)
include cover

theorem mem_chain (hs : M.Start s) (hf : f ∈ U) : ∀ g ∈ s.chain f, g ∈ U :=
  mem_chain_of_closed (fun _ hf _ hp => cover.parent hs hf hp) hf

theorem keeps_lift {m : StateM Session α} (h : ∀ s : Session, s.MakingChange U (m s).2) :
    Keeps M (liftM m : Effect α) := fun s hs => cover.making hs (h s)

theorem keeps_modifyGet {g : Session → α × Session} (h : ∀ s : Session, s.MakingChange U (g s).2) :
    Keeps M (modifyGet g : Effect α) := fun s hs => cover.making hs (h s)

theorem keeps_write (o : Occurrence) (hc : o.isAside = true) (ho : ∀ g, o.factory? = some g → g ∈ U) :
    Keeps M (liftM (write o) : Effect Unit) := cover.keeps_lift fun _ => .tell hc ho

theorem keeps_note {n : Notice} : Keeps M (liftM (note n) : Effect Unit) :=
  cover.keeps_write (.notice n) rfl nofun

theorem yields_noteUnless {c : Prop} [Decidable c] {n : Notice} {m : Effect α}
    {Q : α → Session → Prop} (hs : M.Start s) (h : ∀ t, M.Leads s t → Yields True m t Q) :
    Yields True (if c then m else (do note n; m)) s Q := by
  split
  · exact h s (M.refl s)
  · exact h _ (cover.making hs (.tell rfl nofun))

theorem leads_writeNotices {notices : List Notice} (hs : M.Start s) :
    M.Leads s (s.writeNotices notices) :=
  BeanContainer.leads_writeNotices (fun hs => cover.making hs (.tell rfl nofun)) hs

theorem keeps_writeNotices {notices : Session → List Notice} :
    Keeps M (modify fun s => s.writeNotices (notices s) : Effect Unit) :=
  fun _ hs => cover.leads_writeNotices hs

theorem keeps_run_lift {m : StateM Session α} (h : ∀ s : Session, s.MakingChange U (m s).2) :
    Keeps M (liftM m : Act α).run := fun s hs => cover.making hs (h s)

theorem keeps_run_write (o : Occurrence) (hc : o.isAside = true)
    (ho : ∀ g, o.factory? = some g → g ∈ U) : Keeps M (liftM (write o) : Act Unit).run :=
  cover.keeps_run_lift fun _ => .tell hc ho

theorem keeps_run_note {n : Notice} : Keeps M (liftM (note n) : Act Unit).run :=
  cover.keeps_run_write (.notice n) rfl nofun

theorem keeps_run_mergedOwn (hf : f ∈ U) : Keeps M (liftM (mergedOwn f name) : Act MergedRef).run :=
  fun _ hs => cover.ownMerges hs hf

end Manner.CoversMaking

/-! ## Collaborators -/

/-- Whether a script looks up beans of the factories in `V` alone, and performs none but the given
operations. -/
inductive Script.Within (V : Set FactoryId) (P : Operation → Prop) : Script α → Prop
  | done (result : α) : Within V P (done result)
  | fail (failure : Failure) : Within V P (fail failure)
  | emit {event : Event} {next : Script α} : Within V P next → Within V P (emit event next)
  | make {name : String} {spec : BeanSpec} {next : Instance → Script α} :
      (∀ i, Within V P (next i)) → Within V P (make name spec next)
  | lookup {factory : FactoryId} {name : String} {next : Except BeanError Instance → Script α} :
      factory ∈ V → (∀ r, Within V P (next r)) → Within V P (lookup factory name next)
  | perform {operation : Operation} {next : Answer → Script α} : P operation →
      (∀ a, Within V P (next a)) → Within V P (perform operation next)

theorem Script.Quiet.within {V : Set FactoryId} {P : Operation → Prop} {script : Script α}
    (h : script.Quiet) : script.Within V P := by
  induction h with
  | done => exact .done _
  | fail => exact .fail _
  | emit _ ih => exact .emit ih
  | make _ ih => exact .make ih

/-- A manner that covers what a script asks for covers the script. -/
theorem keeps_runScript (cover : M.CoversMaking U) {again : Reentry} {V : Set FactoryId}
    {P : Operation → Prop} {script : Script α} (h : script.Within V P)
    (hlookup : ∀ f ∈ V, ∀ name, Keeps M (again.lookup f name).run)
    (hperform : ∀ operation, P operation → Keeps M (again.perform operation)) :
    Keeps M (runScript again script) := by
  induction h with
  | done => exact keeps_pure
  | fail => exact keeps_pure
  | @emit event _ _ ih => exact (cover.keeps_write (.event event) rfl nofun).bind fun _ => ih
  | make _ ih => exact (cover.keeps_modifyGet fun s => .count).bind ih
  | lookup hf _ ih => exact (hlookup _ hf _).bind ih
  | perform hop _ ih => exact (hperform _ hop).bind ih

/-- The manner covers what makes an instance for a bean of a factory in `U`, with these ways back. -/
structure Collaborators.KeepCreation (M : Manner) (U : Set FactoryId) (env : Collaborators)
    (again : Reentry) : Prop where
  construct : ∀ c, ∀ f ∈ U, ∀ name m, Keeps M (runScript again (env.construct c f name m))
  before : ∀ p i name, Keeps M (runScript again (env.before p i name))
  after : ∀ p i name, Keeps M (runScript again (env.after p i name))

/-- The manner covers what it takes to make beans of the factories in `U`, with these ways back. -/
structure Collaborators.KeepMaking (M : Manner) (U : Set FactoryId) (env : Collaborators)
    (again : Reentry) : Prop extends env.KeepCreation M U again where
  ready : ∀ i spec, Keeps M (runScript again (env.ready i spec))
  inScope : ∀ f ∈ U, ∀ name m, M.Merged f name m → m.isSingleton = false →
    Keeps M (createScoped env again f name m).run

variable {env : Collaborators} {again : Reentry} {i : Instance}

/-! ## Lookups -/

variable {m : MergedDefinition}

theorem keeps_runFor {script : Script α} (h : Keeps M (runScript again script)) :
    Keeps M (runFor again name script).run := by
  unfold runFor
  refine (keeps_run_effect h).run_bind fun r => ?_
  split
  · exact keeps_run_pure
  · exact keeps_run_throw

/-- A singleton is made only while its factory does not destroy all. -/
theorem yields_createBean (cover : M.CoversMaking U) (h : env.KeepCreation M U again) (hf : f ∈ U)
    (hs : M.Start s) (hopen : m.isSingleton = true → (s.factory f).singletons.inDestruction = false) :
    Yields True (createBean env again f name m).run s fun _ t => M.Leads s t := by
  have hself {g} (h : some f = some g) : g ∈ U := by cases h; exact hf
  have rest {c : Constructor} : Keeps M (do
      let raw ← runFor again name (env.construct c f name m)
      let processors := (← theFactory f).processors
      let readied ← processors.foldlM (fun i p => do
        runFor again name (env.before ((← get).processor p) i name)) raw
      let finished ← processors.foldlM (fun i p => do
        runFor again name (env.after ((← get).processor p) i name)) readied
      write (.constructed f name finished)
      return finished : Act Instance).run := by
    refine (keeps_runFor (h.construct _ f hf _ _)).run_bind fun raw =>
      keeps_run_theFactory.run_bind fun F => ?_
    refine (keeps_run_foldlM fun _ _ _ => keeps_run_get.run_bind fun s =>
      keeps_runFor (h.before _ _ _)).run_bind fun readied => ?_
    refine (keeps_run_foldlM fun _ _ _ => keeps_run_get.run_bind fun s =>
      keeps_runFor (h.after _ _ _)).run_bind fun finished => ?_
    exact (cover.keeps_run_write (.constructed f name _) rfl fun _ => hself).run_bind fun _ => keeps_run_pure
  unfold createBean
  rw [yields_run_bind, yields_run_liftState, theFactory_apply]
  dsimp only
  split
  · have hbegun := cover.making hs (.construct (n := name) hf hopen)
    exact (rest _ (M.start hs hbegun)).mono fun _ _ ht => M.trans hs hbegun ht
  · exact M.refl s

/-- The last thing that is told of a bean in the making is that it is finished. -/
theorem gives_createBean_constructed :
    Gives (createBean env again f name m) s fun i t => ∃ old, t.record = .constructed f name i :: old := by
  have hrest {c : Constructor} {t : Session} : Gives (do
      let raw ← runFor again name (env.construct c f name m)
      let processors := (← theFactory f).processors
      let readied ← processors.foldlM (fun i p => do
        runFor again name (env.before ((← get).processor p) i name)) raw
      let finished ← processors.foldlM (fun i p => do
        runFor again name (env.after ((← get).processor p) i name)) readied
      write (.constructed f name finished)
      return finished : Act Instance) t fun i t => ∃ old, t.record = .constructed f name i :: old := by
    refine gives_bind.2 (gives_of_forall fun raw t => gives_bind.2 (gives_of_forall fun F t => ?_))
    refine gives_bind.2 (gives_of_forall fun readied t => gives_bind.2 (gives_of_forall fun finished t => ?_))
    exact gives_bind.2 (gives_liftState.2 (gives_pure.2 ⟨_, rfl⟩))
  unfold createBean
  refine gives_bind.2 (gives_liftState.2 ?_)
  rw [theFactory_apply]
  dsimp only
  split
  · exact gives_bind.2 (gives_liftState.2 (gives_bind.2 (gives_liftState.2 hrest)))
  · exact gives_throw

theorem keeps_createBean (cover : M.CoversMaking U) (h : env.KeepCreation M U again) (hf : f ∈ U)
    (hm : m.isSingleton = false) : Keeps M (createBean env again f name m).run :=
  fun _ hs => yields_createBean cover h hf hs fun e => by rw [hm] at e; cases e

theorem keeps_initializeDependencies (cover : M.CoversMaking U)
    (hlookup : ∀ f ∈ U, ∀ name, Keeps M (again.lookup f name).run) (hf : f ∈ U) :
    Keeps M (initializeDependencies again f name m).run := by
  unfold initializeDependencies
  refine keeps_run_forM fun dependency _ => keeps_run_theFactory.run_bind fun F => ?_
  refine Keeps.run_unless (Keeps.run_bind (fun s hs => cover.leads_writeNotices hs) fun _ => ?_)
  refine (cover.keeps_run_lift fun s => .addEdge hf).run_bind fun _ => ?_
  refine (hlookup f hf dependency).run_attempt.run_bind fun r => ?_
  split
  · exact keeps_run_pure
  · exact keeps_run_throw

/-- What is done while a flag is set is covered, if the body is in the session with the flag. -/
theorem leads_whileHolding (cover : M.CoversMaking U) {g : Guard} {body : Act α} (hf : f ∈ U)
    (hs : M.Start s) (h : ∀ singletons, (s.factory f).singletons.acquire g = .ok singletons →
      Yields True body.run (s.setFactory f { s.factory f with singletons }) fun _ t =>
        M.Leads (s.setFactory f { s.factory f with singletons }) t) :
    Yields True (whileHolding f g body).run s fun _ t => M.Leads s t := by
  rw [yields_whileHolding]
  cases hg : (s.factory f).singletons.acquire g with
  | error e => exact M.refl s
  | ok singletons => exact (h _ hg).mono fun _ t ht => cover.unhold hs hf hg ht

theorem keeps_whileHolding (cover : M.CoversMaking U) {g : Guard} {body : Act α} (hf : f ∈ U)
    (h : Keeps M body.run) : Keeps M (whileHolding f g body).run :=
  fun _ hs => leads_whileHolding cover hf hs fun _ hg => h _ (cover.hold hs hf hg)

theorem keeps_createSingleton (cover : M.CoversMaking U) (h : env.KeepCreation M U again) (hf : f ∈ U)
    (hmerged : M.Merged f name m) (hm : m.isSingleton = true) :
    Keeps M (createSingleton env again f name m).run := by
  intro s hs
  unfold createSingleton
  rw [yields_run_bind, yields_run_liftState, theFactory_apply]
  dsimp only
  split
  · exact M.refl s
  · rw [whileCreatingSingleton_eq]
    split
    · exact M.refl s
    · next hopen =>
      refine leads_whileHolding cover hf hs fun singletons hg => ?_
      have hs' := cover.hold hs hf hg
      -- The flag of the bean is all that has changed.
      have hopen' : ((s.setFactory f { s.factory f with singletons }).factory f).singletons.inDestruction
          = false := by
        rw [proj_setFactory (p := fun F => F.singletons.inDestruction)
          (SingletonRegistry.inDestruction_of_acquire hg)]
        simpa using hopen
      rw [yields_run_bind]
      refine (yields_createBean cover h hf hs' fun _ => hopen').mono fun r t ht => ?_
      cases r with
      | error e => exact ht
      | ok made =>
        refine ((cover.keeps_run_note.run_bind fun _ => fun u hu => ?_) t (M.start hs' ht)).mono
          fun _ _ hu => M.trans hs' ht hu
        exact cover.cache hu hf hmerged hm

theorem SingletonRegistry.get?_add {r : SingletonRegistry} :
    (r.add name i).2.get? name = some (r.add name i).1 := by
  unfold SingletonRegistry.add
  split
  · next h => exact h
  · exact OrderedMap.get?_insert.trans (if_pos rfl)

theorem SingletonRegistry.get?_add_of_ne {r : SingletonRegistry} {x : String} (h : x ≠ name) :
    (r.add name i).2.get? x = r.get? x := by
  unfold SingletonRegistry.add
  split
  · rfl
  · exact OrderedMap.get?_insert_of_ne h

/-- The singleton that counts is in the cache, whether it is the one offered or was there before. -/
theorem singleton?_addSingleton_self (hf : f < s.factories.length) :
    (s.addSingleton f name i).singleton? f name = some ((s.factory f).singletons.add name i).1 := by
  rw [Session.singleton?, addSingleton, factory_setFactory_self hf]
  exact SingletonRegistry.get?_add

theorem singleton?_finish {g : Guard} {h : FactoryId} :
    (s.modifyFactory f fun F => { F with singletons := F.singletons.release g }).singleton? h name =
      s.singleton? h name := by
  rw [modifyFactory_eq_setFactory]
  refine proj_setFactory (p := fun F => F.singletons.get? name) ?_
  exact congrArg (fun objects => OrderedMap.get? objects name) SingletonRegistry.objects_release

theorem gives_createSingleton_cached : Gives (createSingleton env again f name m) s fun i t =>
    f < t.factories.length → t.singleton? f name = some i := by
  unfold createSingleton
  simp only [gives_bind, gives_liftState, theFactory_apply]
  split
  · next i hi => exact gives_pure.2 fun _ => hi
  · rw [whileCreatingSingleton_eq]
    refine gives_unless (yields_whileHolding.2 ?_)
    split
    · exact fun _ he => by cases he
    · rw [yields_run_bind]
      refine yields_true_iff.2 fun r t _ => ?_
      cases r with
      | error e => exact fun _ he => by cases he
      | ok made =>
        rintro i ⟨⟩ hf
        rw [length_modifyFactory] at hf
        have hf' : f < t.factories.length := by simpa using hf
        exact singleton?_finish.trans (singleton?_addSingleton_self hf')

/-- Makes a bean of a definition, when what it depends on has been looked up. -/
def makeOfKind (env : Collaborators) (again : Reentry) (f : FactoryId) (name : String)
    (m : MergedDefinition) : Act Instance :=
  if m.isSingleton then do
    let i ← createSingleton env again f name m
    write (.handedOut f name i)
    return i
  else if m.isPrototype then whileCreatingPrototype f name (createBean env again f name m)
  else createScoped env again f name m

/-- What is made of a definition is made of its kind, in some session that the making leads to. -/
theorem gives_makeDefined_of_kind (cover : M.CoversMaking U)
    (hlookup : ∀ f ∈ U, ∀ name, Keeps M (again.lookup f name).run) (hf : f ∈ U) (hs : M.Start s)
    (hmerged : Gives (mergedOwn f name) s fun merged _ => merged.definition = m)
    {Q : Instance → Session → Prop}
    (h : ∀ t, M.Leads s t → Gives (makeOfKind env again f name m) t Q) :
    Gives (makeDefined env again f name) s Q := by
  unfold makeDefined
  refine gives_bind.2 (((cover.keeps_run_mergedOwn hf s hs).and hmerged).mono ?_)
  rintro r t ⟨hst, hdefinition⟩ merged hr
  obtain rfl : merged.definition = m := hdefinition merged hr
  refine gives_unless (gives_bind.2 ?_)
  refine Yields.mono (keeps_initializeDependencies cover hlookup hf t (M.start hs hst)) ?_
  exact fun _ u htu _ _ => h u (M.trans hs hst htu)

theorem keeps_makeDefined (cover : M.CoversMaking U) (h : env.KeepMaking M U again)
    (hlookup : ∀ f ∈ U, ∀ name, Keeps M (again.lookup f name).run) (hf : f ∈ U) :
    Keeps M (makeDefined env again f name).run := by
  unfold makeDefined
  refine keeps_run_bind_of (cover.keeps_run_mergedOwn hf) (fun s hs => cover.merged hs hf)
    fun merged hmerged => ?_
  refine Keeps.run_unless ((keeps_initializeDependencies cover hlookup hf).run_bind fun _ => ?_)
  split
  · next hsingleton =>
    intro s hs
    rw [yields_run_bind]
    refine ((keeps_createSingleton cover h.toKeepCreation hf hmerged hsingleton s hs).and
      gives_createSingleton_cached).mono ?_
    rintro r t ⟨ht, hcached⟩
    cases r with
    | error e => exact ht
    | ok i => exact M.trans hs ht (cover.making (M.start hs ht) (.handOut hf (hcached i rfl)))
  · next hsingleton =>
    rw [Bool.not_eq_true] at hsingleton
    split
    · rw [whileCreatingPrototype_eq]
      exact keeps_whileHolding cover hf (keeps_createBean cover h.toKeepCreation hf hsingleton)
    · exact h.inScope f hf name _ hmerged hsingleton

/-- What a route says of the factory that it leads to. -/
def Route.Fits (s : Session) (chain : List FactoryId) : Route → Prop
  | cached g n i => g ∈ chain ∧ s.singleton? g n = some i
  | defined g n => g ∈ chain ∧ s.singleton? g n = none
  | busy _ | nowhere _ => True

theorem Route.Fits.above {chain : List FactoryId} {r : Route} (h : r.Fits s chain) :
    r.Fits s (f :: chain) := by
  cases r with
  | cached g n i => exact ⟨List.mem_cons_of_mem _ h.1, h.2⟩
  | defined g n => exact ⟨List.mem_cons_of_mem _ h.1, h.2⟩
  | busy | nowhere => trivial

theorem fits_route : ∀ {chain : List FactoryId} {name : String}, (s.route chain name).Fits s chain
  | [], _ => trivial
  | f :: ancestors, name => by
    unfold Session.route
    simp only
    split
    · next i hi => exact ⟨List.mem_cons_self, hi⟩
    · next hnone =>
      split
      · trivial
      · split
        · exact ⟨List.mem_cons_self, hnone⟩
        · cases ancestors with
          | nil => trivial
          | cons g above => exact fits_route.above

theorem yields_follow (cover : M.CoversMaking U) (h : env.KeepMaking M U again)
    (hlookup : ∀ f ∈ U, ∀ name, Keeps M (again.lookup f name).run) (hs : M.Start s)
    {chain : List FactoryId} (hchain : ∀ g ∈ chain, g ∈ U) :
    Yields True (follow env again (s.route chain name)).run s fun _ t => M.Leads s t := by
  have hfits : (s.route chain name).Fits s chain := fits_route
  cases hr : s.route chain name with
  | cached owner bean i =>
    rw [hr] at hfits
    exact cover.making hs (.handOut (hchain _ hfits.1) fun _ => hfits.2)
  | busy => exact M.refl s
  | defined owner bean =>
    rw [hr] at hfits
    have howner := hchain _ hfits.1
    have hmiss := cover.making hs (.miss howner hfits.2)
    exact (keeps_makeDefined cover h hlookup howner _ (M.start hs hmiss)).mono
      fun _ _ ht => M.trans hs hmiss ht
  | nowhere => exact M.refl s

/-- **A manner that covers the making of beans covers lookups.** -/
theorem keeps_lookup (cover : M.CoversMaking U) (h : env.KeepMaking M U again)
    (hlookup : ∀ f ∈ U, ∀ name, Keeps M (again.lookup f name).run) (hf : f ∈ U) :
    Keeps M (lookup env again f name).run := by
  intro s hs
  unfold lookup
  rw [yields_run_bind, yields_run_get]
  exact yields_follow cover h hlookup hs (cover.mem_chain hs hf)

/-! ## Making all singletons -/

theorem keeps_preInstantiateOne (cover : M.CoversMaking U) (h : env.KeepMaking M U again)
    (hlookup : ∀ f ∈ U, ∀ name, Keeps M (again.lookup f name).run) (hf : f ∈ U) :
    Keeps M (preInstantiateOne env again f name).run := by
  unfold preInstantiateOne
  refine (cover.keeps_run_mergedOwn hf).run_bind fun merged => ?_
  dsimp only
  split
  · exact keeps_run_pure
  · refine (keeps_lookup cover h hlookup hf).run_attempt.run_bind fun r => ?_
    split
    · exact keeps_run_pure
    · exact cover.keeps_run_note.run_bind fun _ => keeps_run_throw

theorem keeps_announceTo (cover : M.CoversMaking U) (h : env.KeepMaking M U again) (hf : f ∈ U) :
    Keeps M (announceTo env again f name).run := by
  have hself {g} (h : some f = some g) : g ∈ U := by cases h; exact hf
  unfold announceTo
  refine keeps_run_theFactory.run_bind fun F => ?_
  split
  · split
    · exact cover.keeps_run_note.run_bind fun _ =>
        (cover.keeps_run_write (.announced f name _) rfl fun _ => hself).run_bind fun _ =>
        keeps_run_get.run_bind fun s => keeps_runFor (h.ready _ _)
    · exact keeps_run_pure
  · exact keeps_run_pure

theorem keeps_preInstantiate (cover : M.CoversMaking U) (h : env.KeepMaking M U again)
    (hlookup : ∀ f ∈ U, ∀ name, Keeps M (again.lookup f name).run) (hf : f ∈ U) :
    Keeps M (preInstantiate env again f).run := by
  unfold preInstantiate
  refine cover.keeps_run_note.run_bind fun _ => keeps_run_theFactory.run_bind fun F => ?_
  refine (keeps_run_forM fun _ _ => keeps_preInstantiateOne cover h hlookup hf).run_bind fun _ => ?_
  refine keeps_run_theFactory.run_bind fun F' => ?_
  exact (keeps_run_forM fun _ _ => keeps_announceTo cover h hf).run_bind fun _ => cover.keeps_run_note

end BeanContainer
