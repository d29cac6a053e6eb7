import BeanContainer.Proofs.Needs
import BeanContainer.Proofs.Reading
import BeanContainer.Proofs.Scopes

/-!
Factories and a scope that their beans are kept in.

A bean gets its callback only after the scope keeps it, and both come late: its
making is over by then, and may have taken other beans of the scope, taken them
out again, or cleared the scope. What carries the pairing through is that while
a bean counts as in the making nobody else can put it into the scope. So the
instance that was made is the one that is kept, and gets the callback.
-/

namespace BeanContainer

open Session

/-! ## What does not change -/

/-- Whether an instance has to hear of its end, in a session, as far as a factory is concerned. -/
def Session.requires (s : Session) (env : Collaborators) (f : FactoryId) (i : Instance) : Bool :=
  (requiresDestruction env f i s).1

/-- A bean of a factory belongs to a scope that the factory has registered. -/
def Session.BelongsTo (s : Session) (f : FactoryId) (n : String) (k : ScopeId) : Prop :=
  ∃ m, s.Own f n m ∧ m.isSingleton = false ∧ (s.factory f).scopes.get? m.scope = some k

/-- Nothing has changed that beans are made by: definitions, post-processors, labels. -/
structure Session.SameSetup (U : Set FactoryId) (s t : Session) : Prop extends s.Reads U t where
  processors : t.processors = s.processors
  factoryLabels : t.factoryLabels = s.factoryLabels
  scopeLabels : t.scopeLabels = s.scopeLabels

namespace Session.SameSetup

variable {U : Set FactoryId} {s t u : Session} {f : FactoryId} {env : Collaborators} {i : Instance}

theorem refl (s : Session) : s.SameSetup U s :=
  { Reads.refl s with processors := rfl, factoryLabels := rfl, scopeLabels := rfl }

theorem trans (hl : s.Linked U) (h : s.SameSetup U t) (h' : t.SameSetup U u) : s.SameSetup U u :=
  { h.toReads.trans hl h'.toReads with
    processors := h'.processors.trans h.processors
    factoryLabels := h'.factoryLabels.trans h.factoryLabels
    scopeLabels := h'.scopeLabels.trans h.scopeLabels }

theorem of_reads (h : s.Reads U t) (same : t = { s with
    factories := t.factories, scopes := t.scopes, made := t.made, merges := t.merges, answered := t.answered
    record := t.record }) : s.SameSetup U t :=
  { h with
    processors := (congrArg Session.processors same :)
    factoryLabels := (congrArg Session.factoryLabels same :)
    scopeLabels := (congrArg Session.scopeLabels same :) }

theorem of_change (h : s.BeanChange U t) : s.SameSetup U t := .of_reads h.reads h.same

theorem of_merged (h : s.Merged U t) : s.SameSetup U t := .of_reads h.toReads (by rw [h.same])

theorem scopes (h : s.SameSetup U t) : (t.factory f).scopes = (s.factory f).scopes :=
  (congrArg Factory.scopes (h.recipe f) :)

theorem factoryProcessors (h : s.SameSetup U t) : (t.factory f).processors = (s.factory f).processors :=
  (congrArg Factory.processors (h.recipe f) :)

theorem requires (h : s.SameSetup U t) : t.requires env f i = s.requires env f i := by
  change (_ || (t.factory f).processors.any fun p => (env.caresFor (t.processors.getD p default)).any _) =
    (_ || (s.factory f).processors.any fun p => (env.caresFor (s.processors.getD p default)).any _)
  rw [h.factoryProcessors, h.processors]

end Session.SameSetup

/-- A scope that factories have registered, in the session that runs start from. Where factories share a
scope, the name of a bean there tells whose bean it is; destroy callbacks do not turn to the session. -/
structure ScopeHost where
  env : Collaborators
  U : Set FactoryId
  origin : Session
  k : ScopeId
  maker : ScopeId → String → FactoryId
  linked : origin.Linked U
  apart : ∀ g ∈ U, ∀ n j, origin.BelongsTo g n j → maker j n = g
  quiet : env.QuietEnds

namespace ScopeHost

variable (H : ScopeHost) {s t u : Session} {g : FactoryId} {n : String} {i made : Instance} {j : ScopeId}

/-- Whether the instance that is kept under a name has to hear of its end. -/
def required (e : String × Instance) : Bool := H.origin.requires H.env (H.maker H.k e.1) e.2

/-- The post-processors that a bean is made with. -/
def processors (n : String) : List ProcessorId := (H.origin.factory (H.maker H.k n)).processors

/-- A session in which the scope may be used: all is set up as it was, and the scope is paired. -/
structure Serves (s : Session) : Prop where
  setup : H.origin.SameSetup H.U s
  paired : (s.scope H.k).Paired H.required H.processors

/-- What the use of the scope does to a session. The record accounts for what is kept. -/
structure Tends (s t : Session) : Prop where
  setup : s.SameSetup H.U t
  paired : (s.scope H.k).Paired H.required H.processors → (t.scope H.k).Paired H.required H.processors
  flags : ∀ g, (s.factory g).singletons.SameFlags (t.factory g).singletons
  /-- Nobody puts a bean that is in the making into its scope. -/
  unkept : ∀ g ∈ H.U, ∀ n ∈ (s.factory g).singletons.prototypesInCreation.toList, ∀ j,
    H.origin.BelongsTo g n j → (s.scope j).get? n = none → (t.scope j).get? n = none
  singletons : ∀ g ∈ H.U, ∀ n, H.origin.BelongsTo g n H.k → t.singleton? g n = s.singleton? g n
  told : ∃ new, t.record = new ++ s.record ∧
    ScopeAccount H.required (H.maker H.k) H.k s.record (s.scope H.k).stored (t.scope H.k).stored new

variable {H}

namespace Tends

theorem refl (s : Session) : H.Tends s s where
  setup := .refl s
  paired h := h
  flags _ := ⟨rfl, rfl⟩
  unkept _ _ _ _ _ _ h := h
  singletons _ _ _ _ := rfl
  told := ⟨[], rfl, .of_aside (by simp)⟩

theorem trans (hl : s.Linked H.U) (h : H.Tends s t) (h' : H.Tends t u) : H.Tends s u where
  setup := h.setup.trans hl h'.setup
  paired hp := h'.paired (h.paired hp)
  flags g := (h.flags g).trans (h'.flags g)
  unkept g hg n hn j hj hnone := by
    refine h'.unkept g hg n ?_ j hj (h.unkept g hg n hn j hj hnone)
    rwa [(h.flags g).prototypes]
  singletons g hg n hn := (h'.singletons g hg n hn).trans (h.singletons g hg n hn)
  told := by
    obtain ⟨new, e, hnew⟩ := h.told
    obtain ⟨new', e', hnew'⟩ := h'.told
    exact ⟨new' ++ new, by rw [e', e, List.append_assoc], hnew.trans (e ▸ hnew')⟩

theorem of_scopes (setup : s.SameSetup H.U t) (scopes : t.scopes = s.scopes)
    (flags : ∀ g, (s.factory g).singletons.SameFlags (t.factory g).singletons)
    (singletons : ∀ g ∈ H.U, ∀ n, H.origin.BelongsTo g n H.k → t.singleton? g n = s.singleton? g n)
    (new : List Occurrence) (told : t.record = new ++ s.record)
    (aside : ∀ o ∈ new, o.concerns H.k = false) : H.Tends s t := by
  have hscope (j) : t.scope j = s.scope j := by unfold scope; rw [scopes]
  exact { setup, flags, singletons
          paired := fun h => by rwa [hscope]
          unkept := fun _ _ _ _ j _ h => by rwa [hscope]
          told := ⟨new, told, by rw [hscope]; exact .of_aside aside⟩ }

theorem of_factories (setup : s.SameSetup H.U t) (scopes : t.scopes = s.scopes)
    (factories : t.factories = s.factories) (new : List Occurrence) (told : t.record = new ++ s.record)
    (aside : ∀ o ∈ new, o.concerns H.k = false) : H.Tends s t := by
  have hf (g) : t.factory g = s.factory g := by unfold factory; rw [factories]
  exact of_scopes setup scopes (fun g => by rw [hf]; exact ⟨rfl, rfl⟩)
    (fun g _ n _ => by unfold singleton?; rw [hf]) new told aside

theorem of_merged (h : s.Merged H.U t) : H.Tends s t := by
  obtain ⟨new, told, hnew⟩ := h.remarked
  have hsingletons (g) : (t.factory g).singletons = (s.factory g).singletons := by rw [h.factory]
  refine of_scopes (.of_merged h) (congrArg Session.scopes h.same :)
    (fun g => by rw [hsingletons]; exact ⟨rfl, rfl⟩)
    (fun g _ n _ => by unfold singleton?; rw [hsingletons]) new told fun o ho => ?_
  have := hnew o ho
  cases o <;> first | rfl | cases this

/-- Making beans does not touch scopes, as long as none of them is finished. -/
theorem of_making (h : s.MakingChange H.U t) : H.Tends s t := by
  have setup : s.SameSetup H.U t := .of_change (.making h)
  cases h with
  | count => exact of_factories setup rfl rfl [] rfl (by simp)
  | @tell o ho =>
    refine of_factories setup rfl rfl [o] rfl fun o' ho' => ?_
    obtain rfl := List.mem_singleton.1 ho'
    cases o' <;> first | rfl | cases ho
  | @construct g n m =>
    exact of_factories setup rfl rfl [.constructing g n, .notice (.creating n m.scope)] rfl
      (by simp [Occurrence.concerns])
  | @addEdge g d n =>
    have hsingletons (g') : ((s.addEdge g d n).factory g').singletons = (s.factory g').singletons := by
      rw [addEdge, modifyFactory_eq_setFactory]
      exact proj_setFactory (p := Factory.singletons) rfl
    exact of_scopes setup rfl (fun g' => by rw [hsingletons]; exact ⟨rfl, rfl⟩)
      (fun g _ n _ => by unfold singleton?; rw [hsingletons]) [] rfl (by simp)
  | @miss g n => exact of_factories setup rfl rfl [.missed g n] rfl (by simp [Occurrence.concerns])
  | @handOut g n i => exact of_factories setup rfl rfl [.handedOut g n i] rfl (by simp [Occurrence.concerns])

theorem of_cache {m : MergedDefinition} (hg : g ∈ H.U) (hown : H.origin.Own g n m)
    (hm : m.isSingleton = true) : H.Tends s ((s.write (.cached g n made)).addSingleton g n made) := by
  have hadd (r : SingletonRegistry) : r.SameFlags (r.add n made).2 := by
    unfold SingletonRegistry.add
    split <;> exact ⟨rfl, rfl⟩
  refine of_scopes (.of_change (.cache hg)) rfl (fun g' => ?_) (fun g' _ x hx => ?_) [.cached g n made] rfl
    (by simp [Occurrence.concerns])
  · exact rel_setFactory (R := fun F F' => F.singletons.SameFlags F'.singletons)
      (fun _ => ⟨rfl, rfl⟩) (hadd _)
  · by_cases hgg : g' = g
    · subst hgg
      have hne : x ≠ n := by
        rintro rfl
        obtain ⟨m', hown', hm', -⟩ := hx
        obtain rfl := own_unique hown' hown
        rw [hm] at hm'
        cases hm'
      refine proj_setFactory (p := fun F => F.singletons.get? x) ?_
      exact SingletonRegistry.get?_add_of_ne hne
    · unfold singleton?
      rw [addSingleton, factory_setFactory_of_ne hgg]
      rfl

end Tends

theorem Serves.linked (h : H.Serves s) : s.Linked H.U := h.setup.linked H.linked

theorem Serves.tend (h : H.Serves s) (ht : H.Tends s t) : H.Serves t where
  setup := h.setup.trans H.linked ht.setup
  paired := ht.paired h.paired

/-- The manner in which the scope is used. -/
def hosting (H : ScopeHost) : Manner where
  Start := H.Serves
  Leads := H.Tends
  Merged := H.origin.Own
  refl := .refl
  trans hs h h' := h.trans hs.linked h'
  start hs h := hs.tend h

theorem sameFlags_unhold {guard : Guard} {singletons : SingletonRegistry}
    (hacquire : (s.factory g).singletons.acquire guard = .ok singletons)
    (hlen : t.factories.length = s.factories.length)
    (h : ∀ g', ((s.setFactory g { s.factory g with singletons }).factory g').singletons.SameFlags
      (t.factory g').singletons) (g' : FactoryId) :
    (s.factory g').singletons.SameFlags ((t.modifyFactory g fun F =>
      { F with singletons := F.singletons.release guard }).factory g').singletons := by
  have hbody := h g'
  by_cases hg' : g' = g
  · subst hg'
    by_cases hg : g' < s.factories.length
    · rw [factory_setFactory_self hg] at hbody
      rw [factory_modifyFactory_self (hlen ▸ hg)]
      exact .release hacquire hbody
    · have hle : t.factories.length ≤ g' := hlen ▸ Nat.le_of_not_lt hg
      rw [factory_of_length_le (s := t.modifyFactory g' _) (by rwa [length_modifyFactory]),
        factory_of_length_le (hlen ▸ hle)]
      exact ⟨rfl, rfl⟩
  · rw [factory_setFactory_of_ne hg'] at hbody
    rwa [factory_modifyFactory_of_ne hg']

/-- **The use of a scope covers the making of beans.** -/
theorem covers_hosting : H.hosting.CoversMaking H.U where
  making _ h := .of_making h
  cache _ hg hown hm := .of_cache hg hown hm
  hold hs hg hacquire := ⟨hs.setup.trans H.linked (.of_change (.begin hg hacquire)), hs.paired⟩
  unhold {s t g guard singletons} hs hg hacquire ht := by
    have hheld : s.SameSetup H.U (s.setFactory g { s.factory g with singletons }) :=
      .of_change (.begin hg hacquire)
    have hst := hheld.trans hs.linked ht.setup
    have hlen : t.factories.length = s.factories.length := hst.length
    refine { setup := hst.trans hs.linked (.of_change (.finish hg)), paired := ht.paired
             flags := sameFlags_unhold hacquire hlen ht.flags
             unkept := fun g' hg' n hn => ht.unkept g' hg' n ?_
             singletons := fun g' hg' n hn => ?_, told := ht.told }
    · exact rel_setFactory (R := fun F F' => n ∈ F.singletons.prototypesInCreation.toList →
        n ∈ F'.singletons.prototypesInCreation.toList) (fun _ => id)
        (SingletonRegistry.prototypes_subset_of_acquire hacquire) hn
    · refine singleton?_finish.trans ((ht.singletons g' hg' n hn).trans ?_)
      refine proj_setFactory (p := fun F => F.singletons.get? n) ?_
      exact congrArg (fun objects => OrderedMap.get? objects n)
        (SingletonRegistry.objects_of_acquire hacquire)
  parent hs hg hp := (hs.linked _ hg _ hp).1
  ownMerges hs hg := (ends_mergedOwn hs.linked hg).mono fun _ _ h => .of_merged h.1
  merges hs hg := (ends_mergedDefinition hs.linked hg).mono fun _ _ h => .of_merged h.1
  merged {s g n} hs hg := by
    refine (ends_mergedOwn hs.linked hg).mono fun r t h ref hr => ?_
    have hown : s.Own g n ref.definition := (h.2 _).2 ⟨ref, hr, rfl⟩
    exact (hs.setup.own_iff H.linked hg).1 hown

/-! ## Beans come to their scope -/

theorem Serves.lt (h : H.Serves s) : H.k < s.scopes.length := by
  by_contra hlen
  have hdefault : s.scope H.k = .transient [] := by
    unfold scope
    rw [List.getD_eq_getElem?_getD, List.getElem?_eq_none (Nat.le_of_not_lt hlen)]
    rfl
  have hpaired := h.paired
  rw [hdefault] at hpaired
  exact hpaired

variable (H) in
/-- A session after a scope was offered an instance that is new to it, which got its callback. -/
def receive (s : Session) (g : FactoryId) (j : ScopeId) (n : String) (made : Instance) : Session :=
  let kept := (s.keepIn j n made).2
  if kept.requires H.env g made then
    kept.setScope j ((kept.scope j).addCallback n (.destroyBean n made (kept.factory g).processors))
  else kept

theorem factories_receive : (H.receive s g j n made).factories = s.factories := by
  unfold receive
  dsimp only
  split <;> exact factories_keepIn

theorem record_receive : (H.receive s g j n made).record = (s.keepIn j n made).2.record := by
  unfold receive
  dsimp only
  split <;> rfl

theorem setup_receive (hl : s.Linked H.U) : s.SameSetup H.U (H.receive s g j n made) := by
  have hkept : s.SameSetup H.U (s.keepIn j n made).2 := .of_change .keep
  unfold receive
  dsimp only
  split
  · exact hkept.trans hl (.of_change .addCallback)
  · exact hkept

theorem scope_receive_of_ne {l : ScopeId} (h : l ≠ j) : (H.receive s g j n made).scope l = s.scope l := by
  have hkept : (s.keepIn j n made).2.scope l = s.scope l := by rw [scope_keepIn, scope_setScope_of_ne h]
  unfold receive
  dsimp only
  split
  · rw [scope_setScope_of_ne h, hkept]
  · exact hkept

theorem get?_receive_of_ne {x : String} {l : ScopeId} (h : x ≠ n) :
    ((H.receive s g j n made).scope l).get? x = (s.scope l).get? x := by
  have hkept : ((s.keepIn j n made).2.scope l).get? x = (s.scope l).get? x := by
    rw [scope_keepIn]
    exact proj_setScope (p := fun scope => scope.get? x) (Scope.get?_keep_of_ne h)
  unfold receive
  dsimp only
  split
  · exact (proj_setScope (p := fun scope => scope.get? x) Scope.get?_addCallback).trans hkept
  · exact hkept

/-- The scope of the host keeps the instance, with its callback if it needs one. -/
theorem scope_receive (hs : H.Serves s) (hmaker : H.maker H.k n = g) :
    (H.receive s g H.k n made).scope H.k =
      if H.required (n, made) then
        ((s.scope H.k).keep n made).2.addCallback n (.destroyBean n made (H.processors n))
      else ((s.scope H.k).keep n made).2 := by
  have hsetup : H.origin.SameSetup H.U (s.keepIn H.k n made).2 :=
    hs.setup.trans H.linked (.of_change .keep)
  have hkept : (s.keepIn H.k n made).2.scope H.k = ((s.scope H.k).keep n made).2 := by
    rw [scope_keepIn, scope_setScope_self hs.lt]
  have hlen : H.k < (s.keepIn H.k n made).2.scopes.length := by
    have hscopes : (s.keepIn H.k n made).2.scopes.length = s.scopes.length := by
      unfold keepIn
      dsimp only
      split <;> exact List.length_set
    rw [hscopes]
    exact hs.lt
  have hrequires : (s.keepIn H.k n made).2.requires H.env g made = H.required (n, made) := by
    rw [hsetup.requires, required, hmaker]
  unfold receive
  dsimp only
  rw [hrequires, hsetup.factoryProcessors, hkept, processors, hmaker]
  split
  · exact scope_setScope_self hlen
  · exact hkept

/-- **What was made for a bean that nobody else could make comes to its scope**, with its callback. -/
theorem tends_receive (hs : H.Serves s) (hg : g ∈ H.U) (hj : H.origin.BelongsTo g n j)
    (hnone : (s.scope j).get? n = none)
    (hflag : n ∉ (s.factory g).singletons.prototypesInCreation.toList)
    (hdone : ∃ old, s.record = .constructed g n made :: old) :
    H.Tends s (H.receive s g j n made) ∧
      (j = H.k → ((H.receive s g j n made).scope H.k).get? n = some made) := by
  have hfactory (g') : (H.receive s g j n made).factory g' = s.factory g' := by
    unfold factory
    rw [factories_receive]
  have hmaker := H.apart g hg n j hj
  have hcommon (paired) (told) : H.Tends s (H.receive s g j n made) :=
    { setup := setup_receive hs.linked, paired, told
      flags := fun g' => by rw [hfactory]; exact ⟨rfl, rfl⟩
      unkept := fun g' hg' x hx l hl hxnone => by
        by_cases hxn : x = n
        · -- The one bean that comes to its scope is not in the making any more.
          have hlj : l ≠ j := by
            rintro rfl
            obtain rfl := hxn
            obtain rfl : g = g' := hmaker.symm.trans (H.apart g' hg' _ _ hl)
            exact hflag hx
          rwa [scope_receive_of_ne hlj]
        · rwa [get?_receive_of_ne hxn]
      singletons := fun g' _ x _ => by unfold singleton?; rw [hfactory] }
  by_cases hjk : j = H.k
  · subst hjk
    obtain ⟨hpaired, hstored, hfound⟩ := hs.paired.keep (i := made) hnone
    have hnew : (H.receive s g H.k n made).record = [.kept H.k n made] ++ s.record := by
      rw [record_receive, record_keepIn, if_pos ⟨hnone, hfound⟩]
    refine ⟨hcommon (fun _ => ?_) ⟨_, hnew, ?_⟩, fun _ => ?_⟩
    · rw [scope_receive hs hmaker]
      exact hpaired
    · have hafter : ((H.receive s g H.k n made).scope H.k).stored = (s.scope H.k).stored ++ [(n, made)] := by
        rw [scope_receive hs hmaker, ← hstored]
        split
        · exact Scope.stored_addCallback
        · rfl
      rw [hafter]
      exact .kept (hmaker ▸ hdone)
    · rw [scope_receive hs hmaker]
      split
      · exact Scope.get?_addCallback.trans hfound
      · exact hfound
  · have hscope : (H.receive s g j n made).scope H.k = s.scope H.k := scope_receive_of_ne (Ne.symm hjk)
    refine ⟨hcommon (fun h => by rwa [hscope]) ?_, fun e => absurd e hjk⟩
    refine ⟨_, record_receive.trans record_keepIn, ?_⟩
    rw [hscope]
    refine .of_aside fun o ho => ?_
    split at ho
    · obtain rfl := List.mem_singleton.1 ho
      simpa [Occurrence.concerns] using hjk
    · simp at ho

/-! ## Making the beans of a scope -/

variable {again : Reentry} {m : MergedDefinition}

/-- While a bean of a scope is made, nobody else puts one there under its name. -/
theorem yields_make (h : H.env.KeepCreation H.hosting H.U again) (hg : g ∈ H.U)
    (hm : m.isSingleton = false) (hs : H.Serves s) (hj : H.origin.BelongsTo g n j)
    (hnone : (s.scope j).get? n = none) :
    Yields True (whileHolding g (.prototype n) (createBean H.env again g n m)).run s fun r t =>
      H.Tends s t ∧ ∀ i, r = .ok i → (t.scope j).get? n = none ∧
        n ∉ (t.factory g).singletons.prototypesInCreation.toList ∧
          ∃ old, t.record = .constructed g n i :: old := by
  -- A factory that has registered a scope exists.
  have hlen : g < s.factories.length := by
    by_contra hlt
    obtain ⟨m', -, -, hscope⟩ := hj
    rw [hs.setup.length] at hlt
    rw [factory_of_length_le (Nat.le_of_not_lt hlt)] at hscope
    cases hscope
  rw [yields_whileHolding]
  cases hacquire : (s.factory g).singletons.acquire (.prototype n) with
  | error e => exact ⟨.refl s, by simp⟩
  | ok singletons =>
    have hheld := covers_hosting.hold hs hg hacquire
    have hfree := (SingletonRegistry.acquire_eq_ok_iff.1 hacquire)
    refine ((yields_createBean covers_hosting h hg hheld fun e => ?_).and
      gives_createBean_constructed).mono ?_
    · rw [hm] at e
      cases e
    · rintro r t ⟨ht, hdone⟩
      have hst : H.Tends s _ := covers_hosting.unhold hs hg hacquire ht
      refine ⟨hst, fun i hi => ⟨?_, ?_, hdone i hi⟩⟩
      · refine ht.unkept g hg n ?_ j hj hnone
        rw [factory_setFactory_self hlen, hfree.2]
        exact OrderedSet.mem_insert.2 (.inr rfl)
      · rw [(hst.flags g).prototypes]
        exact hfree.1

/-- **The beans of a scope come to it when they are made, and stay the same until they leave.** -/
theorem yields_createScoped (h : H.env.KeepCreation H.hosting H.U again) (hg : g ∈ H.U)
    (hown : H.origin.Own g n m) (hm : m.isSingleton = false) (hs : H.Serves s) :
    Yields True (createScoped H.env again g n m).run s fun r t => H.Tends s t ∧
      ∀ i, r = .ok i → (H.origin.factory g).scopes.get? m.scope = some H.k →
        (t.scope H.k).get? n = some i := by
  unfold createScoped
  rw [yields_run_bind, yields_run_liftState, theFactory_apply]
  dsimp only
  rw [hs.setup.scopes]
  split
  · next j hj =>
    have hbelongs : H.origin.BelongsTo g n j := ⟨m, hown, hm, hj⟩
    rw [yields_run_bind]
    unfold Scope.getOrMake
    rw [yields_run_bind, yields_run_get]
    dsimp only
    split
    · next i hi =>
      refine ⟨.refl s, ?_⟩
      rintro _ ⟨⟩ hk
      obtain rfl : j = H.k := Option.some.inj (hj.symm.trans hk)
      exact hi
    · next hnone =>
      rw [yields_run_bind, whileCreatingPrototype_eq]
      refine (yields_make h hg hm hs hbelongs hnone).mono ?_
      rintro (e | made) t ⟨ht, hmade⟩
      · exact ⟨ht, by simp⟩
      · obtain ⟨hnone', hflag, hdone⟩ := hmade made rfl
        obtain ⟨hreceived, hfound⟩ := tends_receive (hs.tend ht) hg hbelongs hnone' hflag hdone
        have hcounts : (t.keepIn j n made).1 = made := Scope.keep_fst hnone'
        have hend : H.Tends s (H.receive t g j n made) ∧
            ∀ i, Except.ok made = (.ok i : Except BeanError _) →
              (H.origin.factory g).scopes.get? m.scope = some H.k →
              ((H.receive t g j n made).scope H.k).get? n = some i := by
          refine ⟨ht.trans hs.linked hreceived, ?_⟩
          rintro _ ⟨⟩ hk
          exact hfound (Option.some.inj (hj.symm.trans hk))
        simp only [yields_run_bind, yields_run_modifyGet, yields_run_pure, hcounts]
        rw [yields_run_liftState]
        change Yields True
          (ExceptT.run (if (t.keepIn j n made).2.requires H.env g made = true then _ else _)) _ _
        split
        · next hrequired =>
          rw [receive, if_pos hrequired] at hend
          exact hend
        · next hrequired =>
          rw [receive, if_neg hrequired] at hend
          exact hend
  · exact ⟨.refl s, by simp⟩

end ScopeHost

end BeanContainer
