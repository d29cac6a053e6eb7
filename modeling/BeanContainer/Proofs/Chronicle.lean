import BeanContainer.Proofs.Changes
import BeanContainer.Proofs.Needs
import Mathlib.Logic.Function.Basic

/-!
What becomes of the singletons in the cache of a factory, and which ones lookups
hand out. The record tells every arrival in the cache, every departure and every
lookup that is answered from it; `Chronicle` reads it entry by entry. Every
change of a session continues the chronicle of each factory, so in any run, with
collaborators that turn to the factory whenever they like, singletons are added
and removed but never replaced, and what is handed out is what is in the cache.
-/

namespace BeanContainer

open Relation Session Function

/-- What one entry of the record tells of the singletons `c` in the cache of a factory. -/
inductive Entry (f : FactoryId) (c : String → Option Instance) :
    Occurrence → (String → Option Instance) → Prop
  | added {n : String} {i : Instance} : c n = none → Entry f c (.cached f n i) (update c n (some i))
  /-- What is finished too late is not cached. -/
  | surplus {n : String} {i j : Instance} : c n = some j → Entry f c (.cached f n i) c
  | registered {n : String} {i : Instance} : c n = none →
      Entry f c (.registered f n i) (update c n (some i))
  | released {n : String} {i : Instance} : c n = some i → Entry f c (.released f n i) (update c n none)
  | missed {n : String} : c n = none → Entry f c (.missed f n) c
  | handedOut {n : String} {i : Instance} : c n = some i → Entry f c (.handedOut f n i) c
  /-- Something that is not about this cache. -/
  | aside {o : Occurrence} : (o.isOfCache = true → o.factory? ≠ some f) → Entry f c o c

/-- What the record tells of the cache of a factory, latest entry first: how its singletons `c`
became `d`, and what lookups found. -/
inductive Chronicle (f : FactoryId) (c : String → Option Instance) :
    List Occurrence → (String → Option Instance) → Prop
  | start : Chronicle f c [] c
  | next {new : List Occurrence} {d e : String → Option Instance} {o : Occurrence} :
      Chronicle f c new d → Entry f d o e → Chronicle f c (o :: new) e

variable {f g : FactoryId} {c d e : String → Option Instance} {new old : List Occurrence} {n : String}
  {i j : Instance} {o : Occurrence} {s t u : Session}

theorem Entry.stays (h : Entry f c o d) (hi : c n = some i) (hnot : ∀ j, o ≠ .released f n j) :
    d n = some i := by
  have hne {m : String} (hm : c m = none) : n ≠ m := by
    rintro rfl
    rw [hi] at hm
    cases hm
  cases h with
  | added hm => rwa [update_of_ne (hne hm)]
  | registered hm => rwa [update_of_ne (hne hm)]
  | @released m k _ =>
    rwa [update_of_ne]
    rintro rfl
    exact hnot k rfl
  | surplus | missed | handedOut | aside => exact hi

theorem Entry.unique (h : Entry f c o d) (h' : Entry f c o e) : d = e := by
  cases h with
  | aside ho =>
    cases h' with
    | aside => rfl
    | added | surplus | registered | released | missed | handedOut => exact absurd rfl (ho rfl)
  | added hn =>
    cases h' with
    | added => rfl
    | surplus hj => rw [hn] at hj; cases hj
    | aside ho => exact absurd rfl (ho rfl)
  | surplus hj =>
    cases h' with
    | added hn => rw [hn] at hj; cases hj
    | surplus => rfl
    | aside ho => exact absurd rfl (ho rfl)
  | registered | released | missed | handedOut =>
    cases h' with
    | aside ho => exact absurd rfl (ho rfl)
    | _ => rfl

namespace Chronicle

theorem single (h : Entry f c o d) : Chronicle f c [o] d := .next .start h

theorem trans (h : Chronicle f c old d) (h' : Chronicle f d new e) : Chronicle f c (new ++ old) e := by
  induction h' with
  | start => exact h
  | next _ he ih => exact .next ih he

theorem of_aside (h : ∀ o ∈ new, o.isOfCache = true → o.factory? ≠ some f) : Chronicle f c new c := by
  induction new with
  | nil => exact .start
  | cons o new ih => exact .next (ih fun o ho => h o (by simp [ho])) (.aside (h o (by simp)))

theorem split (h : Chronicle f c (new ++ old) e) : ∃ d, Chronicle f c old d ∧ Chronicle f d new e := by
  induction new generalizing e with
  | nil => exact ⟨e, h, .start⟩
  | cons o new ih =>
    cases h with
    | next h he =>
      obtain ⟨d, hc, hd⟩ := ih h
      exact ⟨d, hc, .next hd he⟩

theorem stays (h : Chronicle f c new d) (hi : c n = some i) (hnot : ∀ j, .released f n j ∉ new) :
    d n = some i := by
  induction h with
  | start => exact hi
  | next _ he ih =>
    have hi' := ih fun j hj => hnot j (.tail _ hj)
    exact he.stays hi' fun j e => hnot j (e ▸ .head _)

/-- The record tells what is in the cache. -/
theorem unique (h : Chronicle f c new d) (h' : Chronicle f c new e) : d = e := by
  induction h generalizing e with
  | start => cases h'; rfl
  | next _ he ih =>
    cases h' with
    | next h' he' =>
      obtain rfl := ih h'
      exact he.unique he'

theorem released_of_gone (h : Chronicle f c new d) (hi : c n = some i) (hgone : d n ≠ some i) :
    .released f n i ∈ new := by
  induction h with
  | start => exact absurd hi hgone
  | @next new d e o _ he ih =>
    by_cases hd : d n = some i
    · have ho : ∃ j, o = .released f n j := by
        by_contra hnot
        exact hgone (he.stays hd fun j e => hnot ⟨j, e⟩)
      obtain ⟨j, rfl⟩ := ho
      cases he with
      | released hj =>
        obtain rfl : j = i := Option.some.inj (hj.symm.trans hd)
        exact .head _
      | aside ho => exact absurd rfl (ho rfl)
    · exact .tail _ (ih hd)

theorem arrived (h : Chronicle f c new d) (hi : d n = some i) :
    c n = some i ∨ .cached f n i ∈ new ∨ .registered f n i ∈ new := by
  induction h with
  | start => exact .inl hi
  | @next new d e o _ he ih =>
    have later (hd : d n = some i) : c n = some i ∨ .cached f n i ∈ o :: new ∨ .registered f n i ∈ o :: new :=
      (ih hd).imp id (Or.imp (.tail _) (.tail _))
    cases he with
    | @added m j _ =>
      by_cases hm : n = m
      · subst hm
        rw [update_self] at hi
        cases hi
        exact .inr (.inl (.head _))
      · exact later (by rwa [update_of_ne hm] at hi)
    | @registered m j _ =>
      by_cases hm : n = m
      · subst hm
        rw [update_self] at hi
        cases hi
        exact .inr (.inr (.head _))
      · exact later (by rwa [update_of_ne hm] at hi)
    | @released m j _ =>
      by_cases hm : n = m
      · subst hm
        rw [update_self] at hi
        cases hi
      · exact later (by rwa [update_of_ne hm] at hi)
    | surplus | missed | handedOut | aside => exact later hi

theorem handedOut_cached (h : Chronicle f c (.handedOut f n i :: new) d) :
    Chronicle f c new d ∧ d n = some i := by
  cases h with
  | next h he =>
    cases he with
    | handedOut hn => exact ⟨h, hn⟩
    | aside ho => exact absurd rfl (ho rfl)

theorem missed_absent (h : Chronicle f c (.missed f n :: new) d) : Chronicle f c new d ∧ d n = none := by
  cases h with
  | next h he =>
    cases he with
    | missed hn => exact ⟨h, hn⟩
    | aside ho => exact absurd rfl (ho rfl)

theorem arrived_since {mid : List Occurrence} (h : Chronicle f c (mid ++ .released f n j :: old) d)
    (hi : d n = some i) : .cached f n i ∈ mid ∨ .registered f n i ∈ mid := by
  obtain ⟨e, hold, hmid⟩ := h.split
  have hgone : e n = none := by
    cases hold with
    | next _ he =>
      cases he with
      | released => exact update_self ..
      | aside ho => exact absurd rfl (ho rfl)
  refine (hmid.arrived hi).resolve_left fun he => ?_
  rw [hgone] at he
  cases he

theorem registered_cached (h : Chronicle f c (.registered f n i :: new) d) : d n = some i := by
  cases h with
  | next _ he =>
    cases he with
    | registered => exact update_self ..
    | aside ho => exact absurd rfl (ho rfl)

theorem there {mid : List Occurrence} (h : Chronicle f c (mid ++ .handedOut f n i :: old) d)
    (hnot : ∀ j, .released f n j ∉ mid) : d n = some i := by
  obtain ⟨e, hold, hmid⟩ := h.split
  exact hmid.stays hold.handedOut_cached.2 hnot

theorem same {late mid : List Occurrence}
    (h : Chronicle f c (late ++ .handedOut f n j :: mid ++ .handedOut f n i :: old) d)
    (hnot : ∀ k, .released f n k ∉ mid) : j = i := by
  obtain ⟨e, h, -⟩ := (show Chronicle f c (late ++ (.handedOut f n j :: (mid ++ .handedOut f n i :: old))) d
    by simpa using h).split
  obtain ⟨h, hj⟩ := h.handedOut_cached
  exact Option.some.inj (hj.symm.trans (h.there hnot))

theorem released_of_missed {late mid : List Occurrence}
    (h : Chronicle f c (late ++ .missed f n :: mid ++ .handedOut f n i :: old) d) :
    ∃ k, .released f n k ∈ mid := by
  obtain ⟨e, h, -⟩ := (show Chronicle f c (late ++ (.missed f n :: (mid ++ .handedOut f n i :: old))) d
    by simpa using h).split
  obtain ⟨h, hnone⟩ := h.missed_absent
  by_contra hnot
  rw [h.there (not_exists.1 hnot)] at hnone
  cases hnone

end Chronicle

/-! ## Every change continues the chronicle -/

/-- The record of what happened between two sessions is a chronicle of the factory's cache. -/
def Chronicled (f : FactoryId) (s t : Session) : Prop :=
  ∃ new, t.record = new ++ s.record ∧ Chronicle f (s.singleton? f) new (t.singleton? f)

theorem singleton?_release (hf : f < s.factories.length) :
    (s.release f n).2.singleton? f = update (s.singleton? f) n none := by
  funext x
  rw [update_apply, Session.singleton?, factory_release, factory_setFactory_self hf]
  exact OrderedMap.get?_erase

theorem singleton?_releaseAll (hf : f < s.factories.length) :
    (s.releaseAll f).singleton? f = fun _ => none := by
  funext n
  rw [Session.singleton?, factory_releaseAll, factory_modifyFactory_self hf]
  rfl

namespace Chronicled

theorem refl (s : Session) : Chronicled f s s := ⟨[], rfl, .start⟩

theorem trans (h : Chronicled f s t) (h' : Chronicled f t u) : Chronicled f s u := by
  obtain ⟨new, e, hc⟩ := h
  obtain ⟨new', e', hc'⟩ := h'
  exact ⟨new' ++ new, by rw [e', e, List.append_assoc], hc.trans hc'⟩

theorem of_singleton?_eq (hr : t.record = s.record) (h : t.singleton? f = s.singleton? f) :
    Chronicled f s t := ⟨[], hr, h ▸ .start⟩

theorem write_aside {o : Occurrence} (ho : o.isOfCache = true → o.factory? ≠ some f) :
    Chronicled f s (s.write o) := ⟨[o], rfl, .single (.aside ho)⟩

theorem setFactory {F : Factory} (h : F.singletons.objects = (s.factory g).singletons.objects) :
    Chronicled f s (s.setFactory g F) := by
  refine of_singleton?_eq rfl ?_
  exact proj_setFactory (p := fun F => F.singletons.get?) (congrArg OrderedMap.get? h)

theorem modifyFactory {change : Factory → Factory}
    (h : (change (s.factory g)).singletons.objects = (s.factory g).singletons.objects) :
    Chronicled f s (s.modifyFactory g change) := by
  rw [modifyFactory_eq_setFactory]
  exact setFactory h

theorem of_ne (new : List Occurrence) (hr : t.record = new ++ s.record) (h : t.factory f = s.factory f)
    (hnew : ∀ o ∈ new, o.factory? ≠ some f) : Chronicled f s t := by
  refine ⟨new, hr, ?_⟩
  rw [show t.singleton? f = s.singleton? f from funext fun n => by rw [Session.singleton?, h]]
  exact .of_aside fun o ho _ => hnew o ho

theorem of_factories (h : t.factories = s.factories) (told : s.Tells ∅ t) : Chronicled f s t := by
  obtain ⟨new, hr, hnew⟩ := told
  exact of_ne new hr (by unfold factory; rw [h]) fun o ho e => hnew o ho f e

/-- A finished singleton goes into the cache, or is one too many. -/
theorem cache (hf : f < s.factories.length) :
    Chronicled f s ((s.write (.cached g n i)).addSingleton g n i) := by
  by_cases hg : g = f
  · subst hg
    refine ⟨[.cached g n i], rfl, ?_⟩
    cases hn : s.singleton? g n with
    | none =>
      have hadd : ((s.write (.cached g n i)).addSingleton g n i).singleton? g =
          update (s.singleton? g) n (some i) := by
        funext x
        rw [update_apply]
        exact singleton?_addSingleton (s := s.write (.cached g n i)) hf hn
      rw [hadd]
      exact .single (.added hn)
    | some j =>
      have hadd : ((s.write (.cached g n i)).addSingleton g n i).singleton? g = s.singleton? g := by
        refine proj_setFactory (p := fun F => F.singletons.get?) (s := s.write (.cached g n i)) ?_
        have : ((s.factory g).singletons.add n i).2 = (s.factory g).singletons := by
          unfold SingletonRegistry.add
          rw [show (s.factory g).singletons.get? n = some j from hn]
        exact congrArg SingletonRegistry.get? this
      rw [hadd]
      exact .single (.surplus hn)
  · refine of_ne [.cached g n i] rfl ?_ (by simpa [Occurrence.factory?] using hg)
    exact factory_setFactory_of_ne (Ne.symm hg)

theorem release (hf : f < s.factories.length) : Chronicled f s (s.release g n).2 := by
  by_cases hg : g = f
  · subst hg
    refine ⟨_, record_release, ?_⟩
    rw [singleton?_release hf]
    cases hn : s.singleton? g n with
    | none =>
      rw [show (s.factory g).singletons.get? n = none from hn, update_eq_self_iff.2 hn.symm]
      exact .start
    | some i =>
      rw [show (s.factory g).singletons.get? n = some i from hn]
      exact .single (.released hn)
  · refine of_ne _ record_release ?_ ?_
    · rw [factory_release, factory_setFactory_of_ne (Ne.symm hg)]
    · simp only [List.mem_map]
      rintro _ ⟨i, -, rfl⟩
      simpa [Occurrence.factory?] using hg

end Chronicled

theorem Chronicle.releases {es : List (String × Instance)} (hnodup : (es.map Prod.fst).Nodup)
    (h : ∀ e ∈ es, c e.1 = some e.2) :
    Chronicle f c (es.map fun e => .released f e.1 e.2).reverse
      fun x => if x ∈ es.map Prod.fst then none else c x := by
  induction es generalizing c with
  | nil => exact .start
  | cons e es ih =>
    rw [List.map_cons, List.nodup_cons] at hnodup
    have hne (e') (he' : e' ∈ es) : e'.1 ≠ e.1 := fun hkey =>
      hnodup.1 (hkey ▸ List.mem_map_of_mem he')
    have hrest : ∀ e' ∈ es, update c e.1 none e'.1 = some e'.2 := by
      intro e' he'
      rw [update_of_ne (hne e' he')]
      exact h e' (by simp [he'])
    have hfirst : Chronicle f c [.released f e.1 e.2] (update c e.1 none) :=
      .single (.released (h e (by simp)))
    have hall := hfirst.trans (ih hnodup.2 hrest)
    rw [List.map_cons, List.reverse_cons]
    convert hall using 1
    funext x
    by_cases hx : x = e.1
    · subst hx
      simp
    · rw [update_of_ne hx]
      exact if_congr (by simp [hx]) rfl rfl

theorem Chronicled.releaseAll (hf : f < s.factories.length) : Chronicled f s (s.releaseAll g) := by
  by_cases hg : g = f
  · subst hg
    refine ⟨_, record_releaseAll, ?_⟩
    have hleft : (s.releaseAll g).singleton? g = fun x =>
        if x ∈ (s.factory g).singletons.objects.keys then none else s.singleton? g x := by
      funext x
      rw [Session.singleton?, factory_releaseAll, factory_modifyFactory_self hf]
      split
      · rfl
      · next hx => exact (OrderedMap.get?_eq_none_iff.2 hx).symm
    rw [hleft]
    refine .releases (s.factory g).singletons.objects.nodup fun e he => ?_
    exact OrderedMap.get?_eq_some_iff.2 he
  · refine .of_ne _ record_releaseAll ?_ ?_
    · rw [factory_releaseAll, factory_modifyFactory_of_ne (Ne.symm hg)]
    · simp only [List.mem_reverse, List.mem_map]
      rintro _ ⟨e, -, rfl⟩
      simpa [Occurrence.factory?] using hg

theorem Chronicled.register {F : Factory} (hf : f < s.factories.length)
    (h : (s.factory g).registerSingleton n i = .ok F) :
    Chronicled f s ((s.setFactory g F).write (.registered g n i)) := by
  obtain ⟨hn, manualNames, hF⟩ := registerSingleton_spec h
  by_cases hg : g = f
  · subst hg
    refine ⟨[.registered g n i], rfl, ?_⟩
    have hinsert : ((s.setFactory g F).write (.registered g n i)).singleton? g =
        update (s.singleton? g) n (some i) := by
      funext x
      rw [update_apply, Session.singleton?, factory_write, factory_setFactory_self hf, hF]
      exact OrderedMap.get?_insert
    rw [hinsert]
    exact .single (.registered hn)
  · refine .of_ne [.registered g n i] rfl ?_ (by simpa [Occurrence.factory?] using hg)
    exact factory_setFactory_of_ne (Ne.symm hg)

theorem Session.MakingChange.chronicled {U : Set FactoryId} (h : s.MakingChange U t)
    (hf : f < s.factories.length) : Chronicled f s t := by
  cases h with
  | count => exact .of_ne [] rfl rfl (by simp)
  | tell ho _ => exact .write_aside fun hc => by rw [Occurrence.isOfCache_of_isAside ho] at hc; cases hc
  | construct => exact .trans (.write_aside (o := .notice _) nofun) (.write_aside (o := .constructing ..) nofun)
  | addEdge => exact .modifyFactory rfl
  | @miss g n _ hn =>
    by_cases hg : g = f
    · exact ⟨[.missed g n], rfl, hg ▸ .single (.missed (hg ▸ hn))⟩
    · exact .write_aside fun _ e => hg (Option.some.inj e)
  | @handOut g n i _ hi =>
    by_cases hg : g = f
    · subst hg
      exact ⟨[.handedOut g n i], rfl, .single (.handedOut (hi hf))⟩
    · exact .write_aside fun _ e => hg (Option.some.inj e)

theorem Session.EndingChange.chronicled {U : Set FactoryId} (h : s.EndingChange U t)
    (hf : f < s.factories.length) : Chronicled f s t := by
  cases h with
  | @tell o ho _ => exact .write_aside fun hc => by cases o <;> first | cases ho; done | cases hc
  | tearDown => exact .modifyFactory rfl
  | takeDependents => exact .setFactory rfl
  | dropEdges => exact .modifyFactory rfl
  | release => exact .release hf
  | @tornDown g n =>
    have hnoted : Chronicled f s ((s.releaseAll g).write (.notice n)) :=
      (Chronicled.releaseAll hf).trans (.write_aside nofun)
    exact hnoted.trans (.write_aside nofun)

/-- **What happens to beans continues the chronicle of every factory.** -/
theorem Session.BeanChange.chronicled {U : Set FactoryId} (h : s.BeanChange U t)
    (hf : f < s.factories.length) : Chronicled f s t := by
  cases h with
  | making h => exact h.chronicled hf
  | ending h => exact h.chronicled hf
  | cache => exact .cache hf
  | begin _ hg => exact .setFactory (SingletonRegistry.objects_of_acquire hg)
  | finish => exact .modifyFactory SingletonRegistry.objects_release
  | keep => exact .of_factories factories_keepIn tells_keepIn
  | addCallback => exact .of_factories rfl (.of_record_eq rfl)
  | take => exact .of_factories factories_takeFrom tells_takeFrom
  | empty => exact .of_factories factories_emptyScope tells_emptyScope

/-- **Every change continues the chronicle of every factory.** -/
theorem Session.Change.chronicled (h : s.Change t) (hf : f < s.factories.length) : Chronicled f s t := by
  cases h with
  | bean h => exact h.chronicled hf
  | factory h =>
    obtain ⟨⟨_, hsingletons⟩, -⟩ := h.beans
    exact .setFactory (by rw [hsingletons])
  | @takeOver g source =>
    have htaken : Chronicled f s (s.setFactory g ((s.factory g).copyConfiguration (s.factory source))) :=
      .setFactory (by rw [singletons_copyConfiguration])
    exact htaken.trans (.write_aside nofun)
  | register h => exact .register hf h
  | setParent => exact .modifyFactory rfl
  | addFactory => exact .of_ne [] rfl (by rw [factory_addFactory_of_lt hf]) (by simp)
  | addProcessor | addScope | label => exact .of_ne [] rfl rfl (by simp)

/-- **Changes continue the chronicle of every factory**, however many there are. -/
theorem chronicled_of_changes (h : ReflTransGen Session.Change s t) (hf : f < s.factories.length) :
    Chronicled f s t ∧ f < t.factories.length := by
  induction h with
  | refl => exact ⟨.refl s, hf⟩
  | tail _ h ih => exact ⟨ih.1.trans (h.chronicled ih.2), ih.2.trans_le h.length_le⟩

/-! ## Lookups -/

/-- A factory has a singleton of a name, or defines one. -/
def Session.OffersSingleton (s : Session) (f : FactoryId) (n : String) : Prop :=
  (∃ i, s.singleton? f n = some i) ∨
    s.Defines f n ∧ ∃ m, s.merged? f n = some m ∧ m.isSingleton = true

variable {env : Collaborators} {again : Reentry} {name : String} {m : MergedDefinition}

theorem lookup_cached (hf : f < s.factories.length)
    (hi : s.singleton? f ((s.factory f).canonical name) = some i) :
    (lookup env again f name).run s =
      some (.ok i, s.write (.handedOut f ((s.factory f).canonical name) i)) := by
  have hroute : s.route (s.chain f) name = .cached f ((s.factory f).canonical name) i := by
    obtain ⟨ancestors, hchain⟩ := chain_eq_cons hf
    rw [hchain]
    unfold Session.route
    simp only
    rw [show (s.factory f).singletons.get? ((s.factory f).canonical name) = some i from hi]
  change (follow env again (s.route (s.chain f) name)).run s = _
  rw [hroute]
  rfl

theorem gives_mergedOwn (hm : s.merged? f n = some m) :
    Gives (mergedOwn f n) s fun merged _ => merged.definition = m := by
  refine gives_liftQuery.2 fun merged hmerged => ?_
  unfold Session.merged? at hm
  rw [hmerged] at hm
  exact Option.some.inj hm

/-- What is made of the definition of a singleton is handed out from the cache. -/
theorem gives_makeDefined_singleton (ha : again.Changes) (hf : f < s.factories.length)
    (hm : s.merged? f n = some m) (hsingleton : m.isSingleton = true) :
    Gives (makeDefined env again f n) s fun i t =>
      ReflTransGen Session.Change s t ∧ t.singleton? f n = some i ∧
        ∃ old, t.record = .handedOut f n i :: old := by
  refine gives_makeDefined_of_kind covers_changing.making ha.lookup trivial trivial (gives_mergedOwn hm) ?_
  intro u hsu
  unfold makeOfKind
  rw [if_pos hsingleton, gives_bind]
  have hcreate : env.KeepCreation changing Set.univ again :=
    (ha.collaborators.making covers_changing.toCovers).toKeepCreation
  refine Yields.mono
    ((keeps_createSingleton covers_changing.making hcreate trivial trivial hsingleton u trivial).and
    gives_createSingleton_cached) ?_
  rintro _ v ⟨huv, hcached⟩ i rfl
  have hsv : ReflTransGen Session.Change s v := hsu.trans huv
  have hi : v.singleton? f n = some i := hcached i rfl (chronicled_of_changes hsv hf).2
  refine gives_bind.2 (gives_liftState.2 (gives_pure.2 ⟨?_, hi, _, rfl⟩))
  exact hsv.tail (.bean (.making (.handOut trivial fun _ => hi)))

/-- **What a lookup of a singleton answers is in the cache when the lookup is over**, and handed
out from there. -/
theorem gives_lookup_singleton (ha : again.Changes) (hf : f < s.factories.length)
    (h : s.OffersSingleton f ((s.factory f).canonical name)) :
    Gives (lookup env again f name) s fun i t =>
      ReflTransGen Session.Change s t ∧ t.singleton? f ((s.factory f).canonical name) = some i ∧
        ∃ old, t.record = .handedOut f ((s.factory f).canonical name) i :: old := by
  obtain ⟨ancestors, hchain⟩ := chain_eq_cons hf
  cases hi : s.singleton? f ((s.factory f).canonical name) with
  | some i =>
    refine yields_true_iff.2 ?_
    rw [lookup_cached hf hi]
    rintro _ t ⟨⟩ _ ⟨⟩
    exact ⟨.single (.bean (.making (.handOut trivial fun _ => hi))), hi, _, rfl⟩
  | none =>
    obtain ⟨i, hi'⟩ | ⟨hdef, m, hm, hsingleton⟩ := h
    · rw [hi] at hi'
      cases hi'
    have hroute := route_cons (s := s) (f := f) ancestors name
    unfold lookup
    rw [gives_bind, gives_get, hchain]
    obtain ⟨i, hi', -⟩ | ⟨-, hbusy⟩ | ⟨-, hdefined⟩ | ⟨hundefined, -⟩ := hroute
    · rw [hi] at hi'
      cases hi'
    · rw [hbusy]
      exact gives_throw
    · rw [hdefined]
      refine gives_bind.2 (gives_liftState.2 ?_)
      have hmiss : s.Change (s.write (.missed f ((s.factory f).canonical name))) :=
        .bean (.making (.miss trivial hi))
      refine (gives_makeDefined_singleton (s := s.write (.missed f ((s.factory f).canonical name)))
        ha hf (merged?_write.trans hm) hsingleton).mono ?_
      exact fun i t ⟨ht, hfound⟩ => ⟨.head hmiss ht, hfound⟩
    · exact absurd hdef hundefined

/-- **A singleton is the same until it is released.**

In every run the singletons of a factory are added and removed, but never replaced; and between two
of its lookups that found different singletons of a name, or of which the second found none,
the first one was released. That is so of all lookups, also of those that collaborators start while
others are under way.

A lookup of a singleton of the factory answers what is in the cache when it is over. Whatever
changes are made from then on, if the singleton is not released, every name that then stands for
it is answered with it. -/
theorem same_singleton (env : Collaborators) (hf : f < s.factories.length) :
    (∀ t, Run env s t → ∃ new, t.record = new ++ s.record ∧
      Chronicle f (s.singleton? f) new (t.singleton? f) ∧
      (∀ late mid early n i j, new = late ++ .handedOut f n j :: mid ++ .handedOut f n i :: early →
        (∀ k, .released f n k ∉ mid) → j = i) ∧
      ∀ late mid early n i, new = late ++ .missed f n :: mid ++ .handedOut f n i :: early →
        ∃ k, .released f n k ∈ mid) ∧
    ∀ depth name n i t, (s.factory f).canonical name = n → s.OffersSingleton f n →
      (lookup env (reentry env depth) f name).run s = some (.ok i, t) →
      t.singleton? f n = some i ∧ (∃ old, t.record = .handedOut f n i :: old) ∧
      ∀ u new, ReflTransGen Session.Change t u → u.record = new ++ t.record →
        (∀ k, .released f n k ∉ new) → ∀ depth other, (u.factory f).canonical other = n →
          (lookup env (reentry env depth) f other).run u = some (.ok i, u.write (.handedOut f n i)) := by
  refine ⟨fun t run => ?_, fun depth name n i t hn hoffers hlookup => ?_⟩
  · obtain ⟨⟨new, hrecord, hc⟩, -⟩ := chronicled_of_changes run.changes hf
    refine ⟨new, hrecord, hc, fun late mid early n i j e hnot => ?_, fun late mid early n i e => ?_⟩
    · exact (e ▸ hc).same hnot
    · exact (e ▸ hc).released_of_missed
  · subst hn
    have hgives : Gives (lookup env (reentry env depth) f name) s _ :=
      gives_lookup_singleton (changes_reentry env depth) hf hoffers
    obtain ⟨hst, hi, hold⟩ := yields_true_iff.1 hgives _ _ hlookup i rfl
    refine ⟨hi, hold, fun u new htu hnew hnot depth' other hother => ?_⟩
    obtain ⟨⟨new', hnew', hc⟩, hu⟩ := chronicled_of_changes htu (chronicled_of_changes hst hf).2
    obtain rfl : new' = new := List.append_cancel_right (hnew'.symm.trans hnew)
    rw [← hother] at hi hnot ⊢
    exact lookup_cached hu (hc.stays hi hnot)

/-- A constructor that registers another singleton under the name of the bean that it makes. -/
def rivals : Collaborators where
  __ := Scripted.collaborators (fun k => ⟨k.label, none⟩) fun _ => none
  construct _ _ name _ :=
    .perform (.on "main" (.registerSingleton name (.fresh {}))) fun _ => .make name {} .done

/-- One bean with two names. -/
def Session.contested : Session where
  factories :=
    [{ definitions := ⟨1, .ofList [("bean", {})]⟩
       aliases := ⟨.ofList [("other", "bean")]⟩
       constructor := some .direct }]
  factoryLabels := .ofList [("main", 0)]

/-- The singleton that was registered first is answered, not the one that was being made. -/
theorem same_singleton_contested :
    0 < Session.contested.factories.length ∧ Session.contested.OffersSingleton 0 "bean" ∧
      (∃ t, Run rivals .contested t ∧ (t.singleton? 0 "bean").isSome = true ∧
        Chronicle 0 (Session.contested.singleton? 0) t.record (t.singleton? 0)) ∧
      ∃ t i u, (lookup rivals (reentry rivals 2) 0 "bean").run .contested = some (.ok i, t) ∧
        t.made.length = 2 ∧ i.id = 0 ∧ t.singleton? 0 "bean" = some i ∧
        (lookup rivals (reentry rivals 0) 0 "other").run t = some (.ok i, u) := by
  have hf : 0 < Session.contested.factories.length := by decide
  have hoffers : Session.contested.OffersSingleton 0 "bean" := by
    have hmerged : (Session.contested.merged? 0 "bean").any MergedDefinition.isSingleton = true := by
      decide +kernel
    obtain ⟨m, hm, hsingleton⟩ := (Option.any_eq_true ..).1 hmerged
    exact .inr ⟨by decide +kernel, m, hm, hsingleton⟩
  obtain ⟨hruns, hlookups⟩ := same_singleton rivals hf
  refine ⟨hf, hoffers, ?_, ?_⟩
  · have hasked : (perform rivals 3 (.on "main" (.get "bean")) .contested).any
        (fun (_, t) => (t.singleton? 0 "bean").isSome) = true := by decide +kernel
    obtain ⟨⟨answer, t⟩, ht, hsome⟩ := (Option.any_eq_true ..).1 hasked
    have run : Run rivals .contested t := .perform .start ht
    obtain ⟨new, hnew, hc, -⟩ := hruns t run
    obtain rfl : t.record = new := hnew.trans (List.append_nil new)
    exact ⟨t, run, hsome, hc⟩
  · have hfound : ((lookup rivals (reentry rivals 2) 0 "bean").run .contested).any (fun (r, t) =>
        r.toOption.any (fun i => i.id = 0) && t.made.length = 2 &&
        (t.factory 0).canonical "other" = "bean") = true := by decide +kernel
    obtain ⟨⟨r, t⟩, ht, hfacts⟩ := (Option.any_eq_true ..).1 hfound
    simp only [Bool.and_eq_true, decide_eq_true_eq] at hfacts
    obtain ⟨⟨hid, hmade⟩, hother⟩ := hfacts
    cases r with
    | error e => cases hid
    | ok i =>
      obtain ⟨hi, -, hagain⟩ := hlookups 2 "bean" "bean" i t (by decide +kernel) hoffers ht
      exact ⟨t, i, _, ht, hmade, by simpa [Except.toOption] using hid, hi,
        hagain t [] .refl rfl (by simp) 0 "other" hother⟩

end BeanContainer
