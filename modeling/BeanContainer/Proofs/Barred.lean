import BeanContainer.Proofs.Changes
import BeanContainer.Proofs.Needs

/-!
What cannot be had from a factory while all its singletons are destroyed. A flag
says that they are; it is set when the destruction begins and taken back when it
ends. As long as it is set no constructor is called for a singleton, whatever
the destroy callbacks ask for (`Session.Change.bars`), and a lookup that would
need one is refused (`lookup_barred`).

The flag is one for all. A callback that destroys all singletons again takes it
back when it is through, and from then on the outer destruction goes on without
it (`not_barred_to_the_end`).
-/

namespace BeanContainer

open Relation Session

/-- All singletons of a factory are being destroyed, so none is to be made. -/
def Session.Barred (s : Session) (f : FactoryId) : Prop :=
  (s.factory f).singletons.inDestruction = true

/-- A session in which the destruction of all singletons of a factory has just begun. -/
def Session.bar (s : Session) (f : FactoryId) : Session :=
  (s.write (.tearingDown f)).modifyFactory f fun F =>
    { F with singletons := F.singletons.setInDestruction true }

/-- In this part of a record a constructor is called for no singleton of a factory, unless a
destruction of all of them has ended before. -/
def MakesNone (f : FactoryId) (new : List Occurrence) : Prop :=
  ∀ late n early, new = late ++ .constructing f n :: early → .tornDown f ∉ early →
    ∃ (m : MergedDefinition) (earlier : List Occurrence),
      m.isSingleton = false ∧ early = .notice (.creating n m.scope) :: earlier

/-- From a session in which the singletons of a factory are destroyed to another one nothing was
made that must not be, and the destruction is still going on unless it has ended in between. -/
def Session.Bars (f : FactoryId) (s t : Session) : Prop :=
  ∃ new, t.record = new ++ s.record ∧
    (s.Barred f → MakesNone f new ∧ (.tornDown f ∉ new → t.Barred f))

variable {s t u : Session} {f g : FactoryId} {n : String} {U : Set FactoryId}

theorem singleton?_bar (hf : f < s.factories.length) : (s.bar f).singleton? f = s.singleton? f := by
  funext n
  rw [Session.bar, Session.singleton?, factory_modifyFactory_self (by simpa using hf)]
  rfl

theorem MakesNone.of_not_mem {new : List Occurrence} (h : ∀ n, .constructing f n ∉ new) :
    MakesNone f new := by
  rintro late n early rfl _
  exact absurd (List.mem_append_right late List.mem_cons_self) (h n)

/-- Once a destruction has ended, nothing more is promised. -/
theorem MakesNone.append {new new' : List Occurrence} (h : MakesNone f new)
    (h' : .tornDown f ∉ new → MakesNone f new') : MakesNone f (new' ++ new) := by
  intro late n early e hnot
  obtain ⟨mid, -, hnew⟩ | ⟨mid, hnew', rfl⟩ := split_of_grown e
  · exact h mid n early hnew hnot
  · obtain ⟨hmid, hnot⟩ := not_or.1 (mt List.mem_append.2 hnot)
    obtain ⟨m, earlier, hm, rfl⟩ := h' hnot late n mid hnew' hmid
    exact ⟨m, earlier ++ new, hm, rfl⟩

namespace Session.Bars

theorem refl (s : Session) : s.Bars f s := ⟨[], rfl, fun h => ⟨.of_not_mem (by simp), fun _ => h⟩⟩

theorem trans (h : s.Bars f t) (h' : t.Bars f u) : s.Bars f u := by
  obtain ⟨new, e, hbar⟩ := h
  obtain ⟨new', e', hbar'⟩ := h'
  refine ⟨new' ++ new, by rw [e', e, List.append_assoc], fun hs => ?_⟩
  obtain ⟨hmakes, hstill⟩ := hbar hs
  refine ⟨hmakes.append fun hnot => (hbar' (hstill hnot)).1, fun hnot => ?_⟩
  rw [List.mem_append, not_or] at hnot
  exact (hbar' (hstill hnot.2)).2 hnot.1

theorem of_flag (new : List Occurrence) (h : t.record = new ++ s.record)
    (hnew : ∀ n, .constructing f n ∉ new)
    (hflag : (t.factory f).singletons.inDestruction = (s.factory f).singletons.inDestruction) :
    s.Bars f t :=
  ⟨new, h, fun hs => ⟨.of_not_mem hnew, fun _ => hflag.trans hs⟩⟩

theorem write {o : Occurrence} (ho : ∀ n, .constructing f n ≠ o) : s.Bars f (s.write o) :=
  .of_flag [o] rfl (fun n => by simpa using ho n) rfl

theorem setFactory {F : Factory}
    (h : F.singletons.inDestruction = (s.factory g).singletons.inDestruction) :
    s.Bars f (s.setFactory g F) :=
  .of_flag [] rfl (by simp) (proj_setFactory (p := fun F => F.singletons.inDestruction) h)

theorem modifyFactory {change : Factory → Factory}
    (h : (change (s.factory g)).singletons.inDestruction = (s.factory g).singletons.inDestruction) :
    s.Bars f (s.modifyFactory g change) := by
  rw [modifyFactory_eq_setFactory]
  exact setFactory h

theorem of_factories (h : t.factories = s.factories) (told : s.Tells ∅ t) : s.Bars f t := by
  obtain ⟨new, e, hnew⟩ := told
  refine .of_flag new e (fun n hn => hnew _ hn f rfl) ?_
  unfold factory
  rw [h]

end Session.Bars

theorem Session.Barred.lt (h : s.Barred f) : f < s.factories.length := by
  by_contra hlen
  rw [Session.Barred, factory_of_length_le (Nat.le_of_not_lt hlen)] at h
  cases h

theorem inDestruction_add {r : SingletonRegistry} {i : Instance} :
    (r.add n i).2.inDestruction = r.inDestruction := by
  unfold SingletonRegistry.add
  split <;> rfl

/-- Making beans. A constructor is called for a singleton only while the flag is not set. -/
theorem Session.MakingChange.bars (h : s.MakingChange U t) : s.Bars f t := by
  cases h with
  | count => exact .of_flag [] rfl (by simp) rfl
  | @tell o ho _ => exact .write fun n e => by rw [← e] at ho; cases ho
  | @construct g n m _ hopen =>
    refine ⟨[.constructing g n, .notice (.creating n m.scope)], rfl, fun hs => ⟨?_, fun _ => hs⟩⟩
    rintro (_ | ⟨_, _ | ⟨_, _ | _⟩⟩) n' early e -
    · obtain ⟨hc, rfl⟩ := List.cons.inj e
      cases hc
      refine ⟨m, [], ?_, rfl⟩
      rw [← Bool.not_eq_true]
      exact fun hm => by rw [Session.Barred, hopen hm] at hs; cases hs
    all_goals simp at e
  | addEdge => exact .modifyFactory rfl
  | miss => exact .write nofun
  | handOut => exact .write nofun

/-- Destroying beans. Whoever is through with all singletons of the factory takes the flag back. -/
theorem Session.EndingChange.bars (h : s.EndingChange U t) : s.Bars f t := by
  cases h with
  | @tell o ho _ => exact .write fun n e => by rw [← e] at ho; cases ho
  | @tearDown g =>
    refine ⟨[], rfl, fun hs => ⟨.of_not_mem (by simp), fun _ => ?_⟩⟩
    by_cases hg : f = g
    · subst hg
      rw [Session.Barred, factory_modifyFactory_self hs.lt]
      rfl
    · rwa [Session.Barred, factory_modifyFactory_of_ne hg]
  | takeDependents => exact .setFactory rfl
  | dropEdges => exact .modifyFactory rfl
  | @release g n =>
    refine .of_flag _ record_release (fun n' hn => ?_) ?_
    · obtain ⟨_, -, e⟩ := List.mem_map.1 hn
      cases e
    · rw [factory_release]
      exact proj_setFactory (p := fun F => F.singletons.inDestruction) rfl
  | @tornDown g notice =>
    have hrecord : (((s.releaseAll g).write (.notice notice)).write (.tornDown g)).record =
        (.tornDown g :: .notice notice ::
          ((s.factory g).singletons.objects.entries.map fun e => .released g e.1 e.2).reverse) ++
          s.record := by
      rw [record_write, record_write, record_releaseAll]
      rfl
    refine ⟨_, hrecord, fun hs => ⟨.of_not_mem fun n hn => by simp at hn, fun hnot => ?_⟩⟩
    have hg : f ≠ g := fun e => hnot (by simp [e])
    rwa [Session.Barred, factory_write, factory_write, factory_releaseAll, factory_modifyFactory_of_ne hg]

theorem Session.BeanChange.bars (h : s.BeanChange U t) : s.Bars f t := by
  cases h with
  | making h => exact h.bars
  | ending h => exact h.bars
  | @cache g n made =>
    have hcached : s.Bars f (s.write (.cached g n made)) := .write nofun
    exact hcached.trans (.setFactory inDestruction_add)
  | begin _ hg => exact .setFactory (SingletonRegistry.inDestruction_of_acquire hg)
  | finish => exact .modifyFactory SingletonRegistry.inDestruction_release
  | keep => exact .of_factories factories_keepIn tells_keepIn
  | addCallback => exact .of_factories rfl (.of_record_eq rfl)
  | take => exact .of_factories factories_takeFrom tells_takeFrom
  | empty => exact .of_factories factories_emptyScope tells_emptyScope

/-- **No change makes a singleton of a factory whose singletons are being destroyed.** -/
theorem Session.Change.bars (h : s.Change t) : s.Bars f t := by
  cases h with
  | bean h => exact h.bars
  | factory h =>
    obtain ⟨⟨_, hsingletons⟩, -⟩ := h.beans
    exact .setFactory (by rw [hsingletons])
  | @takeOver g source =>
    have htaken : s.Bars f (s.setFactory g ((s.factory g).copyConfiguration (s.factory source))) :=
      .setFactory (by rw [singletons_copyConfiguration])
    exact htaken.trans (.write nofun)
  | @register g n i F h =>
    obtain ⟨-, _, hF⟩ := registerSingleton_spec h
    have hset : s.Bars f (s.setFactory g F) := .setFactory (by rw [hF])
    exact hset.trans (.write nofun)
  | setParent => exact .modifyFactory rfl
  | addFactory =>
    refine ⟨[], rfl, fun hs => ⟨.of_not_mem (by simp), fun _ => ?_⟩⟩
    simpa [Session.Barred, Session.addFactory, Session.factory, List.getElem?_append_left hs.lt] using hs
  | addProcessor | addScope | label => exact .of_flag [] rfl (by simp) rfl

theorem bars_of_changes (h : ReflTransGen Session.Change s t) : s.Bars f t := by
  induction h with
  | refl => exact .refl s
  | tail _ h ih => exact ih.trans h.bars

/-! ## Lookups -/

/-- A factory defines a singleton that it does not have yet, and nothing stands in the way of making
it: its definition is concrete and depends on nothing. -/
structure Session.Pending (s : Session) (f : FactoryId) (n : String) : Prop where
  defined : s.Defines f n
  absent : s.singleton? f n = none
  merged : ∃ m, s.merged? f n = some m ∧ m.isAbstract = false ∧ m.isSingleton = true ∧ m.dependsOn = []

/-- Why a lookup of such a singleton is refused while all are being destroyed. The second reason is
that the same name is being made as a prototype, by a definition it had before. -/
def Session.refusal (s : Session) (f : FactoryId) (n : String) : BeanError :=
  if (s.factory f).singletons.isPrototypeInCreation n then .currentlyInCreation n
  else .creationNotAllowed n

variable {env : Collaborators} {again : Reentry} {name : String}

theorem makeDefined_barred {m : MergedDefinition} (hbar : s.Barred f) (hnone : s.singleton? f n = none)
    (hm : s.merged? f n = some m) (hconcrete : m.isAbstract = false) (hsingleton : m.isSingleton = true)
    (hdeps : m.dependsOn = []) :
    Yields False (makeDefined env again f n).run s fun r _ => r = .error (.creationNotAllowed n) := by
  have hmerge : Ends (mergedOwn f n) s fun r t =>
      s.Remerged t ∧ r.toOption.map MergedRef.definition = some m := ⟨remerged_mergedOwn, hm⟩
  unfold makeDefined
  rw [yields_run_bind, yields_run_liftQuery]
  refine hmerge.mono ?_
  rintro (e | ref) t ⟨hst, hdef⟩
  · cases hdef
  obtain rfl : ref.definition = m := Option.some.inj hdef
  have hsingletons : (t.factory f).singletons = (s.factory f).singletons := by rw [hst.factory]
  have hnone' : (t.factory f).singletons.get? n = none := hsingletons ▸ hnone
  have hbar' : (t.factory f).singletons.inDestruction = true := hsingletons ▸ hbar
  simp [hconcrete, hsingleton, initializeDependencies, hdeps, createSingleton, hnone', hbar']

theorem Session.Pending.route (h : s.Pending f ((s.factory f).canonical name))
    (ancestors : List FactoryId) : s.route (f :: ancestors) name =
      if (s.factory f).singletons.isPrototypeInCreation ((s.factory f).canonical name) then
        .busy ((s.factory f).canonical name)
      else .defined f ((s.factory f).canonical name) := by
  have hnone : (s.factory f).singletons.get? ((s.factory f).canonical name) = none := h.absent
  unfold Session.route
  simp only [hnone, h.defined, if_true]

/-- **A lookup that would make a singleton is refused while all are being destroyed.** -/
theorem lookup_barred (hbar : s.Barred f) (h : s.Pending f ((s.factory f).canonical name)) :
    ∃ t, (lookup env again f name).run s =
      some (.error (s.refusal f ((s.factory f).canonical name)), t) := by
  obtain ⟨ancestors, hchain⟩ := chain_eq_cons hbar.lt
  suffices hyields : Yields False (lookup env again f name).run s fun r _ =>
      r = .error (s.refusal f ((s.factory f).canonical name)) by
    obtain ⟨_, t, ht, rfl⟩ := yields_false_iff.1 hyields
    exact ⟨t, ht⟩
  unfold lookup Session.refusal
  simp only [yields_run_bind, yields_run_get, hchain, h.route]
  split
  · rfl
  · obtain ⟨m, hm, hconcrete, hsingleton, hdeps⟩ := h.merged
    simp only [follow, yields_run_bind, yields_run_liftState, write_apply]
    exact makeDefined_barred (s := s.write _) hbar h.absent (merged?_write.trans hm) hconcrete hsingleton
      hdeps

/-! ## From the beginning to the end -/

/-- All singletons that there are at the beginning are destroyed one after another, and at the end what is
left is dropped. -/
theorem yields_destroyAll_each {P : Session → Prop}
    (h : Yields True ((((s.bar f).write (.notice .destructionStarted)).factory f).singletons.names.reverse.foldlM
      (fun failures name => do return failures ++ (← destroyCascade env again f name)) [])
      ((s.bar f).write (.notice .destructionStarted)) fun _ u => P u) :
    Yields True (destroyAll env again f) s fun _ t => ∃ u notice, P u ∧
      t = ((u.releaseAll f).write (.notice notice)).write (.tornDown f) := by
  unfold destroyAll
  rw [yields_bind, yields_lift, yields_bind, yields_lift, yields_bind, yields_lift, yields_bind, yields_lift,
    yields_bind]
  exact h.mono fun failures u hu => ⟨u, _, hu, rfl⟩

theorem yields_destroyAll_changes (h : env.Keep changing Set.univ again) (ha : again.Changes) :
    Yields True (destroyAll env again f) s fun _ t => ∃ u notice,
      ReflTransGen Session.Change (s.bar f) u ∧
        t = ((u.releaseAll f).write (.notice notice)).write (.tornDown f) := by
  have hnoted : ReflTransGen Session.Change (s.bar f) ((s.bar f).write (.notice .destructionStarted)) :=
    .single (.bean (.making (.tell rfl fun _ _ => trivial)))
  refine yields_destroyAll_each (Yields.mono (keeps_foldlM (fun _ _ _ =>
    (covers_changing.cascade h ha.toKeep trivial).bind fun _ => keeps_pure) _ trivial) ?_)
  exact fun _ u hu => hnoted.trans hu

/-- **While all singletons of a factory are destroyed, none is made**, whatever the destroy callbacks
ask for, until one of them has destroyed all singletons of the factory itself.

This is so at every moment between the beginning and the end, as the session undergoes nothing but
changes meanwhile. Every lookup then of a singleton that is defined, but not made, and that nothing
else stands in the way of, is refused. -/
theorem barred_destroySingletons {depth : Nat} {answer : Answer}
    (h : callFactory env (reentry env depth) f .destroySingletons s = some (answer, t))
    (hf : f < s.factories.length) :
    (∃ u notice, ReflTransGen Session.Change (s.bar f) u ∧
      t = ((u.releaseAll f).write (.notice notice)).write (.tornDown f)) ∧
    ∀ u, ReflTransGen Session.Change (s.bar f) u →
      ∃ new, u.record = new ++ .tearingDown f :: s.record ∧ MakesNone f new ∧
        (.tornDown f ∉ new → ∀ name n, (u.factory f).canonical name = n → u.Pending f n →
          ∀ env again, ∃ v, (lookup env again f name).run u = some (.error (u.refusal f n), v)) := by
  refine ⟨?_, fun u hu => ?_⟩
  · have ha := changes_reentry env depth
    have hyields : Yields True (callFactory env (reentry env depth) f .destroySingletons) s fun _ t =>
        ∃ u notice, ReflTransGen Session.Change (s.bar f) u ∧
          t = ((u.releaseAll f).write (.notice notice)).write (.tornDown f) := by
      unfold callFactory
      rw [yields_bind]
      exact yields_destroyAll_changes ha.collaborators ha
    exact yields_true_iff.1 hyields _ _ h
  · have hbar : (s.bar f).Barred f := by
      rw [Session.Barred, Session.bar, factory_modifyFactory_self (s := s.write _) hf]
      rfl
    obtain ⟨new, hnew, hbars⟩ := bars_of_changes hu
    obtain ⟨hmakes, hstill⟩ := hbars hbar
    refine ⟨new, hnew, hmakes, ?_⟩
    rintro hnot name _ rfl hpending env again
    exact lookup_barred (hstill hnot) hpending

/-- Collaborators that follow written instructions, where a text asks for the bean that it names, and
nothing for the destruction of all singletons. -/
def latecomers : Collaborators :=
  Scripted.collaborators (fun k => ⟨k.label, none⟩) fun
    | .text name => some ("get", .on "main" (.get name))
    | .null => some ("destroy_singletons", .on "main" .destroySingletons)
    | _ => none

/-- A factory that defines two singletons and has made the first, which is destroyed with these
instructions. -/
def Session.parting (steps : List Value) : Session where
  factories :=
    [{ definitions := ⟨2, .ofList [("a", {}), ("b", {})]⟩
       singletons := { objects := .ofList [("a", ⟨0, "a", .closer⟩)] }
       constructor := some .direct }]
  made := [(⟨0, "a", .closer⟩, { destroySteps := steps })]
  factoryLabels := .ofList [("main", 0)]

/-- The first singleton asks for the second when it is destroyed, and does not get it. -/
theorem barred_destroySingletons_parting :
    let s := Session.parting [.text "b"]
    0 < s.factories.length ∧
      (∃ answer t, callFactory latecomers (reentry latecomers 2) 0 .destroySingletons s = some (answer, t) ∧
        ∃ (u : Session) (notice : Notice), t = ((u.releaseAll 0).write (.notice notice)).write (.tornDown 0) ∧
          ∃ new, u.record = new ++ [.tearingDown 0] ∧ MakesNone 0 new) ∧
      ∃ v, (lookup latecomers (reentry latecomers 2) 0 "b").run (s.bar 0) =
        some (.error (.creationNotAllowed "b"), v) := by
  intro s
  have hf : 0 < s.factories.length := by decide
  have hruns : (callFactory latecomers (reentry latecomers 2) 0 .destroySingletons s).isSome = true := by
    decide +kernel
  obtain ⟨⟨answer, t⟩, hrun⟩ := Option.isSome_iff_exists.1 hruns
  obtain ⟨⟨u, notice, hu, ht⟩, hbar⟩ := barred_destroySingletons hrun hf
  refine ⟨hf, ⟨answer, t, hrun, u, notice, ht, ?_⟩, ?_⟩
  · obtain ⟨new, hnew, hmakes, -⟩ := hbar u hu
    exact ⟨new, hnew, hmakes⟩
  · obtain ⟨new, hnew, -, hrefused⟩ := hbar (s.bar 0) .refl
    obtain rfl : new = [] := List.self_eq_append_left.1 hnew
    have hmerged : ((s.bar 0).merged? 0 "b").any (fun m =>
        !m.isAbstract && m.isSingleton && m.dependsOn.isEmpty) = true := by decide +kernel
    obtain ⟨m, hm, hfacts⟩ := (Option.any_eq_true ..).1 hmerged
    simp only [Bool.and_eq_true, Bool.not_eq_true', List.isEmpty_iff] at hfacts
    have hpending : (s.bar 0).Pending 0 "b" :=
      ⟨by decide +kernel, by decide +kernel, m, hm, hfacts.1.1, hfacts.1.2, hfacts.2⟩
    have hrefusal : (s.bar 0).refusal 0 "b" = .creationNotAllowed "b" := by
      have : ((s.bar 0).factory 0).singletons.isPrototypeInCreation "b" = false := by decide +kernel
      rw [Session.refusal, this]
      rfl
    exact hrefusal ▸ hrefused (by simp) "b" "b" (by decide +kernel) hpending latecomers _

/-- If the first singleton has all singletons destroyed before it asks, it gets the second one, although
the destruction that destroys the first is still under way. -/
theorem not_barred_to_the_end : ¬ ∀ (s t : Session) (answer : Answer) (new : List Occurrence),
    callFactory latecomers (reentry latecomers 3) 0 .destroySingletons s = some (answer, t) →
      t.record = new ++ s.record →
      ∀ late n early, new = late ++ .constructing 0 n :: early →
        ∃ (m : MergedDefinition) (earlier : List Occurrence),
          m.isSingleton = false ∧ early = .notice (.creating n m.scope) :: earlier := by
  intro claim
  have hfacts : (callFactory latecomers (reentry latecomers 3) 0 .destroySingletons
      (.parting [.null, .text "b"])).any (fun (_, t) =>
        t.record.any (fun o => match o with
          | .constructing 0 "b" => true
          | _ => false) &&
        t.record.all fun o => match o with
          | .notice (.creating _ scope) => scope = ""
          | _ => true) = true := by
    decide +kernel
  obtain ⟨⟨answer, t⟩, hrun, hfacts⟩ := (Option.any_eq_true ..).1 hfacts
  simp only [Bool.and_eq_true, List.any_eq_true, List.all_eq_true] at hfacts
  obtain ⟨⟨o, ho, hmade⟩, hscopes⟩ := hfacts
  split at hmade
  · obtain ⟨late, early, hsplit⟩ := List.append_of_mem ho
    obtain ⟨m, earlier, hm, rfl⟩ := claim _ t answer t.record hrun (List.append_nil _).symm late "b" early hsplit
    have hscope : m.scope = "" := by
      simpa using hscopes (.notice (.creating "b" m.scope)) (by simp [hsplit])
    rw [MergedDefinition.isSingleton, hscope] at hm
    cases hm
  · cases hmade

end BeanContainer
