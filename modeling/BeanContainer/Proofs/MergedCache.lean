import BeanContainer.Proofs.Factories
import BeanContainer.Proofs.Resets

/-!
The cache of merged definitions, through registrations, removals, lookups and
destructions, in whatever order. Main statement: what it holds is what merging
anew would give (`Upkeep.merged_eq_fresh`), with one exception, which the last
part shows to be no empty one: when destructions ask for merges.
-/

namespace BeanContainer

open Session

section

variable {B : Factory} {up : String → MergedDefinition → Prop} {stale : Prop} {a name : String}
  {f : FactoryId} {s t : Session} {env : Collaborators}

/-! ## Operations -/

theorem CacheFits.redefined (h : CacheFits B up stale ∅ f s) {store : DefinitionStore}
    (hstore : ∀ x ≠ a, store.get? x = (s.factory f).definitions.get? x) :
    let new := { s.factory f with definitions := store }
    CacheFits new.blueprint up stale (new.blueprint.Below a) f (s.setFactory f new) := by
  intro new
  refine h.redefine rfl rfl ?_
  obtain rfl := h.blueprint
  exact ⟨rfl, rfl, ⟨rfl, rfl⟩, hstore⟩

/-- Registering a definition, accepted or not, leaves no outdated merge. -/
theorem fits_registerDefinition (reading : env.Reading) (hstale : stale ∨ env.QuietEnds) {depth : Nat}
    {d : Definition} (h : CacheFits B up stale ∅ f s) :
    Yields True (registerDefinition (reentry env depth) f name d).run s fun _ t =>
      ∃ B', CacheFits B' up stale ∅ f t := by
  unfold registerDefinition
  simp only [yields_run_bind, yields_run_liftState, theFactory_apply, yields_run_liftQuery]
  unfold tryUpdate
  simp only [ends_bind, ends_lift, theFactory_apply]
  cases hnew : (s.factory f).define name d with
  | error e => exact ⟨B, h⟩
  | ok new =>
    obtain ⟨store, rfl, hstore⟩ := define_spec hnew
    simp only [ends_modify, write_apply, note_apply, yields_run_liftEffect]
    have hfits := (h.redefined hstore).reads_of_merged_eq
      (t := ((s.setFactory f { s.factory f with definitions := store }).write (.defined f name)).write
        (.notice (Factory.defineNotice name ((s.factory f).definitions.get? name) d)))
      (.of_factories rfl (.of_univ [_, _] rfl)) rfl
    exact (fits_resetDefinition reading hstale hfits).mono fun _ _ ht => ⟨_, ht⟩

theorem fits_removeDefinition (reading : env.Reading) (hstale : stale ∨ env.QuietEnds) {depth : Nat}
    (h : CacheFits B up stale ∅ f s) :
    Yields True (removeDefinition (reentry env depth) f name).run s fun _ t =>
      ∃ B', CacheFits B' up stale ∅ f t := by
  unfold removeDefinition
  simp only [yields_run_bind, yields_run_liftQuery]
  unfold tryUpdate
  simp only [ends_bind, ends_lift, theFactory_apply]
  cases hnew : (s.factory f).undefine name with
  | error e => exact ⟨B, h⟩
  | ok new =>
    obtain ⟨store, rfl, hstore⟩ := undefine_spec hnew
    simp only [ends_modify, yields_run_liftState, note_apply, yields_run_liftEffect]
    have hfits := (h.redefined hstore).reads_of_merged_eq
      (t := (s.setFactory f { s.factory f with definitions := store }).write
        (.notice (.definitionRemoved name))) (.of_factories rfl (.of_univ [_] rfl)) rfl
    refine (fits_resetDefinition reading hstale hfits).mono fun _ t ht => ?_
    exact ⟨_, ht.reads (.inr Factory.bounds_empty) (.modifyFactory trivial rfl rfl)⟩

/-- Whether a call registers or removes a definition, drops merges, destroys singletons or reads. -/
def FactoryCall.isUpkeep : FactoryCall → Bool
  | register .. | remove _ | clearCache | cacheMetadata _ | destroySingleton _ | destroySingletons => true
  | call => call.isReading

theorem yields_answerAct {lost : Prop} {α : Type} {act : Act α} {shown : α → Answer} {I : Session → Prop}
    (h : Yields lost act.run s fun _ t => I t) :
    Yields lost (answerAct act shown) s fun _ t => I t := by
  unfold answerAct
  rw [yields_bind]
  refine h.mono fun r t ht => ?_
  cases r <;> exact ht

theorem fits_callFactory (reading : env.Reading) (hstale : stale ∨ env.QuietEnds) {depth : Nat}
    {call : FactoryCall} (hcall : call.isUpkeep = true) (h : CacheFits B up stale ∅ f s) :
    Yields True (callFactory env (reentry env depth) f call) s fun _ t =>
      ∃ B', CacheFits B' up stale ∅ f t := by
  have ha := reentry_reading reading depth
  have hk := reading.keep ha
  have cover := covers_reading Set.univ
  have keeps {m : Effect Answer} (hm : Keeps (BeanContainer.reading Set.univ) m) :
      Yields True m s fun _ t => ∃ B', CacheFits B' up stale ∅ f t :=
    (hm s h.linked).mono fun _ _ ht => ⟨B, h.reads (.inr Factory.bounds_empty) ht⟩
  by_cases hread : call.isReading = true
  · exact keeps (keeps_callFactory cover.making (hk.making cover) ha.keep.lookup trivial hread)
  · cases call
    case register name d => exact yields_answerAct (fits_registerDefinition reading hstale h)
    case remove name => exact yields_answerAct (fits_removeDefinition reading hstale h)
    case clearCache => exact ⟨B, (h.clear rfl rfl (.inr rfl)).reads (.inr Factory.bounds_empty) (.of_factories rfl (.of_univ [_] rfl))⟩
    case cacheMetadata value =>
      refine ⟨B, h.clear rfl rfl ?_⟩
      cases value
      · exact .inr rfl
      · exact .inl rfl
    case destroySingleton name =>
      exact keeps ((cover.cascade hk ha.keep trivial).bind fun _ => keeps_pure)
    case destroySingletons =>
      exact keeps ((cover.teardown hk ha.keep trivial).bind fun _ => keeps_pure)
    all_goals exact absurd hcall hread

end

/-! ## Runs -/

/-- The sessions that come of calls to a factory `f`, as its definitions come and go, and of changes
elsewhere that leave `f` as it is, and what is merged above it. -/
inductive Upkeep (env : Collaborators) (f : FactoryId) (s : Session) : Session → Prop
  | start : Upkeep env f s s
  | call {t u : Session} {call : FactoryCall} {depth : Nat} {answer : Answer} : Upkeep env f s t →
      call.isUpkeep = true → callFactory env (reentry env depth) f call t = some (answer, u) →
      Upkeep env f s u
  | elsewhere {t u : Session} : Upkeep env f s t → f < u.factories.length → u.Linked Set.univ →
      u.factory f = t.factory f →
      (∀ n m, u.denotes (u.above f) n m ↔ t.denotes (t.above f) n m) → Upkeep env f s u

section

variable {B : Factory} {up : String → MergedDefinition → Prop} {stale : Prop} {env : Collaborators}
  {f : FactoryId} {s t : Session} {n : String} {m : MergedDefinition}

theorem CacheFits.start (hf : f < s.factories.length) (hl : s.Linked Set.univ)
    (hempty : (s.factory f).merged = {}) :
    CacheFits (s.factory f).blueprint (s.denotes (s.above f)) stale ∅ f s where
  blueprint := rfl
  length := hf
  linked := hl
  above := Iff.rfl
  defined _ hm := by simp [hempty, MergedCache.get?] at hm
  right _ hm := by simp [hempty, MergedCache.get?] at hm
  pending _ {_ _} _ hp := hp.elim

theorem CacheFits.elsewhere {u : Session} (h : CacheFits B up stale ∅ f t)
    (hlen : f < u.factories.length) (hl : u.Linked Set.univ) (hsame : u.factory f = t.factory f)
    (habove : ∀ n m, u.denotes (u.above f) n m ↔ t.denotes (t.above f) n m) :
    CacheFits B up stale ∅ f u where
  blueprint := by rw [hsame, h.blueprint]
  length := hlen
  linked := hl
  above := (habove _ _).trans h.above
  defined hn hm := h.defined hn (hsame ▸ hm)
  right hn hm := h.right hn (hsame ▸ hm)
  pending := h.pending

theorem Upkeep.fits (reading : env.Reading) (hstale : stale ∨ env.QuietEnds)
    (start : CacheFits B up stale ∅ f s) (run : Upkeep env f s t) :
    ∃ B', CacheFits B' up stale ∅ f t := by
  induction run with
  | start => exact ⟨B, start⟩
  | call _ hcall hrun ih =>
    obtain ⟨B', h⟩ := ih
    exact yields_true_iff.1 (fits_callFactory reading hstale hcall h) _ _ hrun
  | elsewhere _ hlen hl hsame habove ih =>
    obtain ⟨B', h⟩ := ih
    exact ⟨B', h.elsewhere hlen hl hsame habove⟩

/-- A session after a factory has dropped its cached merges. -/
def Session.forget (s : Session) (f : FactoryId) : Session := (clearMetadata f s).2

theorem CacheFits.forget (h : CacheFits B up stale ∅ f t) : CacheFits B up stale ∅ f (t.forget f) :=
  (h.clear rfl rfl (.inr rfl)).reads (.inr Factory.bounds_empty) (.of_factories rfl (.of_univ [_] rfl))

theorem merged_forget (hf : f < t.factories.length) : ((t.forget f).factory f).merged = {} := by
  change ((t.modifyFactory f fun F => { F with merged := F.merged.clear }).factory f).merged = {}
  rw [factory_modifyFactory_self hf]
  rfl

/-- Asked again without a cache, a factory answers with what its blueprint merges a name to. -/
theorem CacheFits.ends_mergedOwn_forget (h : CacheFits B up stale ∅ f t) (hm : B.Merges up n m) :
    Ends (mergedOwn f n) (t.forget f) fun r _ => ∃ fresh, r = .ok fresh ∧ fresh.definition = m := by
  have hempty := merged_forget h.length
  refine (ends_mergedOwn h.forget.linked trivial).mono fun r _ hr => (hr.2 m).1 ?_
  refine (Factory.merges_iff_of_cached (denotes_unique _) (fun _ _ => h.forget.above.symm) ?_
    (fun hm' => ?_) fun hm' => ?_).1 hm
  · rw [h.forget.blueprint]
    exact h.blueprint ▸ rfl
  · rw [hempty] at hm'
    simp [MergedCache.get?] at hm'
  · rw [← h.blueprint] at hm'
    simp [Factory.blueprint, MergedCache.get?] at hm'

theorem CacheFits.ends_mergedOwn_forget_circular (h : CacheFits B up stale ∅ f t)
    (hcircle : B.Circular n) : Ends (mergedOwn f n) (t.forget f) fun r _ =>
      ∃ x path, r = .error (.definitionStore x (.parentCycle path)) := by
  have hempty := merged_forget h.length
  cases hc : (((t.forget f).factory f).lineage n).circle? with
  | some c =>
    refine (ends_mergedOwn_circle hc).mono ?_
    rintro _ _ ⟨rfl, -⟩
    exact ⟨_, _, rfl⟩
  | none =>
    -- A line would lead up along the circle, and nothing is cached that could stop it.
    obtain ⟨x, hnx, hxx⟩ := hcircle
    have hclimb : B.LocalParent = ((t.forget f).factory f).Climbs := by
      funext y p
      rw [← h.forget.blueprint]
      exact propext ⟨fun hp => ⟨by rw [hempty]; rfl, hp⟩, fun hp => hp.2⟩
    rw [hclimb] at hnx hxx
    exact absurd hxx ((Factory.line_of_circle?_eq_none hc).not_climbs_back x hnx)

/-- **Cached merges are those that merging anew would give**, after any number of registrations,
removals, lookups and destructions, as long as nothing is changed from within. If destructions ask
the factory in turn, a merge may be left that a circle of parents has made impossible since, but
none that says anything else. -/
theorem Upkeep.merged_eq_fresh (reading : env.Reading) (hf : f < s.factories.length)
    (hl : s.Linked Set.univ) (hempty : (s.factory f).merged = {}) (run : Upkeep env f s t)
    {ref : MergedRef} (hcached : (t.factory f).merged.get? n = some ref) :
    (t.factory f).definitions.contains n = true ∧
      Ends (mergedOwn f n) (t.forget f) fun r _ =>
        (∃ fresh, r = .ok fresh ∧ fresh.definition = ref.definition) ∨
          ¬ env.QuietEnds ∧ ∃ x path, r = .error (.definitionStore x (.parentCycle path)) := by
  obtain ⟨B, h⟩ := run.fits reading (Classical.em _).symm (.start hf hl hempty)
  refine ⟨?_, ?_⟩
  · have := h.defined (by simp) hcached
    rw [← h.blueprint] at this
    exact this
  · rcases h.right (by simp) hcached with hm | ⟨hloud, hcircle⟩
    · exact (h.ends_mergedOwn_forget hm).mono fun _ _ => .inl
    · exact (h.ends_mergedOwn_forget_circular hcircle).mono fun _ _ hr => .inr ⟨hloud, hr⟩

end

/-! ## A merge that is left over -/

/-- A session after some calls of a factory, one after the other. -/
def callAll (env : Collaborators) (depth : Nat) (f : FactoryId) (calls : List FactoryCall)
    (s : Session) : Option Session :=
  calls.foldlM (fun s call => (callFactory env (reentry env depth) f call s).map Prod.snd) s

theorem upkeep_callAll {env : Collaborators} {depth : Nat} {f : FactoryId} {start : Session} :
    ∀ {calls : List FactoryCall} {s t : Session}, (∀ call ∈ calls, call.isUpkeep = true) →
      Upkeep env f start s → callAll env depth f calls s = some t → Upkeep env f start t
  | [], s, t, _, hs, h => by
    cases h
    exact hs
  | call :: calls, s, t, hcalls, hs, h => by
    unfold callAll at h
    rw [List.foldlM_cons] at h
    obtain ⟨u, hu, h⟩ := Option.bind_eq_some_iff.1 h
    obtain ⟨⟨answer, _⟩, hcall, rfl⟩ := Option.map_eq_some_iff.1 hu
    exact upkeep_callAll (fun c hc => hcalls c (by simp [hc])) (hs.call (hcalls call (by simp)) hcall) h

/-- Collaborators that follow written instructions, where a text asks for the merge of what it names. -/
def inquirers : Collaborators :=
  Scripted.collaborators (fun k => ⟨k.label, none⟩) fun
    | .text name => some ("merged", .on "main" (.merged name))
    | _ => none

theorem reading_inquirers : inquirers.Reading := by
  refine Scripted.reading_collaborators fun v word op h => ?_
  split at h
  · cases h
    rfl
  · cases h

/-- A definition gets its own child as its parent, while its singleton asks for its merge when it is
destroyed. -/
def turnAround : List FactoryCall :=
  [.register "a" { properties := .ofList [("$destroy_ops", .list [.text "a"])] },
    .register "b" { parent := some "a" }, .get "a", .merged "b", .register "a" { parent := some "b" }]

theorem linked_initial {U : Set FactoryId} : Session.initial.Linked U := by
  intro f _ p hp
  cases f with
  | zero => cases hp
  | succ f => cases hp

/-- After all this the first definition has a cached merge, and the circle it has got into is why
there is no other. -/
theorem merged_eq_fresh_turnAround :
    inquirers.Reading ∧ 0 < Session.initial.factories.length ∧ Session.initial.Linked Set.univ ∧
      (Session.initial.factory 0).merged = {} ∧
      ∃ t ref, Upkeep inquirers 0 .initial t ∧ (t.factory 0).merged.get? "a" = some ref ∧
        (t.factory 0).definitions.contains "a" = true ∧
        Ends (mergedOwn 0 "a") (t.forget 0) fun r _ =>
          (∃ fresh, r = .ok fresh ∧ fresh.definition = ref.definition) ∨
            ¬ inquirers.QuietEnds ∧ ∃ x path, r = .error (.definitionStore x (.parentCycle path)) := by
  have hlen : 0 < Session.initial.factories.length := by decide
  have hempty : (Session.initial.factory 0).merged = {} := rfl
  have hfacts : (callAll inquirers 4 0 turnAround .initial).any (fun t =>
      ((t.factory 0).merged.get? "a").isSome) = true := by
    decide +kernel
  obtain ⟨t, ht, hfacts⟩ := (Option.any_eq_true ..).1 hfacts
  obtain ⟨ref, href⟩ := Option.isSome_iff_exists.1 hfacts
  have hrun : Upkeep inquirers 0 .initial t := upkeep_callAll (by decide) .start ht
  exact ⟨reading_inquirers, hlen, linked_initial, hempty, t, ref, hrun, href,
    Upkeep.merged_eq_fresh reading_inquirers hlen linked_initial hempty hrun href⟩

/-- The callback still finds the merge of the child, and what it makes of it stays. -/
theorem not_merged_eq_fresh_of_asking : ¬ ∀ (t : Session) (n : String) (ref : MergedRef),
    Upkeep inquirers 0 .initial t → (t.factory 0).merged.get? n = some ref →
      Ends (mergedOwn 0 n) (t.forget 0) fun r _ =>
        ∃ fresh, r = .ok fresh ∧ fresh.definition = ref.definition := by
  intro claim
  have hfacts : (callAll inquirers 4 0 turnAround .initial).any (fun t =>
      ((t.factory 0).merged.get? "a").isSome && !((mergedOwn 0 "a").run (t.forget 0)).1.toBool) = true := by
    decide +kernel
  obtain ⟨t, ht, hfacts⟩ := (Option.any_eq_true ..).1 hfacts
  rw [Bool.and_eq_true, Bool.not_eq_true'] at hfacts
  obtain ⟨ref, href⟩ := Option.isSome_iff_exists.1 hfacts.1
  have hcalls : ∀ call ∈ turnAround, call.isUpkeep = true := by decide
  obtain ⟨fresh, hfresh, -⟩ := claim t "a" ref (upkeep_callAll hcalls .start ht) href
  rw [hfresh] at hfacts
  exact absurd hfacts.2 (by simp [Except.toBool])

end BeanContainer
