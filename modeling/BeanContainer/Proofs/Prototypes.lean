import BeanContainer.Proofs.Chronicle
import BeanContainer.Proofs.Inheritance
import BeanContainer.Proofs.Permitted
import BeanContainer.Proofs.Providers

/-!
Prototypes and the singletons in the caches. Whether a name is that of a
singleton, whether it is that of a prototype, and what a lookup of it finds, is
up to one factory, its provider. But the three do not go by the same there: for
the first question and for lookups a singleton in the cache comes before the
definition, for the second one the definition comes first. So they agree unless
the provider has both, a definition of a prototype and a singleton of that name
(`prototype_or_cached`).
-/

namespace BeanContainer

open Relation Session

variable {α : Type} {env : Collaborators} {again : Reentry} {s t : Session} {f g k : FactoryId}
  {n x y : String} {i : Instance}

/-- A factory defines a prototype of a name. -/
def Session.DefinesPrototype (s : Session) (k : FactoryId) (x : String) : Prop :=
  s.Defines k x ∧ ∃ m, s.merged? k x = some m ∧ m.isPrototype = true

theorem isSingleton_of_isPrototype {m : MergedDefinition} (h : m.isPrototype = true) :
    m.isSingleton = false := by
  have hscope : m.scope = prototypeScope := by simpa [MergedDefinition.isPrototype] using h
  unfold MergedDefinition.isSingleton
  rw [hscope]
  decide

/-! ## Questions -/

theorem askUpwards_eq_ok_iff {own : FactoryId → String → Query (Option α)} (hown : Decides s own)
    {chain : List FactoryId} {a : α} : ((askUpwards own chain n).run s).1 = .ok a ↔
      ∃ k x, s.provider chain n = some (k, x) ∧ ((own k x).run s).1 = .ok (some a) := by
  cases hp : s.provider chain n with
  | none =>
    rw [askUpwards_of_none hown hp]
    simp
  | some p =>
    obtain ⟨k, x⟩ := p
    rw [askUpwards_of_some hown hp]
    have hanswer : ((answerOf own k x).run s).1 = .ok a ↔ ((own k x).run s).1 = .ok (some a) := by
      unfold answerOf
      change Ends (own k x >>= _) s (fun r _ => r = .ok a) ↔ Ends (own k x) s fun r _ => r = .ok (some a)
      rw [ends_bind]
      unfold Ends
      rcases ((own k x).run s).1 with e | _ | b
      · exact ⟨nofun, nofun⟩
      · exact ⟨fun h => absurd (h : Except.error _ = Except.ok a) nofun, nofun⟩
      · exact ⟨fun h => congrArg (Except.ok ∘ some) (Except.ok.inj h), fun h => by cases h; rfl⟩
    exact hanswer.trans ⟨fun h => ⟨k, x, rfl, h⟩, fun ⟨_, _, e, h⟩ => by cases e; exact h⟩

theorem ends_fromOwnDefinition (hdef : s.Defines k x) {answer : MergedDefinition → α} :
    Ends (fromOwnDefinition k x answer) s fun r _ => r ≠ .ok none ∧
      ∀ a, r = .ok (some a) ↔ ∃ m, s.merged? k x = some m ∧ answer m = a := by
  unfold fromOwnDefinition
  rw [ends_bind, ends_lift, theFactory_apply]
  dsimp only
  rw [if_pos hdef, ends_bind]
  have hmerged : Ends (mergedOwn k x) s fun r _ => r.toOption.map MergedRef.definition = s.merged? k x := rfl
  refine hmerged.mono fun r t hr => ?_
  rw [← hr]
  cases r <;> simp [Except.toOption]

theorem run_isSingleton_iff : ((isSingleton f n).run s).1 = .ok true ↔
    ∃ k x, s.provider (s.chain f) n = some (k, x) ∧ s.OffersSingleton k x := by
  refine (askUpwards_eq_ok_iff decides_isSingleton).trans
    (exists_congr fun k => exists_congr fun x => and_congr_right fun hp => ?_)
  change Ends _ s fun r _ => r = .ok (some true) ↔ s.OffersSingleton k x
  rw [ends_bind, ends_lift, theFactory_apply]
  dsimp only
  split
  · next hcached =>
    exact ⟨fun _ => .inl (OrderedMap.contains_iff_get?.1 hcached), fun _ => rfl⟩
  · next hcached =>
    have hdef : s.Defines k x := (provider_spec hp).1.resolve_right hcached
    have hnone : ¬ ∃ i, s.singleton? k x = some i := fun h => hcached (OrderedMap.contains_iff_get?.2 h)
    refine (ends_fromOwnDefinition hdef).mono fun r _ hr => (hr.2 true).trans ?_
    exact ⟨fun h => .inr ⟨hdef, h⟩, fun h => (h.resolve_left hnone).2⟩

theorem run_isPrototype_iff : ((isPrototype f n).run s).1 = .ok true ↔
    ∃ k x, s.provider (s.chain f) n = some (k, x) ∧ s.DefinesPrototype k x := by
  refine (askUpwards_eq_ok_iff decides_isPrototype).trans
    (exists_congr fun k => exists_congr fun x => and_congr_right fun hp => ?_)
  change Ends _ s fun r _ => r = .ok (some true) ↔ s.DefinesPrototype k x
  rw [ends_bind]
  by_cases hdef : s.Defines k x
  · refine (ends_fromOwnDefinition hdef).mono fun r t hr => ?_
    obtain ⟨hne, hr⟩ := hr
    have hproto := (hr true).trans (and_iff_right hdef).symm
    rcases r with e | _ | a
    · exact hproto
    · exact absurd rfl hne
    · exact hproto
  · refine (fromOwnDefinition_of_not hdef).mono ?_
    rintro r t ⟨rfl, -⟩
    dsimp only
    rw [ends_bind, ends_lift, theFactory_apply]
    dsimp only
    rw [ends_pure]
    refine ⟨fun h => ?_, fun h => absurd h.1 hdef⟩
    split at h <;> cases h

/-! ## Lookups -/

/-- A singleton was in the cache of a factory, or the record tells that it came there. -/
def Session.Arrives (s : Session) (new : List Occurrence) (g : FactoryId) (y : String) (i : Instance) : Prop :=
  s.singleton? g y = some i ∨ .cached g y i ∈ new ∨ .registered g y i ∈ new

theorem Session.Change.singleton?_eq_none (h : s.Change t) (hg : s.factories.length ≤ g) :
    t.singleton? g y = none := by
  have beyond (hlen : t.factories.length = s.factories.length) : t.singleton? g y = none := by
    rw [Session.singleton?, factory_of_length_le (hlen ▸ hg)]
    rfl
  cases h with
  | bean h => exact beyond h.length
  | factory => exact beyond length_setFactory
  | takeOver => exact beyond length_setFactory
  | register => exact beyond length_setFactory
  | setParent => exact beyond length_modifyFactory
  | addFactory =>
    obtain rfl | hlt := Nat.eq_or_lt_of_le hg
    · rw [Session.singleton?, factory_addFactory_self]
      rfl
    · rw [Session.singleton?, factory_of_length_le (by rwa [length_addFactory])]
      rfl
  | addProcessor | addScope | label => exact beyond rfl

/-- **What is in a cache was there before, or has come there meanwhile.** -/
theorem arrives_of_changes {new : List Occurrence} (h : ReflTransGen Session.Change s t)
    (hnew : t.record = new ++ s.record) (hi : t.singleton? g y = some i) : s.Arrives new g y i := by
  induction h generalizing new with
  | refl => exact .inl hi
  | @tail u t hsu hut ih =>
    obtain hlen | hlen := Nat.lt_or_ge g u.factories.length
    · obtain ⟨recent, hrecent, hc⟩ := hut.chronicled hlen
      obtain ⟨early, hearly⟩ := told_of_changes hsu
      obtain rfl : new = recent ++ early := by
        rw [hrecent, ← hearly, ← List.append_assoc] at hnew
        exact (List.append_cancel_right hnew).symm
      obtain hu | hcached | hregistered := hc.arrived hi
      · exact (ih hearly.symm hu).imp id (Or.imp (List.mem_append_right _) (List.mem_append_right _))
      · exact .inr (.inl (List.mem_append_left _ hcached))
      · exact .inr (.inr (List.mem_append_left _ hregistered))
    · rw [hut.singleton?_eq_none hlen] at hi
      cases hi

/-- What is made of the definition of a prototype is what was made for it just now. -/
theorem gives_makeDefined_prototype (ha : again.Changes) {m : MergedDefinition} (hm : s.merged? k x = some m)
    (hproto : m.isPrototype = true) : Gives (makeDefined env again k x) s fun i t =>
      ReflTransGen Session.Change s t ∧ ∃ old, t.record = .constructed k x i :: old := by
  refine gives_makeDefined_of_kind covers_changing.making ha.lookup trivial trivial (gives_mergedOwn hm) ?_
  intro u hsu
  unfold makeOfKind
  have hsingleton := isSingleton_of_isPrototype hproto
  rw [if_neg (by simp [hsingleton]), if_pos hproto, whileCreatingPrototype_eq]
  have hcreate : env.KeepCreation changing Set.univ again :=
    (ha.collaborators.making covers_changing.toCovers).toKeepCreation
  have hlast : Gives (whileHolding k (.prototype x) (createBean env again k x m)) u fun i v =>
      ∃ old, v.record = .constructed k x i :: old := by
    unfold Gives
    rw [yields_whileHolding]
    split
    · exact fun _ h => nomatch h
    · exact gives_createBean_constructed
  refine Yields.mono ((keeps_whileHolding covers_changing.making trivial
    (keeps_createBean covers_changing.making hcreate trivial hsingleton) u trivial).and hlast) ?_
  rintro r v ⟨huv, hlast⟩ i hi
  exact ⟨hsu.trans huv, hlast i hi⟩

/-- **Singletons and prototypes.**

A name is both that of a singleton and that of a prototype exactly if its provider defines a prototype of
it and has a singleton of it in the cache nevertheless. If a name is that of a prototype, then a lookup
that succeeds finds this singleton, if there is one, and nothing else happens. If there is none, it finds
what was made for it at last, and nobody puts that into a cache any more: where it is in a cache, it was
before, or it came there while it was being made. -/
theorem prototype_or_cached (env : Collaborators) (s : Session) (f : FactoryId) (n : String) :
    (((isSingleton f n).run s).1 = .ok true ∧ ((isPrototype f n).run s).1 = .ok true ↔
      ∃ k x, s.provider (s.chain f) n = some (k, x) ∧ s.DefinesPrototype k x ∧ ∃ i, s.singleton? k x = some i) ∧
    (((isPrototype f n).run s).1 = .ok true → ∃ k x, s.provider (s.chain f) n = some (k, x) ∧
      ∀ depth i t, (lookup env (reentry env depth) f n).run s = some (.ok i, t) →
        s.singleton? k x = some i ∧ t = s.write (.handedOut k x i) ∨
        s.singleton? k x = none ∧ ∃ made,
          t.record = .constructed k x i :: made ++ .missed k x :: s.record ∧
          ∀ g y, t.singleton? g y = some i → s.Arrives made g y i) := by
  refine ⟨?_, fun hproto => ?_⟩
  · rw [run_isSingleton_iff, run_isPrototype_iff]
    constructor
    · rintro ⟨⟨k, x, hp, hoffers⟩, k', x', hp', hdef, m, hm, hproto⟩
      obtain ⟨rfl, rfl⟩ := Prod.mk.inj (Option.some.inj (hp.symm.trans hp'))
      refine ⟨k, x, hp, ⟨hdef, m, hm, hproto⟩, hoffers.resolve_right ?_⟩
      rintro ⟨-, m', hm', hsingleton⟩
      obtain rfl := Option.some.inj (hm.symm.trans hm')
      exact Bool.false_ne_true ((isSingleton_of_isPrototype hproto).symm.trans hsingleton)
    · rintro ⟨k, x, hp, hdef, hcached⟩
      exact ⟨⟨k, x, hp, .inl hcached⟩, k, x, hp, hdef⟩
  · obtain ⟨k, x, hp, -, m, hm, hkind⟩ := run_isPrototype_iff.1 hproto
    refine ⟨k, x, hp, fun depth i t hlookup => ?_⟩
    change (follow env (reentry env depth) (s.route (s.chain f) n)).run s = _ at hlookup
    obtain ⟨g, -, y, -, hbusy⟩ | hroute := route_of_provider hp
    · rw [hbusy] at hlookup
      cases hlookup
    rw [hroute] at hlookup
    unfold Session.routeTo at hlookup
    cases hcached : s.singleton? k x with
    | some j =>
      rw [hcached] at hlookup
      cases hlookup
      exact .inl ⟨rfl, rfl⟩
    | none =>
      rw [hcached] at hlookup
      have hmiss : s.Change (s.write (.missed k x)) := .bean (.making (.miss trivial hcached))
      have hmade : Gives (makeDefined env (reentry env depth) k x) (s.write (.missed k x)) _ :=
        gives_makeDefined_prototype (changes_reentry env depth) (merged?_write.trans hm) hkind
      obtain ⟨hst, old, hold⟩ := yields_true_iff.1 hmade _ _ hlookup i rfl
      obtain ⟨new, hnew⟩ := told_of_changes hst
      rw [hold, record_write] at hnew
      cases new with
      | nil => cases hnew
      | cons o made =>
        obtain ⟨rfl, rfl⟩ := List.cons.inj hnew
        refine .inr ⟨rfl, made, hold, fun g y hi => ?_⟩
        have harrives : (s.write (.missed k x)).Arrives (.constructed k x i :: made) g y i :=
          arrives_of_changes hst hold hi
        exact harrives.imp id fun h => by simpa using h

/-- A prototype that has no singleton besides is made anew. -/
theorem prototype_or_cached_form : ∃ s t i, Run quietly .initial s ∧
    ((isPrototype 0 "form").run s).1 = .ok true ∧ ((isSingleton 0 "form").run s).1 ≠ .ok true ∧
    (lookup quietly (reentry quietly 1) 0 "form").run s = some (.ok i, t) ∧
    ∃ made, t.record = .constructed 0 "form" i :: made ++ .missed 0 "form" :: s.record ∧
      ∀ g y, t.singleton? g y = some i → s.Arrives made g y i := by
  have hfacts : (performAll quietly (fun _ _ => true) (fun _ _ => true) 1
      [.on "main" (.register "form" { scope := some prototypeScope })] .initial).any (fun s =>
      ((isPrototype 0 "form").run s).1.toOption = some true && s.provider (s.chain 0) "form" = some (0, "form") &&
      s.singleton? 0 "form" = none && ((lookup quietly (reentry quietly 1) 0 "form").run s).any fun (r, _) =>
        r.toBool) = true := by
    decide +kernel
  obtain ⟨s, hs, hfacts⟩ := (Option.any_eq_true ..).1 hfacts
  simp only [Bool.and_eq_true, decide_eq_true_eq] at hfacts
  obtain ⟨⟨⟨hproto, hprovider⟩, hnone⟩, hlookup⟩ := hfacts
  obtain ⟨⟨r, t⟩, ht, hok⟩ := (Option.any_eq_true ..).1 hlookup
  cases r with
  | error e => cases hok
  | ok i =>
    have hproto := eq_ok_of_toOption hproto
    obtain ⟨hboth, hfinds⟩ := prototype_or_cached quietly s 0 "form"
    refine ⟨s, t, i, (permittedRun_performAll hs).run, hproto, fun hsingleton => ?_, ht, ?_⟩
    · obtain ⟨k, x, hp, -, j, hj⟩ := hboth.1 ⟨hsingleton, hproto⟩
      obtain ⟨rfl, rfl⟩ := Prod.mk.inj (Option.some.inj (hp.symm.trans hprovider))
      rw [hnone] at hj
      cases hj
    · obtain ⟨k, x, hp, hfound⟩ := hfinds hproto
      obtain ⟨rfl, rfl⟩ := Prod.mk.inj (Option.some.inj (hp.symm.trans hprovider))
      obtain ⟨hcached, -⟩ | ⟨-, hmade⟩ := hfound 1 i t ht
      · rw [hnone] at hcached
        cases hcached
      · exact hmade

/-- A singleton that is registered under the name of a prototype is handed out for it. -/
theorem not_prototype_only : ¬ ∀ (env : Collaborators) (s : Session) (f : FactoryId) (n : String),
    Run env .initial s →
      ¬ (((isSingleton f n).run s).1 = .ok true ∧ ((isPrototype f n).run s).1 = .ok true) ∧
      (((isPrototype f n).run s).1 = .ok true → ∀ depth i t,
        (lookup env (reentry env depth) f n).run s = some (.ok i, t) → ∀ y, t.singleton? f y ≠ some i) := by
  intro claim
  have hfacts : (performAll quietly (fun _ _ => true) (fun _ _ => true) 1
      [.on "main" (.register "form" { scope := some prototypeScope }),
        .on "main" (.registerSingleton "form" (.fresh {}))] .initial).any (fun s =>
      ((isSingleton 0 "form").run s).1.toOption = some true &&
      ((isPrototype 0 "form").run s).1.toOption = some true) = true := by
    decide +kernel
  obtain ⟨s, hs, hfacts⟩ := (Option.any_eq_true ..).1 hfacts
  simp only [Bool.and_eq_true, decide_eq_true_eq] at hfacts
  exact (claim quietly s 0 "form" (permittedRun_performAll hs).run).1
    ⟨eq_ok_of_toOption hfacts.1, eq_ok_of_toOption hfacts.2⟩

end BeanContainer
