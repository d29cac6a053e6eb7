import BeanContainer.Proofs.ParentWalks
import BeanContainer.Proofs.Providers

/-!
Whether a bean may be injected. A factory judges what it has of a name itself,
a definition or an instance; of the factories above it is asked for a merged definition
only. So an instance that was registered above without a definition is never
judged, although the bean is there (`isCandidate_unknown_iff`,
`not_missing_of_unknown`).
-/

namespace BeanContainer.Session

variable {s : Session} {f k p : FactoryId} {name x : String} {place : Place} {env : Collaborators}
  {required : TypeInfo}

/-- All that there is of a name is an instance further up: the factory has nothing of it itself, no
definition is found, and the factory above that provides the bean has a singleton only. -/
structure OnlyInstanceAbove (s : Session) (f : FactoryId) (name : String) : Prop where
  not_has : ¬ s.Has f ((s.factory f).canonical name)
  undefined : ∀ place, ¬ s.Finds f name place
  provided : ∃ k x, s.provider (s.chain f) name = some (k, x) ∧ k ≠ f ∧
    (s.factory k).singletons.contains x = true ∧ ¬ s.Defines k x

namespace Forest

/-- Asked for a merged definition, a chain of factories knows nothing of the name exactly if none of them
defines it. -/
theorem unknown_mergedIn_iff (h : s.Forest) (hf : f < s.factories.length) :
    Ends (mergedIn (s.chain f) name) s fun r _ =>
      (∃ x, r = .error (.noSuchDefinition x)) ↔ ∀ place, ¬ s.Finds f name place := by
  induction f using h.wellFounded.induction generalizing name with
  | h f ih =>
    rw [(h.asksParent hf).merged name]
    simp only [ends_bind, ends_lift, theFactory_apply]
    by_cases hc : (s.factory f).definitions.contains ((s.factory f).canonical name) = true
    · simp only [hc, if_true]
      refine (known_mergeLocal hc).mono fun r t hknown => ?_
      constructor
      · intro hr
        obtain ⟨x, hr⟩ := hr
        exact absurd hr (hknown x)
      · intro hno
        exact absurd (.here hc) (hno _)
    · simp only [hc]
      cases hp : (s.factory f).parent with
      | none =>
        constructor
        · intro _ place hfinds
          obtain ⟨p, hp', -⟩ := (finds_iff_of_not_contains hc).1 hfinds
          cases hp.symm.trans hp'
        · intro _
          exact ⟨name, rfl⟩
      | some p =>
        refine (ih p hp (h.parent_lt hp)).mono fun r t hr => hr.trans (forall_congr' fun place => ?_)
        rw [finds_iff_of_not_contains hc]
        simp [ParentOf, hp]

theorem provider_eq (h : s.Forest) (hf : f < s.factories.length) : s.provider (s.chain f) name =
    if s.Has f ((s.factory f).canonical name) then some (f, (s.factory f).canonical name)
    else (s.factory f).parent.elim none fun p => s.provider (s.chain p) ((s.factory f).canonical name) := by
  rw [h.chain_eq hf, provider]
  cases (s.factory f).parent <;> rfl

theorem finds_of_provider (h : s.Forest) (hf : f < s.factories.length)
    (hk : s.provider (s.chain f) name = some (k, x)) (hdef : s.Defines k x) : s.Finds f name (k, x) := by
  induction f using h.wellFounded.induction generalizing name with
  | h f ih =>
    rw [h.provider_eq hf] at hk
    split at hk
    · cases hk
      exact .here hdef
    · next hnot =>
      cases hp : (s.factory f).parent with
      | none =>
        rw [hp] at hk
        cases hk
      | some p =>
        rw [hp] at hk
        exact .above (mt .inl hnot) hp (ih p hp (h.parent_lt hp) hk)

theorem ne_of_provider (h : s.Forest) (hf : f < s.factories.length)
    (hk : s.provider (s.chain f) name = some (k, x)) (hnot : ¬ s.Has f ((s.factory f).canonical name)) :
    k ≠ f := by
  rw [h.provider_eq hf, if_neg hnot] at hk
  cases hp : (s.factory f).parent with
  | none =>
    rw [hp] at hk
    cases hk
  | some p =>
    rw [hp] at hk
    intro he
    subst he
    have hmem := (provider_spec hk).2.1
    have hback := (h.mem_chain_iff (h.parent_lt hp)).1 hmem
    exact h.not_ancestor_self k (.tail' hback hp)

/-- A factory that has nothing of a name itself, and finds no definition, is the first on a chain that
provides nothing, or nothing but an instance. -/
theorem unprovided_or_onlyInstanceAbove (h : s.Forest) (hf : f < s.factories.length)
    (hnot : ¬ s.Has f ((s.factory f).canonical name)) (hno : ∀ place, ¬ s.Finds f name place) :
    s.containsBean f name = false ∨ s.OnlyInstanceAbove f name := by
  cases hk : s.provider (s.chain f) name with
  | none =>
    left
    rw [containsBean, containsIn_iff, hk]
    rfl
  | some place =>
    right
    obtain ⟨k, x⟩ := place
    have hundefined : ¬ s.Defines k x := fun hdef => hno _ (h.finds_of_provider hf hk hdef)
    exact ⟨hnot, hno, k, x, hk, h.ne_of_provider hf hk hnot, (provider_spec hk).1.resolve_left hundefined,
      hundefined⟩

theorem unprovided (h : s.Forest) (hf : f < s.factories.length) (hno : s.containsBean f name = false) :
    ¬ s.Has f ((s.factory f).canonical name) ∧ ∀ place, ¬ s.Finds f name place := by
  have hnone : s.provider (s.chain f) name = none := by
    rw [containsBean, containsIn_iff] at hno
    simpa using hno
  induction f using h.wellFounded.induction generalizing name with
  | h f ih =>
    rw [h.provider_eq hf] at hnone
    split at hnone
    · cases hnone
    · next hnot =>
      refine ⟨hnot, fun place hfinds => ?_⟩
      obtain ⟨p, hp, hfinds⟩ := (finds_iff_of_not_contains (mt .inl hnot)).1 hfinds
      rw [show (s.factory f).parent = some p from hp] at hnone
      have habove : s.containsBean p ((s.factory f).canonical name) = false := by
        rw [containsBean, containsIn_iff, show s.provider (s.chain p) _ = none from hnone]
        rfl
      exact (ih p hp (h.parent_lt hp) habove hnone).2 place hfinds

/-- What a factory has of a name it judges itself, and it fails for other reasons, if at all; of the
factories above it is asked for a merged definition. -/
theorem unknown_isCandidate_iff (h : s.Forest) :
    Ends (isCandidate env f name required) s fun r _ => (∃ x, r = .error (.noSuchDefinition x)) ↔
      ¬ s.Has f ((s.factory f).canonical name) ∧ ∀ place, ¬ s.Finds f name place := by
  unfold isCandidate
  simp only [ends_bind, ends_lift, theFactory_apply]
  by_cases hc : (s.factory f).definitions.contains ((s.factory f).canonical name) = true
  · simp only [hc, if_true, ends_bind]
    refine (known_mergedOwn hc).mono fun r t hknown => ?_
    have hhas : s.Has f ((s.factory f).canonical name) := .inl hc
    cases r with
    | ok ref => simp [hhas]
    | error e =>
      have hne (x) : e ≠ .noSuchDefinition x := fun he => hknown x (by rw [he])
      simp [hhas, hne]
  simp only [hc, Bool.false_eq_true, if_false]
  cases hi : (s.factory f).singletons.get? ((s.factory f).canonical name) with
  | some i =>
    have hhas : s.Has f ((s.factory f).canonical name) := .inr (OrderedMap.contains_iff_get?.2 ⟨i, hi⟩)
    simp [hhas]
  | none =>
    have hnot : ¬ s.Has f ((s.factory f).canonical name) := by
      refine not_or.2 ⟨hc, fun hcached => ?_⟩
      obtain ⟨i, hi'⟩ := OrderedMap.contains_iff_get?.1 hcached
      cases hi.symm.trans hi'
    have hfinds (place : Place) : s.Finds f name place ↔
        ∃ p, s.ParentOf p f ∧ s.Finds p ((s.factory f).canonical name) place := finds_iff_of_not_contains hc
    cases hp : (s.factory f).parent with
    | none => simp [hnot, hfinds, ParentOf, hp]
    | some p =>
      simp only [ends_bind, mergedDefinition, ends_get]
      refine (h.unknown_mergedIn_iff (h.parent_lt hp)).mono fun r t hr => ?_
      simp only [hnot, not_false_eq_true, true_and, hfinds, ParentOf, hp, Option.some.injEq,
        exists_eq_left', ← hr]
      cases r with
      | ok ref => simp
      | error e => simp

/-- **A factory says that nothing is known of a name exactly if it can provide no bean of that name, or
only an instance that was registered further up without a definition.** -/
theorem isCandidate_unknown_iff (h : s.Forest) (hf : f < s.factories.length) (env : Collaborators)
    (again : Reentry) (name : String) (required : TypeInfo) :
    ∃ answer t, callFactory env again f (.isCandidate name required) s = some (answer, t) ∧
      ((∃ x, answer = .failed (.noSuchDefinition x)) ↔
        s.containsBean f name = false ∨ s.OnlyInstanceAbove f name) := by
  have hasked : Ends (isCandidate env f name required) s _ := h.unknown_isCandidate_iff
  have hprovided : ¬ s.Has f ((s.factory f).canonical name) ∧ (∀ place, ¬ s.Finds f name place) ↔
      s.containsBean f name = false ∨ s.OnlyInstanceAbove f name := by
    constructor
    · intro hno
      exact h.unprovided_or_onlyInstanceAbove hf hno.1 hno.2
    · intro hno
      rcases hno with hno | hno
      · exact h.unprovided hf hno
      · exact ⟨hno.not_has, hno.undefined⟩
  rw [← hprovided, ← yields_false_iff]
  change Yields False (answerAct (liftM (isCandidate env f name required)) Answer.flag) s _
  rw [yields_answerAct_iff, yields_run_liftQuery]
  refine hasked.mono fun r t hr => ?_
  cases r with
  | ok value => simpa using hr
  | error e => simpa using hr
end Forest

/-- A factory below one that has a host defined and a guest registered. It knows each by an alias. -/
def inn : Session where
  factories :=
    [{ aliases := ⟨.ofList [("owner", "host"), ("visitor", "guest")]⟩, parent := some 1 },
     { definitions := ⟨1, .ofList [("host", {})]⟩
       singletons := { objects := .ofList [("guest", ⟨0, "guest", .plain⟩)] }
       manualNames := OrderedSet.empty.insert "guest" }]
  made := [(⟨0, "guest", .plain⟩, { kind := .plain })]

theorem forest_inn : inn.Forest := forest_of_pair rfl rfl rfl

theorem answer_isCandidate (again : Reentry) {r : Except BeanError Bool}
    (h : ((isCandidate env f name required).run s).1 = r) :
    ∃ t, callFactory env again f (.isCandidate name required) s = some (r.casesOn .failed .flag, t) := by
  refine ⟨((isCandidate env f name required).run s).2, run_eq_some_iff.2 (yields_answerAct_iff.2 ?_)⟩
  rw [yields_run_liftQuery]
  unfold Ends
  subst h
  cases ((isCandidate env f name required).run s).1 <;> exact ⟨rfl, rfl⟩

/-- From below, nothing is known of a stranger, nor of the guest, who is there; the host is judged. -/
theorem isCandidate_unknown_inn :
    let ask name := callFactory storekeeping (reentry storekeeping 0) 0 (.isCandidate name ⟨"Plain", none⟩) inn
    inn.Forest ∧ (∃ x t, ask "stranger" = some (.failed (.noSuchDefinition x), t)) ∧
      inn.containsBean 0 "stranger" = false ∧
      (∃ x t, ask "visitor" = some (.failed (.noSuchDefinition x), t)) ∧ inn.OnlyInstanceAbove 0 "visitor" ∧
      (∃ value t, ask "owner" = some (.flag value, t)) ∧ ¬ inn.OnlyInstanceAbove 0 "owner" := by
  intro ask
  have hstranger : inn.containsBean 0 "stranger" = false := by decide +kernel
  have hvisitor : inn.containsBean 0 "visitor" = true := by decide +kernel
  have hunknown : ((isCandidate storekeeping 0 "visitor" ⟨"Plain", none⟩).run inn).1 =
      .error (.noSuchDefinition "guest") := by decide +kernel
  have hjudged : ((isCandidate storekeeping 0 "owner" ⟨"Plain", none⟩).run inn).1 = .ok true := by
    decide +kernel
  obtain ⟨t', hrun'⟩ := answer_isCandidate (reentry storekeeping 0) hunknown
  obtain ⟨t'', hrun''⟩ := answer_isCandidate (reentry storekeeping 0) hjudged
  have asked (name : String) := forest_inn.isCandidate_unknown_iff (f := 0) (by decide) storekeeping
    (reentry storekeeping 0) name ⟨"Plain", none⟩
  obtain ⟨answer, t, hrun, hiff⟩ := asked "stranger"
  obtain ⟨x, rfl⟩ := hiff.2 (.inl hstranger)
  have honly : inn.OnlyInstanceAbove 0 "visitor" := by
    obtain ⟨answer, t, hrun, hiff⟩ := asked "visitor"
    cases hrun.symm.trans hrun'
    exact (hiff.1 ⟨_, rfl⟩).resolve_left (by simp [hvisitor])
  refine ⟨forest_inn, ⟨x, t, hrun⟩, hstranger, ⟨_, t', hrun'⟩, honly, ⟨_, t'', hrun''⟩, fun hno => ?_⟩
  obtain ⟨answer, t, hrun, hiff⟩ := asked "owner"
  obtain ⟨x', rfl⟩ := hiff.2 (.inr hno)
  cases hrun.symm.trans hrun''

/-- An instance that was registered further up is there, but whether it may be injected is not told: the answer
is that nothing is known of the name. -/
theorem not_missing_of_unknown : ¬ ∀ (env : Collaborators) (again : Reentry) (s t : Session) (f : FactoryId)
    (name x : String) (required : TypeInfo), s.Forest → f < s.factories.length →
    callFactory env again f (.isCandidate name required) s = some (.failed (.noSuchDefinition x), t) →
    s.containsBean f name = false := by
  intro claim
  have hunknown : ((isCandidate storekeeping 0 "visitor" ⟨"Plain", none⟩).run inn).1 =
      .error (.noSuchDefinition "guest") := by decide +kernel
  obtain ⟨t, hrun⟩ := answer_isCandidate (reentry storekeeping 0) hunknown
  have hmissing := claim storekeeping (reentry storekeeping 0) inn t 0 "visitor" "guest" ⟨"Plain", none⟩
    forest_inn (by decide) hrun
  exact absurd hmissing (by decide +kernel)

end BeanContainer.Session
