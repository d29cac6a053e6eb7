import BeanContainer.Proofs.Confined
import BeanContainer.Proofs.Needs

/-!
Who answers for a name in a hierarchy of factories. Going up from a factory,
each replaces the name by what it stands for there, and the first one that has a
definition or a singleton of the result is its provider (`Session.provider`).

Five functions look for it, each in its own way: lookups, questions about
scope and type, and the question whether there is one at all. They agree
(`callFactory_provided`): all get to the same factory, and what they answer is
what that factory answers, or they all report that nothing is known of the name.
-/

namespace BeanContainer

open Session

/-- A factory has a definition or a singleton of a name. -/
def Session.Has (s : Session) (g : FactoryId) (x : String) : Prop :=
  (s.factory g).definitions.contains x = true ∨ (s.factory g).singletons.contains x = true

instance {s : Session} {g : FactoryId} {x : String} : Decidable (s.Has g x) :=
  inferInstanceAs (Decidable (_ ∨ _))

/-- The first factory of a chain that has a definition or a singleton of what a name has become on the
way up there, together with what it has become. -/
def Session.provider (s : Session) : List FactoryId → String → Option (FactoryId × String)
  | [], _ => none
  | g :: ancestors, name =>
    let x := (s.factory g).canonical name
    if s.Has g x then some (g, x) else s.provider ancestors x

/-- What a name has become when it reaches the last factory of a chain. -/
def Session.carried (s : Session) : List FactoryId → String → String
  | g :: h :: ancestors, name => s.carried (h :: ancestors) ((s.factory g).canonical name)
  | _, name => name

/-- A result says something else than that nothing is known of a name. -/
def Known {α : Type} (r : Except BeanError α) : Prop := ∀ x, r ≠ .error (.noSuchDefinition x)

variable {α β : Type} {s : Session} {f g k : FactoryId} {name x y : String} {chain : List FactoryId}

/-! ## Questions -/

/-- What a factory itself can say about a name, when asked on the way up: if it has the name it gives
an answer, or fails over it; if not it passes. -/
structure Decides (s : Session) (own : FactoryId → String → Query (Option α)) : Prop where
  passes : ∀ {g x}, ¬ s.Has g x → Ends (own g x) s fun r t => r = .ok none ∧ t = s
  answers : ∀ {g x}, s.Has g x → Ends (own g x) s fun r _ => r ≠ .ok none ∧ Known r

variable {own : FactoryId → String → Query (Option α)}

/-- What a factory itself says of a name that it has. -/
def answerOf (own : FactoryId → String → Query (Option α)) (k : FactoryId) (x : String) : Query α := do
  match ← own k x with
  | some answer => return answer
  | none => throw (.noSuchDefinition x)

theorem run_askUpwards_of_not_has (hown : Decides s own) {ancestors : List FactoryId}
    (h : ¬ s.Has g ((s.factory g).canonical name)) : (askUpwards own (g :: ancestors) name).run s =
      if ancestors = [] then (.error (.noSuchDefinition name), s)
      else (askUpwards own ancestors ((s.factory g).canonical name)).run s := by
  have hrun : (own g ((s.factory g).canonical name)).run s = (.ok none, s) :=
    Prod.ext (hown.passes h).1 (hown.passes h).2
  unfold askUpwards
  change (own g ((s.factory g).canonical name) >>= _).run s = _
  rw [run_bind, hrun]
  cases ancestors <;> rfl

theorem run_askUpwards_of_has (hown : Decides s own) {ancestors : List FactoryId}
    (h : s.Has g ((s.factory g).canonical name)) : (askUpwards own (g :: ancestors) name).run s =
      (answerOf own g ((s.factory g).canonical name)).run s := by
  have hdecides := (hown.answers h).1
  unfold askUpwards answerOf
  change (own g ((s.factory g).canonical name) >>= _).run s = _
  rw [run_bind, run_bind]
  cases hrun : (own g ((s.factory g).canonical name)).run s with
  | mk r t =>
    rw [hrun] at hdecides
    rcases r with e | _ | answer
    · rfl
    · exact absurd rfl hdecides
    · rfl

theorem askUpwards_of_none (hown : Decides s own) (h : s.provider chain name = none) :
    (askUpwards own chain name).run s = (.error (.noSuchDefinition (s.carried chain name)), s) := by
  induction chain generalizing name with
  | nil => rfl
  | cons g ancestors ih =>
    unfold provider at h
    dsimp only at h
    split at h
    · cases h
    · next hnot =>
      rw [run_askUpwards_of_not_has hown hnot]
      cases ancestors with
      | nil => rfl
      | cons g' above => exact ih h

/-- **A question is answered by the provider of the name.** -/
theorem askUpwards_of_some (hown : Decides s own) (h : s.provider chain name = some (k, x)) :
    (askUpwards own chain name).run s = (answerOf own k x).run s := by
  induction chain generalizing name with
  | nil => cases h
  | cons g ancestors ih =>
    unfold provider at h
    dsimp only at h
    split at h
    · next hhas =>
      obtain ⟨rfl, rfl⟩ := Prod.mk.inj (Option.some.inj h)
      exact run_askUpwards_of_has hown hhas
    · next hnot =>
      rw [run_askUpwards_of_not_has hown hnot]
      cases ancestors with
      | nil => cases h
      | cons g' above => exact ih h

theorem known_answerOf (hown : Decides s own) (h : s.Has k x) :
    Known ((answerOf own k x).run s).1 := by
  obtain ⟨hdecides, hknown⟩ := hown.answers h
  unfold answerOf
  rw [run_bind]
  cases hrun : (own k x).run s with
  | mk r t =>
    rw [hrun] at hdecides hknown
    rcases r with e | _ | answer
    · exact fun z hz => hknown z (by cases hz; rfl)
    · exact absurd rfl hdecides
    · exact nofun

theorem provider_spec (h : s.provider chain name = some (k, x)) :
    s.Has k x ∧ k ∈ chain ∧ ∃ y, (s.factory k).canonical y = x := by
  induction chain generalizing name with
  | nil => cases h
  | cons g ancestors ih =>
    unfold provider at h
    dsimp only at h
    split at h
    · next hhas =>
      obtain ⟨rfl, rfl⟩ := Prod.mk.inj (Option.some.inj h)
      exact ⟨hhas, List.mem_cons_self, name, rfl⟩
    · exact ⟨(ih h).1, List.mem_cons_of_mem g (ih h).2.1, (ih h).2.2⟩

theorem containsIn_iff : s.containsIn chain name = (s.provider chain name).isSome := by
  induction chain generalizing name with
  | nil => rfl
  | cons g ancestors ih =>
    unfold containsIn provider
    dsimp only
    split
    · next hhas => simp [Factory.containsLocal, Or.comm.1 hhas]
    · next hnot => simp [Factory.containsLocal, ih, not_or.1 hnot]

/-! ## Merges of what is defined -/

/-- A line of definitions that starts at one, and so never comes to a name that nothing defines. -/
def Lineage.Found : Lineage → Prop
  | .missing _ => False
  | .child _ _ line => line.Found
  | _ => True

theorem Factory.found_walk {F : Factory} : ∀ {steps : Nat} {path : List String} {n : String},
    F.definitions.contains n = true → (F.walk steps path n).Found
  | 0, _, _, _ => trivial
  | steps + 1, path, n, h => by
    have hstep := F.walkStep_walk steps path n
    generalize F.walk (steps + 1) path n = L at hstep ⊢
    cases hstep with
    | missing _ _ hd =>
      obtain ⟨d, hd'⟩ := OrderedMap.contains_iff_get?.1 h
      cases hd.symm.trans hd'
    | child _ _ _ _ _ hc => exact found_walk hc
    | met | cached | root | beyond => trivial

theorem known_mergedAbove {above : Option (String → Query MergedRef)} :
    Ends (mergedAbove above x y) s fun r _ => Known r := by
  cases above with
  | none => exact fun _ h => by cases h
  | some ask =>
    unfold mergedAbove Ends
    rw [run_tryCatch]
    cases (ask y).run s with
    | mk r t =>
      cases r with
      | ok => exact nofun
      | error e =>
        dsimp only
        split
        · exact fun _ h => by cases h
        · next hne => exact fun z h => hne z (by cases h; rfl)

/-- A step that goes on only if it succeeds fails for its own reasons, or for those of what follows. -/
theorem known_bind {q : Query α} {k : α → Query β} (h : Ends q s fun r _ => Known r)
    (hk : ∀ a t, Ends (k a) t fun r _ => Known r) : Ends (q >>= k) s fun r _ => Known r := by
  rw [ends_bind]
  refine h.mono fun r t hr => ?_
  cases r with
  | ok a => exact hk a t
  | error e => exact fun z hz => hr z (by cases hz; rfl)

theorem known_mergeAlong {above : Option (String → Query MergedRef)} {line : Lineage} (h : line.Found) :
    Ends (mergeAlong f above line) s fun r _ => Known r := by
  induction line with
  | cached => exact nofun
  | root => exact nofun
  | child n d line ih =>
    exact known_bind (ih h) fun _ _ => nofun
  | beyond n d parent =>
    exact known_bind known_mergedAbove fun _ _ => nofun
  | cycle => exact fun _ h => by cases h
  | missing => exact h.elim

/-- The merge of what a factory defines may fail, but not because nothing is known of it. -/
theorem known_mergeLocal {above : Option (String → Query MergedRef)} (h : s.Defines f x) :
    Ends (mergeLocal f above x) s fun r _ => Known r := by
  unfold mergeLocal
  simp only [ends_bind, ends_lift, theFactory_apply]
  exact known_mergeAlong (Factory.found_walk h)

theorem known_mergedOwn (h : s.Defines f x) : Ends (mergedOwn f x) s fun r _ => Known r := by
  unfold mergedOwn
  simp only [ends_bind, ends_get]
  split <;> exact known_mergeLocal h

theorem fromOwnDefinition_of_not (h : ¬ s.Defines g x) {answer : MergedDefinition → α} :
    Ends (fromOwnDefinition g x answer) s fun r t => r = .ok none ∧ t = s := by
  unfold fromOwnDefinition
  rw [ends_bind, ends_lift, theFactory_apply]
  dsimp only
  rw [if_neg h]
  exact ⟨rfl, rfl⟩

theorem fromOwnDefinition_of (h : s.Defines g x) {answer : MergedDefinition → α} :
    Ends (fromOwnDefinition g x answer) s fun r _ => r ≠ .ok none ∧ Known r := by
  unfold fromOwnDefinition
  rw [ends_bind, ends_lift, theFactory_apply]
  dsimp only
  rw [if_pos h, ends_bind]
  refine (known_mergedOwn h).mono fun r t hr => ?_
  cases r with
  | ok ref => exact ⟨nofun, nofun⟩
  | error e => exact ⟨nofun, fun z hz => hr z (by cases hz; rfl)⟩

theorem decides_isSingleton : Decides s fun f bean => do
    if (← theFactory f).singletons.contains bean then return some true
    else fromOwnDefinition f bean MergedDefinition.isSingleton where
  passes {g x} h := by
    obtain ⟨hdef, hcached⟩ := not_or.1 h
    rw [ends_bind, ends_lift, theFactory_apply]
    dsimp only
    rw [if_neg hcached]
    exact fromOwnDefinition_of_not hdef
  answers {g x} h := by
    rw [ends_bind, ends_lift, theFactory_apply]
    dsimp only
    split
    · exact ⟨nofun, nofun⟩
    · next hcached => exact fromOwnDefinition_of (h.resolve_right hcached)

theorem decides_isPrototype : Decides s fun f bean => do
    match ← fromOwnDefinition f bean MergedDefinition.isPrototype with
    | some answer => return some answer
    | none => return if (← theFactory f).singletons.contains bean then some false else none where
  passes {g x} h := by
    obtain ⟨hdef, hcached⟩ := not_or.1 h
    rw [ends_bind]
    refine (fromOwnDefinition_of_not hdef).mono ?_
    rintro r t ⟨rfl, ht⟩
    subst ht
    dsimp only
    rw [ends_bind, ends_lift, theFactory_apply]
    dsimp only
    rw [if_neg hcached]
    exact ⟨rfl, rfl⟩
  answers {g x} h := by
    rw [ends_bind]
    by_cases hdef : s.Defines g x
    · refine (fromOwnDefinition_of hdef).mono ?_
      rintro (e | _ | answer) t ⟨hne, hr⟩
      · exact ⟨nofun, fun z hz => hr z (by cases hz; rfl)⟩
      · exact absurd rfl hne
      · exact ⟨nofun, nofun⟩
    · refine (fromOwnDefinition_of_not hdef).mono ?_
      rintro r t ⟨rfl, ht⟩
      subst ht
      dsimp only
      rw [ends_bind, ends_lift, theFactory_apply]
      dsimp only
      rw [if_pos (h.resolve_left hdef)]
      exact ⟨nofun, nofun⟩

theorem decides_beanType {env : Collaborators} : Decides s fun f bean => do
    match (← theFactory f).singletons.get? bean with
    | some i => return some (some (env.typeOf i.kind))
    | none => fromOwnDefinition f bean MergedDefinition.type where
  passes {g x} h := by
    obtain ⟨hdef, hcached⟩ := not_or.1 h
    rw [ends_bind, ends_lift, theFactory_apply]
    dsimp only
    split
    · next i hi => exact absurd (OrderedMap.contains_iff_get?.2 ⟨i, hi⟩) hcached
    · exact fromOwnDefinition_of_not hdef
  answers {g x} h := by
    rw [ends_bind, ends_lift, theFactory_apply]
    dsimp only
    split
    · exact ⟨nofun, nofun⟩
    · next hnone =>
      refine fromOwnDefinition_of (h.resolve_right fun hcached => ?_)
      obtain ⟨i, hi⟩ := OrderedMap.contains_iff_get?.1 hcached
      cases hi.symm.trans hnone

/-! ## Lookups -/

variable {env : Collaborators} {again : Reentry}

/-- Whatever an act fails with, it is not that nothing is known of a name. -/
def Knows (a : Act α) : Prop := ∀ s : Session, Yields True a.run s fun r _ => Known r

theorem knows_pure {a : α} : Knows (pure a) := fun _ => nofun

theorem knows_throw {e : BeanError} (h : ∀ z, e ≠ .noSuchDefinition z) : Knows (throw e : Act α) :=
  fun _ z hz => h z (by cases hz; rfl)

theorem Knows.bind {a : Act α} {k : α → Act β} (h : Knows a) (hk : ∀ x, Knows (k x)) :
    Knows (a >>= k) := by
  intro s
  rw [yields_run_bind]
  refine (h s).mono fun r t hr => ?_
  cases r with
  | ok x => exact hk x t
  | error e => exact fun z hz => hr z (by cases hz; rfl)

theorem knows_effect {m : Effect α} : Knows (liftM m : Act α) := by
  intro s
  rw [yields_run_liftEffect]
  exact yields_true_iff.2 fun _ _ _ => nofun

theorem knows_state {m : StateM Session α} : Knows (liftM m : Act α) := fun _ => nofun

theorem knows_get : Knows (get : Act Session) := fun _ => nofun

theorem knows_modifyGet {h : Session → α × Session} : Knows (modifyGet h : Act α) := fun _ => nofun

theorem knows_attempt {a : Act α} : Knows a.attempt := by
  intro s
  rw [yields_run_attempt]
  exact yields_true_iff.2 fun _ _ _ => nofun

theorem knows_forM {step : α → Act Unit} {l : List α} (h : ∀ a, Knows (step a)) : Knows (l.forM step) := by
  induction l with
  | nil => exact knows_pure
  | cons a l ih => exact (h a).bind fun _ => ih

theorem knows_foldlM {step : β → α → Act β} {l : List α} (h : ∀ b a, Knows (step b a)) :
    ∀ {b}, Knows (l.foldlM step b) := by
  induction l with
  | nil => exact knows_pure
  | cons a l ih =>
    intro b
    rw [List.foldlM_cons]
    exact (h b a).bind fun _ => ih

theorem Knows.unless {c : Prop} [Decidable c] {e : BeanError} {a : Act α} (h : Knows a)
    (he : ∀ z, e ≠ .noSuchDefinition z) : Knows (if c then (do throw e; a) else a : Act α) := by
  split
  · exact (knows_throw he).bind fun _ => h
  · exact h

theorem knows_runFor {script : Script α} : Knows (runFor again name script) := by
  unfold runFor
  refine knows_effect.bind fun r => ?_
  split
  · exact knows_pure
  · next failure => exact knows_throw fun z h => by cases failure <;> cases h

theorem Knows.whileHolding {guard : Guard} {body : Act α} (h : Knows body) :
    Knows (whileHolding f guard body) := by
  intro s
  rw [yields_whileHolding]
  cases hg : (s.factory f).singletons.acquire guard with
  | ok singletons => exact h _
  | error e =>
    intro z hz
    cases hz
    cases guard <;> simp only [SingletonRegistry.acquire, SingletonRegistry.beginSingleton,
      SingletonRegistry.beginPrototype] at hg <;> split at hg <;> cases hg

theorem knows_createBean {m : MergedDefinition} : Knows (createBean env again f name m) := by
  unfold createBean
  refine knows_state.bind fun F => ?_
  split
  · refine knows_state.bind fun _ => knows_state.bind fun _ => knows_runFor.bind fun raw => ?_
    refine knows_state.bind fun F' => (knows_foldlM fun _ _ => knows_get.bind fun _ => knows_runFor).bind
      fun readied => ?_
    refine (knows_foldlM fun _ _ => knows_get.bind fun _ => knows_runFor).bind fun finished => ?_
    exact knows_state.bind fun _ => knows_pure
  · exact knows_throw nofun

theorem knows_createScoped {m : MergedDefinition} : Knows (createScoped env again f name m) := by
  unfold createScoped
  rw [whileCreatingPrototype_eq]
  refine knows_state.bind fun F => ?_
  split
  · refine Knows.bind ?_ fun (counts, made) => ?_
    · unfold Scope.getOrMake
      refine knows_get.bind fun s => ?_
      split
      · exact knows_pure
      · exact knows_createBean.whileHolding.bind fun _ => knows_modifyGet.bind fun _ => knows_pure
    · dsimp only
      split
      · refine knows_state.bind fun required => ?_
        split
        · refine knows_state.bind fun F' => ?_
          split
          · exact knows_modifyGet.bind fun _ => knows_pure
          · refine knows_state.bind fun _ => knows_effect.bind fun failure => ?_
            split
            · exact knows_state.bind fun _ => knows_pure
            · exact knows_pure
        · exact knows_pure
      · exact knows_pure
  · exact knows_throw nofun

theorem knows_createSingleton {m : MergedDefinition} : Knows (createSingleton env again f name m) := by
  unfold createSingleton
  rw [whileCreatingSingleton_eq]
  refine knows_state.bind fun F => ?_
  split
  · exact knows_pure
  · refine Knows.unless (Knows.whileHolding ?_) nofun
    exact knows_createBean.bind fun _ => knows_state.bind fun _ => knows_state.bind fun _ => knows_modifyGet

theorem knows_initializeDependencies {m : MergedDefinition} :
    Knows (initializeDependencies again f name m) := by
  unfold initializeDependencies
  refine knows_forM fun dependency => knows_state.bind fun F => Knows.unless ?_ nofun
  refine knows_modifyGet.bind fun _ => knows_state.bind fun _ => knows_attempt.bind fun r => ?_
  split
  · exact knows_pure
  · exact knows_throw nofun

theorem known_makeDefined (h : s.Defines f name) :
    Yields True (makeDefined env again f name).run s fun r _ => Known r := by
  unfold makeDefined
  rw [yields_run_bind, yields_run_liftQuery]
  refine (known_mergedOwn h).mono fun r t hr => ?_
  cases r with
  | error e => exact fun z hz => hr z (by cases hz; rfl)
  | ok ref =>
    refine Knows.unless (knows_initializeDependencies.bind fun _ => ?_) (fun _ h => by cases h) t
    split
    · exact knows_createSingleton.bind fun _ => knows_state.bind fun _ => knows_pure
    · split
      · rw [whileCreatingPrototype_eq]
        exact knows_createBean.whileHolding
      · exact knows_createScoped

/-- The route to a name that a factory has. -/
def Session.routeTo (s : Session) (k : FactoryId) (x : String) : Route :=
  match s.singleton? k x with
  | some i => .cached k x i
  | none => .defined k x

/-- No prototype is being made in these factories. -/
def Session.Idle (s : Session) (chain : List FactoryId) : Prop :=
  ∀ g ∈ chain, ∀ x, (s.factory g).singletons.isPrototypeInCreation x = false

/-- A lookup is given up at a factory of the chain, because the bean is in the making there. -/
def Session.GivesUp (s : Session) (chain : List FactoryId) (name : String) : Prop :=
  ∃ g ∈ chain, ∃ x, (s.factory g).singletons.isPrototypeInCreation x = true ∧ s.route chain name = .busy x

theorem Session.Idle.not_givesUp (hidle : s.Idle chain) : ¬ s.GivesUp chain name := fun ⟨g, hg, x, hx, _⟩ =>
  Bool.false_ne_true ((hidle g hg x).symm.trans hx)

theorem route_of_not_has (h : ¬ s.Has g ((s.factory g).canonical name)) : s.GivesUp (g :: chain) name ∨
    s.route (g :: chain) name =
      if chain = [] then .nowhere name else s.route chain ((s.factory g).canonical name) := by
  obtain ⟨hdef, hcached⟩ := not_or.1 h
  have hnone : (s.factory g).singletons.get? ((s.factory g).canonical name) = none :=
    OrderedMap.get?_eq_none_iff.2 fun hk => hcached (OrderedMap.contains_iff.2 hk)
  by_cases hbusy : (s.factory g).singletons.isPrototypeInCreation ((s.factory g).canonical name) = true
  · refine .inl ⟨g, List.mem_cons_self, _, hbusy, ?_⟩
    unfold Session.route
    simp only [hnone, hbusy, if_true]
  · refine .inr ?_
    unfold Session.route
    simp only [hnone, hbusy, hdef, Bool.false_eq_true, if_false]
    cases chain <;> rfl

theorem route_of_has (h : s.Has g ((s.factory g).canonical name)) : s.GivesUp (g :: chain) name ∨
    s.route (g :: chain) name = s.routeTo g ((s.factory g).canonical name) := by
  by_cases hcached : ∃ i, (s.factory g).singletons.get? ((s.factory g).canonical name) = some i
  · obtain ⟨i, hi⟩ := hcached
    refine .inr ?_
    unfold Session.route Session.routeTo Session.singleton?
    simp only [hi]
  · have hnone := Option.eq_none_iff_forall_ne_some.2 (not_exists.1 hcached)
    have hdef : s.Defines g ((s.factory g).canonical name) :=
      h.resolve_right fun hc => hcached (OrderedMap.contains_iff_get?.1 hc)
    by_cases hbusy : (s.factory g).singletons.isPrototypeInCreation ((s.factory g).canonical name) = true
    · refine .inl ⟨g, List.mem_cons_self, _, hbusy, ?_⟩
      unfold Session.route
      simp only [hnone, hbusy, if_true]
    · refine .inr ?_
      unfold Session.route Session.routeTo Session.singleton?
      simp only [hnone, hbusy, hdef, Bool.false_eq_true, if_false, if_true]

theorem route_of_none (hidle : s.Idle chain) (h : s.provider chain name = none) :
    s.route chain name = .nowhere (s.carried chain name) := by
  induction chain generalizing name with
  | nil => rfl
  | cons g ancestors ih =>
    unfold provider at h
    dsimp only at h
    split at h
    · cases h
    · next hnot =>
      rw [(route_of_not_has hnot).resolve_left hidle.not_givesUp]
      cases ancestors with
      | nil => rfl
      | cons g' above => exact ih (fun g hg => hidle g (List.mem_cons_of_mem _ hg)) h

/-- **A lookup leads to the provider of the name**, if it is not given up on the way. -/
theorem route_of_provider (h : s.provider chain name = some (k, x)) :
    s.GivesUp chain name ∨ s.route chain name = s.routeTo k x := by
  induction chain generalizing name with
  | nil => cases h
  | cons g ancestors ih =>
    unfold provider at h
    dsimp only at h
    split at h
    · next hhas =>
      obtain ⟨rfl, rfl⟩ := Prod.mk.inj (Option.some.inj h)
      exact route_of_has hhas
    · next hnot =>
      obtain hbusy | hroute : s.GivesUp (g :: ancestors) name ∨ _ := route_of_not_has hnot
      · exact .inl hbusy
      · cases ancestors with
        | nil => cases h
        | cons g' above =>
          rw [if_neg (List.cons_ne_nil _ _)] at hroute
          rw [hroute]
          refine (ih h).imp (fun ⟨k, hk, y, hy, hbusy⟩ => ?_) id
          exact ⟨k, List.mem_cons_of_mem g hk, y, hy, hroute.trans hbusy⟩

theorem route_of_some (hidle : s.Idle chain) (h : s.provider chain name = some (k, x)) :
    s.route chain name = s.routeTo k x := (route_of_provider h).resolve_left hidle.not_givesUp

theorem known_follow (h : s.Has k x) :
    Yields True (follow env again (s.routeTo k x)).run s fun r _ => Known r := by
  unfold Session.routeTo
  cases hi : s.singleton? k x with
  | some i => exact nofun
  | none =>
    have hdef : s.Defines k x := h.resolve_right fun hcached => by
      obtain ⟨i, hi'⟩ := OrderedMap.contains_iff_get?.1 hcached
      cases hi'.symm.trans hi
    simp only [follow, yields_run_bind, yields_run_liftState, write_apply]
    exact known_makeDefined (s := s.write _) hdef

/-! ## Calls -/

/-- The calls that need to know who provides a bean. -/
def FactoryCall.questions : List (String → FactoryCall) := [get, isSingleton, isPrototype, typeOf]

theorem answerAct_congr {a a' : Act α} {shown : α → Answer} (h : a.run s = a'.run s) :
    answerAct a shown s = answerAct a' shown s := by
  unfold answerAct
  change (a.run s).bind _ = (a'.run s).bind _
  rw [h]

theorem answerQuery_congr {q q' : Query α} {shown : α → Answer} (h : q.run s = q'.run s) :
    answerQuery q shown s = answerQuery q' shown s :=
  answerAct_congr (congrArg some h)

theorem known_answerAct {a : Act α} {shown : α → Answer} (hshown : ∀ v e, shown v ≠ .failed e)
    (h : Yields True a.run s fun r _ => Known r) :
    Yields True (answerAct a shown) s fun answer _ => ∀ z, answer ≠ .failed (.noSuchDefinition z) := by
  unfold answerAct
  rw [yields_bind]
  refine h.mono fun r t hr => ?_
  cases r with
  | ok v => exact fun z => hshown v _
  | error e => exact fun z hz => hr z (by cases hz; rfl)

variable {answer : Answer} {t : Session} {ask : String → FactoryCall}

theorem provider_cons (h : s.Has k x) (hy : (s.factory k).canonical y = x) :
    s.provider (k :: chain) y = some (k, x) := by
  subst hy
  unfold provider
  exact if_pos h

/-- Who is asked does not matter, as long as the provider is the same. -/
theorem callFactory_congr (hidle : s.Idle (s.chain f)) (hidle' : s.Idle (s.chain g))
    (h : s.provider (s.chain f) name = some (k, x)) (h' : s.provider (s.chain g) y = some (k, x))
    (hask : ask ∈ FactoryCall.questions) :
    callFactory env again f (ask name) s = callFactory env again g (ask y) s := by
  have upwards {α : Type} {own : FactoryId → String → Query (Option α)} (hown : Decides s own) :
      (askUpwards own (s.chain f) name).run s = (askUpwards own (s.chain g) y).run s :=
    (askUpwards_of_some hown h).trans (askUpwards_of_some hown h').symm
  simp only [FactoryCall.questions, List.mem_cons, List.not_mem_nil, or_false] at hask
  rcases hask with rfl | rfl | rfl | rfl
  · refine answerAct_congr ?_
    change (follow env again (s.route (s.chain f) name)).run s = (follow env again (s.route (s.chain g) y)).run s
    rw [route_of_some hidle h, route_of_some hidle' h']
  · exact answerQuery_congr (upwards decides_isSingleton)
  · exact answerQuery_congr (upwards decides_isPrototype)
  · exact answerQuery_congr (upwards decides_beanType)

theorem callFactory_of_none (hidle : s.Idle (s.chain f)) (h : s.provider (s.chain f) name = none)
    (hask : ask ∈ FactoryCall.questions) : callFactory env again f (ask name) s =
      some (.failed (.noSuchDefinition (s.carried (s.chain f) name)), s) := by
  have fails {α : Type} {a : Act α} {shown : α → Answer}
      (ha : a.run s = some (.error (.noSuchDefinition (s.carried (s.chain f) name)), s)) :
      answerAct a shown s = some (.failed (.noSuchDefinition (s.carried (s.chain f) name)), s) := by
    unfold answerAct
    change (a.run s).bind _ = _
    rw [ha]
    rfl
  simp only [FactoryCall.questions, List.mem_cons, List.not_mem_nil, or_false] at hask
  rcases hask with rfl | rfl | rfl | rfl
  · refine fails ?_
    change (follow env again (s.route (s.chain f) name)).run s = _
    rw [route_of_none hidle h]
    rfl
  · exact fails (congrArg some (askUpwards_of_none decides_isSingleton h))
  · exact fails (congrArg some (askUpwards_of_none decides_isPrototype h))
  · exact fails (congrArg some (askUpwards_of_none decides_beanType h))

theorem known_callFactory (hidle : s.Idle (s.chain f)) (h : s.provider (s.chain f) name = some (k, x))
    (hask : ask ∈ FactoryCall.questions) : Yields True (callFactory env again f (ask name)) s
      fun answer _ => ∀ z, answer ≠ .failed (.noSuchDefinition z) := by
  have hhas := (provider_spec h).1
  have upwards {α : Type} {own : FactoryId → String → Query (Option α)} (hown : Decides s own) :
      Known ((askUpwards own (s.chain f) name).run s).1 := by
    rw [askUpwards_of_some hown h]
    exact known_answerOf hown hhas
  simp only [FactoryCall.questions, List.mem_cons, List.not_mem_nil, or_false] at hask
  rcases hask with rfl | rfl | rfl | rfl
  · refine known_answerAct nofun ?_
    change Yields True (follow env again (s.route (s.chain f) name)).run s _
    rw [route_of_some hidle h]
    exact known_follow hhas
  · exact known_answerAct nofun (upwards decides_isSingleton)
  · exact known_answerAct nofun (upwards decides_isPrototype)
  · exact known_answerAct nofun (upwards decides_beanType)

/-- **All who look for the provider of a name agree**, in any hierarchy of factories in which no bean is
being made.

If no factory on the way up has what the name has become there, every question fails because nothing
is known of it. If one does, no question fails for that reason; each is answered as by the first such
factory itself, for any name that stands there for what the name has become. And a lookup leaves the
factories below that one as they are, if all collaborators that it calls make do with that one and
those above it. -/
theorem callFactory_provided {W : Set FactoryId} (hl : s.Linked W) (hf : f ∈ W)
    (hidle : ∀ g ∈ s.chain f, ∀ z, ¬ (s.factory g).singletons.Flagged z) (env : Collaborators)
    (name : String) :
    (s.provider (s.chain f) name = none → ∀ again,
      callFactory env again f (.contains name) s = some (.flag false, s) ∧
      ∀ ask ∈ FactoryCall.questions, callFactory env again f (ask name) s =
        some (.failed (.noSuchDefinition (s.carried (s.chain f) name)), s)) ∧
    ∀ k x, s.provider (s.chain f) name = some (k, x) →
      (∀ again, callFactory env again f (.contains name) s = some (.flag true, s) ∧
        ∀ ask ∈ FactoryCall.questions,
          (∀ y, (s.factory k).canonical y = x →
            callFactory env again f (ask name) s = callFactory env again k (ask y) s) ∧
          ∀ answer t, callFactory env again f (ask name) s = some (answer, t) →
            ∀ z, answer ≠ .failed (.noSuchDefinition z)) ∧
      (∃ below, s.chain f = below ++ s.chain k ∧ ∀ g ∈ below, g ∉ s.chain k) ∧
      ∀ depth answer t, callFactory env (reentry env depth) f (.get name) s = some (answer, t) →
        (callFactory env (reentryWithin env (s.chain k) depth) f (.get name) s).isSome = true →
        ∀ g ∉ s.chain k, t.factory g = s.factory g := by
  have hchained := chained_chain hl hf
  have hidle' : s.Idle (s.chain f) := fun g hg z => by
    rw [SingletonRegistry.isPrototypeInCreation, ← Bool.not_eq_true, OrderedSet.contains_iff]
    exact fun hz => hidle g hg z (.inr hz)
  have contains {again : Reentry} : callFactory env again f (.contains name) s =
      some (.flag (s.provider (s.chain f) name).isSome, s) :=
    congrArg (fun b => some (Answer.flag b, s)) containsIn_iff
  refine ⟨fun h again => ⟨by rw [contains, h]; rfl, fun ask hask => callFactory_of_none hidle' h hask⟩, ?_⟩
  intro k x h
  obtain ⟨hhas, hmem, y, hy⟩ := provider_spec h
  obtain ⟨below, above, hsplit⟩ := List.append_of_mem hmem
  have hk : s.chain k = k :: above := (hsplit ▸ hchained).chain_eq
  have hbelow : ∀ g ∈ below, g ∉ s.chain k := fun g hg hg' =>
    (List.nodup_append.1 (hsplit ▸ hchained.nodup)).2.2 g hg g (hk ▸ hg') rfl
  have hidleK : s.Idle (s.chain k) := fun g hg => hidle' g (by rw [hsplit, ← hk]; simp [hg])
  refine ⟨fun again => ⟨by rw [contains, h]; rfl, fun ask hask => ⟨fun y hy => ?_, ?_⟩⟩,
    ⟨below, by rw [hk, hsplit], hbelow⟩, fun depth answer t hrun hwithin => ?_⟩
  · exact callFactory_congr hidle' hidleK h (hk ▸ provider_cons hhas hy) hask
  · exact yields_true_iff.1 (known_callFactory hidle' h hask)
  · obtain ⟨⟨answer', t'⟩, hrun'⟩ := Option.isSome_iff_exists.1 hwithin
    obtain ⟨rfl, rfl⟩ := Prod.mk.inj (Option.some.inj ((callFactory_of_within hrun').symm.trans hrun))
    rw [callFactory_congr hidle' hidleK h (hk ▸ provider_cons hhas hy) (by simp [FactoryCall.questions])] at hrun'
    have hkW : k ∈ W := mem_chain_of_closed (fun g hg p hp => (hl g hg p hp).1) hf k hmem
    have hclosed : s.Closed {g | g ∈ s.chain k} := fun g hg p hp =>
      (chained_chain hl hkW).parent_mem hl hg hp
    have hconfines : (reentryWithin env (s.chain k) depth).Confines {g | g ∈ s.chain k} :=
      confines_reentryWithin depth
    have hlinks : (FactoryCall.get y).LinksWithin {g | g ∈ s.chain k} s := trivial
    exact (yields_true_iff.1 (yields_callFactory (covers_confining _) hconfines.collaborators
      hconfines.toKeepCalls (hk ▸ List.mem_cons_self) hclosed hlinks) _ _ hrun').outside

/-- A constructor that looks up the store in the second of three factories, and nothing else. -/
def storekeeping : Collaborators where
  __ := Scripted.collaborators (fun k => ⟨k.label, none⟩) fun _ => none
  construct _ _ name _ :=
    if name = "service" then .lookup 1 "store" fun _ => .make name {} .done else .make name {} .done

/-- Three factories: the first has an alias, the second what it stands for, the third what that needs. -/
def Session.tiered : Session where
  factories :=
    [{ aliases := ⟨.ofList [("svc", "service")]⟩, parent := some 1, constructor := some .direct },
     { definitions := ⟨1, .ofList [("service", {})]⟩, parent := some 2, constructor := some .direct },
     { definitions := ⟨1, .ofList [("store", {})]⟩, constructor := some .direct }]
  factoryLabels := .ofList [("main", 0)]

theorem linked_tiered : Session.tiered.Linked Set.univ := by
  intro f _ p hp
  match f with
  | 0 => cases hp; exact ⟨trivial, by decide⟩
  | 1 => cases hp; exact ⟨trivial, by decide⟩
  | 2 => cases hp
  | f + 3 => cases hp

/-- The first factory is asked under its alias, the second answers and makes the bean, with what the
third one makes for it. -/
theorem callFactory_provided_tiered :
    let s := Session.tiered
    s.Linked Set.univ ∧ (∀ g ∈ s.chain 0, ∀ z, ¬ (s.factory g).singletons.Flagged z) ∧
      s.provider (s.chain 0) "svc" = some (1, "service") ∧ s.provider (s.chain 0) "nothing" = none ∧
      (∀ again, callFactory storekeeping again 0 (.get "nothing") s =
        some (.failed (.noSuchDefinition "nothing"), s)) ∧
      ∃ answer t, callFactory storekeeping (reentry storekeeping 3) 0 (.get "svc") s = some (answer, t) ∧
        callFactory storekeeping (reentry storekeeping 3) 1 (.get "service") s = some (answer, t) ∧
        (callFactory storekeeping (reentryWithin storekeeping (s.chain 1) 3) 0 (.get "svc") s).isSome = true ∧
        t.made.length = 2 ∧ t.factory 0 = s.factory 0 := by
  intro s
  have hidle : ∀ g ∈ s.chain 0, ∀ z, ¬ (s.factory g).singletons.Flagged z := fun g _ z => by
    rcases g with _ | _ | _ | g <;> simp [SingletonRegistry.Flagged, s, Session.tiered, Session.factory]
  have hprovider : s.provider (s.chain 0) "svc" = some (1, "service") := by decide +kernel
  have hnone : s.provider (s.chain 0) "nothing" = none := by decide +kernel
  refine ⟨linked_tiered, hidle, hprovider, hnone, fun again => ?_, ?_⟩
  · exact ((callFactory_provided linked_tiered trivial hidle storekeeping "nothing").1 hnone again).2 .get
      (by simp [FactoryCall.questions])
  · have hruns : (callFactory storekeeping (reentry storekeeping 3) 0 (.get "svc") s).any
        (fun r => r.2.made.length = 2) = true := by decide +kernel
    obtain ⟨⟨answer, t⟩, hrun, hmade⟩ := (Option.any_eq_true ..).1 hruns
    obtain ⟨hasked, -, hsame⟩ :=
      (callFactory_provided linked_tiered trivial hidle storekeeping "svc").2 1 "service" hprovider
    obtain ⟨hanswer, -⟩ := (hasked (reentry storekeeping 3)).2 .get (by simp [FactoryCall.questions])
    have hwithin : (callFactory storekeeping (reentryWithin storekeeping (s.chain 1) 3) 0 (.get "svc") s).isSome
        = true := by decide +kernel
    refine ⟨answer, t, hrun, ?_, hwithin, by simpa using hmade, ?_⟩
    · rw [← hrun]
      exact (hanswer "service" (by decide +kernel)).symm
    · exact hsame 3 answer t hrun hwithin 0 (by decide +kernel)

/-- Constructors that look up what they need in their own factory. An instance takes a note in the first
factory when it is destroyed. -/
def notetakers : Collaborators where
  typeOf k := ⟨k.label, none⟩
  construct _ f name _ :=
    if f = 1 ∧ name = "cart" then .lookup f "till" fun _ => .make name {} .done
    else if name = "till" then .lookup f "cart" fun _ => .make name {} .done
    else .make name {} .done
  before _ i _ := .done i
  after _ i _ := .done i
  caresFor _ := none
  beforeDestruction _ _ _ := .done ()
  destroy _ _ := .perform (.on "leaf" (.register "note" {})) fun _ => .done ()
  ready _ _ := .done ()
  log := Scripted.logLibrary fun _ => true

/-- Three factories, of which the second and the third use the same scope for a bean of one name. -/
def Session.sharing : Session where
  factories :=
    [{ parent := some 1, constructor := some .direct },
     { definitions := ⟨1, .ofList [("cart", { scope := some "visit" })]⟩
       scopes := .ofList [("visit", 0)], parent := some 2, constructor := some .direct },
     { definitions := ⟨2, .ofList [("cart", { scope := some "visit" }), ("till", {})]⟩
       scopes := .ofList [("visit", 0)], constructor := some .direct }]
  scopes := [.newInMemory "visit"]
  factoryLabels := .ofList [("leaf", 0)]

/-- What a lookup destroys may change the factories below the provider, although all constructors look
up beans of their own factory alone, and post-processors do nothing at all: the bean that the
second factory makes is surplus, as the third one has put one of that name into the scope. -/
theorem not_below_unchanged : ¬ ∀ (env : Collaborators) (W : Set FactoryId) (s t : Session)
    (f k : FactoryId) (name x : String) (depth : Nat) (answer : Answer),
    (∀ c f name m, (env.construct c f name m).Within {f} fun _ => False) →
    (∀ p i name, env.before p i name = .done i) → (∀ p i name, env.after p i name = .done i) →
    (∀ p i name, env.beforeDestruction p i name = .done ()) →
    s.Linked W → f ∈ W → (∀ g ∈ s.chain f, ∀ z, ¬ (s.factory g).singletons.Flagged z) →
    s.provider (s.chain f) name = some (k, x) →
    callFactory env (reentry env depth) f (.get name) s = some (answer, t) →
    ∀ g ∉ s.chain k, t.factory g = s.factory g := by
  intro claim
  have hmakers : ∀ c f name m, (notetakers.construct c f name m).Within {f} fun _ => False := by
    intro c f name m
    dsimp only [notetakers]
    split
    · exact .lookup rfl fun _ => .make fun _ => .done _
    · split
      · exact .lookup rfl fun _ => .make fun _ => .done _
      · exact .make fun _ => .done _
  have hlinked : Session.sharing.Linked Set.univ :=
    linked_congr (s := .tiered) rfl (fun g => by rcases g with _ | _ | _ | g <;> rfl) linked_tiered
  have hidle : ∀ g ∈ Session.sharing.chain 0, ∀ z, ¬ (Session.sharing.factory g).singletons.Flagged z :=
    fun g _ z => by
      rcases g with _ | _ | _ | g <;> simp [SingletonRegistry.Flagged, Session.sharing, Session.factory]
  have hruns : (callFactory notetakers (reentry notetakers 4) 0 (.get "cart") .sharing).any
      (fun r => (r.2.factory 0).definitions.contains "note") = true := by decide +kernel
  obtain ⟨⟨answer, t⟩, hrun, hnote⟩ := (Option.any_eq_true ..).1 hruns
  have hsame := claim notetakers Set.univ .sharing t 0 1 "cart" "cart" 4 answer hmakers (fun _ _ _ => rfl)
    (fun _ _ _ => rfl) (fun _ _ _ => rfl) hlinked trivial hidle (by decide +kernel) hrun 0 (by decide +kernel)
  change (t.factory 0).definitions.contains "note" = true at hnote
  rw [hsame] at hnote
  cases hnote

end BeanContainer
