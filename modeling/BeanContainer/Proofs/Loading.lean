import BeanContainer.Proofs.NamesApart
import BeanContainer.Proofs.Refusals

/-!
How a new factory is filled. Its scopes, definitions and aliases are steps of
one list (`BootstrapPlan.steps`), and what a step makes of the factory is a
function of the factory alone (`LoadStep.apply`): where there are no beans yet, a
reset has nothing to destroy (`yields_resetDefinition_unused`), so nobody is called
and the session gets nothing but the changed factory and lines in its record
(`yields_loading`).

From the steps done so far one reads off what the factory has: which definitions,
in which order, and aliases that none of them is named by (`Factory.Filled`).
-/

namespace BeanContainer

open Session

/-- A step in filling a factory. -/
inductive LoadStep where
  | scope (name : String) (k : ScopeId)
  | definition (name : String) (d : Definition)
  | nickname (name altName : String)

namespace LoadStep

/-- What a step makes of a factory. -/
def apply (F : Factory) : LoadStep → Except BeanError Factory
  | scope name k => F.registerScope name k
  | definition name d => F.define name d
  | nickname name altName => F.registerAlias name altName

/-- A step in a session. -/
def act (again : Reentry) (f : FactoryId) : LoadStep → Act Unit
  | scope name k => registerScope f name k
  | definition name d => registerDefinition again f name d
  | nickname name altName => registerAlias f name altName

/-- What a step that was done leaves in the record. -/
def occurrence? (f : FactoryId) : LoadStep → Option Occurrence
  | scope .. => none
  | definition name _ => some (.defined f name)
  | nickname name altName => some (.aliased f name altName)

/-- The definition that a step registers. -/
def definition? : LoadStep → Option (String × Definition)
  | definition name d => some (name, d)
  | _ => none

end LoadStep

/-- The definitions of a set, then its aliases. -/
def DefinitionSet.steps (set : DefinitionSet) : List LoadStep :=
  set.definitions.map (fun e => .definition e.1 e.2) ++ set.aliases.map fun e => .nickname e.1 e.2

/-- The scopes of a plan, then its sources one after another. -/
def BootstrapPlan.steps (plan : BootstrapPlan) (scopes : List (String × ScopeId)) : List LoadStep :=
  scopes.map (fun e => .scope e.1 e.2) ++ plan.sources.flatMap DefinitionSet.steps

/-- All definitions of a plan, in order. -/
def BootstrapPlan.definitions (plan : BootstrapPlan) : List (String × Definition) :=
  plan.sources.flatMap DefinitionSet.definitions

variable {env : Collaborators} {again : Reentry} {s t u : Session} {f : FactoryId} {name : String}
  {F F' : Factory}

theorem DefinitionSet.filterMap_steps {set : DefinitionSet} :
    set.steps.filterMap LoadStep.definition? = set.definitions := by
  simp [DefinitionSet.steps, List.filterMap_map, Function.comp_def, LoadStep.definition?]

theorem BootstrapPlan.filterMap_steps {plan : BootstrapPlan} {scopes : List (String × ScopeId)} :
    (plan.steps scopes).filterMap LoadStep.definition? = plan.definitions := by
  simp [BootstrapPlan.steps, BootstrapPlan.definitions, List.filterMap_map, List.filterMap_flatMap,
    Function.comp_def, LoadStep.definition?, DefinitionSet.filterMap_steps]

/-! ## One factory -/

/-- What a factory without definitions and aliases has become that took up some definitions and whatever
else. -/
structure Factory.Filled (F₀ : Factory) (definitions : List (String × Definition)) (F : Factory) : Prop where
  store : F.definitions.definitions = .ofList definitions
  /-- Without overriding no name was defined twice. -/
  once : F₀.settings.allowDefinitionOverriding = false → (definitions.map Prod.fst).Nodup
  apart : F.NamesApart
  rest : F = { F₀ with definitions := F.definitions, aliases := F.aliases, scopes := F.scopes }

theorem OrderedMap.ofList_concat {κ : Type u} {α : Type v} [DecidableEq κ] {pairs : List (κ × α)}
    {p : κ × α} : OrderedMap.ofList (pairs ++ [p]) = (OrderedMap.ofList pairs).insert p.1 p.2 := by
  simp [ofList, insertAll, List.foldl_append]

theorem OrderedMap.keys_ofList {κ : Type u} {α : Type v} [DecidableEq κ] {pairs : List (κ × α)} :
    (OrderedMap.ofList pairs).keys = (pairs.map Prod.fst).eraseDups := by
  rw [ofList, keys_insertAll]
  rfl

/-- Of several pairs for a key the last one counts. -/
theorem OrderedMap.get?_ofList {κ : Type u} {α : Type v} [DecidableEq κ] {k : κ} {pairs : List (κ × α)} :
    (OrderedMap.ofList pairs).get? k = pairs.reverse.lookup k := by
  induction pairs using List.reverseRecOn with
  | nil => rfl
  | append_singleton pairs p ih =>
    rw [ofList_concat, get?_insert, List.reverse_concat, lookup_cons_eq_ite, ih]

namespace Factory.Filled

variable {F₀ : Factory} {definitions : List (String × Definition)}

theorem start (hdef : F₀.definitions.definitions = {}) (hfree : F₀.NamesApart) : F₀.Filled [] F₀ where
  store := hdef
  once _ := List.nodup_nil
  apart := hfree
  rest := rfl

theorem define (h : F₀.Filled definitions F) {d : Definition} (hF : F.define name d = .ok F') :
    F₀.Filled (definitions ++ [(name, d)]) F' := by
  have hrest := h.rest
  have hfree := (Factory.define_ok_iff.1 ⟨F', hF⟩).free
  have hapart := h.apart.define hF
  obtain rfl := define_eq_ok hF
  refine ⟨?_, fun hallow => ?_, hapart, by rw [hrest]⟩
  · change F.definitions.definitions.insert name d = _
    rw [h.store, OrderedMap.ofList_concat]
  · have hsettings : F.settings = F₀.settings := by rw [hrest]
    rw [hsettings, hallow] at hfree
    have hnew : F.definitions.contains name = false := hfree.resolve_right nofun
    have hnot : name ∉ definitions.map Prod.fst := by
      intro hmem
      have hkey : name ∈ F.definitions.definitions.keys := by
        rwa [h.store, OrderedMap.keys_ofList, List.mem_eraseDups]
      exact Bool.false_ne_true (hnew.symm.trans (OrderedMap.contains_iff.2 hkey))
    rw [List.map_append]
    exact List.nodup_append_comm.1 (List.nodup_cons.2 ⟨hnot, h.once hallow⟩)

/-- **Each step that is accepted adds its definition**, if it has one. -/
theorem step {step : LoadStep} (h : F₀.Filled definitions F) (hF : step.apply F = .ok F') :
    F₀.Filled (definitions ++ step.definition?.toList) F' := by
  cases step with
  | definition name d => exact h.define hF
  | scope name k =>
    rw [show (LoadStep.scope name k).definition?.toList = [] from rfl, List.append_nil]
    simp only [LoadStep.apply, Factory.registerScope] at hF
    split at hF
    · cases hF
    · split at hF
      · cases hF
      · cases hF
        exact ⟨h.store, h.once, h.apart.congr rfl rfl, by rw [h.rest]⟩
  | nickname name altName =>
    rw [show (LoadStep.nickname name altName).definition?.toList = [] from rfl, List.append_nil]
    have hapart := h.apart.registerAlias hF
    obtain ⟨aliases, rfl⟩ := registerAlias_spec hF
    exact ⟨h.store, h.once, hapart, by rw [h.rest]⟩

/-- **The steps that were accepted say what a factory has.** -/
theorem run (h : F₀.Filled definitions F) {steps : List LoadStep}
    (hF : steps.foldlM LoadStep.apply F = .ok F') :
    F₀.Filled (definitions ++ steps.filterMap LoadStep.definition?) F' := by
  induction steps generalizing definitions F with
  | nil =>
    cases hF
    simpa using h
  | cons step steps ih =>
    rw [List.foldlM_cons] at hF
    cases hstep : step.apply F with
    | error e =>
      rw [hstep] at hF
      cases hF
    | ok G =>
      rw [hstep] at hF
      have htail := ih (h.step hstep) hF
      cases hd : step.definition? <;> simpa [hd] using htail

theorem names (h : F₀.Filled definitions F) : F.definitions.names = (definitions.map Prod.fst).eraseDups := by
  rw [DefinitionStore.names, h.store, OrderedMap.keys_ofList]

theorem get? (h : F₀.Filled definitions F) : F.definitions.get? name = definitions.reverse.lookup name := by
  rw [DefinitionStore.get?, h.store, OrderedMap.get?_ofList]

theorem not_mem_of_isAlias (h : F₀.Filled definitions F) (halias : F.aliases.isAlias name = true) :
    name ∉ definitions.map Prod.fst := by
  intro hmem
  have hkey : name ∈ F.definitions.definitions.keys := by
    rwa [h.store, OrderedMap.keys_ofList, List.mem_eraseDups]
  exact Bool.false_ne_true ((h.apart.apart name (OrderedMap.contains_iff.2 hkey)).symm.trans halias)

theorem size_le (h : F₀.Filled definitions F) : F.definitions.size ≤ definitions.length := by
  have hsub : F.definitions.definitions.keys ⊆ definitions.map Prod.fst := by
    rw [h.store, OrderedMap.keys_ofList]
    exact fun n hn => List.mem_eraseDups.1 hn
  have hlength := (List.subperm_of_subset OrderedMap.nodup_keys hsub).length_le
  rwa [OrderedMap.length_keys, List.length_map] at hlength

end Factory.Filled

/-! ## Resets where there are no beans -/

/-- A factory that never had a bean or merged a definition. -/
structure Factory.Unused (F : Factory) : Prop where
  singletons : F.singletons = {}
  manualNames : F.manualNames = {}
  dependencies : F.dependencies = {}
  merged : F.merged = {}

theorem Factory.Filled.unused {F₀ : Factory} {definitions : List (String × Definition)}
    (h : F₀.Filled definitions F) (hF₀ : F₀.Unused) : F.Unused := by
  rw [h.rest]
  exact ⟨hF₀.singletons, hF₀.manualNames, hF₀.dependencies, hF₀.merged⟩

namespace Factory.Unused

variable (h : F.Unused)
include h

theorem takeSingleton_eq : F.takeSingleton name = (none, F) := by
  obtain ⟨hsingletons, hmanual, -, -⟩ := h
  cases F
  cases hsingletons
  cases hmanual
  rfl

theorem takeDependents_eq : F.dependencies.takeDependents name = ([], F.dependencies) := by
  rw [h.dependencies]
  rfl

theorem removeBean_eq : { F with dependencies := F.dependencies.removeBean name } = F := by
  have hnone : F.dependencies.removeBean name = F.dependencies := by
    rw [h.dependencies]
    rfl
  rw [hnone]

theorem evict_eq : { F with merged := F.merged.evict name } = F := by
  have hnone : F.merged.evict name = F.merged := by
    rw [h.merged]
    rfl
  rw [hnone]

end Factory.Unused

theorem Session.modifyFactory_id {change : Factory → Factory} (h : change (s.factory f) = s.factory f) :
    s.modifyFactory f change = s := by
  rw [modifyFactory_eq_setFactory, h, setFactory_factory]

theorem yields_destroyCascade_unused (h : (s.factory f).Unused) :
    Yields False (destroyCascade env again f name) s fun failures t => failures = [] ∧ t = s := by
  have hrelease : s.release f name = (none, s) := by
    unfold release
    rw [h.takeSingleton_eq]
    exact congrArg (Prod.mk none) setFactory_factory
  have htake : s.setFactory f { s.factory f with dependencies := (s.factory f).dependencies } = s :=
    setFactory_factory
  have hnobody : (s.factory f).dependencies.dependentsOf name = [] := congrArg Prod.fst h.takeDependents_eq
  have hdrop : s.modifyFactory f (fun F => { F with dependencies := F.dependencies.removeBean name }) = s :=
    modifyFactory_id h.removeBean_eq
  unfold destroyCascade
  rw [yields_bind, yields_modifyGet, hrelease]
  simp [h.takeDependents_eq, htake, hnobody, hdrop]

/-- The children of a name are visited one after another, and nothing happens if visiting them one by one
changes nothing. -/
theorem yields_resetChildren_unchanged {room : Nat} (hreset : ∀ child V,
      (child ∉ V.toList → ((s.factory f).unmet (V.toList ++ [child])).length < room) →
      Yields False (again.reset f child true V) s fun V' t => t = s ∧ V.toList ⊆ V'.toList) :
    ∀ {entries : List (String × Definition)} {V : OrderedSet String},
      (∀ e ∈ entries, e ∈ (s.factory f).definitions.definitions.entries) →
      ((s.factory f).unmet V.toList).length ≤ room →
      Yields False (entries.foldlM (fun visited (child, d) => do
          if child ≠ name && (← theFactory f).isChildOf d name then again.reset f child true visited
          else return visited) V) s fun V' t => t = s ∧ V.toList ⊆ V'.toList
  | [], V, _, _ => ⟨rfl, List.Subset.refl _⟩
  | (child, d) :: entries, V, hentries, hroom => by
    rw [List.foldlM_cons, yields_bind]
    have hrest : ∀ e ∈ entries, e ∈ (s.factory f).definitions.definitions.entries := fun e he =>
      hentries e (by simp [he])
    have hstep : Yields False (do
        if child ≠ name && (← theFactory f).isChildOf d name then again.reset f child true V
        else return V) s fun V' t => t = s ∧ V.toList ⊆ V'.toList := by
      rw [yields_bind, yields_lift, theFactory_apply]
      dsimp only
      split
      · refine hreset child V fun hnew => Nat.lt_of_lt_of_le (Factory.length_unmet_lt ?_ hnew) hroom
        exact List.mem_map.2 ⟨_, hentries (child, d) (by simp), rfl⟩
      · exact ⟨rfl, List.Subset.refl _⟩
    refine hstep.mono fun V₁ t ht => ?_
    obtain ⟨ht, hsub⟩ := ht
    subst t
    have hless := Factory.length_unmet_le (F := s.factory f) hsub
    refine (yields_resetChildren_unchanged hreset hrest (hless.trans hroom)).mono fun V₂ u hu => ?_
    exact ⟨hu.1, List.Subset.trans hsub hu.2⟩

/-- **Where there are no beans a reset changes nothing**, and there is room for it as long as fewer definitions
are still to be visited than calls may nest. -/
theorem yields_resetDefinition_unused (h : (s.factory f).Unused) : ∀ (depth : Nat) (name : String)
    (destroySingleton : Bool) (V : OrderedSet String),
    (name ∉ V.toList → ((s.factory f).unmet (V.toList ++ [name])).length < depth) →
    Yields False (resetDefinition (reentry env depth) f name destroySingleton V) s fun V' t =>
      t = s ∧ V.toList ⊆ V'.toList := by
  intro depth
  induction depth with
  | zero =>
    intro name destroySingleton V hroom
    have hvisited : name ∈ V.toList := by_contra fun hnew => Nat.not_lt_zero _ (hroom hnew)
    unfold resetDefinition
    rw [if_pos (OrderedSet.contains_iff.2 hvisited)]
    exact ⟨rfl, List.Subset.refl _⟩
  | succ depth ih =>
    intro name destroySingleton V hroom
    unfold resetDefinition
    by_cases hvisited : name ∈ V.toList
    · rw [if_pos (OrderedSet.contains_iff.2 hvisited)]
      exact ⟨rfl, List.Subset.refl _⟩
    have hinsert : (V.insert name).toList = V.toList ++ [name] := by simp [OrderedSet.insert, hvisited]
    have hevict : s.modifyFactory f (fun F => { F with merged := F.merged.evict name }) = s :=
      modifyFactory_id h.evict_eq
    have hchildren : Yields False (do
        let definitions := (← theFactory f).definitions.definitions.entries
        definitions.foldlM (fun visited (child, d) => do
          if child ≠ name && (← theFactory f).isChildOf d name then
            (reentry env (depth + 1)).reset f child true visited
          else return visited) (V.insert name)) s fun V' t => t = s ∧ V.toList ⊆ V'.toList := by
      rw [yields_bind, yields_lift, theFactory_apply]
      refine (yields_resetChildren_unchanged (fun child V => ih child true V) (fun e he => he) ?_).mono ?_
      · rw [hinsert]
        exact Nat.le_of_lt_succ (hroom hvisited)
      · rintro V' t ⟨rfl, hsub⟩
        exact ⟨rfl, fun x hx => hsub (OrderedSet.mem_insert.2 (.inl hx))⟩
    rw [if_neg (by simpa using hvisited), yields_bind, yields_lift, updateFactory_apply, hevict]
    split
    · rw [yields_bind]
      have hcascade : Yields False (destroyCascade env (reentry env depth) f name) s _ :=
        yields_destroyCascade_unused h
      refine hcascade.mono ?_
      rintro failures t ⟨rfl, rfl⟩
      exact hchildren
    · exact hchildren

/-! ## Sessions -/

/-- Whether an occurrence is a line in the log. -/
def Occurrence.isNotice : Occurrence → Bool
  | notice _ => true
  | _ => false

/-- A session has got one factory more, and the record tells of these steps. Nothing else has happened. -/
structure Session.Loads (s : Session) (F : Factory) (steps : List LoadStep) (t : Session) : Prop where
  same : t = { s with factories := s.factories ++ [F], record := t.record }
  told : ∃ new, t.record = new ++ s.record ∧ new.filter (fun o => !o.isNotice) =
    (steps.filterMap (LoadStep.occurrence? s.factories.length)).reverse

namespace Session.Loads

variable {steps : List LoadStep}

theorem factories (h : s.Loads F steps t) : t.factories = s.factories ++ [F] :=
  (congrArg Session.factories h.same :)

theorem lt_length (h : s.Loads F steps t) : s.factories.length < t.factories.length := by
  simp [h.factories]

theorem factory (h : s.Loads F steps t) : t.factory s.factories.length = F := by
  simp [Session.factory, h.factories]

theorem setFactory (h : s.Loads F steps t) : s.Loads F' steps (t.setFactory s.factories.length F') where
  same := by
    rw [h.same]
    simp [Session.setFactory]
  told := h.told

theorem modifyFactory (h : s.Loads F steps t) (change : Factory → Factory) :
    s.Loads (change F) steps (t.modifyFactory s.factories.length change) := by
  rw [modifyFactory_eq_setFactory, h.factory]
  exact h.setFactory

theorem write (h : s.Loads F steps t) {step : LoadStep} {o : Occurrence} (ho : o.isNotice = false)
    (hstep : step.occurrence? s.factories.length = some o) : s.Loads F (steps ++ [step]) (t.write o) where
  same := by
    rw [h.same]
    rfl
  told := by
    obtain ⟨new, hrecord, hnew⟩ := h.told
    refine ⟨o :: new, congrArg (o :: ·) hrecord, ?_⟩
    simp [ho, hnew, hstep]

theorem silently (h : s.Loads F steps t) {step : LoadStep}
    (hstep : step.occurrence? s.factories.length = none) : s.Loads F (steps ++ [step]) t where
  same := h.same
  told := by
    obtain ⟨new, hrecord, hnew⟩ := h.told
    exact ⟨new, hrecord, by simp [hnew, hstep]⟩

theorem note (h : s.Loads F steps t) {n : Notice} : s.Loads F steps (t.write (.notice n)) where
  same := by
    rw [h.same]
    rfl
  told := by
    obtain ⟨new, hrecord, hnew⟩ := h.told
    exact ⟨.notice n :: new, congrArg (_ :: ·) hrecord, by simpa [Occurrence.isNotice] using hnew⟩

theorem writeNotices (h : s.Loads F steps t) {notices : List Notice} :
    s.Loads F steps (t.writeNotices notices) := by
  induction notices generalizing t with
  | nil => exact h
  | cons n notices ih => exact ih h.note

end Session.Loads

/-- What comes of a step in a session: what comes of it in the factory. -/
def LoadStep.Comes (s : Session) (F : Factory) (steps : List LoadStep) (step : LoadStep)
    (r : Except BeanError Unit) (t : Session) : Prop :=
  match step.apply F with
  | .ok F' => r = .ok () ∧ s.Loads F' (steps ++ [step]) t
  | .error e => r = .error e ∧ s.Loads F steps t

variable {steps : List LoadStep} {depth : Nat}

theorem ends_tryUpdate_loads (h : s.Loads F steps t) {change : Factory → Except BeanError Factory}
    {after : Query Unit} {Q : Except BeanError Unit → Session → Prop}
    (hok : ∀ F', change F = .ok F' → s.Loads F' steps (t.setFactory s.factories.length F') →
      Ends after (t.setFactory s.factories.length F') Q)
    (herror : ∀ e, change F = .error e → Q (.error e) t) :
    Ends (do tryUpdate s.factories.length change; after) t Q := by
  rw [ends_bind]
  unfold tryUpdate
  rw [ends_bind, ends_lift, theFactory_apply, h.factory]
  dsimp only
  cases hF : change F with
  | ok F' => exact hok F' hF h.setFactory
  | error e => exact herror e hF

/-- **A step comes out in a session as it does in the factory.** A factory without beans is all it takes, and
room for the definitions it has. -/
theorem LoadStep.yields_act (h : s.Loads F steps t) (hF : F.Unused) (step : LoadStep)
    (hdepth : step.definition?.isSome → F.definitions.size < depth) :
    Yields False (step.act (reentry env depth) s.factories.length).run t (step.Comes s F steps) := by
  unfold LoadStep.Comes
  cases step with
  | scope name k =>
    change Yields False (liftM (registerScope _ name k) : Act Unit).run t _
    rw [yields_run_liftQuery]
    unfold registerScope
    rw [ends_bind, ends_get]
    refine ends_tryUpdate_loads h (fun F' hF' ht => ?_) fun e he => ?_
    · rw [show (LoadStep.scope name k).apply F = .ok F' from hF']
      exact ⟨rfl, ht.note.silently rfl⟩
    · rw [show (LoadStep.scope name k).apply F = .error e from he]
      exact ⟨rfl, h⟩
  | nickname name altName =>
    change Yields False (liftM (registerAlias _ name altName) : Act Unit).run t _
    rw [yields_run_liftQuery]
    unfold registerAlias
    rw [ends_bind, ends_lift, theFactory_apply]
    dsimp only
    rw [ends_bind, ends_modify]
    dsimp only
    refine ends_tryUpdate_loads h.writeNotices (fun F' hF' ht => ?_) fun e he => ?_
    · rw [show (LoadStep.nickname name altName).apply F = .ok F' from hF']
      exact ⟨rfl, ht.write rfl rfl⟩
    · rw [show (LoadStep.nickname name altName).apply F = .error e from he]
      exact ⟨rfl, h.writeNotices⟩
  | definition name d =>
    change Yields False (registerDefinition _ _ name d).run t _
    cases hF' : F.define name d with
    | error e =>
      rw [show (LoadStep.definition name d).apply F = .error e from hF']
      exact yields_registerDefinition_error (h.factory.symm ▸ hF') ⟨rfl, h⟩
    | ok F' =>
      rw [show (LoadStep.definition name d).apply F = .ok F' from hF']
      unfold registerDefinition tryUpdate
      simp only [yields_run_bind, yields_run_liftState, theFactory_apply, yields_run_liftQuery, ends_bind,
        ends_lift, h.factory, hF', ends_modify, write_apply, note_apply, yields_run_liftEffect]
      have ht : s.Loads F' (steps ++ [.definition name d]) (((t.setFactory s.factories.length F').write
          (.defined s.factories.length name)).write
            (.notice (Factory.defineNotice name (F.definitions.get? name) d))) :=
        (h.setFactory.write rfl rfl).note
      obtain ⟨store, rfl, others⟩ := define_spec hF'
      have hless := Factory.length_unmet_redefined others
      have hunused : Factory.Unused { F with definitions := store } :=
        ⟨hF.singletons, hF.manualNames, hF.dependencies, hF.merged⟩
      refine (yields_resetDefinition_unused (ht.factory.symm ▸ hunused) depth name _ {} fun _ => ?_).mono ?_
      · rw [ht.factory]
        exact Nat.lt_of_le_of_lt hless (hdepth rfl)
      · rintro V u ⟨rfl, -⟩
        exact ⟨rfl, ht⟩

/-- **Steps that the factory accepts are all done.** -/
theorem yields_loading {F₀ : Factory} (hF₀ : F₀.Unused) {more : List LoadStep} :
    ∀ {steps : List LoadStep} {definitions : List (String × Definition)} {F : Factory} {t : Session},
      F₀.Filled definitions F → s.Loads F steps t →
      (definitions ++ more.filterMap LoadStep.definition?).length ≤ depth →
      more.foldlM LoadStep.apply F = .ok F' →
      Yields False (more.forM (LoadStep.act (reentry env depth) s.factories.length)).run t fun r u =>
        r = .ok () ∧ s.Loads F' (steps ++ more) u := by
  induction more with
  | nil =>
    intro steps definitions F t _ h _ hF'
    cases hF'
    exact ⟨rfl, by simpa using h⟩
  | cons step more ih =>
    intro steps definitions F t hfilled h hdepth hF'
    rw [List.foldlM_cons] at hF'
    cases hstep : step.apply F with
    | error e =>
      rw [hstep] at hF'
      cases hF'
    | ok G =>
      rw [hstep] at hF'
      have hmore : (definitions ++ step.definition?.toList) ++ more.filterMap LoadStep.definition? =
          definitions ++ (step :: more).filterMap LoadStep.definition? := by
        cases hd : step.definition? <;> simp [hd]
      have hroom : step.definition?.isSome → F.definitions.size < depth := by
        intro hsome
        obtain ⟨d, hd⟩ := Option.isSome_iff_exists.1 hsome
        have hsize := hfilled.size_le
        simp [hd] at hdepth
        omega
      refine yields_run_bind.2 ((LoadStep.yields_act h (hfilled.unused hF₀) step hroom).mono fun r u hu => ?_)
      rw [LoadStep.Comes, hstep] at hu
      obtain ⟨rfl, hu⟩ := hu
      have hrest := ih (hfilled.step hstep) hu (by rwa [hmore]) hF'
      simpa using hrest

end BeanContainer
