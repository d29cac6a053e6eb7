import BeanContainer.Proofs.Loading
import BeanContainer.Proofs.Sealed

/-!
Starting an application. What comes of it is what comes of the steps that fill its
factory (`bootstrap_builds`): the first one that the factory refuses ends the start,
and if all are accepted, the factory is frozen and its singletons are made. If the
library that writes the log does not start it, nothing happens at all.

While they are made collaborators may ask whatever they like of the session. As
no label stands for the new factory yet (`Session.Hides`), they reach it by lookups
alone, and these change neither its definitions nor its aliases.
-/

namespace BeanContainer

open Relation Session

variable {α β : Type} {env : Collaborators} {again : Reentry} {s t u : Session} {f g : FactoryId}
  {name : String} {F F' : Factory} {lost : Prop}

/-! ## Acts as steps of a start -/

theorem yields_ofAct {a : Act α} {Q : Except InfrastructureError α → Session → Prop} :
    Yields lost (Startup.ofAct a).run s Q ↔ Yields lost a.run s fun r t => Q (r.mapError .bean) t := by
  change Yields lost (a.run >>= fun r => _) s Q ↔ _
  rw [yields_bind]
  refine yields_congr fun r t => ?_
  cases r <;> rfl

theorem yields_startup_forM {step : α → Act Unit} {l : List α}
    {Q : Except InfrastructureError Unit → Session → Prop} :
    Yields lost (l.forM fun a => Startup.ofAct (step a)).run s Q ↔
      Yields lost (Startup.ofAct (l.forM step)).run s Q := by
  rw [yields_ofAct]
  induction l generalizing s with
  | nil => exact Iff.rfl
  | cons a l ih =>
    refine yields_startup_bind.trans (Iff.trans yields_ofAct (Iff.trans (yields_congr fun r t => ?_)
      yields_run_bind.symm))
    cases r with
    | ok _ => exact ih
    | error e => exact Iff.rfl

theorem yields_loadSet {set : DefinitionSet} {Q : Except BeanError Nat → Session → Prop} :
    Yields lost (loadSet again f set).run s Q ↔ Yields lost (set.steps.forM (LoadStep.act again f)).run s
      fun r t => Q (r.map fun _ => set.definitions.length) t := by
  unfold loadSet DefinitionSet.steps
  rw [yields_forM_append, yields_run_bind]
  simp only [List.forM_eq_forM, List.forM_map]
  refine yields_congr fun r t => ?_
  cases r with
  | error e => exact Iff.rfl
  | ok _ =>
    dsimp only
    rw [yields_run_bind]
    refine yields_congr fun r t => ?_
    cases r <;> exact Iff.rfl

theorem yields_loadSets {sets : List DefinitionSet} {Q : Except InfrastructureError Unit → Session → Prop} :
    Yields lost (sets.forM fun set => do let _ ← Startup.ofAct (loadSet again f set)).run s Q ↔
      Yields lost (Startup.ofAct ((sets.flatMap DefinitionSet.steps).forM (LoadStep.act again f))).run s Q := by
  rw [yields_ofAct]
  induction sets generalizing s with
  | nil => exact Iff.rfl
  | cons set sets ih =>
    rw [List.flatMap_cons, yields_forM_append]
    refine yields_startup_bind.trans (Iff.trans yields_startup_bind (Iff.trans yields_ofAct
      (Iff.trans yields_loadSet (yields_congr fun r t => ?_))))
    cases r with
    | ok _ => exact ih
    | error e => exact Iff.rfl

/-- What a computation comes to is known if it is known what it ends with, and what it means that it does
not end. -/
theorem run_eq_of_yields {ι : Type} {P : ι → Prop} {result : ι → Option (α × Session)} {m : Effect α}
    (h : Yields (∃ i, P i ∧ result i = none) m s fun a t => ∃ i, P i ∧ result i = some (a, t)) :
    ∃ i, P i ∧ m s = result i := by
  unfold Yields at h
  cases hm : m s with
  | none =>
    rw [hm] at h
    exact h.imp fun _ hi => ⟨hi.1, hi.2.symm⟩
  | some r =>
    rw [hm] at h
    exact h.imp fun _ hi => ⟨hi.1, hi.2.symm⟩

theorem foldlM_eq_error {ε : Type} {step : β → α → Except ε β} {e : ε} : ∀ {l : List α} {b : β},
    l.foldlM step b = .error e → ∃ before a after c, l = before ++ a :: after ∧
      before.foldlM step b = .ok c ∧ step c a = .error e
  | [], _, h => by cases h
  | a :: l, b, h => by
    rw [List.foldlM_cons] at h
    cases hstep : step b a with
    | error e' =>
      rw [hstep] at h
      cases h
      exact ⟨[], a, l, b, rfl, rfl, hstep⟩
    | ok b' =>
      rw [hstep] at h
      obtain ⟨before, x, after, c, rfl, hbefore, hx⟩ := foldlM_eq_error h
      refine ⟨a :: before, x, after, c, rfl, ?_, hx⟩
      rw [List.foldlM_cons, hstep]
      exact hbefore

/-! ## Filling the factory -/

/-- The factory of an application before its scopes, definitions and aliases come. -/
def BootstrapPlan.blank (plan : BootstrapPlan) (settings : ApplicationSettings) (parent : Option FactoryId)
    (processors : List ProcessorId) : Factory :=
  processors.foldl Factory.addProcessor
    { settings := settings.factory, parent, constructor := plan.constructor }

/-- All parents and all labels of a session are factories of the session. -/
structure Session.Whole (s : Session) : Prop where
  parent_lt : ∀ {p f}, s.ParentOf p f → p < s.factories.length
  label_lt : ∀ {label f}, s.factoryLabels.get? label = some f → f < s.factories.length

/-- The last step of a start: the singletons are made, if the plan says so. -/
def makeSingletons (env : Collaborators) (again : Reentry) (plan : BootstrapPlan) (f : FactoryId)
    (settings : ApplicationSettings) : Startup (FactoryId × ApplicationSettings) := do
  if plan.preInstantiate then Startup.ofAct (preInstantiate env again f)
  return (f, settings)

variable {plan : BootstrapPlan} {settings : ApplicationSettings} {parent : Option FactoryId}
  {processors : List ProcessorId} {scopes : List (String × ScopeId)} {depth : Nat}

theorem blank_eq : plan.blank settings parent processors = { (plan.blank settings parent processors) with
    settings := settings.factory, frozen := false, definitions := {}, merged := {}, aliases := {}
    singletons := {}, manualNames := {}, dependencies := {} } := by
  unfold BootstrapPlan.blank
  rw [Factory.foldl_addProcessor]

theorem unused_blank : (plan.blank settings parent processors).Unused := by
  rw [blank_eq]
  exact ⟨rfl, rfl, rfl, rfl⟩

theorem filled_blank : (plan.blank settings parent processors).Filled []
    (plan.blank settings parent processors) := by
  refine .start ?_ ?_
  · rw [blank_eq]
  · rw [blank_eq]
    have hnew : Factory.NamesApart { settings := settings.factory, constructor := none } := namesApart_new
    exact hnew.congr rfl rfl

theorem run_setParent_new (hs : s.Whole) {p : FactoryId} (hp : p < s.factories.length) (h : s.Loads F [] t)
    (hnone : F.parent = none) :
    ∃ u, (setParent s.factories.length p).run t = (.ok (), u) ∧ s.Loads { F with parent := some p } [] u := by
  have hold {g : FactoryId} (hg : g < s.factories.length) : t.factory g = s.factory g := by
    simp [Session.factory, h.factories, List.getElem?_append_left hg]
  have hnew : s.factories.length ∉ t.chain p := by
    intro hmem
    refine Nat.lt_irrefl s.factories.length (mem_chain_of_closed (U := {g | g < s.factories.length})
      (fun g hg q hq => ?_) hp _ hmem)
    rw [hold hg] at hq
    exact hs.parent_lt hq
  have hlinked : s.Loads { F with parent := some p } [] (t.link s.factories.length p) :=
    (h.modifyFactory fun F => { F with parent := some p }).note
  rw [run_setParent, if_neg hnew, h.factory, hnone]
  exact ⟨_, rfl, hlinked⟩

/-- The library accepts the level, and starts the log. -/
structure LogLibrary.Starts (log : LogLibrary) (settings : LoggingSettings) (s : Session) : Prop where
  level : log.readLevel settings.level = .ok ()
  start : log.start settings s = .ok ()

theorem LogLibrary.outcome_eq_ok_iff {log : LogLibrary} {settings : LoggingSettings} :
    log.outcome settings s = .ok () ↔ log.Starts settings s := by
  have hiff : log.outcome settings s = .ok () ↔
      log.readLevel settings.level = .ok () ∧ log.start settings s = .ok () := by
    unfold LogLibrary.outcome
    cases log.readLevel settings.level <;> cases log.start settings s <;>
      simp [Except.mapError, bind, Except.bind]
  exact hiff.trans ⟨fun h => ⟨h.1, h.2⟩, fun h => ⟨h.level, h.start⟩⟩

theorem yields_startup_state {m : StateM Session α} {k : α → Startup β}
    {Q : Except InfrastructureError β → Session → Prop} :
    Yields lost (liftM m >>= k : Startup β).run s Q ↔ Yields lost (k (m s).1).run (m s).2 Q := Iff.rfl

/-- The loops over scopes and sources are one over the steps of a plan. -/
theorem yields_steps {rest : Startup β} {Q : Except InfrastructureError β → Session → Prop} :
    Yields lost (do
      scopes.forM fun (name, k) => Startup.ofAct (registerScope f name k)
      plan.sources.forM fun set => do
        let _ ← Startup.ofAct (loadSet again f set)
      rest : Startup β).run s Q ↔
    Yields lost ((plan.steps scopes).forM (LoadStep.act again f)).run s fun r t =>
      match r with
      | .ok _ => Yields lost rest.run t Q
      | .error e => Q (.error (.bean e)) t := by
  unfold BootstrapPlan.steps
  rw [yields_forM_append]
  simp only [List.forM_eq_forM, List.forM_map]
  refine yields_startup_bind.trans (yields_startup_forM.trans (yields_ofAct.trans (yields_congr fun r t => ?_)))
  cases r with
  | error e => exact Iff.rfl
  | ok _ =>
    refine yields_startup_bind.trans (yields_loadSets.trans (yields_ofAct.trans (yields_congr fun r t => ?_)))
    cases r <;> exact Iff.rfl

/-- **A start fills the factory step by step**, and goes on if all steps are done. -/
theorem yields_bootstrap (hs : s.Whole) (hsettings : plan.settings = some settings)
    (hlogging : plan.logging = true → env.log.outcome settings.logging s = .ok ())
    (hparent : ∀ p, parent = some p → p < s.factories.length)
    {Q : Except InfrastructureError (FactoryId × ApplicationSettings) → Session → Prop}
    (h : ∀ t, s.Loads (plan.blank settings parent processors) [] t →
      Yields lost ((plan.steps scopes).forM (LoadStep.act again s.factories.length)).run t fun r u =>
        match r with
        | .ok _ => Yields lost (makeSingletons env again plan s.factories.length settings).run
            (freeze s.factories.length u).2 Q
        | .error e => Q (.error (.bean e)) u) :
    Yields lost (bootstrap env again plan parent processors scopes).run s Q := by
  have hlog : (if plan.logging = true then env.log.outcome settings.logging s else .ok ()) = .ok () := by
    split
    · next hl => exact hlogging hl
    · rfl
  unfold bootstrap
  rw [yields_startup_result, BootstrapPlan.resolveSettings, hsettings]
  dsimp only
  rw [yields_startLogging, hlog]
  dsimp only
  rw [yields_startup_modifyGet, yields_startup_state, note_apply]
  have equip (t : Session) (ht : s.Loads { settings := settings.factory, parent } [] t) : Yields lost (do
        updateFactory s.factories.length fun f => { f with constructor := plan.constructor }
        updateFactory s.factories.length fun f => processors.foldl Factory.addProcessor f
        scopes.forM fun e => Startup.ofAct (registerScope s.factories.length e.1 e.2)
        plan.sources.forM fun set => do
          let _ ← Startup.ofAct (loadSet again s.factories.length set)
        freeze s.factories.length
        makeSingletons env again plan s.factories.length settings :
          Startup (FactoryId × ApplicationSettings)).run t Q := by
    have hconstructor : s.Loads { settings := settings.factory, parent, constructor := plan.constructor } []
        (t.modifyFactory s.factories.length fun F => { F with constructor := plan.constructor }) :=
      ht.modifyFactory fun F => { F with constructor := plan.constructor }
    have hblank : s.Loads (plan.blank settings parent processors) [] _ :=
      hconstructor.modifyFactory fun F => processors.foldl Factory.addProcessor F
    exact yields_startup_state.2 (yields_startup_state.2 (yields_steps.2 (h _ hblank)))
  set v := if plan.logging = true then s.write (.notice .logStarted) else s with hv
  have hsame : v.factories.length = s.factories.length := congrArg List.length factories_of_logged
  have hcreated : s.Loads { settings := settings.factory } []
      ((v.addFactory { settings := settings.factory }).2.write (.notice .factoryCreated)) := by
    rw [hv]
    split
    · exact ⟨rfl, [_, _], rfl, rfl⟩
    · exact ⟨rfl, [_], rfl, rfl⟩
  rw [show (v.addFactory { settings := settings.factory }).1 = s.factories.length from hsame]
  cases parent with
  | none => exact equip _ hcreated
  | some p =>
    obtain ⟨u, hu, ht⟩ := run_setParent_new hs (hparent p rfl) hcreated rfl
    have hlink : Ends (setParent s.factories.length p)
        ((v.addFactory { settings := settings.factory }).2.write (.notice .factoryCreated))
        fun r t => r = .ok () ∧ t = u := by
      unfold Ends
      rw [hu]
      exact ⟨rfl, rfl⟩
    refine yields_startup_bind.2 (yields_ofAct.2 (yields_run_liftQuery.2 (hlink.mono ?_)))
    rintro _ _ ⟨rfl, rfl⟩
    exact equip _ ht

theorem bootstrap_unlogged {e : InfrastructureError} (hsettings : plan.settings = some settings)
    (hlogging : plan.logging = true) (he : env.log.outcome settings.logging s = .error e) :
    (bootstrap env again plan parent processors scopes).run s = some (.error e, s) := by
  have hend : Yields False (bootstrap env again plan parent processors scopes).run s fun r t =>
      r = .error e ∧ t = s := by
    unfold bootstrap
    rw [yields_startup_result, BootstrapPlan.resolveSettings, hsettings]
    dsimp only
    rw [yields_startLogging, if_pos hlogging, he]
    exact ⟨rfl, rfl⟩
  obtain ⟨_, _, hrun, rfl, rfl⟩ := yields_false_iff.1 hend
  exact hrun

section

variable (hs : s.Whole) (hsettings : plan.settings = some settings)
  (hlogging : plan.logging = true → env.log.outcome settings.logging s = .ok ())
  (hparent : ∀ p, parent = some p → p < s.factories.length)
  (hdepth : plan.definitions.length ≤ depth)
include hs hsettings hlogging hparent hdepth

/-- **The first step that is refused ends the start.** -/
theorem bootstrap_refused {before after : List LoadStep} {step : LoadStep} {e : BeanError}
    (hsteps : plan.steps scopes = before ++ step :: after)
    (hbefore : before.foldlM LoadStep.apply (plan.blank settings parent processors) = .ok F)
    (hstep : step.apply F = .error e) :
    ∃ t, (bootstrap env (reentry env depth) plan parent processors scopes).run s = some (.error (.bean e), t) ∧
      s.Loads F before t := by
  have hfilled := filled_blank.run hbefore
  have hdefinitions : (plan.steps scopes).filterMap LoadStep.definition? = plan.definitions :=
    BootstrapPlan.filterMap_steps
  rw [hsteps, List.filterMap_append] at hdefinitions
  have hlength := congrArg List.length hdefinitions
  rw [List.length_append] at hlength
  have hroom : step.definition?.isSome → F.definitions.size < depth := by
    intro hsome
    obtain ⟨d, hd⟩ := Option.isSome_iff_exists.1 hsome
    have hsize := hfilled.size_le
    rw [List.filterMap_cons_some hd, List.length_cons] at hlength
    rw [List.nil_append] at hsize
    omega
  have hend : Yields False (bootstrap env (reentry env depth) plan parent processors scopes).run s fun r t =>
      r = .error (.bean e) ∧ s.Loads F before t := by
    refine yields_bootstrap hs hsettings hlogging hparent fun t ht => ?_
    rw [hsteps, yields_forM_append]
    refine (yields_loading unused_blank filled_blank ht (by rw [List.nil_append]; omega) hbefore).mono
      fun r u hu => ?_
    obtain ⟨rfl, hu⟩ := hu
    refine yields_run_bind.2 ((LoadStep.yields_act hu (hfilled.unused unused_blank) step hroom).mono fun r v hv => ?_)
    rw [LoadStep.Comes, hstep] at hv
    obtain ⟨rfl, hv⟩ := hv
    exact ⟨rfl, hv⟩
  obtain ⟨_, t, hrun, rfl, ht⟩ := yields_false_iff.1 hend
  exact ⟨t, hrun, ht⟩

/-- **If no step is refused, the factory is frozen**, and its singletons are made. -/
theorem bootstrap_loaded
    (hF : (plan.steps scopes).foldlM LoadStep.apply (plan.blank settings parent processors) = .ok F) :
    ∃ u, s.Loads { F with frozen := true } (plan.steps scopes) u ∧
      (bootstrap env (reentry env depth) plan parent processors scopes).run s =
        (makeSingletons env (reentry env depth) plan s.factories.length settings).run u := by
  refine run_eq_of_yields (yields_bootstrap hs hsettings hlogging hparent fun t ht => ?_)
  have hfilled := filled_blank.run hF
  have hopen : F.frozen = false := by
    rw [hfilled.rest, blank_eq]
  have hroom : ([] ++ (plan.steps scopes).filterMap LoadStep.definition?).length ≤ depth := by
    rwa [List.nil_append, BootstrapPlan.filterMap_steps]
  refine (yields_loading unused_blank filled_blank ht hroom hF).of_total.mono fun r u hu => ?_
  obtain ⟨rfl, hu⟩ := hu
  have hfrozen : s.Loads { F with frozen := true } (plan.steps scopes) (freeze s.factories.length u).2 := by
    have hrun : freeze s.factories.length u = ((), (u.modifyFactory s.factories.length fun F =>
        { F with frozen := true }).write (.notice .configurationFrozen)) := by
      unfold freeze
      change (if (u.factory s.factories.length).frozen = true then _ else _ : StateM Session Unit) u = _
      rw [hu.factory, hopen]
      rfl
    rw [hrun]
    exact (hu.modifyFactory fun F => { F with frozen := true }).note
  unfold Yields
  cases hmade : (makeSingletons env (reentry env depth) plan s.factories.length settings).run
    (freeze s.factories.length u).2 with
  | none => exact ⟨_, hfrozen, hmade⟩
  | some r => exact ⟨_, hfrozen, hmade⟩

end

/-! ## A factory without a label -/

/-- No label leads to a factory, and what its beans are made by is what it was, the merges apart. -/
structure Session.Hides (s : Session) (f : FactoryId) (F : Factory) : Prop where
  lt_length : f < s.factories.length
  unlabelled : ∀ label, s.factoryLabels.get? label ≠ some f
  core : (s.factory f).core = { F.core with merged := (s.factory f).merged }

/-- No call of this factory, and any of the others. -/
abbrev elsewhere (f : FactoryId) : FactoryId → FactoryCall → Bool := restricting f fun _ => false

theorem ne_of_elsewhere (h : ∀ call, elsewhere f g call = true) : g ≠ f := by
  rintro rfl
  simpa using h .state

theorem Session.ChangeWithin.factoryLabels {R : Set FactoryId} {P : FactoryId → FactoryCall → Bool}
    (h : s.ChangeWithin R P t) : t.factoryLabels = s.factoryLabels ∨
      ∃ label g, (∀ call, P g call = true) ∧ t.factoryLabels = s.factoryLabels.insert label g := by
  cases h with
  | bean h => exact .inl (congrArg Session.factoryLabels h.same :)
  | label hP => exact .inr ⟨_, _, hP, rfl⟩
  | _ => exact .inl rfl

/-- **A factory without a label stays one, and stays as it is**, whatever is asked of the others. -/
theorem lasting_hides : Lasting (fun s => s.Hides f F) {g | g ≠ f} (elsewhere f) where
  step := by
    intro s t hs h
    refine ⟨hs.lt_length.trans_le h.change.length_le, fun label => ?_, ?_⟩
    · obtain hsame | ⟨label', g, hP, hinsert⟩ := h.factoryLabels
      · rw [hsame]
        exact hs.unlabelled label
      · rw [hinsert, OrderedMap.get?_insert]
        split
        · exact fun heq => ne_of_elsewhere hP (Option.some.inj heq)
        · exact hs.unlabelled label
    · have hcore := hs.core
      have hstep := h.step hs.lt_length
      generalize t.factory f = G at hstep ⊢
      cases hstep with
      | core hG =>
        have hmerged : G.merged = (s.factory f).merged := (congrArg Factory.merged hG :)
        rw [hG, hcore, hmerged]
      | @keepMerge name ref =>
        exact congrArg (fun C : Factory =>
          { C with merged := ⟨(s.factory f).merged.entries.insert name ref⟩ }) hcore
      | does hP => exact absurd hP (by simp [elsewhere])
      | takeOver hP => exact absurd hP (by simp [elsewhere])
      | redefine hR => exact absurd rfl hR
  refuses {g call} hg hP _ := by
    obtain rfl : g = f := of_not_not hg
    exact absurd hP (by simp [elsewhere])
  fresh hs := ⟨Nat.ne_of_gt hs.lt_length, fun _ => restricting_of_ne (Nat.ne_of_gt hs.lt_length)⟩

/-- While its singletons are made nobody calls a factory without a label. -/
theorem yields_preInstantiate_hidden (hs : s.Hides f F) :
    Yields True (preInstantiate env (reentry env depth) f).run s fun _ t => t.Hides f F ∧ s.record <:+ t.record := by
  have reached {s : Session} {operation : Operation} {g : FactoryId} {call : FactoryCall} (hs : s.Hides f F)
      (hcall : operation.call? s = some (g, call)) : elsewhere f g call = true := by
    obtain ⟨label, -, hlabel⟩ := eq_on_of_call? hcall
    exact restricting_of_ne fun hg => hs.unlabelled label (hg ▸ hlabel)
  have cover := (lasting_hides : Lasting (fun s => s.Hides f F) _ _).covers
  have ha : (reentry env depth).KeepOperations _ := cover.keepOperations_of reached depth
  have hkept : Keeps _ (preInstantiate env (reentry env depth) f).run :=
    keeps_preInstantiate cover.making ((cover.collaborators ha).making cover.toCovers) ha.lookup trivial
  have hchanges := changes_reentry env depth
  have htold : Keeps changing (preInstantiate env (reentry env depth) f).run :=
    keeps_preInstantiate covers_changing.making (hchanges.collaborators.making covers_changing.toCovers)
      hchanges.lookup trivial
  refine ((hkept s hs).and (htold s trivial)).mono fun r t ht => ?_
  exact ⟨lasting_hides.steps hs ht.1, told_of_changes ht.2⟩

/-! ## What a start comes to -/

theorem Session.Loads.hides {steps : List LoadStep} (h : s.Loads F steps t) (hs : s.Whole) :
    t.Hides s.factories.length F where
  lt_length := h.lt_length
  unlabelled label hlabel := by
    rw [h.same] at hlabel
    exact Nat.lt_irrefl _ (hs.label_lt hlabel)
  core := by
    rw [h.factory]
    rfl

theorem yields_makeSingletons_hidden (hs : s.Hides f F) :
    Yields True (makeSingletons env (reentry env depth) plan f settings).run s fun r t =>
      (∀ built, r = .ok built → built = (f, settings)) ∧ t.Hides f F ∧ s.record <:+ t.record := by
  unfold makeSingletons
  split
  · rw [yields_startup_bind, yields_ofAct]
    refine (yields_preInstantiate_hidden hs).mono fun r t ht => ?_
    cases r with
    | ok _ => exact ⟨fun _ h => by cases h; rfl, ht⟩
    | error e => exact ⟨nofun, ht⟩
  · exact ⟨fun _ h => by cases h; rfl, hs, List.suffix_rfl⟩

theorem run_makeSingletons (hpre : plan.preInstantiate = true) {r : Except BeanError Unit}
    (h : (preInstantiate env again f).run s = some (r, t)) :
    (makeSingletons env again plan f settings).run s = some ((r.mapError .bean).map fun _ => (f, settings), t) := by
  have hends : Yields False (makeSingletons env again plan f settings).run s fun r' t' =>
      r' = (r.mapError .bean).map (fun _ => (f, settings)) ∧ t' = t := by
    unfold makeSingletons
    rw [if_pos hpre, yields_startup_bind, yields_ofAct, yields_of_run h]
    cases r <;> exact ⟨rfl, rfl⟩
  obtain ⟨_, _, hrun, rfl, rfl⟩ := yields_false_iff.1 hends
  exact hrun

/-- **What starting an application comes to.**

If the log is to be started and the library refuses, that ends the start, and nothing has happened. Otherwise
the scopes, definitions and aliases are taken up one by one. The first one that the new factory refuses ends
the start with its error, and nothing has happened but what came before it; if making the singletons fails,
that ends the start in the same way. After a start that succeeds the factory is frozen. It has the names of all
definitions in the order in which they came first, each with the definition that came last, none of them twice
where nothing may be overridden, and none of its aliases is one of these names. Nobody was called before all of
it was taken up. -/
theorem bootstrap_builds (env : Collaborators) (plan : BootstrapPlan) (parent : Option FactoryId)
    (processors : List ProcessorId) (scopes : List (String × ScopeId)) (hs : s.Whole)
    (hsettings : plan.settings = some settings) (hparent : ∀ p, parent = some p → p < s.factories.length) :
    let f := s.factories.length
    let blank := plan.blank settings parent processors
    let steps := plan.steps scopes
    let build (depth : Nat) := (bootstrap env (reentry env depth) plan parent processors scopes).run s
    (∀ depth built t, build depth = some (.ok built, t) → built = (f, settings) ∧
      (t.factory f).frozen = true ∧
      (t.factory f).definitions.names = (plan.definitions.map Prod.fst).eraseDups ∧
      (∀ n, (t.factory f).definitions.get? n = plan.definitions.reverse.lookup n) ∧
      (settings.factory.allowDefinitionOverriding = false → (plan.definitions.map Prod.fst).Nodup) ∧
      (∀ n, (t.factory f).aliases.isAlias n = true → n ∉ plan.definitions.map Prod.fst) ∧
      ∃ later loading, t.record = later ++ (loading ++ s.record) ∧
        loading.filter (fun o => !o.isNotice) = (steps.filterMap (LoadStep.occurrence? f)).reverse) ∧
    (plan.logging = true → ∀ depth e, env.log.outcome settings.logging s = .error e →
      build depth = some (.error e, s)) ∧
    ((plan.logging = true → env.log.Starts settings.logging s) → ∀ depth, plan.definitions.length ≤ depth →
      (∀ before step after F e, steps = before ++ step :: after → before.foldlM LoadStep.apply blank = .ok F →
        step.apply F = .error e → ∃ t, build depth = some (.error (.bean e), t) ∧ s.Loads F before t) ∧
      ∀ F, steps.foldlM LoadStep.apply blank = .ok F → ∃ u, s.Loads { F with frozen := true } steps u ∧
        (plan.preInstantiate = false → build depth = some (.ok (f, settings), u)) ∧
        (plan.preInstantiate = true →
          (∀ t, (preInstantiate env (reentry env depth) f).run u = some (.ok (), t) →
            build depth = some (.ok (f, settings), t)) ∧
          ∀ e t, (preInstantiate env (reentry env depth) f).run u = some (.error e, t) →
            build depth = some (.error (.bean e), t))) := by
  intro f blank steps build
  refine ⟨fun depth built t hbuilt => ?_, fun hlogging depth e he => bootstrap_unlogged hsettings hlogging he,
    fun hstarts depth hdepth => ?_⟩
  · have hlogging (hlog : plan.logging = true) : env.log.outcome settings.logging s = .ok () := by
      cases he : env.log.outcome settings.logging s with
      | ok _ => rfl
      | error e => cases hbuilt.symm.trans (bootstrap_unlogged hsettings hlog he)
    -- More room than there are definitions makes no difference, and then it is known what is loaded.
    have hmore : build (depth + plan.definitions.length) = some (.ok built, t) :=
      approximates_bootstrap (approximates_reentry (Nat.le_add_right ..)) s _ hbuilt
    cases hF : steps.foldlM LoadStep.apply blank with
    | error e =>
      obtain ⟨before, step, after, F, hsteps, hbefore, hstep⟩ := foldlM_eq_error hF
      obtain ⟨u, hrefused, -⟩ := bootstrap_refused hs hsettings hlogging hparent
        (Nat.le_add_left ..) hsteps hbefore hstep
      cases hmore.symm.trans hrefused
    | ok F =>
      obtain ⟨u, hu, hrun⟩ := bootstrap_loaded hs hsettings hlogging hparent
        (Nat.le_add_left ..) hF
      have hfilled : blank.Filled plan.definitions F := by
        have hrun := filled_blank.run hF
        rwa [BootstrapPlan.filterMap_steps] at hrun
      obtain ⟨hvalue, ht, later, hlater⟩ := yields_true_iff.1 (yields_makeSingletons_hidden (hu.hides hs)) _ _
        (hrun.symm.trans hmore)
      obtain ⟨loading, hrecord, hloading⟩ := hu.told
      have hdefinitions : (t.factory f).definitions = F.definitions := (congrArg Factory.definitions ht.core :)
      have haliases : (t.factory f).aliases = F.aliases := (congrArg Factory.aliases ht.core :)
      refine ⟨hvalue built rfl, (congrArg Factory.frozen ht.core :), ?_, fun n => ?_, fun hover => ?_,
        fun n hn => ?_, later, loading, ?_, hloading⟩
      · rw [hdefinitions, hfilled.names]
      · rw [hdefinitions, hfilled.get?]
      · refine hfilled.once ?_
        rwa [show blank.settings = settings.factory from congrArg Factory.settings blank_eq]
      · rw [haliases] at hn
        exact hfilled.not_mem_of_isAlias hn
      · rw [← hlater, hrecord]
  have hlogging (hlog : plan.logging = true) : env.log.outcome settings.logging s = .ok () :=
    LogLibrary.outcome_eq_ok_iff.2 (hstarts hlog)
  refine ⟨fun before step after F e hsteps hbefore hstep => ?_, fun F hF => ?_⟩
  · exact bootstrap_refused hs hsettings hlogging hparent hdepth hsteps hbefore hstep
  · obtain ⟨u, hu, hrun⟩ := bootstrap_loaded hs hsettings hlogging hparent hdepth hF
    refine ⟨u, hu, fun hpre => ?_, fun hpre => ⟨fun t ht => ?_, fun e t ht => ?_⟩⟩
    · refine hrun.trans ?_
      unfold makeSingletons
      rw [hpre]
      rfl
    · exact hrun.trans (run_makeSingletons hpre ht)
    · exact hrun.trans (run_makeSingletons hpre ht)

/-- The library in a process that has got no log but by it. -/
def LogLibrary.sole : LogLibrary :=
  Scripted.logLibrary fun s => s.record.any fun
    | .notice .logStarted => true
    | _ => false

/-- Two sources, the second of which defines a name of the first one again. The log is to be started. -/
def BootstrapPlan.assembled : BootstrapPlan where
  settings := some {}
  logging := true
  constructor := some (.scripted "main")
  sources :=
    [{ name := "core", definitions := [("store", {}), ("cache", {})], aliases := [("store", "db")] },
      { name := "overrides", definitions := [("store", { lazy := some true }), ("report", {})] }]

/-- The log starts. The second definition counts, and has the place of the first. A third source that defines
the alias of the first one is refused. Where the log was taken before, nothing happens. -/
theorem bootstrap_builds_assembled :
    let taken := Scripted.collaborators (fun k => ⟨k.label, none⟩) fun _ => none
    let env := { taken with log := .sole }
    let s := Session.initial
    let clashing := { BootstrapPlan.assembled with
      sources := BootstrapPlan.assembled.sources ++ [{ name := "clash", definitions := [("db", {})] }] }
    s.Whole ∧ env.log.Starts {} s ∧
    (∃ t, (bootstrap env (reentry env 8) .assembled none [] []).run s = some (.ok (1, {}), t) ∧
      (t.factory 1).frozen = true ∧ (t.factory 1).definitions.names = ["store", "cache", "report"] ∧
      (t.factory 1).definitions.get? "store" = some { lazy := some true }) ∧
    (∃ t, (bootstrap env (reentry env 8) clashing none [] []).run s =
      some (.error (.bean (.definitionStore "db" (.nameIsAlias "store"))), t)) ∧
    (bootstrap taken (reentry taken 8) .assembled none [] []).run s = some (.error
      (.bootstrapFailed "日志初始化失败: a global default trace dispatcher has already been set"), s) := by
  intro taken env s clashing
  have hs : s.Whole := by
    refine ⟨fun {p f} hp => ?_, fun {label f} hf => ?_⟩
    · rcases f with _ | f <;> cases hp
    · change (OrderedMap.insert {} "main" 0).get? label = some f at hf
      rw [OrderedMap.get?_insert] at hf
      split at hf <;> cases hf
      decide
  have hnone : ∀ p, (none : Option FactoryId) = some p → p < s.factories.length :=
    fun p hp => by cases hp
  have hstarts : env.log.Starts {} s := ⟨by decide +kernel, rfl⟩
  obtain ⟨hbuilt, -⟩ := bootstrap_builds env .assembled none [] [] hs rfl hnone
  obtain ⟨-, -, hrefused⟩ := bootstrap_builds env clashing none [] [] hs rfl hnone
  obtain ⟨-, htaken, -⟩ := bootstrap_builds taken .assembled none [] [] hs rfl hnone
  have hstart : ((bootstrap env (reentry env 8) .assembled none [] []).run s).any (fun r => r.1.toBool) = true := by
    decide +kernel
  obtain ⟨⟨r, t⟩, hrun, hok⟩ := (Option.any_eq_true ..).1 hstart
  cases r with
  | error e => cases hok
  | ok built =>
    obtain ⟨rfl, hfrozen, hnames, hlast, -⟩ := hbuilt 8 built t hrun
    refine ⟨hs, hstarts, ⟨t, hrun, hfrozen, hnames.trans (by decide), (hlast "store").trans (by decide)⟩, ?_,
      htaken rfl 8 _ (by decide +kernel)⟩
    have hclash : ((clashing.steps []).foldlM LoadStep.apply (clashing.blank {} none [])).map (fun _ => ()) =
        .error (.definitionStore "db" (.nameIsAlias "store")) := by decide +kernel
    cases hsteps : (clashing.steps []).foldlM LoadStep.apply (clashing.blank {} none []) with
    | ok F => simp [hsteps, Except.map] at hclash
    | error e =>
      obtain rfl : e = .definitionStore "db" (.nameIsAlias "store") := by simpa [hsteps, Except.map] using hclash
      obtain ⟨before, step, after, F, hsplit, hbefore, hstep⟩ := foldlM_eq_error hsteps
      obtain ⟨u, hu, -⟩ := (hrefused (fun _ => hstarts) 8 (by decide)).1 before step after F _ hsplit hbefore hstep
      exact ⟨u, hu⟩

end BeanContainer
