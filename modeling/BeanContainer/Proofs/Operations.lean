import BeanContainer.Proofs.Budget
import BeanContainer.Proofs.Calls

/-!
Whatever can be asked of a session. A manner that covers the calls for which `P`
holds, and what becomes of a session besides its factories
(`Manner.CoversOperations`), covers every operation that makes no other calls
(`yields_performOnce`), applications that are started and stopped included.

Of each factory whose definitions a call is there to change, the manner either
covers how that is done, or has them refuse every change (`Manner.Refuses`).
-/

namespace BeanContainer

open Session

variable {α β : Type} {env : Collaborators} {again : Reentry} {M : Manner}
  {P : FactoryId → FactoryCall → Prop} {s : Session} {f : FactoryId} {name : String}

/-! ## Definitions that are not changed -/

/-- A factory takes up no definition, and drops none. -/
def Manner.Refuses (M : Manner) (f : FactoryId) : Prop :=
  ∀ s, M.Start s → (∀ name d, ∃ e, (s.factory f).define name d = .error e) ∧
    ∀ name, ∃ e, (s.factory f).undefine name = .error e

theorem yields_tryUpdate_error {lost : Prop} {change : Factory → Except BeanError Factory}
    {k : Unit → Act α} {e : BeanError} {Q : Except BeanError α → Session → Prop}
    (h : change (s.factory f) = .error e) (hQ : Q (.error e) s) :
    Yields lost (liftM (tryUpdate f change) >>= k : Act α).run s Q := by
  rw [yields_run_bind, yields_run_liftQuery]
  unfold tryUpdate
  rw [ends_bind, ends_lift, theFactory_apply]
  dsimp only
  rw [h]
  exact hQ

theorem yields_registerDefinition_error {lost : Prop} {d : Definition} {e : BeanError}
    {Q : Except BeanError Unit → Session → Prop} (h : (s.factory f).define name d = .error e)
    (hQ : Q (.error e) s) : Yields lost (registerDefinition again f name d).run s Q := by
  unfold registerDefinition
  rw [yields_run_bind, yields_run_liftState, theFactory_apply]
  exact yields_tryUpdate_error h hQ

theorem yields_removeDefinition_error {lost : Prop} {e : BeanError}
    {Q : Except BeanError Unit → Session → Prop} (h : (s.factory f).undefine name = .error e)
    (hQ : Q (.error e) s) : Yields lost (removeDefinition again f name).run s Q :=
  yields_tryUpdate_error h hQ

/-- Where no definition is taken up or dropped, nothing is reset. -/
theorem Manner.Refuses.keepDefinitions (refuses : M.Refuses f) : again.KeepDefinitions M f where
  register name d s hs := by
    obtain ⟨e, he⟩ := (refuses s hs).1 name d
    exact yields_registerDefinition_error he (M.refl s)
  remove name s hs := by
    obtain ⟨e, he⟩ := (refuses s hs).2 name
    exact yields_removeDefinition_error he (M.refl s)

/-! ## Manners -/

/-- A manner covers the calls for which `P` holds, and what becomes of a session besides. -/
structure Manner.CoversOperations (M : Manner) (P : FactoryId → FactoryCall → Prop) : Prop
    extends M.CoversCallsOf Set.univ P, M.CoversSession where
  addFactory : ∀ {s settings constructor}, M.Start s → M.Leads s (s.addFactory { settings, constructor }).2
  /-- A factory may get a label if all calls of it are covered. -/
  label : ∀ {s label f started}, M.Start s → (∀ call, P f call) →
    M.Leads s { s with factoryLabels := s.factoryLabels.insert label f, started }
  definitions : ∀ {f call}, P f call → call.redefines = true → M.Redefines f ∨ M.Refuses f
  /-- A new factory can be set up. -/
  fresh : ∀ {s}, M.Start s → M.Redefines s.factories.length ∧ ∀ call, P s.factories.length call

/-- The manner covers the ways back into the session. -/
structure Reentry.KeepOperations (M : Manner) (again : Reentry) : Prop extends again.Keep M Set.univ where
  reset : ∀ f, M.Resets f → ∀ name destroySingleton visited,
    Keeps M (again.reset f name destroySingleton visited)
  perform : ∀ operation, Keeps M (again.perform operation)

theorem Reentry.KeepOperations.keepResets (ha : again.KeepOperations M) (resets : M.Resets f) :
    again.KeepResets M f where
  destroy := ha.destroy f trivial
  reset := ha.reset f resets

theorem Manner.CoversOperations.keepDefinitions (cover : M.CoversOperations P) (ha : again.KeepOperations M)
    {call : FactoryCall} (hP : P f call) (h : call.redefines = true) : again.KeepDefinitions M f := by
  obtain redefines | refuses := cover.definitions hP h
  · exact redefines.keepDefinitions (ha.keepResets redefines.toResets)
  · exact refuses.keepDefinitions

/-! ## Applications -/

theorem Keeps.startup_bind {a : Startup α} {k : α → Startup β} (h : Keeps M a.run)
    (hk : ∀ x, Keeps M (k x).run) : Keeps M (a >>= k).run := by
  change Keeps M (a.run >>= fun r => _)
  refine h.bind fun r => ?_
  cases r with
  | ok x => exact hk x
  | error e => exact keeps_pure

theorem Keeps.startup_when {c : Prop} [Decidable c] {a : Startup Unit} {b : Startup α}
    (h : Keeps M a.run) (hb : Keeps M b.run) : Keeps M (if c then (do a; b) else b).run := by
  split
  · exact h.startup_bind fun _ => hb
  · exact hb

theorem keeps_ofAct {a : Act α} (h : Keeps M a.run) : Keeps M (Startup.ofAct a).run := by
  change Keeps M (a.run >>= fun r => _)
  refine h.bind fun r => ?_
  cases r <;> exact keeps_pure

theorem keeps_startup_effect {m : Effect α} (h : Keeps M m) : Keeps M (liftM m : Startup α).run := by
  intro s hs
  change Yields True (Except.ok <$> m) s _
  rw [yields_map]
  exact h s hs

theorem keeps_startup_state {m : StateM Session α} (h : Keeps M (liftM m : Effect α)) :
    Keeps M (liftM m : Startup α).run := keeps_startup_effect h

theorem yields_startup_bind {lost : Prop} {a : Startup α} {k : α → Startup β}
    {Q : Except InfrastructureError β → Session → Prop} :
    Yields lost (a >>= k).run s Q ↔ Yields lost a.run s fun r t =>
      match r with
      | .ok x => Yields lost (k x).run t Q
      | .error e => Q (.error e) t := by
  change Yields lost (a.run >>= fun r => _) s Q ↔ _
  rw [yields_bind]
  refine yields_congr fun r t => ?_
  cases r <;> rfl

theorem yields_startup_result {lost : Prop} {r : Except InfrastructureError α} {k : α → Startup β}
    {Q : Except InfrastructureError β → Session → Prop} :
    Yields lost (ExceptT.mk (pure r) >>= k : Startup β).run s Q ↔
      match r with
      | .ok x => Yields lost (k x).run s Q
      | .error e => Q (.error e) s := yields_startup_bind

/-- Where the log is started first, a line tells so, unless the library refuses. -/
theorem yields_startLogging {lost c : Prop} [Decidable c] {log : LogLibrary} {settings : LoggingSettings}
    {b : Startup α} {Q : Except InfrastructureError α → Session → Prop} :
    Yields lost (if c then (do startLogging log settings; b) else b : Startup α).run s Q ↔
      match (if c then log.outcome settings s else .ok ()) with
      | .ok _ => Yields lost b.run (if c then s.write (.notice .logStarted) else s) Q
      | .error e => Q (.error e) s := by
  split
  · refine yields_startup_bind.trans ?_
    change Yields lost (ExceptT.mk (pure (log.outcome settings s)) >>= fun _ =>
      liftM (note .logStarted) : Startup Unit).run s _ ↔ _
    rw [yields_startup_result]
    cases log.outcome settings s <;> rfl
  · exact Iff.rfl

theorem factories_of_logged {c : Prop} [Decidable c] {n : Notice} :
    (if c then s.write (.notice n) else s).factories = s.factories := by
  split <;> rfl

/-- What is said of every value that the rest of a start can end with is said of the start. -/
theorem yields_startup_value {a : Startup α} {k : α → Startup β} {P : β → Prop}
    (hk : ∀ x t, Yields True (k x).run t fun r _ => ∀ y, r = .ok y → P y) :
    Yields True (a >>= k).run s fun r _ => ∀ y, r = .ok y → P y := by
  rw [yields_startup_bind]
  refine yields_true_iff.2 fun r t _ => ?_
  cases r with
  | ok x => exact hk x t
  | error e => exact nofun

theorem yields_startup_modifyGet {lost : Prop} {g : Session → α × Session} {k : α → Startup β}
    {Q : Except InfrastructureError β → Session → Prop} :
    Yields lost (modifyGet g >>= k : Startup β).run s Q ↔ Yields lost (k (g s).1).run (g s).2 Q := Iff.rfl

theorem keeps_startup_forM {step : α → Startup Unit} {l : List α} (h : ∀ a ∈ l, Keeps M (step a).run) :
    Keeps M (l.forM step).run := by
  induction l with
  | nil => exact keeps_pure
  | cons a l ih => exact (h a (by simp)).startup_bind fun _ => ih fun a ha => h a (by simp [ha])

theorem keeps_startLogging {U : Set FactoryId} (cover : M.CoversMaking U) {log : LogLibrary}
    {settings : LoggingSettings} : Keeps M (startLogging log settings).run := by
  unfold startLogging
  refine (keeps_startup_effect keeps_get).startup_bind fun _ => ?_
  exact Keeps.startup_bind (fun s _ => M.refl s) fun _ => keeps_startup_state cover.keeps_note

namespace Manner.CoversOperations

variable (cover : M.CoversOperations P) (h : env.Keep M Set.univ again) (ha : again.KeepOperations M)
include cover h ha

theorem keeps_bootstrap {plan : BootstrapPlan} {parent : Option FactoryId}
    {processors : List ProcessorId} {scopes : List (String × ScopeId)} :
    Keeps M (bootstrap env again plan parent processors scopes).run := by
  have covers := cover.toCovers
  have making := covers.making
  have here (f : FactoryId) : f ∈ (Set.univ : Set FactoryId) := trivial
  have equip (f : FactoryId) (redefines : M.Redefines f) (hP : ∀ call, P f call)
      (settings : ApplicationSettings) : Keeps M (do
        updateFactory f fun f => { f with constructor := plan.constructor }
        updateFactory f fun f => processors.foldl Factory.addProcessor f
        scopes.forM fun e => Startup.ofAct (registerScope f e.1 e.2)
        plan.sources.forM fun set => do
          let _ ← Startup.ofAct (loadSet again f set)
        freeze f
        if plan.preInstantiate then Startup.ofAct (preInstantiate env again f)
        return (f, settings) : Startup (FactoryId × ApplicationSettings)).run := by
    have hdef : again.KeepDefinitions M f := redefines.keepDefinitions (ha.keepResets redefines.toResets)
    have configures {change : Factory → Factory} (hc : ∀ F : Factory, FactoryCall.freeze.Does F (change F)) :
        Keeps M (liftM (updateFactory f change) : Startup Unit).run :=
      keeps_startup_state (cover.keeps_updateFactory (here f) (hP .freeze) hc)
    refine (configures fun _ => .configure).startup_bind fun _ => ?_
    refine (configures fun F => ?_).startup_bind fun _ => ?_
    · rw [Factory.foldl_addProcessor]
      exact .configure
    refine (keeps_startup_forM fun e _ => keeps_ofAct (keeps_run_query
      (cover.asks_registerScope (here f) (hP .freeze)))).startup_bind fun _ => ?_
    refine (keeps_startup_forM fun set _ => (keeps_ofAct
      (cover.keeps_loadSet (here f) (hP (.loadSet set)) hdef)).startup_bind fun _ => keeps_pure).startup_bind
        fun _ => ?_
    refine (keeps_startup_state (cover.keeps_freeze (here f) (hP .freeze))).startup_bind fun _ => ?_
    exact Keeps.startup_when
      (keeps_ofAct (keeps_preInstantiate making (h.making covers) ha.lookup (here f))) keeps_pure
  unfold bootstrap
  refine Keeps.startup_bind (fun s _ => M.refl s) fun settings => ?_
  dsimp only
  refine Keeps.startup_when (keeps_startLogging making) fun s hs => ?_
  have hadd : M.Leads s (s.addFactory { settings := settings.factory }).2 := cover.addFactory hs
  obtain ⟨redefines, hP⟩ := cover.fresh hs
  rw [yields_startup_modifyGet]
  refine ((?_ : Keeps M _) _ (M.start hs hadd)).mono fun _ _ ht => M.trans hs hadd ht
  refine (keeps_startup_state making.keeps_note).startup_bind fun _ => ?_
  cases parent with
  | none => exact equip _ redefines hP settings
  | some p =>
    refine (keeps_ofAct (keeps_run_query (cover.asks_setParent (here _) (here p)))).startup_bind fun _ => ?_
    exact equip _ redefines hP settings

end Manner.CoversOperations

theorem yields_bootstrap_number {plan : BootstrapPlan} {parent : Option FactoryId}
    {processors : List ProcessorId} {scopes : List (String × ScopeId)} :
    Yields True (bootstrap env again plan parent processors scopes).run s fun r _ =>
      ∀ x, r = .ok x → x.1 = s.factories.length := by
  unfold bootstrap
  rw [yields_startup_result]
  cases plan.resolveSettings with
  | error e => exact nofun
  | ok settings =>
    dsimp only
    rw [yields_startLogging]
    cases (if plan.logging = true then env.log.outcome settings.logging s else .ok ()) with
    | error e => exact nofun
    | ok _ =>
      dsimp only
      rw [← factories_of_logged (s := s) (c := plan.logging = true) (n := .logStarted), yields_startup_modifyGet]
      refine yields_startup_value fun _ _ => ?_
      cases parent <;>
      · repeat refine yields_startup_value fun _ _ => ?_
        split
        · exact yields_startup_value fun _ _ _ hx => by cases hx; rfl
        · exact fun _ hx => by cases hx; rfl

namespace Manner.CoversOperations

variable (cover : M.CoversOperations P) (h : env.Keep M Set.univ again) (ha : again.KeepOperations M)
include cover h ha

theorem keeps_shutdown : Keeps M (shutdown env again f).run := by
  unfold shutdown
  refine (keeps_startup_effect (cover.teardown h ha.toKeep trivial)).startup_bind
    fun failures => ?_
  split <;> exact keeps_pure

end Manner.CoversOperations

/-! ## Operations -/

/-- The factory and the call, if an operation is a call of a factory. A label that is not known calls
none. -/
def Operation.call? (s : Session) : Operation → Option (FactoryId × FactoryCall)
  | on label call => (s.factoryLabels.get? label).map fun f => (f, call)
  | _ => none

theorem eq_on_of_call? {operation : Operation} {call : FactoryCall}
    (h : operation.call? s = some (f, call)) :
    ∃ label, operation = .on label call ∧ s.factoryLabels.get? label = some f := by
  cases operation with
  | on label call' =>
    obtain ⟨g, hg, he⟩ := Option.map_eq_some_iff.1 h
    cases he
    exact ⟨label, rfl, hg⟩
  | _ => cases h

/-- **A manner that covers some calls, and what becomes of a session besides, covers all operations that
make no others.** -/
theorem yields_performOnce (cover : M.CoversOperations P) (h : env.Keep M Set.univ again)
    (ha : again.KeepOperations M) {operation : Operation} (hs : M.Start s)
    (hP : ∀ f call, operation.call? s = some (f, call) → P f call) :
    Yields True (performOnce env again operation) s fun _ t => M.Leads s t := by
  by_cases hread : operation.isReading = true
  · exact keeps_performOnce cover.toCoversSession h ha.toKeep hread s hs
  cases operation <;> first | exact absurd rfl hread | unfold performOnce
  case newFactory label settings constructor =>
    have hadd : M.Leads s (s.addFactory { settings, constructor }).2 := cover.addFactory hs
    rw [yields_bind, yields_modifyGet]
    refine ((?_ : Keeps M _) _ (M.start hs hadd)).mono fun _ _ ht => M.trans hs hadd ht
    refine cover.making.keeps_note.bind fun _ => ?_
    exact Keeps.bind (fun _ ht => cover.label ht (cover.fresh hs).2) fun _ => keeps_pure
  case bootstrap =>
    rw [yields_bind, yields_get]
    split
    · exact M.refl s
    · rw [yields_bind]
      refine ((cover.keeps_bootstrap h ha s hs).and yields_bootstrap_number).mono fun r t ht => ?_
      obtain ⟨ht, hnumber⟩ := ht
      cases r with
      | error e => exact ht
      | ok x =>
        obtain ⟨f, settings⟩ := x
        obtain rfl : f = s.factories.length := hnumber _ rfl
        exact M.trans hs ht (cover.label (M.start hs ht) (cover.fresh hs).2)
  case shutdown =>
    refine (keeps_get.bind fun s => ?_) s hs
    split
    · exact keeps_pure
    · refine (cover.keeps_shutdown h ha).bind fun r => ?_
      split <;> exact keeps_pure
  case on label call =>
    unfold withLabel
    rw [yields_bind, yields_get]
    split
    · next f hf =>
      have hcall : P f call := hP f call (by rw [Operation.call?, hf, Option.map_some])
      refine yields_callFactory_of cover.toCoversCallsOf h ha.toKeep trivial hcall
        (cover.keepDefinitions ha hcall) hs ?_
      cases call <;> first | trivial | exact fun _ _ => trivial
    · exact M.refl s

/-! ## Ways back -/

theorem Script.within_univ : ∀ script : Script α, script.Within Set.univ fun _ => True
  | .done _ => .done _
  | .fail _ => .fail _
  | .emit _ next => .emit (within_univ next)
  | .make _ _ next => .make fun i => within_univ (next i)
  | .lookup _ _ next => .lookup trivial fun r => within_univ (next r)
  | .perform _ next => .perform trivial fun a => within_univ (next a)

theorem Collaborators.within_univ {U : Set FactoryId} : env.Within U Set.univ fun _ => True where
  construct _ _ _ _ _ := Script.within_univ _
  before _ _ _ := Script.within_univ _
  after _ _ _ := Script.within_univ _
  hooks _ _ _ := Script.within_univ _
  destroy _ _ := Script.within_univ _
  ready _ _ := Script.within_univ _

theorem Manner.CoversOperations.collaborators (cover : M.CoversOperations P) (ha : again.KeepOperations M) :
    env.Keep M Set.univ again :=
  Collaborators.within_univ.keep cover.toCovers ha.lookup fun operation _ => ha.perform operation

theorem Manner.CoversOperations.keep_next (cover : M.CoversOperations P) (ha : again.KeepOperations M) :
    (again.next env).Keep M Set.univ :=
  have hk : env.Keep M Set.univ again := cover.collaborators ha
  ⟨fun _ hf _ => keeps_lookup cover.making (hk.making cover.toCovers) ha.lookup hf,
    fun _ hf _ => cover.cascade hk ha.toKeep hf⟩

theorem keepOperations_reentry_zero : (reentry env 0).KeepOperations M :=
  ⟨⟨fun _ _ _ _ _ => trivial, fun _ _ _ _ _ => trivial⟩, fun _ _ _ _ _ _ _ => trivial,
    fun _ _ _ => trivial⟩

/-- **A manner that covers all calls that labels lead to covers the ways back**, at any depth. -/
theorem Manner.CoversOperations.keepOperations_of (cover : M.CoversOperations P)
    (reached : ∀ {s operation f call}, M.Start s → Operation.call? s operation = some (f, call) → P f call) :
    ∀ depth, (reentry env depth).KeepOperations M
  | 0 => keepOperations_reentry_zero
  | depth + 1 => by
    have ih : (reentry env depth).KeepOperations M := cover.keepOperations_of reached depth
    exact ⟨cover.keep_next ih, fun _ resets _ _ _ => keeps_resetDefinition resets (ih.keepResets resets),
      fun _ _ hs => yields_performOnce cover (cover.collaborators ih) ih hs fun _ _ => reached hs⟩

theorem Manner.CoversOperations.keepOperations (cover : M.CoversOperations fun _ _ => True) (depth : Nat) :
    (reentry env depth).KeepOperations M := cover.keepOperations_of (fun _ _ => trivial) depth

end BeanContainer
