import BeanContainer.Proofs.Changes

/-!
Runs in which only some calls are made. Ways back that permit these calls alone
(`reentryPermitting`) have no result for collaborators that make another one;
where they have one, it is the result of the session itself
(`performOnce_of_permitting`). A run permits calls to whoever performs its
operations, and to the collaborators in between (`PermittedRun`).

What such a run changes is listed as `Session.ChangeWithin`: the definitions of some
factories, and what the permitted calls do. That holds if the other factories
refuse all changes of their definitions in the meantime (`Lasting.changes`).
-/

namespace BeanContainer

open Relation Session

/-! ## Ways back for some calls -/

/-- Whether an operation makes no call but a permitted one. -/
def Operation.permitted (P : FactoryId → FactoryCall → Bool) (s : Session) (operation : Operation) : Bool :=
  (operation.call? s).all fun (f, call) => P f call

/-- All calls of other factories, and of this one those with `p`. -/
def restricting (f : FactoryId) (p : FactoryCall → Bool) (g : FactoryId) (call : FactoryCall) : Bool :=
  g ≠ f || p call

/-- These ways back, as far as calls are permitted. There is no result for whoever makes another one. -/
def Reentry.permitting (P : FactoryId → FactoryCall → Bool) (again : Reentry) : Reentry where
  lookup := again.lookup
  destroy := again.destroy
  reset := again.reset
  perform operation s := if operation.permitted P s then again.perform operation s else none

/-- The ways back into a session for collaborators that make only permitted calls. -/
def reentryPermitting (env : Collaborators) (P : FactoryId → FactoryCall → Bool) : Nat → Reentry
  | 0 => reentry env 0
  | depth + 1 => ((reentryPermitting env P depth).next env).permitting P

/-- The sessions that come of operations, one after another, that make calls which `outer` permits,
while the collaborators make calls which `inner` permits. -/
inductive PermittedRun (env : Collaborators) (outer inner : FactoryId → FactoryCall → Bool) (s : Session) :
    Session → Prop
  | start : PermittedRun env outer inner s s
  | perform {t u : Session} {operation : Operation} {answer : Answer} {depth : Nat} :
      PermittedRun env outer inner s t → operation.permitted outer t = true →
      performOnce env (reentryPermitting env inner depth) operation t = some (answer, u) →
      PermittedRun env outer inner s u

/-- The session that comes of some permitted operations, if each of them has a result. -/
def performAll (env : Collaborators) (outer inner : FactoryId → FactoryCall → Bool) (depth : Nat) :
    List Operation → Session → Option Session
  | [], s => some s
  | operation :: operations, s =>
    if operation.permitted outer s then
      match performOnce env (reentryPermitting env inner depth) operation s with
      | some (_, t) => performAll env outer inner depth operations t
      | none => none
    else none

variable {α : Type} {env : Collaborators} {again : Reentry} {s t u : Session} {f g : FactoryId}
  {name : String} {outer inner P : FactoryId → FactoryCall → Bool}

@[simp] theorem restricting_self {p : FactoryCall → Bool} {call : FactoryCall} :
    restricting f p f call = p call := by simp [restricting]

theorem restricting_of_ne {p : FactoryCall → Bool} {call : FactoryCall} (h : g ≠ f) :
    restricting f p g call = true := by simp [restricting, h]

theorem approximates_permitting : (again.permitting P).Approximates again where
  lookup _ _ := .refl _
  destroy _ _ := .refl _
  reset _ _ _ _ := .refl _
  perform operation s r hr := by
    unfold Reentry.permitting at hr
    dsimp only at hr
    split at hr
    · exact hr
    · cases hr

theorem approximates_reentryPermitting : ∀ {depth : Nat},
    (reentryPermitting env P depth).Approximates (reentry env depth)
  | 0 => approximates_reentry_zero
  | _ + 1 => approximates_permitting.trans approximates_reentryPermitting.next

/-- **What comes of collaborators that make only permitted calls comes of them anyway.** -/
theorem performOnce_of_permitting {depth : Nat} {operation : Operation} {r : Answer × Session}
    (h : performOnce env (reentryPermitting env P depth) operation s = some r) :
    perform env depth operation s = some r :=
  approximates_performOnce approximates_reentryPermitting s r h

theorem PermittedRun.run (h : PermittedRun env outer inner s t) : Run env s t := by
  induction h with
  | start => exact .start
  | perform _ _ hp ih => exact .perform ih (performOnce_of_permitting hp)

theorem PermittedRun.trans (h : PermittedRun env outer inner s t) (h' : PermittedRun env outer inner t u) :
    PermittedRun env outer inner s u := by
  induction h' with
  | start => exact h
  | perform _ hpermitted hp ih => exact .perform ih hpermitted hp

theorem permittedRun_performAll {depth : Nat} : ∀ {operations : List Operation} {s : Session},
    performAll env outer inner depth operations s = some t → PermittedRun env outer inner s t
  | [], _, h => by
    cases h
    exact .start
  | operation :: operations, s, h => by
    unfold performAll at h
    split at h
    · next hpermitted =>
      split at h
      · next answer u hu =>
        have first : PermittedRun env outer inner s u := .perform .start hpermitted hu
        exact first.trans (permittedRun_performAll h)
      · cases h
    · cases h

theorem Manner.CoversOperations.permitting {M : Manner}
    (cover : M.CoversOperations fun f call => P f call = true) :
    ∀ depth, (reentryPermitting env P depth).KeepOperations M
  | 0 => keepOperations_reentry_zero
  | depth + 1 => by
    have ih : (reentryPermitting env P depth).KeepOperations M := cover.permitting depth
    have hk : ((reentryPermitting env P depth).next env).Keep M Set.univ := cover.keep_next ih
    refine ⟨⟨hk.lookup, hk.destroy⟩, fun f resets name _ _ => ?_, fun operation s hs => ?_⟩
    · exact keeps_resetDefinition resets (ih.keepResets resets)
    · refine yields_true_iff.2 fun answer t hr => ?_
      change (if operation.permitted P s then performOnce env (reentryPermitting env P depth) operation s
        else none) = _ at hr
      split at hr
      · next h =>
        refine yields_true_iff.1 (yields_performOnce cover (cover.collaborators ih) ih hs ?_) answer t hr
        exact fun f call hcall => (Option.all_eq_true ..).1 h (f, call) hcall
      · cases hr

/-- **A manner that covers the permitted calls covers a run that makes no others.** -/
theorem PermittedRun.leads {M : Manner} (cover : M.CoversOperations fun f call => P f call = true)
    (run : PermittedRun env P P s t) (hs : M.Start s) : M.Leads s t := by
  induction run with
  | start => exact M.refl s
  | @perform t u operation answer depth run hpermitted hp ih =>
    have ha : (reentryPermitting env P depth).KeepOperations M := cover.permitting depth
    refine M.trans hs ih (yields_true_iff.1 (yields_performOnce cover (cover.collaborators ha) ha
      (M.start hs ih) fun f call hcall => ?_) answer u hp)
    exact (Option.all_eq_true ..).1 hpermitted (f, call) hcall

/-! ## Changes -/

/-- What becomes of the definitions of a factory at once, and of the merges that were cached of them. -/
inductive Factory.Redefinition (F : Factory) : Factory → Prop
  | define {name : String} {d : Definition} {F' : Factory} : F.define name d = .ok F' → F.Redefinition F'
  | undefine {name : String} {F' : Factory} : F.undefine name = .ok F' → F.Redefinition F'
  | evict {name : String} : F.Redefinition { F with merged := F.merged.evict name }

/-- What a session can undergo at once, if no definitions are changed but those of the factories in
`R`, and no calls are made but permitted ones. -/
inductive Session.ChangeWithin (R : Set FactoryId) (P : FactoryId → FactoryCall → Bool) (s : Session) :
    Session → Prop
  | bean {t : Session} : s.BeanChange Set.univ t → s.ChangeWithin R P t
  | keepMerge {f : FactoryId} {name : String} {ref : MergedRef} :
      (s.factory f).settings.cacheMetadata = true → (s.factory f).merged.get? name = none →
      s.ChangeWithin R P (s.setFactory f
        { s.factory f with merged := ⟨(s.factory f).merged.entries.insert name ref⟩ })
  | does {f : FactoryId} {call : FactoryCall} {F : Factory} : P f call = true →
      call.Does (s.factory f) F → s.ChangeWithin R P (s.setFactory f F)
  | takeOver {f source : FactoryId} {label : String} : P f (.copyConfiguration label) = true →
      s.ChangeWithin R P (s.takeOver f source)
  | redefine {f : FactoryId} {F : Factory} : f ∈ R → (s.factory f).Redefinition F →
      s.ChangeWithin R P (s.setFactory f F)
  | register {f : FactoryId} {n : String} {i : Instance} {F : Factory} :
      (s.factory f).registerSingleton n i = .ok F →
      s.ChangeWithin R P ((s.setFactory f F).write (.registered f n i))
  | setParent {f parent : FactoryId} : (s.chain parent).contains f = false →
      (s.factory f).parent = none →
      s.ChangeWithin R P (s.modifyFactory f fun F => { F with parent := some parent })
  | addFactory {settings : FactorySettings} {constructor : Option Constructor} :
      s.ChangeWithin R P (s.addFactory { settings, constructor }).2
  | addProcessor {processor : Processor} {processorLabels : OrderedMap String ProcessorId} :
      s.ChangeWithin R P { s with processors := s.processors ++ [processor], processorLabels }
  | addScope {scope : Scope} {scopeLabels : OrderedMap String ScopeId} :
      s.ChangeWithin R P { s with scopes := s.scopes ++ [scope], scopeLabels }
  | label {label : String} {f : FactoryId} {started : OrderedMap String (FactoryId × ApplicationSettings)} :
      (∀ call, P f call = true) →
      s.ChangeWithin R P { s with factoryLabels := s.factoryLabels.insert label f, started }

variable {R : Set FactoryId}

theorem Session.ChangeWithin.change (h : s.ChangeWithin R P t) : s.Change t := by
  cases h with
  | bean h => exact .bean h
  | keepMerge hcache hnone => exact .factory (.keepMerge hcache hnone)
  | does _ h => exact .factory h.change
  | takeOver => exact .takeOver
  | redefine _ h =>
    cases h with
    | define h => exact .factory (.define h)
    | undefine h => exact .factory (.undefine h)
    | evict => exact .factory .evict
  | register h => exact .register h
  | setParent hloop hnone => exact .setParent hloop hnone
  | addFactory => exact .addFactory
  | addProcessor => exact .addProcessor
  | addScope => exact .addScope
  | label _ => exact .label

/-! ## What a change does to one factory -/

/-- A factory without its beans and its parent: what its beans are made by. -/
def Factory.core (F : Factory) : Factory :=
  { F with singletons := {}, manualNames := {}, dependencies := {}, parent := none }

theorem Session.BeanChange.core {U : Set FactoryId} (h : s.BeanChange U t) :
    (t.factory g).core = (s.factory g).core := by
  have of_factories {t : Session} (h : t.factories = s.factories) : (t.factory g).core = (s.factory g).core := by
    unfold factory
    rw [h]
  have set {F : Factory} {f : FactoryId} (h : F.core = (s.factory f).core) :
      ((s.setFactory f F).factory g).core = (s.factory g).core := proj_setFactory (p := Factory.core) h
  have modified {change : Factory → Factory} {f : FactoryId}
      (h : (change (s.factory f)).core = (s.factory f).core) :
      ((s.modifyFactory f change).factory g).core = (s.factory g).core := by
    rw [modifyFactory_eq_setFactory]
    exact set h
  cases h with
  | making h =>
    cases h with
    | addEdge => exact modified rfl
    | _ => exact of_factories rfl
  | ending h =>
    cases h with
    | tell => exact of_factories rfl
    | release => exact factory_release (s := s) ▸ set rfl
    | tornDown => exact (congrArg Factory.core (factory_releaseAll (s := s))).trans (modified rfl)
    | takeDependents => exact set rfl
    | tearDown | dropEdges => exact modified rfl
  | cache => exact set rfl
  | begin => exact set rfl
  | finish => exact modified rfl
  | keep => exact of_factories factories_keepIn
  | addCallback => exact of_factories rfl
  | take => exact of_factories factories_takeFrom
  | empty => exact of_factories factories_emptyScope

/-- What a change within these bounds does to one factory: nothing but to its beans and its parent, or
a merge gets cached, or a permitted call or a change of definitions does it. -/
inductive Factory.StepWithin (P : FactoryCall → Bool) (redefinable : Prop) (F : Factory) : Factory → Prop
  | core {F' : Factory} : F'.core = F.core → F.StepWithin P redefinable F'
  | keepMerge {name : String} {ref : MergedRef} : F.settings.cacheMetadata = true →
      F.merged.get? name = none →
      F.StepWithin P redefinable { F with merged := ⟨F.merged.entries.insert name ref⟩ }
  | does {call : FactoryCall} {F' : Factory} : P call = true → call.Does F F' → F.StepWithin P redefinable F'
  | takeOver {label : String} {other : Factory} : P (.copyConfiguration label) = true →
      F.StepWithin P redefinable (F.copyConfiguration other)
  | redefine {F' : Factory} : redefinable → F.Redefinition F' → F.StepWithin P redefinable F'

theorem core_registerSingleton {F F' : Factory} {i : Instance} (h : F.registerSingleton name i = .ok F') :
    F'.core = F.core := by
  obtain ⟨-, _, rfl⟩ := registerSingleton_spec h
  rfl

/-- **Each factory takes a step of its own, or none, when a session changes.** -/
theorem Session.ChangeWithin.step (h : s.ChangeWithin R P t) (hf : f < s.factories.length) :
    (s.factory f).StepWithin (P f) (f ∈ R) (t.factory f) := by
  have one {g : FactoryId} {F : Factory} (h : (s.factory g).StepWithin (P g) (g ∈ R) F) :
      (s.factory f).StepWithin (P f) (f ∈ R) ((s.setFactory g F).factory f) := by
    by_cases hg : f = g
    · subst hg
      rwa [factory_setFactory_self hf]
    · rw [factory_setFactory_of_ne hg]
      exact .core rfl
  cases h with
  | bean h => exact .core h.core
  | keepMerge hcache hnone => exact one (.keepMerge hcache hnone)
  | does hP h => exact one (.does hP h)
  | takeOver hP => exact one (.takeOver hP)
  | redefine hR h => exact one (.redefine hR h)
  | register h => exact one (.core (core_registerSingleton h))
  | setParent => exact (modifyFactory_eq_setFactory (s := s)) ▸ one (.core rfl)
  | addFactory =>
    rw [factory_addFactory_of_lt hf]
    exact .core rfl
  | addProcessor | addScope | label => exact .core rfl

/-! ## Invariants -/

/-- A property of sessions lasts if changes within these bounds keep it, and if it makes sure that no
others happen. -/
structure Lasting (I : Session → Prop) (R : Set FactoryId) (P : FactoryId → FactoryCall → Bool) : Prop where
  step : ∀ {s t}, I s → s.ChangeWithin R P t → I t
  refuses : ∀ {f call}, f ∉ R → P f call = true → call.redefines = true → ∀ {s}, I s →
    (∀ name d, ∃ e, (s.factory f).define name d = .error e) ∧
      ∀ name, ∃ e, (s.factory f).undefine name = .error e
  fresh : ∀ {s}, I s → s.factories.length ∈ R ∧ ∀ call, P s.factories.length call = true

variable {I : Session → Prop}

theorem Lasting.steps (lasting : Lasting I R P) (hs : I s) (h : ReflTransGen (Session.ChangeWithin R P) s t) :
    I t := by
  induction h with
  | refl => exact hs
  | tail _ h ih => exact lasting.step ih h

/-- Changes within bounds, in sessions with a property that they keep. -/
def Lasting.changing (lasting : Lasting I R P) : Manner where
  Start := I
  Leads := ReflTransGen (Session.ChangeWithin R P)
  refl _ := .refl
  trans _ h h' := h.trans h'
  start := lasting.steps

theorem Lasting.redefines (lasting : Lasting I R P) (hf : f ∈ R) : lasting.changing.Redefines f where
  define _ h := .single (.redefine hf (.define h))
  undefine _ h := .single (.redefine hf (.undefine h))
  evict _ := modifyFactory_eq_setFactory ▸ .single (.redefine hf .evict)
  dropEdges _ := .single (.bean (.ending (.dropEdges trivial)))
  tell _ ho _ := .single (.bean (.making (.tell ho fun _ _ => trivial)))

theorem Lasting.covers (lasting : Lasting I R P) :
    lasting.changing.CoversOperations fun f call => P f call = true where
  toCovers :=
    have steps : MergeSteps Set.univ lasting.changing.Start (fun _ _ => True) fun _ => Asks lasting.changing :=
      mergeSteps_asks (fun _ _ => trivial) (fun _ _ _ => reflTransGen_settleMerge .bean .keepMerge)
        fun _ _ _ _ => trivial
    Manner.CoversBeans.covers
      { bean := fun _ h => .single (.bean h)
        parent := fun _ _ _ => trivial
        ownMerges := fun hs hf => steps.mergedOwn hf _ hs
        merged := fun _ _ _ _ => trivial
        merges := fun hs hf => steps.mergedDefinition hf _ hs }
  does _ _ hP h := .single (.does hP h)
  takeOver _ _ hP := .single (.takeOver hP)
  register _ _ h := .single (.register h)
  link _ _ _ hloop hnone := .single (.setParent hloop hnone)
  addProcessor _ := .single .addProcessor
  addScope _ := .single .addScope
  addFactory _ := .single .addFactory
  label _ hP := .single (.label hP)
  definitions {f call} hP hcall := by
    by_cases hf : f ∈ R
    · exact .inl (lasting.redefines hf)
    · exact .inr fun _ hs => lasting.refuses hf hP hcall hs
  fresh hs := ⟨lasting.redefines (lasting.fresh hs).1, (lasting.fresh hs).2⟩

/-- **A run that makes only permitted calls is a sequence of changes within these bounds.** -/
theorem Lasting.changes (lasting : Lasting I R P) (hs : I s) (run : PermittedRun env P P s t) :
    ReflTransGen (Session.ChangeWithin R P) s t := run.leads lasting.covers hs

end BeanContainer
