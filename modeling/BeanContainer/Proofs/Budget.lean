import BeanContainer.Execution
import BeanContainer.Proofs.Guards

/-!
A result does not depend on the budget it was found with. Each way back into a
session costs one level of a budget; with a larger one, whatever had a result has
the same (`perform_of_le`).

An effect approximates another if the other has the same result wherever the
first has one. Ways back enter into what they are used for in such a way that
better ones lead to better effects, function by function.
-/

namespace BeanContainer

variable {α β ε : Type}

/-- Where the first effect has a result, the second has the same. -/
def Approximates (m m' : Effect α) : Prop := ∀ s r, m s = some r → m' s = some r

/-- Each way back approximates the corresponding one. -/
structure Reentry.Approximates (again again' : Reentry) : Prop where
  lookup : ∀ f name, BeanContainer.Approximates (again.lookup f name).run (again'.lookup f name).run
  destroy : ∀ f name, BeanContainer.Approximates (again.destroy f name) (again'.destroy f name)
  reset : ∀ f name destroySingleton visited, BeanContainer.Approximates
    (again.reset f name destroySingleton visited) (again'.reset f name destroySingleton visited)
  perform : ∀ operation, BeanContainer.Approximates (again.perform operation) (again'.perform operation)

namespace Approximates

theorem refl (m : Effect α) : Approximates m m := fun _ _ h => h

theorem trans {m m' m'' : Effect α} (h : Approximates m m') (h' : Approximates m' m'') :
    Approximates m m'' := fun s r hr => h' s r (h s r hr)

theorem bind {m m' : Effect α} {k k' : α → Effect β} (h : Approximates m m')
    (hk : ∀ a, Approximates (k a) (k' a)) : Approximates (m >>= k) (m' >>= k') := by
  intro s r hr
  change (m s).bind (fun x => k x.1 x.2) = some r at hr
  change (m' s).bind (fun x => k' x.1 x.2) = some r
  cases hm : m s with
  | none =>
    rw [hm] at hr
    cases hr
  | some x =>
    rw [hm] at hr
    rw [h s x hm]
    exact hk x.1 x.2 r hr

theorem after {m : Effect α} {k k' : α → Effect β} (hk : ∀ a, Approximates (k a) (k' a)) :
    Approximates (m >>= k) (m >>= k') := bind (refl m) hk

theorem noteUnless {c : Prop} [Decidable c] {m m' : Effect α} {note : Effect β} (h : Approximates m m') :
    Approximates (if c then m else (do let _ ← note; m)) (if c then m' else (do let _ ← note; m')) := by
  split
  · exact h
  · exact after fun _ => h

theorem foldlM {step step' : β → α → Effect β} (h : ∀ b a, Approximates (step b a) (step' b a)) :
    ∀ {l : List α} {b : β}, Approximates (l.foldlM step b) (l.foldlM step' b)
  | [], _ => .refl _
  | a :: l, b => by
    simp only [List.foldlM_cons]
    exact (h b a).bind fun _ => foldlM h

theorem mapM {step step' : α → Effect β} (h : ∀ a, Approximates (step a) (step' a)) :
    ∀ {l : List α}, Approximates (l.mapM step) (l.mapM step')
  | [] => .refl _
  | a :: l => by
    simp only [List.mapM_cons]
    exact (h a).bind fun _ => (mapM h).bind fun _ => .refl _

/-! What may fail approximates as its outcome does. -/

theorem run_bind {a a' : ExceptT ε Effect α} {k k' : α → ExceptT ε Effect β}
    (h : Approximates a.run a'.run) (hk : ∀ x, Approximates (k x).run (k' x).run) :
    Approximates (a >>= k).run (a' >>= k').run :=
  bind h fun r => by
    cases r with
    | ok x => exact hk x
    | error e => exact .refl _

theorem run_after {a : ExceptT ε Effect α} {k k' : α → ExceptT ε Effect β}
    (hk : ∀ x, Approximates (k x).run (k' x).run) : Approximates (a >>= k).run (a >>= k').run :=
  run_bind (refl a.run) hk

theorem run_effect {m m' : Effect α} (h : Approximates m m') :
    Approximates (liftM m : ExceptT ε Effect α).run (liftM m' : ExceptT ε Effect α).run := by
  change Approximates (m >>= fun a => pure (Except.ok a)) (m' >>= fun a => pure (Except.ok a))
  exact h.bind fun _ => .refl _

theorem run_attempt {a a' : Act α} (h : Approximates a.run a'.run) :
    Approximates a.attempt.run a'.attempt.run := h.bind fun _ => .refl _

theorem run_unless {c : Prop} [Decidable c] {e : ε} {a a' : ExceptT ε Effect α}
    (h : Approximates a.run a'.run) :
    Approximates (if c then (do throw e; a) else a : ExceptT ε Effect α).run
      (if c then (do throw e; a') else a' : ExceptT ε Effect α).run := by
  split
  · exact run_after fun _ => h
  · exact h

theorem run_when {c : Prop} [Decidable c] {a a' : ExceptT ε Effect Unit} {b b' : ExceptT ε Effect α}
    (h : Approximates a.run a'.run) (hb : Approximates b.run b'.run) :
    Approximates (if c then (do a; b) else b : ExceptT ε Effect α).run
      (if c then (do a'; b') else b' : ExceptT ε Effect α).run := by
  split
  · exact h.run_bind fun _ => hb
  · exact hb

theorem run_forM {step step' : α → ExceptT ε Effect Unit}
    (h : ∀ a, Approximates (step a).run (step' a).run) :
    ∀ {l : List α}, Approximates (l.forM step).run (l.forM step').run
  | [] => .refl _
  | a :: _ => (h a).run_bind fun _ => run_forM h

theorem run_foldlM {step step' : β → α → Act β} (h : ∀ b a, Approximates (step b a).run (step' b a).run) :
    ∀ {l : List α} {b : β}, Approximates (l.foldlM step b).run (l.foldlM step' b).run
  | [], _ => .refl _
  | a :: l, b => by
    simp only [List.foldlM_cons]
    exact (h b a).run_bind fun _ => run_foldlM h

end Approximates

variable {env : Collaborators} {again again' : Reentry} {f : FactoryId} {name : String} {i : Instance}
  {m : MergedDefinition}

/-! ## Scripts -/

theorem approximates_runScript (h : again.Approximates again') :
    ∀ script : Script α, Approximates (runScript again script) (runScript again' script)
  | .done _ => .refl _
  | .fail _ => .refl _
  | .emit _ next => Approximates.after fun _ => approximates_runScript h next
  | .make _ _ next => Approximates.after fun i => approximates_runScript h (next i)
  | .lookup f name next => (h.lookup f name).bind fun r => approximates_runScript h (next r)
  | .perform operation next => (h.perform operation).bind fun a => approximates_runScript h (next a)

theorem approximates_runFor (h : again.Approximates again') {script : Script α} :
    Approximates (runFor again name script).run (runFor again' name script).run :=
  (approximates_runScript h script).run_effect.run_bind fun _ => .refl _

/-! ## Making beans -/

theorem approximates_createBean (h : again.Approximates again') :
    Approximates (createBean env again f name m).run (createBean env again' f name m).run := by
  unfold createBean
  refine Approximates.run_after fun F => ?_
  split
  · refine Approximates.run_after fun _ => Approximates.run_after fun _ =>
      (approximates_runFor h).run_bind fun raw => Approximates.run_after fun F' => ?_
    refine (Approximates.run_foldlM fun _ _ => Approximates.run_after fun _ =>
      approximates_runFor h).run_bind fun readied => ?_
    exact (Approximates.run_foldlM fun _ _ => Approximates.run_after fun _ =>
      approximates_runFor h).run_bind fun finished => .refl _
  · exact .refl _

theorem approximates_initializeDependencies (h : again.Approximates again') :
    Approximates (initializeDependencies again f name m).run
      (initializeDependencies again' f name m).run := by
  unfold initializeDependencies
  refine Approximates.run_forM fun dependency => Approximates.run_after fun F => Approximates.run_unless ?_
  exact Approximates.run_after fun _ => Approximates.run_after fun _ =>
    (h.lookup f dependency).run_attempt.run_bind fun _ => .refl _

theorem approximates_whileHolding {g : Guard} {body body' : Act α}
    (h : Approximates body.run body'.run) :
    Approximates (whileHolding f g body).run (whileHolding f g body').run :=
  Approximates.run_after fun _ => h.run_attempt.run_bind fun _ => .refl _

theorem approximates_createSingleton (h : again.Approximates again') :
    Approximates (createSingleton env again f name m).run (createSingleton env again' f name m).run := by
  unfold createSingleton
  simp only [whileCreatingSingleton_eq]
  refine Approximates.run_after fun F => ?_
  split
  · exact .refl _
  · exact .run_unless (approximates_whileHolding ((approximates_createBean h).run_bind fun _ => .refl _))

theorem approximates_destroyInstance (h : again.Approximates again') {processors : List ProcessorId} :
    Approximates (destroyInstance env again name i processors)
      (destroyInstance env again' name i processors) := by
  unfold destroyInstance runHooks
  refine Approximates.after fun _ => (Approximates.foldlM fun first p => ?_).bind fun hooks => ?_
  · refine Approximates.after fun s => ?_
    dsimp only
    split
    · exact .refl _
    · split
      · exact (approximates_runScript h _).bind fun _ => .refl _
      · exact .refl _
  · split
    · exact Approximates.after fun _ => Approximates.after fun s =>
        (approximates_runScript h _).bind fun _ => .refl _
    · exact .refl _

theorem approximates_createScoped (h : again.Approximates again') :
    Approximates (createScoped env again f name m).run (createScoped env again' f name m).run := by
  unfold createScoped Scope.getOrMake
  simp only [whileCreatingPrototype_eq]
  refine Approximates.run_after fun F => ?_
  split
  · refine Approximates.run_bind ?_ fun r => ?_
    · refine Approximates.run_after fun s => ?_
      split
      · exact .refl _
      · exact (approximates_whileHolding (approximates_createBean h)).run_bind fun _ => .refl _
    · split
      · refine Approximates.run_after fun required => ?_
        split
        · refine Approximates.run_after fun F' => ?_
          split
          · exact .refl _
          · exact Approximates.run_after fun _ =>
              (approximates_destroyInstance h).run_effect.run_bind fun _ => .refl _
        · exact .refl _
      · exact .refl _
  · exact .refl _

theorem approximates_makeDefined (h : again.Approximates again') :
    Approximates (makeDefined env again f name).run (makeDefined env again' f name).run := by
  unfold makeDefined
  simp only [whileCreatingPrototype_eq]
  refine Approximates.run_after fun merged => Approximates.run_unless
    ((approximates_initializeDependencies h).run_bind fun _ => ?_)
  split
  · exact (approximates_createSingleton h).run_bind fun _ => .refl _
  · split
    · exact approximates_whileHolding (approximates_createBean h)
    · exact approximates_createScoped h

theorem approximates_lookup (h : again.Approximates again') :
    Approximates (lookup env again f name).run (lookup env again' f name).run := by
  unfold lookup
  refine Approximates.run_after fun s => ?_
  cases s.route (s.chain f) name with
  | defined owner bean => exact Approximates.run_after fun _ => approximates_makeDefined h
  | _ => exact .refl _

theorem approximates_preInstantiate (h : again.Approximates again') :
    Approximates (preInstantiate env again f).run (preInstantiate env again' f).run := by
  unfold preInstantiate preInstantiateOne announceTo
  refine Approximates.run_after fun _ => Approximates.run_after fun F =>
    (Approximates.run_forM fun name => ?_).run_bind fun _ => Approximates.run_after fun F' =>
    (Approximates.run_forM fun name => ?_).run_bind fun _ => .refl _
  · refine Approximates.run_after fun merged => ?_
    dsimp only
    split
    · exact .refl _
    · exact (approximates_lookup h).run_attempt.run_bind fun _ => .refl _
  · refine Approximates.run_after fun G => ?_
    split
    · split
      · exact Approximates.run_after fun _ => Approximates.run_after fun _ =>
          Approximates.run_after fun _ => approximates_runFor h
      · exact .refl _
    · exact .refl _

/-! ## Destroying beans -/

theorem approximates_destroyCascade (h : again.Approximates again') :
    Approximates (destroyCascade env again f name) (destroyCascade env again' f name) := by
  unfold destroyCascade
  refine Approximates.after fun victim => Approximates.after fun dependents => Approximates.noteUnless
    ((Approximates.foldlM fun _ d => (h.destroy f d).bind fun _ => .refl _).bind fun before => ?_)
  cases victim with
  | none => exact .refl _
  | some i => exact Approximates.after fun F => (approximates_destroyInstance h).bind fun _ => .refl _

theorem approximates_destroyAll (h : again.Approximates again') :
    Approximates (destroyAll env again f) (destroyAll env again' f) := by
  unfold destroyAll
  refine Approximates.after fun _ => Approximates.after fun _ => Approximates.after fun _ =>
    Approximates.after fun F => ?_
  exact (Approximates.foldlM fun _ _ => (approximates_destroyCascade h).bind fun _ => .refl _).bind
    fun _ => .refl _

theorem approximates_destroyBean (h : again.Approximates again') :
    Approximates (destroyBean env again f name i).run (destroyBean env again' f name i).run :=
  Approximates.run_after fun _ => (approximates_destroyInstance h).run_effect.run_bind fun _ => .refl _

theorem approximates_destroyScoped (h : again.Approximates again') :
    Approximates (destroyScoped env again f name).run (destroyScoped env again' f name).run := by
  unfold destroyScoped
  refine Approximates.run_after fun F => Approximates.run_after fun merged => Approximates.run_unless
    (Approximates.run_after fun F' => ?_)
  split
  · refine Approximates.run_after fun victim => ?_
    cases victim with
    | none => exact .refl _
    | some i => exact approximates_destroyBean h
  · exact .refl _

theorem approximates_clearScope (h : again.Approximates again') {k : ScopeId} :
    Approximates (clearScope env again k) (clearScope env again' k) := by
  unfold clearScope
  refine Approximates.after fun s => Approximates.after fun _ =>
    (Approximates.mapM fun e => Approximates.bind ?_ fun _ => .refl _).bind fun _ => .refl _
  cases e.2 with
  | destroyBean bean i processors => exact approximates_destroyInstance h
  | report => exact .refl _

/-! ## Definitions -/

theorem approximates_resetDefinition (h : again.Approximates again') {destroySingleton : Bool}
    {visited : OrderedSet String} : Approximates (resetDefinition again f name destroySingleton visited)
      (resetDefinition again' f name destroySingleton visited) := by
  have rest : Approximates
      (do
        let definitions := (← theFactory f).definitions.definitions.entries
        definitions.foldlM (fun visited e => do
          if e.1 ≠ name && (← theFactory f).isChildOf e.2 name then again.reset f e.1 true visited
          else return visited) (visited.insert name) : Effect (OrderedSet String))
      (do
        let definitions := (← theFactory f).definitions.definitions.entries
        definitions.foldlM (fun visited e => do
          if e.1 ≠ name && (← theFactory f).isChildOf e.2 name then again'.reset f e.1 true visited
          else return visited) (visited.insert name) : Effect (OrderedSet String)) := by
    refine Approximates.after fun F => Approximates.foldlM fun visited e => Approximates.after fun F' => ?_
    split
    · exact h.reset f e.1 true visited
    · exact .refl _
  unfold resetDefinition
  split
  · exact .refl _
  · refine Approximates.after fun _ => ?_
    split
    · exact (h.destroy f name).bind fun _ => Approximates.after fun _ => rest
    · exact rest

theorem approximates_registerDefinition (h : again.Approximates again') {d : Definition} :
    Approximates (registerDefinition again f name d).run (registerDefinition again' f name d).run :=
  Approximates.run_after fun _ => Approximates.run_after fun _ => Approximates.run_after fun _ =>
    Approximates.run_after fun _ => (approximates_resetDefinition h).run_effect.run_bind fun _ => .refl _

theorem approximates_removeDefinition (h : again.Approximates again') :
    Approximates (removeDefinition again f name).run (removeDefinition again' f name).run :=
  Approximates.run_after fun _ => Approximates.run_after fun _ =>
    (approximates_resetDefinition h).run_effect.run_bind fun _ => .refl _

theorem approximates_loadSet (h : again.Approximates again') {set : DefinitionSet} :
    Approximates (loadSet again f set).run (loadSet again' f set).run :=
  (Approximates.run_forM fun _ => approximates_registerDefinition h).run_bind fun _ => .refl _

/-! ## Operations -/

theorem approximates_answerAct {a a' : Act α} {shown : α → Answer} (h : Approximates a.run a'.run) :
    Approximates (answerAct a shown) (answerAct a' shown) := h.bind fun _ => .refl _

theorem approximates_callFactory (h : again.Approximates again') {call : FactoryCall} :
    Approximates (callFactory env again f call) (callFactory env again' f call) := by
  cases call
  case register => exact approximates_answerAct (approximates_registerDefinition h)
  case remove => exact approximates_answerAct (approximates_removeDefinition h)
  case loadSet => exact approximates_answerAct (approximates_loadSet h)
  case get => exact approximates_answerAct (approximates_lookup h)
  case getAs => exact approximates_answerAct ((approximates_lookup h).run_bind fun _ => .refl _)
  case preInstantiate => exact approximates_answerAct (approximates_preInstantiate h)
  case destroySingleton => exact (approximates_destroyCascade h).bind fun _ => .refl _
  case destroySingletons => exact (approximates_destroyAll h).bind fun _ => .refl _
  case destroyBean name source =>
    refine Approximates.after fun found => ?_
    cases found with
    | none => exact .refl _
    | some i => exact approximates_answerAct (approximates_destroyBean h)
  case destroyScoped => exact approximates_answerAct (approximates_destroyScoped h)
  all_goals exact .refl _

theorem approximates_ofAct {a a' : Act α} (h : Approximates a.run a'.run) :
    Approximates (Startup.ofAct a).run (Startup.ofAct a').run := h.bind fun _ => .refl _

theorem approximates_bootstrap (h : again.Approximates again') {plan : BootstrapPlan}
    {parent : Option FactoryId} {processors : List ProcessorId} {scopes : List (String × ScopeId)} :
    Approximates (bootstrap env again plan parent processors scopes).run
      (bootstrap env again' plan parent processors scopes).run := by
  unfold bootstrap
  refine Approximates.run_after fun settings => ?_
  dsimp only
  refine Approximates.run_when (.refl _) (Approximates.run_after fun f => Approximates.run_after fun _ => ?_)
  have equip : Approximates
      (do
        updateFactory f fun f => { f with constructor := plan.constructor }
        updateFactory f fun f => processors.foldl Factory.addProcessor f
        scopes.forM fun e => Startup.ofAct (registerScope f e.1 e.2)
        plan.sources.forM fun set => do
          let _ ← Startup.ofAct (loadSet again f set)
        freeze f
        if plan.preInstantiate then Startup.ofAct (preInstantiate env again f)
        return (f, settings) : Startup (FactoryId × ApplicationSettings)).run
      (do
        updateFactory f fun f => { f with constructor := plan.constructor }
        updateFactory f fun f => processors.foldl Factory.addProcessor f
        scopes.forM fun e => Startup.ofAct (registerScope f e.1 e.2)
        plan.sources.forM fun set => do
          let _ ← Startup.ofAct (loadSet again' f set)
        freeze f
        if plan.preInstantiate then Startup.ofAct (preInstantiate env again' f)
        return (f, settings) : Startup (FactoryId × ApplicationSettings)).run := by
    refine Approximates.run_after fun _ => Approximates.run_after fun _ => Approximates.run_after fun _ => ?_
    refine (Approximates.run_forM fun set => (approximates_ofAct (approximates_loadSet h)).run_bind
      fun _ => .refl _).run_bind fun _ => Approximates.run_after fun _ => ?_
    exact Approximates.run_when (approximates_ofAct (approximates_preInstantiate h)) (.refl _)
  cases parent with
  | none => exact equip
  | some parent => exact Approximates.run_after fun _ => equip

theorem approximates_shutdown (h : again.Approximates again') :
    Approximates (shutdown env again f).run (shutdown env again' f).run :=
  (approximates_destroyAll h).run_effect.run_bind fun _ => .refl _

theorem approximates_withLabel {label : String} {found : Option Nat} {use use' : Nat → Effect Answer}
    (h : ∀ n, Approximates (use n) (use' n)) :
    Approximates (withLabel label found use) (withLabel label found use') := by
  cases found with
  | none => exact .refl _
  | some n => exact h n

theorem approximates_performOnce (h : again.Approximates again') {operation : Operation} :
    Approximates (performOnce env again operation) (performOnce env again' operation) := by
  unfold performOnce
  cases operation <;> dsimp only
  case on label call =>
    exact Approximates.after fun s => approximates_withLabel fun f => approximates_callFactory h
  case scopeClear scope =>
    exact Approximates.after fun s => approximates_withLabel fun k => Approximates.after fun s =>
      (approximates_clearScope h).bind fun _ => .refl _
  case bootstrap label plan =>
    refine Approximates.after fun s => ?_
    cases plan.labels s with
    | none => exact .refl _
    | some _ => exact (approximates_bootstrap h).bind fun _ => .refl _
  case shutdown label =>
    refine Approximates.after fun s => ?_
    cases s.started.get? label with
    | none => exact .refl _
    | some _ => exact (approximates_shutdown h).bind fun _ => .refl _
  all_goals exact .refl _

/-! ## Budgets -/

/-- The ways back that cost one more level than these. -/
def Reentry.next (env : Collaborators) (again : Reentry) : Reentry where
  lookup f name := BeanContainer.lookup env again f name
  destroy f name := destroyCascade env again f name
  reset f name destroySingleton visited := resetDefinition again f name destroySingleton visited
  perform operation := performOnce env again operation

theorem Reentry.Approximates.trans {again'' : Reentry} (h : again.Approximates again')
    (h' : again'.Approximates again'') : again.Approximates again'' where
  lookup f name := (h.lookup f name).trans (h'.lookup f name)
  destroy f name := (h.destroy f name).trans (h'.destroy f name)
  reset f name destroySingleton visited :=
    (h.reset f name destroySingleton visited).trans (h'.reset f name destroySingleton visited)
  perform operation := (h.perform operation).trans (h'.perform operation)

theorem Reentry.Approximates.next (h : again.Approximates again') :
    (again.next env).Approximates (again'.next env) :=
  ⟨fun _ _ => approximates_lookup h, fun _ _ => approximates_destroyCascade h,
    fun _ _ _ _ => approximates_resetDefinition h, fun _ => approximates_performOnce h⟩

theorem approximates_reentry_zero : (reentry env 0).Approximates again :=
  ⟨fun _ _ _ _ hr => (by cases hr), fun _ _ _ _ hr => (by cases hr), fun _ _ _ _ _ _ hr => (by cases hr),
    fun _ _ _ hr => (by cases hr)⟩

/-- With a larger budget, the ways back lead at least as far. -/
theorem approximates_reentry {depth depth' : Nat} (h : depth ≤ depth') :
    (reentry env depth).Approximates (reentry env depth') := by
  induction depth generalizing depth' with
  | zero => exact approximates_reentry_zero
  | succ depth ih =>
    obtain ⟨depth', rfl⟩ := Nat.exists_eq_add_of_le' h
    exact (ih (Nat.le_of_succ_le_succ h)).next

/-- **A result stays the same with a larger budget.** -/
theorem perform_of_le {depth depth' : Nat} (h : depth ≤ depth') {operation : Operation} {s : Session}
    {r : Answer × Session} (hr : perform env depth operation s = some r) :
    perform env depth' operation s = some r :=
  approximates_performOnce (approximates_reentry h) s r hr

/-- **What an operation answers and what it leaves behind does not depend on the budget.** -/
theorem perform_unique {depth depth' : Nat} {operation : Operation} {s : Session}
    {r r' : Answer × Session} (hr : perform env depth operation s = some r)
    (hr' : perform env depth' operation s = some r') : r = r' := by
  rcases Nat.le_total depth depth' with h | h
  · exact Option.some.inj ((perform_of_le h hr).symm.trans hr')
  · exact Option.some.inj (hr.symm.trans (perform_of_le h hr'))

end BeanContainer
