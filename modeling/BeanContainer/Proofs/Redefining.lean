import BeanContainer.Proofs.ReadingCalls

/-!
Registering and removing definitions, and registering aliases. What is done to a
definition changes that one, and then resets what was derived from it and from
its children: their merges leave the cache, and their singletons are destroyed.
A manner that covers the single changes of that (`Manner.Redefines`) covers the
whole of it, given that it covers the ways back which a reset takes.
-/

namespace BeanContainer

open Session

/-- A manner covers what a reset in a factory does by itself. -/
structure Manner.Resets (M : Manner) (f : FactoryId) : Prop where
  evict : ∀ {s name}, M.Start s →
    M.Leads s (s.modifyFactory f fun F => { F with merged := F.merged.evict name })
  tell : ∀ {s o}, M.Start s → o.isAside = true → (∀ g, o.factory? = some g → g = f) →
    M.Leads s (s.write o)

/-- A manner covers what becomes of the definitions of a factory. -/
structure Manner.Redefines (M : Manner) (f : FactoryId) : Prop extends M.Resets f where
  define : ∀ {s name d F}, M.Start s → (s.factory f).define name d = .ok F → M.Leads s (s.setFactory f F)
  undefine : ∀ {s name F}, M.Start s → (s.factory f).undefine name = .ok F →
    M.Leads s (s.setFactory f F)
  dropEdges : ∀ {s name}, M.Start s → M.Leads s (s.dropEdges f name)

/-- A manner covers the ways back that a reset in a factory takes. -/
structure Reentry.KeepResets (M : Manner) (f : FactoryId) (again : Reentry) : Prop where
  destroy : ∀ name, Keeps M (again.destroy f name)
  reset : ∀ name destroySingleton visited, Keeps M (again.reset f name destroySingleton visited)

variable {M : Manner} {f : FactoryId} {again : Reentry} {name : String} {α : Type}

theorem asks_tryUpdate {change : Factory → Except BeanError Factory}
    (h : ∀ s F, M.Start s → change (s.factory f) = .ok F → M.Leads s (s.setFactory f F)) :
    Asks M (tryUpdate f change) := by
  intro s hs
  unfold tryUpdate
  rw [ends_bind, ends_lift, theFactory_apply]
  dsimp only
  split
  · next new hnew => exact h _ _ hs hnew
  · exact M.refl s

theorem asks_registerAlias {altName : String}
    (h : ∀ s F, M.Start s → (s.factory f).registerAlias name altName = .ok F →
      M.Leads s (s.setFactory f F))
    (tell : ∀ {s o}, M.Start s → o.isAside = true → (∀ g, o.factory? = some g → g = f) →
      M.Leads s (s.write o)) : Asks M (registerAlias f name altName) := by
  unfold registerAlias
  refine asks_theFactory.bind fun old => Asks.bind (fun s hs => ?_) fun _ => ?_
  · exact leads_writeNotices (fun hs => tell hs rfl nofun) hs
  · exact (asks_tryUpdate h).bind fun _ s hs =>
      tell (o := .aliased f name altName) hs rfl fun _ hg => (Option.some.inj hg).symm

theorem Manner.Resets.note {s : Session} {n : Notice} (resets : M.Resets f) (hs : M.Start s) :
    M.Leads s (s.write (.notice n)) := resets.tell hs rfl nofun

theorem keeps_run_query {q : Query α} (h : Asks M q) : Keeps M (liftM q : Act α).run :=
  fun s hs => h s hs

theorem keeps_resetChildren (ha : again.KeepResets M f) {visited : OrderedSet String} :
    Keeps M (do
      let definitions := (← theFactory f).definitions.definitions.entries
      definitions.foldlM (fun visited e => do
        if e.1 ≠ name && (← theFactory f).isChildOf e.2 name then again.reset f e.1 true visited
        else return visited) visited : Effect (OrderedSet String)) := by
  refine keeps_theFactory.bind fun F => keeps_foldlM fun visited e _ => keeps_theFactory.bind fun F' => ?_
  split
  · exact ha.reset _ _ _
  · exact keeps_pure

theorem keeps_resetDefinition (resets : M.Resets f) (ha : again.KeepResets M f)
    {destroySingleton : Bool} {visited : OrderedSet String} :
    Keeps M (resetDefinition again f name destroySingleton visited) := by
  unfold resetDefinition
  split
  · exact keeps_pure
  · refine Keeps.bind (fun s hs => resets.evict hs) fun _ => ?_
    split
    · refine (ha.destroy name).bind fun failures => Keeps.bind (fun s hs => ?_) fun _ =>
        keeps_resetChildren ha
      exact leads_writeNotices resets.note hs
    · exact keeps_resetChildren ha

theorem keeps_registerDefinition (redefines : M.Redefines f) (ha : again.KeepResets M f) {d : Definition} :
    Keeps M (registerDefinition again f name d).run := by
  unfold registerDefinition
  refine keeps_run_theFactory.run_bind fun old => ?_
  refine (keeps_run_query (asks_tryUpdate fun _ _ => redefines.define)).run_bind fun _ => ?_
  refine Keeps.run_bind (fun s hs => ?_) fun _ =>
    Keeps.run_bind (fun s hs => redefines.toResets.note hs) fun _ => ?_
  · exact redefines.tell (o := .defined f name) hs rfl fun _ hg => (Option.some.inj hg).symm
  exact (keeps_run_effect (keeps_resetDefinition redefines.toResets ha)).run_bind fun _ => keeps_run_pure

theorem keeps_removeDefinition (redefines : M.Redefines f) (ha : again.KeepResets M f) :
    Keeps M (removeDefinition again f name).run := by
  unfold removeDefinition
  refine (keeps_run_query (asks_tryUpdate fun _ _ => redefines.undefine)).run_bind fun _ => ?_
  refine Keeps.run_bind (fun s hs => redefines.toResets.note hs) fun _ => ?_
  refine (keeps_run_effect (keeps_resetDefinition redefines.toResets ha)).run_bind fun _ => ?_
  exact fun s hs => redefines.dropEdges hs

end BeanContainer
