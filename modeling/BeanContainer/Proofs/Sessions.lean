import BeanContainer.Proofs.Outcome

/-!
What a change of one part of a session does to the other parts.
-/

namespace BeanContainer

variable {s : Session} {f g : FactoryId} {new : Factory} {change : Factory → Factory}

namespace Session

/-- The singleton of a factory under a name. -/
abbrev singleton? (s : Session) (f : FactoryId) (name : String) : Option Instance :=
  (s.factory f).singletons.get? name

/-- A session after a finished singleton was offered to the cache. -/
def addSingleton (s : Session) (f : FactoryId) (n : String) (made : Instance) : Session :=
  s.setFactory f { s.factory f with singletons := ((s.factory f).singletons.add n made).2 }

/-- A session after an edge was recorded. -/
def addEdge (s : Session) (f : FactoryId) (d n : String) : Session :=
  s.modifyFactory f fun F => F.registerDependent d n

/-- A session after the dependents of a bean were taken from the graph. -/
def takeDependents (s : Session) (f : FactoryId) (name : String) : Session :=
  s.setFactory f
    { s.factory f with dependencies := ((s.factory f).dependencies.takeDependents name).2 }

/-- A session after a singleton was taken from the cache and its dependents from the graph. -/
def detach (s : Session) (f : FactoryId) (name : String) : Session :=
  (s.release f name).2.takeDependents f name

/-- A session after a bean's edges were taken from the graph. -/
def dropEdges (s : Session) (f : FactoryId) (name : String) : Session :=
  s.modifyFactory f fun f => { f with dependencies := f.dependencies.removeBean name }

theorem factory_of_length_le (h : s.factories.length ≤ f) : s.factory f = {} := by
  simp [factory, List.getElem?_eq_none h]

@[simp] theorem length_setFactory : (s.setFactory f new).factories.length = s.factories.length := by
  simp [setFactory]

theorem factory_setFactory_self (h : f < s.factories.length) : (s.setFactory f new).factory f = new := by
  simp [setFactory, factory, h]

theorem factory_setFactory_of_ne (h : g ≠ f) : (s.setFactory f new).factory g = s.factory g := by
  simp [setFactory, factory, List.getElem?_set_ne (Ne.symm h)]

@[simp] theorem length_modifyFactory :
    (s.modifyFactory f change).factories.length = s.factories.length := by
  simp [modifyFactory]

theorem factory_modifyFactory_self (h : f < s.factories.length) :
    (s.modifyFactory f change).factory f = change (s.factory f) := by
  simp [modifyFactory, factory, h]

theorem factory_modifyFactory_of_ne (h : g ≠ f) : (s.modifyFactory f change).factory g = s.factory g := by
  simp [modifyFactory, factory, Ne.symm h]

theorem modifyFactory_eq_setFactory :
    s.modifyFactory f change = s.setFactory f (change (s.factory f)) := by
  rw [modifyFactory, setFactory, factory, List.getD_eq_getElem?_getD, @List.modify_eq_set _ ⟨{}⟩]
  rfl

theorem setFactory_factory : s.setFactory f (s.factory f) = s := by
  have hid : s.modifyFactory f id = s.setFactory f (s.factory f) := modifyFactory_eq_setFactory
  rw [← hid, modifyFactory, List.modify_id]

/-- What a change of one factory does to it, if it may be nothing, it does to all. -/
theorem rel_setFactory {R : Factory → Factory → Prop} (refl : ∀ F, R F F) (h : R (s.factory f) new) :
    R (s.factory g) ((s.setFactory f new).factory g) := by
  by_cases hg : g = f
  · subst hg
    by_cases hlen : g < s.factories.length
    · rwa [factory_setFactory_self hlen]
    · have hle := Nat.le_of_not_lt hlen
      rw [factory_of_length_le hle, factory_of_length_le (s := s.setFactory g new) (by simpa using hle)]
      exact refl _
  · rw [factory_setFactory_of_ne hg]
    exact refl _

theorem proj_setFactory {α : Type u} {p : Factory → α} (h : p new = p (s.factory f)) :
    p ((s.setFactory f new).factory g) = p (s.factory g) :=
  rel_setFactory (R := fun F F' => p F' = p F) (fun _ => rfl) h

@[simp] theorem length_addFactory : (s.addFactory new).2.factories.length = s.factories.length + 1 := by
  simp [addFactory]

theorem factory_addFactory_of_lt (h : g < s.factories.length) :
    (s.addFactory new).2.factory g = s.factory g := by
  simp [addFactory, factory, List.getElem?_append_left h]

theorem factory_addFactory_self : (s.addFactory new).2.factory s.factories.length = new := by
  simp [addFactory, factory]

@[simp] theorem record_modifyFactory : (s.modifyFactory f change).record = s.record := rfl

@[simp] theorem factory_write {o : Occurrence} : (s.write o).factory g = s.factory g := rfl

@[simp] theorem factories_write {o : Occurrence} : (s.write o).factories = s.factories := rfl

@[simp] theorem record_write {o : Occurrence} : (s.write o).record = o :: s.record := rfl

/-! ## Singletons that leave the cache -/

variable {name : String}

theorem release_fst : (s.release f name).1 = (s.factory f).singletons.get? name := rfl

theorem factories_release : (s.release f name).2.factories =
    (s.setFactory f ((s.factory f).takeSingleton name).2).factories := by
  unfold release
  cases h : (s.factory f).singletons.get? name <;> simp [Factory.takeSingleton, h]

@[simp] theorem length_release : (s.release f name).2.factories.length = s.factories.length := by
  rw [factories_release, length_setFactory]

theorem factory_release : (s.release f name).2.factory g =
    (s.setFactory f ((s.factory f).takeSingleton name).2).factory g := by
  unfold factory
  rw [factories_release]
  rfl

theorem record_release : (s.release f name).2.record =
    ((s.factory f).singletons.get? name).toList.map (.released f name) ++ s.record := by
  unfold release
  cases h : (s.factory f).singletons.get? name <;> simp [Factory.takeSingleton, h, setFactory]

theorem foldl_write {α : Type} {o : α → Occurrence} {l : List α} :
    l.foldl (fun s e => s.write (o e)) s = { s with record := (l.map o).reverse ++ s.record } := by
  induction l generalizing s with
  | nil => rfl
  | cons e l ih =>
    rw [List.foldl_cons, ih]
    simp [write]

theorem factories_releaseAll :
    (s.releaseAll f).factories = (s.modifyFactory f Factory.dropSingletons).factories := by
  unfold releaseAll
  rw [foldl_write]

theorem factory_releaseAll :
    (s.releaseAll f).factory g = (s.modifyFactory f Factory.dropSingletons).factory g := by
  unfold factory
  rw [factories_releaseAll]

theorem record_releaseAll : (s.releaseAll f).record =
    ((s.factory f).singletons.objects.entries.map fun e => .released f e.1 e.2).reverse ++
      s.record := by
  unfold releaseAll
  rw [foldl_write]
  rfl

theorem released_of_releaseAll {new : List Occurrence} (h : (s.releaseAll f).record = new ++ s.record)
    {o : Occurrence} (ho : o ∈ new) : ∃ n i, o = .released f n i := by
  obtain rfl := List.append_cancel_right (h.symm.trans record_releaseAll)
  obtain ⟨e, -, rfl⟩ := List.mem_map.1 (List.mem_reverse.1 ho)
  exact ⟨_, _, rfl⟩

/-! ## Instances that come to a scope and leave it -/

variable {k : ScopeId} {made : Instance}

theorem factories_keepIn : (s.keepIn k name made).2.factories = s.factories := by
  unfold keepIn
  dsimp only
  split <;> rfl

theorem record_keepIn : (s.keepIn k name made).2.record =
    (if (s.scope k).get? name = none ∧ ((s.scope k).keep name made).2.get? name = some made then
      [.kept k name made] else []) ++ s.record := by
  unfold keepIn
  dsimp only
  split <;> rfl

theorem factories_takeFrom : (s.takeFrom k name).2.factories = s.factories := by
  unfold takeFrom
  dsimp only
  split <;> rfl

theorem record_takeFrom : (s.takeFrom k name).2.record =
    ((s.scope k).get? name).toList.map (.left k name) ++ s.record := by
  unfold takeFrom
  cases s.scope k with
  | inMemory scope instances callbacks =>
    simp only [Scope.remove, Scope.get?]
    cases instances.get? name <;> rfl
  | transient callbacks => rfl

theorem factories_emptyScope : (s.emptyScope k).factories = s.factories := by
  unfold emptyScope
  rw [foldl_write]
  rfl

theorem record_emptyScope : (s.emptyScope k).record =
    ((s.scope k).stored.map fun e => .left k e.1 e.2).reverse ++ s.record := by
  unfold emptyScope
  rw [foldl_write]
  rfl

end Session

@[simp] theorem theFactory_apply : (theFactory f s) = (s.factory f, s) := rfl

@[simp] theorem updateFactory_apply : updateFactory f change s = ((), s.modifyFactory f change) := rfl

@[simp] theorem write_apply {o : Occurrence} : write o s = ((), s.write o) := rfl

@[simp] theorem note_apply {n : Notice} : note n s = ((), s.write (.notice n)) := rfl

end BeanContainer
