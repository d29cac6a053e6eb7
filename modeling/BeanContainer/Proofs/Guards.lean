import BeanContainer.Creation
import BeanContainer.Proofs.OrderedMap
import BeanContainer.Proofs.Sessions

/-!
The flags of beans in the making. There are two sets of them, one for singletons
and one for prototypes, and a guard stands for a flag of either. What is done
while a flag is set leaves the flags as they were before it was set, if it
leaves them as it found them (`SameFlags.release`).
-/

namespace BeanContainer

variable {α : Type} {lost : Prop} {s : Session} {f : FactoryId} {g : Guard} {n z : String}
  {r r' u : SingletonRegistry}

/-- The bean that a guard is held for. -/
def Guard.name : Guard → String
  | singleton name | prototype name => name

namespace SingletonRegistry

/-- The flag of a bean is set. -/
def Flagged (r : SingletonRegistry) (n : String) : Prop :=
  n ∈ r.inCreation.toList ∨ n ∈ r.prototypesInCreation.toList

/-- The same flags are set. -/
structure SameFlags (r r' : SingletonRegistry) : Prop where
  inCreation : r'.inCreation = r.inCreation
  prototypes : r'.prototypesInCreation = r.prototypesInCreation

theorem SameFlags.trans (h : r.SameFlags r') (h' : r'.SameFlags u) : r.SameFlags u :=
  ⟨h'.inCreation.trans h.inCreation, h'.prototypes.trans h.prototypes⟩

theorem SameFlags.flagged_iff (h : r.SameFlags r') : r'.Flagged n ↔ r.Flagged n := by
  unfold Flagged
  rw [h.inCreation, h.prototypes]

theorem flagged_of_acquire_eq_error {e : BeanError} (h : r.acquire g = .error e) :
    r.Flagged g.name := by
  cases g with
  | singleton name =>
    simp only [acquire, beginSingleton] at h
    split at h
    · next hc => exact .inl (OrderedSet.contains_iff.1 hc)
    · cases h
  | prototype name =>
    simp only [acquire, beginPrototype] at h
    split at h
    · next hc => exact .inr (OrderedSet.contains_iff.1 hc)
    · cases h

theorem acquire_eq_ok_iff : r.acquire g = .ok r' ↔
    match g with
    | .singleton name => name ∉ r.inCreation.toList ∧
        r' = { r with inCreation := r.inCreation.insert name }
    | .prototype name => name ∉ r.prototypesInCreation.toList ∧
        r' = { r with prototypesInCreation := r.prototypesInCreation.insert name } := by
  cases g with
  | singleton name =>
    simp only [acquire, beginSingleton]
    split
    · next hc => simp [OrderedSet.contains_iff.1 hc]
    · next hc => simp [mt OrderedSet.contains_iff.2 hc, eq_comm]
  | prototype name =>
    simp only [acquire, beginPrototype]
    split
    · next hc => simp [OrderedSet.contains_iff.1 hc]
    · next hc => simp [mt OrderedSet.contains_iff.2 hc, eq_comm]

theorem objects_of_acquire (h : r.acquire g = .ok r') : r'.objects = r.objects := by
  rw [acquire_eq_ok_iff] at h
  cases g <;> obtain ⟨-, rfl⟩ := h <;> rfl

theorem inDestruction_of_acquire (h : r.acquire g = .ok r') : r'.inDestruction = r.inDestruction := by
  rw [acquire_eq_ok_iff] at h
  cases g <;> obtain ⟨-, rfl⟩ := h <;> rfl

theorem flagged_of_acquire (h : r.acquire g = .ok r') (hz : r'.Flagged z) :
    r.Flagged z ∨ z = g.name := by
  rw [acquire_eq_ok_iff] at h
  cases g with
  | singleton name =>
    obtain ⟨-, rfl⟩ := h
    rcases hz with hz | hz
    · exact (OrderedSet.mem_insert.1 hz).imp .inl id
    · exact .inl (.inr hz)
  | prototype name =>
    obtain ⟨-, rfl⟩ := h
    rcases hz with hz | hz
    · exact .inl (.inl hz)
    · exact (OrderedSet.mem_insert.1 hz).imp .inr id

theorem prototypes_subset_of_acquire (h : r.acquire g = .ok r')
    (hn : n ∈ r.prototypesInCreation.toList) : n ∈ r'.prototypesInCreation.toList := by
  rw [acquire_eq_ok_iff] at h
  cases g with
  | singleton name =>
    obtain ⟨-, rfl⟩ := h
    exact hn
  | prototype name =>
    obtain ⟨-, rfl⟩ := h
    exact OrderedSet.mem_insert.2 (.inl hn)

@[simp] theorem objects_release : (r.release g).objects = r.objects := by cases g <;> rfl

@[simp] theorem inDestruction_release : (r.release g).inDestruction = r.inDestruction := by
  cases g <;> rfl

/-- Taking back a flag that was set meanwhile leaves the flags from before. -/
theorem SameFlags.release (h : r.acquire g = .ok r') (hu : r'.SameFlags u) :
    r.SameFlags (u.release g) := by
  rw [acquire_eq_ok_iff] at h
  cases g with
  | singleton name =>
    obtain ⟨hname, rfl⟩ := h
    refine ⟨?_, hu.prototypes⟩
    simp only [SingletonRegistry.release, endSingleton, hu.inCreation]
    exact OrderedSet.erase_insert_of_not_mem hname
  | prototype name =>
    obtain ⟨hname, rfl⟩ := h
    refine ⟨hu.inCreation, ?_⟩
    simp only [SingletonRegistry.release, endPrototype, hu.prototypes]
    exact OrderedSet.erase_insert_of_not_mem hname

end SingletonRegistry

/-! ## Holding a guard -/

/-- Does something while a flag is set. -/
def whileHolding (f : FactoryId) (g : Guard) (body : Act α) : Act α := do
  tryUpdate f fun f => return { f with singletons := ← f.singletons.acquire g }
  let result ← body.attempt
  updateFactory f fun f => { f with singletons := f.singletons.release g }
  Act.ofResult result

theorem whileCreatingSingleton_eq {body : Act α} :
    whileCreatingSingleton f n body = whileHolding f (.singleton n) body := rfl

theorem whileCreatingPrototype_eq {body : Act α} :
    whileCreatingPrototype f n body = whileHolding f (.prototype n) body := rfl

/-- A flag that is set already is an error; else the body runs, and the flag is taken back. -/
theorem yields_whileHolding {body : Act α} {Q : Except BeanError α → Session → Prop} :
    Yields lost (whileHolding f g body).run s Q ↔
      match (s.factory f).singletons.acquire g with
      | .error e => Q (.error e) s
      | .ok singletons =>
        Yields lost body.run (s.setFactory f { s.factory f with singletons }) fun x t =>
          Q x (t.modifyFactory f fun F => { F with singletons := F.singletons.release g }) := by
  unfold whileHolding tryUpdate
  simp only [yields_run_bind, yields_run_liftQuery, ends_bind, ends_lift, theFactory_apply]
  cases ha : (s.factory f).singletons.acquire g with
  | error e => simp [bind, Except.bind]
  | ok singletons =>
    simp only [bind, Except.bind, pure, Except.pure, ends_modify]
    simp

end BeanContainer
