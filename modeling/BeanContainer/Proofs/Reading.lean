import BeanContainer.Proofs.Ending
import BeanContainer.Proofs.MergeQueries

/-!
Lookups and destructions only read, as far as definitions go: beans come and go,
merges get cached, and that is all (`Session.Reads`). To read is a manner of
changing sessions whose factories are well linked, and it covers what happens to
beans.
-/

namespace BeanContainer

open Session

variable {U : Set FactoryId} {s : Session} {f : FactoryId} {name : String}

namespace Session.Reads

theorem of_factories {t : Session} (h : t.factories = s.factories) (told : s.Tells U t) :
    s.Reads U t := by
  have hf (g) : t.factory g = s.factory g := by unfold factory; rw [h]
  exact { length := by rw [h], outside := fun _ => hf _, recipe := fun g => by rw [hf],
          kept := fun hm => by rwa [hf], sound := fun hm => .cached (by rwa [hf] at hm), told := told }

theorem of_remarks {t : Session} (h : s.Remarks t) : s.Reads U t := .of_factories h.factories h.tells

theorem setFactory {new : Factory} (hf : f ∈ U) (recipe : new.recipe = (s.factory f).recipe)
    (merged : new.merged = (s.factory f).merged) : s.Reads U (s.setFactory f new) := by
  have hmerged (g) : ((s.setFactory f new).factory g).merged = (s.factory g).merged :=
    proj_setFactory (p := Factory.merged) merged
  exact { length := by simp
          outside := fun hg => factory_setFactory_of_ne fun e => hg (e ▸ hf)
          recipe := fun g => proj_setFactory (p := Factory.recipe) recipe
          kept := fun hm => by rwa [hmerged]
          sound := fun hm => .cached (by rwa [hmerged] at hm)
          told := .of_record_eq rfl }

theorem modifyFactory {change : Factory → Factory} (hf : f ∈ U)
    (recipe : (change (s.factory f)).recipe = (s.factory f).recipe)
    (merged : (change (s.factory f)).merged = (s.factory f).merged) :
    s.Reads U (s.modifyFactory f change) := by
  rw [modifyFactory_eq_setFactory]
  exact setFactory hf recipe merged

theorem write {o : Occurrence} (ho : ∀ g, o.factory? = some g → g ∈ U) : s.Reads U (s.write o) :=
  .of_factories rfl (.write ho)

theorem retold {t u : Session} (h : s.Reads U t) (hf : u.factories = t.factories) (told : s.Tells U u) :
    s.Reads U u := by
  have he (g) : u.factory g = t.factory g := by unfold factory; rw [hf]
  exact { length := by rw [hf, h.length], outside := fun hg => (he _).trans (h.outside hg),
          recipe := fun g => by rw [he, h.recipe], kept := fun hm => by rw [he]; exact h.kept hm,
          sound := fun hm => h.sound (by rwa [he] at hm), told := told }

theorem release (hf : f ∈ U) : s.Reads U (s.release f name).2 := by
  have h : s.Reads U (s.setFactory f ((s.factory f).takeSingleton name).2) := .setFactory hf rfl rfl
  refine h.retold factories_release ⟨_, record_release, ?_⟩
  simp only [List.mem_map]
  rintro _ ⟨i, -, rfl⟩ g hg
  cases hg
  exact hf

theorem releaseAll (hf : f ∈ U) : s.Reads U (s.releaseAll f) := by
  have h : s.Reads U (s.modifyFactory f Factory.dropSingletons) := .modifyFactory hf rfl rfl
  refine h.retold factories_releaseAll ⟨_, record_releaseAll, ?_⟩
  simp only [List.mem_reverse, List.mem_map]
  rintro _ ⟨e, -, rfl⟩ g hg
  cases hg
  exact hf

end Session.Reads

/-- What making beans changes at once is no more than reading. -/
theorem Session.MakingChange.reads {t : Session} (h : s.MakingChange U t) : s.Reads U t := by
  cases h with
  | count => exact .of_factories rfl (.of_record_eq rfl)
  | tell _ ho => exact .write ho
  | @construct f n m hf =>
    have h : s.Reads U (s.write (.notice (.creating n m.scope))) := .write nofun
    exact h.retold rfl (h.told.trans (.write fun g hg => by cases hg; exact hf))
  | addEdge hf => exact .modifyFactory hf rfl rfl
  | miss hf => exact .write fun g hg => by cases hg; exact hf
  | handOut hf => exact .write fun g hg => by cases hg; exact hf

theorem Session.EndingChange.reads {t : Session} (h : s.EndingChange U t) : s.Reads U t := by
  cases h with
  | tell _ ho => exact .write ho
  | tearDown hf => exact .modifyFactory hf rfl rfl
  | takeDependents hf => exact .setFactory hf rfl rfl
  | dropEdges hf => exact .modifyFactory hf rfl rfl
  | release hf => exact .release hf
  | @tornDown f n hf =>
    have h : s.Reads U (s.releaseAll f) := .releaseAll hf
    refine h.retold rfl (h.told.trans ((Tells.write ?_).trans (.write fun g hg => ?_)))
    · exact nofun
    · cases hg
      exact hf

theorem Session.BeanChange.reads {t : Session} (h : s.BeanChange U t) : s.Reads U t := by
  cases h with
  | making h => exact h.reads
  | ending h => exact h.reads
  | @cache f n made hf =>
    have h : s.Reads U (s.addSingleton f n made) := .setFactory hf rfl rfl
    exact h.retold rfl (.write fun g hg => by cases hg; exact hf)
  | begin hf => exact .setFactory hf rfl rfl
  | finish hf => exact .modifyFactory hf rfl rfl
  | keep => exact .of_factories factories_keepIn tells_keepIn
  | addCallback => exact .of_factories rfl (.of_record_eq rfl)
  | take => exact .of_factories factories_takeFrom tells_takeFrom
  | empty => exact .of_factories factories_emptyScope tells_emptyScope

/-! ## The manner -/

/-- To read only, in a session whose factories are well linked. -/
def reading (U : Set FactoryId) : Manner where
  Start s := s.Linked U
  Leads s t := s.Reads U t
  refl := .refl
  trans hl h h' := h.trans hl h'
  start hl h := h.linked hl

/-- **To read only covers what happens to beans.** -/
theorem covers_reading (U : Set FactoryId) : (reading U).Covers U := Manner.CoversBeans.covers
  { bean := fun _ h => h.reads
    parent := fun hl hf hp => (hl _ hf _ hp).1
    ownMerges := fun hl hf => (ends_mergedOwn hl hf).mono fun _ _ h => h.1.toReads
    merges := fun hl hf => (ends_mergedDefinition hl hf).mono fun _ _ h => h.1.toReads
    merged := fun _ _ _ _ => trivial }

end BeanContainer
