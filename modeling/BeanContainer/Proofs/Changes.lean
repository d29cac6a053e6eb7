import BeanContainer.Proofs.MergeQueries
import BeanContainer.Proofs.Operations
import BeanContainer.Proofs.Reading

/-!
All that ever changes in a session, one change at a time.

`Session.Change` lists what a session can undergo at once. Whatever is asked of
a session, and whatever its collaborators do meanwhile, it undergoes nothing but
a sequence of such changes (`changes_perform`). What every change keeps
therefore holds at every moment of every run.
-/

namespace BeanContainer

open Relation Session

/-- What a session can undergo at once. -/
inductive Session.Change (s : Session) : Session → Prop
  | bean {t : Session} : s.BeanChange Set.univ t → s.Change t
  | factory {f : FactoryId} {F : Factory} : (s.factory f).Change F → s.Change (s.setFactory f F)
  | takeOver {f source : FactoryId} : s.Change (s.takeOver f source)
  | register {f : FactoryId} {n : String} {i : Instance} {F : Factory} :
      (s.factory f).registerSingleton n i = .ok F →
      s.Change ((s.setFactory f F).write (.registered f n i))
  | setParent {f parent : FactoryId} : (s.chain parent).contains f = false →
      (s.factory f).parent = none →
      s.Change (s.modifyFactory f fun F => { F with parent := some parent })
  | addFactory {settings : FactorySettings} {constructor : Option Constructor} :
      s.Change (s.addFactory { settings, constructor }).2
  | addProcessor {processor : Processor} {processorLabels : OrderedMap String ProcessorId} :
      s.Change { s with processors := s.processors ++ [processor], processorLabels }
  | addScope {scope : Scope} {scopeLabels : OrderedMap String ScopeId} :
      s.Change { s with scopes := s.scopes ++ [scope], scopeLabels }
  | label {factoryLabels : OrderedMap String FactoryId}
      {started : OrderedMap String (FactoryId × ApplicationSettings)} :
      s.Change { s with factoryLabels, started }

variable {α β : Type} {env : Collaborators} {again : Reentry} {s : Session} {f : FactoryId}
  {name : String}

/-- Any changes, in any session. -/
def changing : Manner where
  Start _ := True
  Leads := ReflTransGen Session.Change
  refl _ := .refl
  trans _ h h' := h.trans h'
  start _ _ := trivial

theorem Session.BeanChange.length {U : Set FactoryId} {t : Session} (h : s.BeanChange U t) :
    t.factories.length = s.factories.length := h.reads.length

theorem Session.Change.length_le {t : Session} (h : s.Change t) : s.factories.length ≤ t.factories.length := by
  cases h with
  | bean h => exact Nat.le_of_eq h.length.symm
  | factory => exact Nat.le_of_eq length_setFactory.symm
  | takeOver => exact Nat.le_of_eq length_setFactory.symm
  | register => exact Nat.le_of_eq length_setFactory.symm
  | setParent => exact Nat.le_of_eq length_modifyFactory.symm
  | addFactory => simp
  | addProcessor | addScope | label => exact Nat.le_refl _

theorem Session.Change.told {t : Session} (h : s.Change t) : s.record <:+ t.record := by
  cases h with
  | bean h =>
    obtain ⟨new, hnew, -⟩ := h.reads.told
    exact ⟨new, hnew.symm⟩
  | takeOver | register => exact ⟨[_], rfl⟩
  | factory | setParent | addFactory | addProcessor | addScope | label => exact List.suffix_rfl

theorem told_of_changes {t : Session} (h : ReflTransGen Session.Change s t) : s.record <:+ t.record := by
  induction h with
  | refl => exact List.suffix_rfl
  | tail _ h ih => exact ih.trans h.told

/-! ## Merging -/

/-- Taking up a merge is counted and told, and it may get cached. -/
theorem reflTransGen_settleMerge {C : Session → Session → Prop} {m : MergedDefinition}
    (bean : ∀ {s t : Session}, s.BeanChange Set.univ t → C s t)
    (keepMerge : ∀ {s : Session} {name : String} {ref : MergedRef},
      (s.factory f).settings.cacheMetadata = true → (s.factory f).merged.get? name = none →
      C s (s.setFactory f { s.factory f with merged := ⟨(s.factory f).merged.entries.insert name ref⟩ })) :
    ReflTransGen C s (settleMerge f name m s).2 := by
  rw [settleMerge_apply]
  set t := { s with merges := s.merges + 1 }.write
    (.notice (.definitionMerged name ((s.factory f).settle m).scope)) with ht
  have hcount : C s { s with merges := s.merges + 1 } := bean (.making .count)
  have hst : ReflTransGen C s t :=
    (ReflTransGen.single hcount).tail (bean (.making (.tell rfl fun _ _ => trivial)))
  simp only [modifyFactory_eq_setFactory]
  split
  · next hcache =>
    split
    · exact (setFactory_factory (s := t) (f := f)) ▸ hst
    · next hnone => exact hst.tail (keepMerge hcache hnone)
  · exact hst

/-- A manner that covers the taking up of merges covers whatever merging is made of. It may go by what
is defined. -/
theorem mergeSteps_asks {M : Manner} {U : Set FactoryId} {Defined : FactoryId → String → Prop}
    (defined : ∀ {s f n}, M.Start s → (s.factory f).definitions.contains n = true → Defined f n)
    (settle : ∀ {s f n m}, M.Start s → f ∈ U → Defined f n → M.Leads s (settleMerge f n m s).2)
    (chain : ∀ {s f}, M.Start s → f ∈ U → ∀ g ∈ s.chain f, g ∈ U) :
    MergeSteps U M.Start Defined fun _ => Asks M where
  answer _ := asks_pure
  fail _ := asks_throw
  bind := .bind
  handle := .tryCatch
  theFactory hk s hs := hk _ (fun _ => defined hs) s hs
  settleMerge hf hn _ _ hs := settle hs hf hn
  get hk _ s hs := hk s hs s hs
  chain := chain

/-- **Any changes cover all that happens to beans and factories.** -/
theorem covers_changing : changing.CoversCalls Set.univ :=
  have steps : MergeSteps Set.univ changing.Start (fun _ _ => True) fun _ => Asks changing :=
    mergeSteps_asks (fun _ _ => trivial)
      (fun _ _ _ => reflTransGen_settleMerge .bean fun hcache hnone => .factory (.keepMerge hcache hnone))
      fun _ _ _ _ => trivial
  have beans : changing.CoversBeans Set.univ :=
    { bean := fun _ h => .single (.bean h)
      parent := fun _ _ _ => trivial
      ownMerges := fun hs hf => steps.mergedOwn hf _ hs
      merged := fun _ _ _ _ => trivial
      merges := fun hs hf => steps.mergedDefinition hf _ hs }
  beans.covers.coversCalls (fun _ _ h => .single (.factory h)) (fun _ _ => .single .takeOver)
    (fun _ _ h => .single (.register h)) fun _ _ _ hloop hnone => .single (.setParent hloop hnone)

/-- **Any changes cover whatever is asked of a session.** -/
theorem coversOperations_changing : changing.CoversOperations fun _ _ => True where
  toCoversCallsOf := covers_changing.toCoversCallsOf
  addProcessor _ := .single .addProcessor
  addScope _ := .single .addScope
  addFactory _ := .single .addFactory
  label _ _ := .single .label
  definitions _ _ := .inl (covers_changing.redefines _ trivial)
  fresh _ := ⟨covers_changing.redefines _ trivial, fun _ => trivial⟩

/-- Whatever the ways back into a session lead to, it undergoes changes. -/
abbrev Reentry.Changes (again : Reentry) : Prop := again.KeepOperations changing

theorem Reentry.Changes.collaborators (ha : again.Changes) : env.Keep changing Set.univ again :=
  coversOperations_changing.collaborators ha

theorem changes_performOnce (ha : again.Changes) {operation : Operation} :
    Keeps changing (performOnce env again operation) :=
  fun _ hs => yields_performOnce coversOperations_changing ha.collaborators ha hs fun _ _ _ => trivial

/-- **Whatever the ways back lead to, a session undergoes changes**, at any depth. -/
theorem changes_reentry (env : Collaborators) (depth : Nat) : (reentry env depth).Changes :=
  coversOperations_changing.keepOperations depth

/-- **Whatever is asked of a session, it undergoes nothing but changes.** -/
theorem changes_perform {depth : Nat} {operation : Operation} {answer : Answer} {t : Session}
    (h : perform env depth operation s = some (answer, t)) : ReflTransGen Session.Change s t :=
  yields_true_iff.1 (changes_performOnce (changes_reentry env depth) s trivial) _ _ h

/-! ## Runs -/

/-- The sessions that come of operations, one after another. -/
inductive Run (env : Collaborators) (s : Session) : Session → Prop
  | start : Run env s s
  | perform {t u : Session} {operation : Operation} {answer : Answer} {depth : Nat} : Run env s t →
      perform env depth operation t = some (answer, u) → Run env s u

/-- **A run is a sequence of changes.** -/
theorem Run.changes {t : Session} (h : Run env s t) : ReflTransGen Session.Change s t := by
  induction h with
  | start => exact .refl
  | perform _ hp ih => exact ih.trans (changes_perform hp)

end BeanContainer
