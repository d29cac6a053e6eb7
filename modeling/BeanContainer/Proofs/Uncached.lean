import BeanContainer.Proofs.CurrentMerges
import BeanContainer.Proofs.NamesApart

/-!
Factories that do not cache merges. Switching the caching off drops what is
cached, and nothing is added from then on. There is one other way to come by the
setting, and that one drops nothing: a factory that takes over the configuration
of another one keeps its merges, whether it goes on caching them or not. What a
factory that does not cache merges has cached was left there by the last
configuration that it took over (`leftOver`, `cached_of_changes`); a factory
without such a rest merges anew whenever it is asked
(`uncached_but_for_leftOver`).
-/

namespace BeanContainer

open Relation Session

/-- The merges of a factory are not cached. -/
def Session.Uncaching (s : Session) (f : FactoryId) : Prop :=
  (s.factory f).settings.cacheMetadata = false

/-- No factory that does not cache merges has one cached. -/
def Session.Unstocked (s : Session) : Prop := ∀ f, s.Uncaching f → (s.factory f).merged = {}

/-- What a factory had cached when it took over a configuration by which merges are not cached, if that
was the last one it took over. -/
def leftOver (f : FactoryId) : List Occurrence → MergedCache
  | [] => {}
  | .tookOver g _ caching merged :: old =>
    if g = f then (if caching then {} else merged) else leftOver f old
  | _ :: old => leftOver f old

/-- Whether an occurrence tells of a configuration that was taken over. -/
def Occurrence.isTakeover : Occurrence → Bool
  | tookOver .. => true
  | _ => false

variable {s t u : Session} {f g : FactoryId} {n : String} {ref : MergedRef} {new old : List Occurrence}
  {U : Set FactoryId}

theorem Occurrence.isTakeover_of_factory? {o : Occurrence} (h : o.factory? = none) : o.isTakeover = false := by
  cases o <;> first | rfl | cases h

theorem leftOver_append (h : ∀ o ∈ new, o.isTakeover = false) : leftOver f (new ++ old) = leftOver f old := by
  induction new with
  | nil => rfl
  | cons o new ih =>
    have hold : leftOver f (o :: (new ++ old)) = leftOver f (new ++ old) := by
      cases o <;> first | rfl | cases h _ List.mem_cons_self
    rw [List.cons_append, hold, ih fun o ho => h o (List.mem_cons_of_mem _ ho)]

theorem leftOver_eq_empty (h : ∀ source caching merged, .tookOver f source caching merged ∉ new) :
    leftOver f new = {} := by
  induction new with
  | nil => rfl
  | cons o new ih =>
    have hrest : leftOver f new = {} := ih fun source caching merged hm =>
      h source caching merged (List.mem_cons_of_mem _ hm)
    cases o with
    | tookOver g source caching merged =>
      have hg : g ≠ f := by
        rintro rfl
        exact h source caching merged List.mem_cons_self
      rw [leftOver, if_neg hg, hrest]
    | _ => exact hrest

/-! ## One change -/

/-- What is cached afterwards, if merges are not cached then, was cached before, and merges were not
cached before. -/
def Factory.Withholds (F F' : Factory) : Prop :=
  F'.settings.cacheMetadata = false → ∀ n ref, F'.merged.get? n = some ref →
    F.settings.cacheMetadata = false ∧ F.merged.get? n = some ref

theorem Factory.Withholds.refl (F : Factory) : F.Withholds F := fun hoff _ _ hm => ⟨hoff, hm⟩

theorem Factory.Withholds.of_core {F F' : Factory} (h : F'.core = F.core) : F.Withholds F' := by
  have hsettings : F'.settings = F.settings := (congrArg Factory.settings h :)
  have hmerged : F'.merged = F.merged := (congrArg Factory.merged h :)
  exact fun hoff _ _ hm => ⟨hsettings ▸ hoff, hmerged ▸ hm⟩

theorem Factory.Withholds.of_empty {F F' : Factory} (h : F'.merged = {}) : F.Withholds F' := by
  intro _ n ref hm
  rw [h] at hm
  cases hm

theorem Factory.Change.withholds {F F' : Factory} (h : F.Change F') : F.Withholds F' := by
  cases h with
  | define h =>
    obtain ⟨store, rfl, -⟩ := define_spec h
    exact .refl F
  | undefine h =>
    obtain ⟨store, rfl, -⟩ := undefine_spec h
    exact .refl F
  | registerAlias h =>
    obtain ⟨aliases, rfl⟩ := registerAlias_spec h
    exact .refl F
  | removeAlias h =>
    obtain ⟨aliases, rfl⟩ := removeAlias_spec h
    exact .refl F
  | resolveAliases h =>
    obtain ⟨aliases, rfl⟩ := resolveAliases_spec h
    exact .refl F
  | keepMerge hcache => exact fun hoff => absurd (hcache.symm.trans hoff) (by decide)
  | @evict name =>
    intro hoff n ref hm
    have hne : n ≠ name := by
      rintro rfl
      exact absurd (OrderedMap.get?_erase_self.symm.trans hm) (by simp)
    exact ⟨hoff, (OrderedMap.get?_erase_of_ne hne).symm.trans hm⟩
  | clearMerged => exact .of_empty rfl
  | setCacheMetadata =>
    -- if the setting is off, nothing was left
    intro hoff
    obtain rfl : _ = false := hoff
    exact Factory.Withholds.of_empty rfl rfl
  | freeze | setInCreation | configure => exact .refl F

/-- What a factory has cached, although it does not cache merges, is left over by this account. -/
def Session.Rests (s : Session) (f : FactoryId) (old : List Occurrence) : Prop :=
  s.Uncaching f → ∀ n ref, (s.factory f).merged.get? n = some ref → (leftOver f old).get? n = some ref

/-- What the record tells from one session to another accounts for what is left over in the second one,
if there was an account of the first one. -/
def Session.Passes (f : FactoryId) (s t : Session) : Prop :=
  ∃ new, t.record = new ++ s.record ∧ ∀ old, s.Rests f old → t.Rests f (new ++ old)

namespace Session.Passes

theorem refl (s : Session) : s.Passes f s := ⟨[], rfl, fun _ => id⟩

theorem trans (h : s.Passes f t) (h' : t.Passes f u) : s.Passes f u := by
  obtain ⟨new, hnew, hpass⟩ := h
  obtain ⟨new', hnew', hpass'⟩ := h'
  refine ⟨new' ++ new, by rw [hnew', hnew, List.append_assoc], fun old hs => ?_⟩
  rw [List.append_assoc]
  exact hpass' _ (hpass _ hs)

/-- Nothing comes to a cache while merges are not cached, and no configuration is taken over. -/
theorem of_withholds (new : List Occurrence) (hr : t.record = new ++ s.record)
    (hnew : ∀ o ∈ new, o.isTakeover = false) (h : (s.factory f).Withholds (t.factory f)) : s.Passes f t := by
  refine ⟨new, hr, fun old hs hoff n ref hm => ?_⟩
  obtain ⟨hoff, hm⟩ := h hoff n ref hm
  rw [leftOver_append hnew]
  exact hs hoff n ref hm

theorem takeOver {source : FactoryId} : s.Passes f (s.takeOver g source) := by
  refine ⟨[_], rfl, fun old hs hoff n ref hm => ?_⟩
  by_cases hg : f = g
  · subst hg
    by_cases hlen : f < s.factories.length
    · rw [Session.Uncaching, Session.takeOver, factory_write, factory_setFactory_self hlen] at hoff
      rw [Session.takeOver, factory_write, factory_setFactory_self hlen] at hm
      rw [List.cons_append, leftOver, if_pos rfl, hoff]
      exact hm
    · have hle : (s.takeOver f source).factories.length ≤ f := by
        simpa [Session.takeOver] using Nat.le_of_not_lt hlen
      rw [factory_of_length_le hle] at hm
      cases hm
  · have hsame : (s.takeOver g source).factory f = s.factory f := factory_setFactory_of_ne hg
    rw [Session.Uncaching, hsame] at hoff
    rw [hsame] at hm
    rw [List.cons_append, leftOver, if_neg (Ne.symm hg)]
    exact hs hoff n ref hm

end Session.Passes

theorem Session.BeanChange.told_beside (h : s.BeanChange U t) :
    ∃ new, t.record = new ++ s.record ∧ ∀ o ∈ new, o.isTakeover = false := by
  have one {o : Occurrence} (ho : o.isTakeover = false) : ∀ x ∈ [o], x.isTakeover = false := by simpa using ho
  have apart (h : s.Tells ∅ t) : ∃ new, t.record = new ++ s.record ∧ ∀ o ∈ new, o.isTakeover = false := by
    obtain ⟨new, hr, hnew⟩ := h
    refine ⟨new, hr, fun o ho => Occurrence.isTakeover_of_factory? ?_⟩
    exact Option.eq_none_iff_forall_ne_some.2 fun g hg => hnew o ho g hg
  cases h with
  | making h =>
    cases h with
    | @tell o ho _ => exact ⟨[o], rfl, one (by cases o <;> first | rfl | cases ho)⟩
    | construct => exact ⟨[_, _], rfl, by simp [Occurrence.isTakeover]⟩
    | miss | handOut => exact ⟨[_], rfl, one rfl⟩
    | count | addEdge => exact ⟨[], rfl, by simp⟩
  | ending h =>
    cases h with
    | @tell o ho _ => exact ⟨[o], rfl, one (by cases o <;> first | rfl | cases ho)⟩
    | release =>
      refine ⟨_, record_release, fun o ho => ?_⟩
      obtain ⟨_, -, rfl⟩ := List.mem_map.1 ho
      rfl
    | @tornDown g notice =>
      obtain ⟨left, hleft⟩ : ∃ left, (s.releaseAll g).record = left ++ s.record := ⟨_, record_releaseAll⟩
      refine ⟨.tornDown g :: .notice notice :: left, by rw [record_write, record_write, hleft]; rfl, ?_⟩
      simp only [List.forall_mem_cons]
      refine ⟨rfl, rfl, fun o ho => ?_⟩
      obtain ⟨_, _, rfl⟩ := released_of_releaseAll hleft ho
      rfl
    | tearDown | takeDependents | dropEdges => exact ⟨[], rfl, by simp⟩
  | cache => exact ⟨[_], rfl, one rfl⟩
  | begin | finish | addCallback => exact ⟨[], rfl, by simp⟩
  | keep => exact apart tells_keepIn
  | take => exact apart tells_takeFrom
  | empty => exact apart tells_emptyScope

/-- **Every change accounts for what is left over.** -/
theorem Session.Change.passes (h : s.Change t) : s.Passes f t := by
  have core (h : (t.factory f).core = (s.factory f).core) : (s.factory f).Withholds (t.factory f) := .of_core h
  cases h with
  | bean h =>
    obtain ⟨new, hr, hnew⟩ := h.told_beside
    exact .of_withholds new hr hnew (core h.core)
  | factory h => exact .of_withholds [] rfl (by simp) (rel_setFactory .refl h.withholds)
  | takeOver => exact .takeOver
  | register h =>
    exact .of_withholds [_] rfl (by simp [Occurrence.isTakeover])
      (core (proj_setFactory (p := Factory.core) (core_registerSingleton h)))
  | setParent =>
    rw [modifyFactory_eq_setFactory] at core ⊢
    exact .of_withholds [] rfl (by simp) (core (proj_setFactory (p := Factory.core) rfl))
  | addFactory =>
    obtain hlen | rfl | hlen := Nat.lt_trichotomy f s.factories.length
    · exact .of_withholds [] rfl (by simp) (core (by rw [factory_addFactory_of_lt hlen]))
    · exact .of_withholds [] rfl (by simp) (.of_empty (by rw [factory_addFactory_self]))
    · exact .of_withholds [] rfl (by simp)
        (.of_empty (by rw [factory_of_length_le (by rwa [length_addFactory])]))
  | addProcessor | addScope | label => exact .of_withholds [] rfl (by simp) (core rfl)

/-! ## Runs -/

theorem passes_of_changes (h : ReflTransGen Session.Change s t) : s.Passes f t := by
  induction h with
  | refl => exact .refl s
  | tail _ h ih => exact ih.trans h.passes

/-- **What a factory that does not cache merges has cached is left over** from before the last configuration
that it took over. -/
theorem cached_of_changes (hs : s.Unstocked) (h : ReflTransGen Session.Change s t)
    (hnew : t.record = new ++ s.record) : t.Rests f new := by
  obtain ⟨new', hnew', hrests⟩ : s.Passes f t := passes_of_changes h
  obtain rfl : new = new' := List.append_cancel_right (hnew.symm.trans hnew')
  have hstart : s.Rests f [] := fun hoff n ref hm => by
    rw [hs f hoff] at hm
    cases hm
  simpa using hrests [] hstart

theorem merged_eq_empty {c : MergedCache} (h : ∀ n, c.get? n = none) : c = {} := by
  obtain ⟨⟨entries, nodup⟩⟩ := c
  cases entries with
  | nil => rfl
  | cons e entries =>
    have he : MergedCache.get? ⟨e :: entries, nodup⟩ e.1 = some e.2 :=
      OrderedMap.get?_eq_some_iff.2 List.mem_cons_self
    rw [h] at he
    cases he

/-! ## Merging anew -/

/-- A factory does not cache merges, and has none cached. -/
structure Session.Recomputes (s : Session) (f : FactoryId) : Prop where
  uncaching : s.Uncaching f
  merged : (s.factory f).merged = {}

theorem Session.Recomputes.congr (h : s.Recomputes f) (hf : t.factory f = s.factory f) : t.Recomputes f where
  uncaching := by
    rw [Session.Uncaching, hf]
    exact h.uncaching
  merged := hf ▸ h.merged

/-- Whatever is merged, such a factory stays one, and numbers that were given are not given again. -/
def recomputing (f : FactoryId) : Manner where
  Start s := s.Recomputes f
  Leads s t := s.merges ≤ t.merges ∧ (s.Recomputes f → t.Recomputes f)
  refl _ := ⟨Nat.le_refl _, id⟩
  trans _ h h' := ⟨h.1.trans h'.1, h'.2 ∘ h.2⟩
  start hs h := h.2 hs

theorem settleMerge_recomputing {m : MergedDefinition} (hs : s.Recomputes f) :
    (recomputing f).Leads s (settleMerge g n m s).2 := by
  rw [settleMerge_apply]
  have counted : s.merges ≤ s.merges + 1 := Nat.le_succ _
  dsimp only
  split
  · next hcache =>
    have hne : f ≠ g := by
      rintro rfl
      exact Bool.false_ne_true (hs.uncaching.symm.trans hcache)
    split <;> exact ⟨counted, fun _ => hs.congr (factory_modifyFactory_of_ne hne)⟩
  · exact ⟨counted, fun _ => hs.congr rfl⟩

theorem mergeSteps_recomputing : MergeSteps Set.univ (recomputing f).Start (fun _ _ => True)
    fun _ => Asks (recomputing f) :=
  mergeSteps_asks (fun _ _ => trivial) (fun hs _ _ => settleMerge_recomputing hs) fun _ _ _ _ => trivial

/-- **A factory that does not cache merges takes up a new one whenever it is asked.** -/
theorem recomputed_mergedOwn (hs : s.Recomputes f) :
    Ends (mergedOwn f n) s fun r t => t.Recomputes f ∧ ∀ ref, r = .ok ref → s.merges ≤ ref.serial := by
  refine ends_mergedOwn_of_settled (L := (recomputing f).Leads s) mergeSteps_recomputing
    (fun _ hq => hq s hs) ((recomputing f).refl s) (fun ref hm => ?_) (fun e t ht => ?_) fun m t ht => ?_
  · rw [hs.merged] at hm
    cases hm
  · exact ⟨ht.2 hs, fun ref he => nomatch he⟩
  · have hoff : (t.factory f).settings.cacheMetadata = false := (ht.2 hs).uncaching
    rw [ends_lift, settleMerge_apply]
    simp only [hoff, Bool.false_eq_true, if_false]
    refine ⟨(ht.2 hs).congr rfl, ?_⟩
    rintro _ ⟨⟩
    exact ht.1

theorem lt_of_defines (h : s.Defines f n) : f < s.factories.length := by
  by_contra hlen
  rw [Session.Defines, factory_of_length_le (Nat.le_of_not_lt hlen)] at h
  simp [DefinitionStore.contains, OrderedMap.contains] at h

theorem Session.Recomputes.uncached_eq (hs : s.Recomputes f) : s.uncached f = s := by
  have hsame : (s.factory f).setCacheMetadata false = s.factory f := by
    have hoff : (s.factory f).settings.cacheMetadata = false := hs.uncaching
    have hmerged := hs.merged
    generalize s.factory f = F at hoff hmerged ⊢
    obtain ⟨⟨_, _, _, _⟩, _, _, _⟩ := F
    obtain rfl : _ = false := hoff
    obtain rfl : _ = _ := hmerged
    rfl
  rw [Session.uncached, modifyFactory_eq_setFactory, hsame, setFactory_factory]

theorem merged_eq_empty_of_rests (ht : t.Rests f new) (hoff : t.Uncaching f) (hnone : leftOver f new = {}) :
    (t.factory f).merged = {} := by
  refine merged_eq_empty fun n => Option.eq_none_iff_forall_ne_some.2 fun ref hm => ?_
  have hleft := ht hoff n ref hm
  rw [hnone] at hleft
  cases hleft

/-- **Without a configuration that was taken over, a factory that does not cache merges has none cached.** -/
theorem uncached_of_no_takeover {env : Collaborators} (hs : s.Unstocked) (run : Run env s t)
    (hnew : t.record = new ++ s.record) (hoff : t.Uncaching f)
    (hnone : ∀ source caching merged, .tookOver f source caching merged ∉ new) : (t.factory f).merged = {} :=
  merged_eq_empty_of_rests (cached_of_changes hs run.changes hnew) hoff (leftOver_eq_empty hnone)

/-- **A factory that does not cache merges has none cached, except what is left over.**

In every run, whatever is asked of any factories and whatever collaborators do meanwhile: what such a
factory has in its cache was there when it took over a configuration for the last time, and merges were not
cached from then on. If nothing was there, or no configuration was taken over, the cache is empty, and stays
so when the factory is asked for the merge of one of its definitions. The answer has a number that was not
given before, and it is what the definitions of the factory are merged to at that time. -/
theorem uncached_but_for_leftOver {env : Collaborators} (hs : s.Unstocked) (run : Run env s t)
    (hnew : t.record = new ++ s.record) (hoff : t.Uncaching f) :
    (∀ n ref, (t.factory f).merged.get? n = some ref → (leftOver f new).get? n = some ref) ∧
      (leftOver f new = {} → (t.factory f).merged = {} ∧
        ∀ x, t.Defines f ((t.factory f).canonical x) →
          Ends (mergedDefinition f x) t fun r u => (u.factory f).merged = {} ∧
            (∀ ref, r = .ok ref → t.merges ≤ ref.serial) ∧
            (t.Linked Set.univ → ∀ m, t.Fresh f ((t.factory f).canonical x) m ↔
              ∃ ref, r = .ok ref ∧ ref.definition = m)) := by
  have hrests : t.Rests f new := cached_of_changes hs run.changes hnew
  refine ⟨hrests hoff, fun hnone => ?_⟩
  have hempty : (t.factory f).merged = {} := merged_eq_empty_of_rests hrests hoff hnone
  refine ⟨hempty, fun x hdef => ?_⟩
  have ht : t.Recomputes f := ⟨hoff, hempty⟩
  have hlen : f < t.factories.length := lt_of_defines hdef
  have hanew := ends_mergedDefinition_of_defines hlen hdef (recomputed_mergedOwn ht)
  refine ⟨hanew.1.merged, hanew.2, fun hl => ?_⟩
  have hfresh := ends_mergedDefinition_uncached hlen hl hdef
  rwa [ht.uncached_eq] at hfresh

/-! ## A configuration is taken over -/

theorem unstocked_initial : Session.initial.Unstocked := by
  intro f _
  cases f <;> rfl

/-- A factory whose cache was cleared takes over the configuration of another one, which does not cache merges.
Each time it is asked from then on, it merges its definition anew. -/
theorem uncached_but_for_leftOver_cleared : Session.initial.Unstocked ∧
    ∃ t, Run quietly .initial t ∧ t.Uncaching 0 ∧ .tookOver 0 1 false {} ∈ t.record ∧
      leftOver 0 t.record = {} ∧ t.Defines 0 ((t.factory 0).canonical "bean") ∧ t.Linked Set.univ ∧ t.merges = 2 ∧
      Ends (mergedDefinition 0 "bean") t fun r u => (u.factory 0).merged = {} ∧
        ∃ ref, r = .ok ref ∧ t.merges ≤ ref.serial ∧
          t.Fresh 0 ((t.factory 0).canonical "bean") ref.definition := by
  have hfacts : (performAll quietly (fun _ _ => true) (fun _ _ => true) 1
      [.newFactory "plain" { cacheMetadata := false } none, .on "main" (.register "bean" {}),
        .on "main" (.merged "bean"), .on "main" .clearCache, .on "main" (.copyConfiguration "plain"),
        .on "main" (.merged "bean")] .initial).any (fun t =>
      !(t.factory 0).settings.cacheMetadata && decide (leftOver 0 t.record = {}) &&
      (t.record.any fun
        | .tookOver f source caching merged => f = 0 && source = 1 && !caching && decide (merged = {})
        | _ => false) &&
      (t.factory 0).definitions.contains ((t.factory 0).canonical "bean") && t.merges = 2 &&
      t.factories.all (fun F => F.parent = none) && ((mergedDefinition 0 "bean").run t).1.toBool) = true := by
    decide +kernel
  obtain ⟨t, ht, hfacts⟩ := (Option.any_eq_true ..).1 hfacts
  simp only [Bool.and_eq_true, decide_eq_true_eq, Bool.not_eq_true', List.any_eq_true, List.all_eq_true] at hfacts
  obtain ⟨⟨⟨⟨⟨⟨hoff, hnone⟩, o, ho, htook⟩, hdef⟩, hmerges⟩, hparents⟩, hok⟩ := hfacts
  have run : Run quietly .initial t := (permittedRun_performAll ht).run
  have htaken : .tookOver 0 1 false {} ∈ t.record := by
    cases o with
    | tookOver f source caching merged =>
      simp only [Bool.and_eq_true, decide_eq_true_eq, Bool.not_eq_true'] at htook
      obtain ⟨⟨⟨rfl, rfl⟩, rfl⟩, rfl⟩ := htook
      exact ho
    | _ => cases htook
  have hlinked : t.Linked Set.univ := by
    intro f _ p hp
    by_cases hlen : f < t.factories.length
    · have hfactory : t.factory f = t.factories[f] := by simp [Session.factory, hlen]
      rw [hfactory, hparents _ (List.getElem_mem hlen)] at hp
      cases hp
    · rw [factory_of_length_le (Nat.le_of_not_lt hlen)] at hp
      cases hp
  have hstate := uncached_but_for_leftOver unstocked_initial run (List.append_nil _).symm hoff
  obtain ⟨-, hanew⟩ := hstate.2 hnone
  obtain ⟨hstays, hserial, hfresh⟩ := hanew "bean" hdef
  refine ⟨unstocked_initial, t, run, hoff, htaken, hnone, hdef, hlinked, hmerges, hstays, ?_⟩
  cases hr : ((mergedDefinition 0 "bean").run t).1 with
  | error e =>
    rw [hr] at hok
    cases hok
  | ok ref => exact ⟨ref, rfl, hserial ref hr, (hfresh hlinked ref.definition).2 ⟨ref, hr, rfl⟩⟩

/-- What was merged before the configuration of the other factory was taken over stays. -/
theorem not_uncached_of_copying : ¬ ∀ (env : Collaborators) (t : Session) (f : FactoryId),
    Run env .initial t → t.Uncaching f → (t.factory f).merged = {} := by
  intro claim
  have hfacts : (performAll quietly (fun _ _ => true) (fun _ _ => true) 1
      [.newFactory "plain" { cacheMetadata := false } none, .on "main" (.register "bean" {}),
        .on "main" (.merged "bean"), .on "main" (.copyConfiguration "plain")] .initial).any (fun t =>
      !(t.factory 0).settings.cacheMetadata && !(t.factory 0).merged.entries.entries.isEmpty) = true := by
    decide +kernel
  obtain ⟨t, ht, hfacts⟩ := (Option.any_eq_true ..).1 hfacts
  obtain ⟨hoff, hcached⟩ := Bool.and_eq_true_iff.1 hfacts
  rw [Bool.not_eq_true'] at hoff
  have hempty := claim quietly t 0 (permittedRun_performAll ht).run hoff
  rw [hempty] at hcached
  cases hcached

end BeanContainer
