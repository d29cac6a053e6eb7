import BeanContainer.Interleaving
import BeanContainer.Proofs.Factories
import BeanContainer.Proofs.MergeQueries
import BeanContainer.Proofs.Resets

/-!
A merge or a replacement that nobody gets in between. A `Merger` whose steps
follow one another does what `mergeLocal` does (`ends_mergeLocal_undisturbed`),
and a `Replacer` does to the definitions and the cached merges what
`registerDefinition` does (`yields_registerDefinition_undisturbed`). So the
steps are those of the factory, and nothing but their order is free.
-/

namespace BeanContainer

open Relation Session

/-! ## Merges -/

/-- What mergers of a factory in a session share. -/
def Session.bench (s : Session) (f : FactoryId) : Bench := ⟨s.factory f, s.merges⟩

namespace Merger

variable (above : String → Option MergedDefinition)

/-- Steps of one merge, with no other in between. -/
def Undisturbed : Bench × Merger → Bench × Merger → Prop :=
  ReflTransGen fun x y => x.2.step above x.1 = y

/-- Goes on with the outcome of the merge that was awaited. -/
def resume (b : Bench) (awaiting : List Awaiting) : Option MergedRef → Bench × Merger
  | some merged => deliver b merged awaiting
  | none => (b, ⟨[], .ended none⟩)

end Merger

section

variable {above : String → Option MergedDefinition} {ask : Option (String → Query MergedRef)}
  {f : FactoryId} {s : Session} {name : String} {awaiting : List Awaiting} {m : MergedDefinition}

theorem Merger.Undisturbed.single {x y : Bench × Merger} (h : x.2.step above x.1 = y) :
    Undisturbed above x y := ReflTransGen.single h

theorem settleMerge_undisturbed (above : String → Option MergedDefinition) (awaiting : List Awaiting)
    (name : String) (m : MergedDefinition) (hf : f < s.factories.length) :
    Merger.Undisturbed above
        (Merger.build (s.bench f) awaiting name (s.factory f).definitions.generation m)
        (Merger.deliver ((settleMerge f name m s).2.bench f) (settleMerge f name m s).1 awaiting) ∧
      f < (settleMerge f name m s).2.factories.length ∧
      ((settleMerge f name m s).2.factory f).definitions = (s.factory f).definitions := by
  have hcached (change : Factory → Factory) (o : Occurrence) :
      ((({ s with merges := s.merges + 1 }.write o).modifyFactory f change).factory f) =
        change (s.factory f) := factory_modifyFactory_self (s := { s with merges := s.merges + 1 }.write o) hf
  rw [settleMerge_apply]
  cases hc : (s.factory f).settings.cacheMetadata with
  | false =>
    refine ⟨.single ?_, hf, rfl⟩
    simp only [Merger.build, Merger.step, bench, hc]
    rfl
  | true =>
    cases hm : (s.factory f).merged.get? name <;>
    · refine ⟨.single ?_, by simpa using hf, by simp [hcached]⟩
      simp [Merger.build, Merger.step, MergedCache.insertIfCurrent, bench, hc, hm, hcached]
      rfl

/-- A query has an outcome, and some steps of a merge lead to where that is handed to the definitions
that wait for it. -/
structure Merger.Resumes (above : String → Option MergedDefinition) (f : FactoryId) (x : Bench × Merger)
    (awaiting : List Awaiting) (s : Session) (r : Except BeanError MergedRef) (t : Session) : Prop where
  run : Undisturbed above x (resume (t.bench f) awaiting r.toOption)
  lt_length : f < t.factories.length
  definitions : (t.factory f).definitions = (s.factory f).definitions

variable {x : Bench × Merger} {d : Definition} {q : String}

theorem ends_settleMerge_resumes (hf : f < s.factories.length)
    (h : Merger.Undisturbed above x
      (Merger.build (s.bench f) awaiting name (s.factory f).definitions.generation m)) :
    Ends (liftM (settleMerge f name m) : Query MergedRef) s (Merger.Resumes above f x awaiting s) := by
  obtain ⟨hrun, ht, hdefs⟩ := settleMerge_undisturbed above awaiting name m hf
  exact ⟨h.trans hrun, ht, hdefs⟩

theorem ends_mergeAlong_child {line : Lineage} {w : Awaiting}
    (hw : w = ⟨name, (s.factory f).definitions.generation, d⟩)
    (hread : Merger.Undisturbed above x (s.bench f, ⟨w :: awaiting, .seek q⟩))
    (hline : Ends (mergeAlong f ask line) s
      (Merger.Resumes above f (s.bench f, ⟨w :: awaiting, .seek q⟩) (w :: awaiting) s)) :
    Ends (mergeAlong f ask (.child name d line)) s (Merger.Resumes above f x awaiting s) := by
  subst hw
  simp only [mergeAlong, ends_bind]
  refine hline.mono ?_
  rintro (e | parent) t ⟨hrun, ht, hdefs⟩
  · exact ⟨hread.trans hrun, ht, hdefs⟩
  · obtain ⟨hsettle, hu, hudefs⟩ :=
      settleMerge_undisturbed above awaiting name (.ofParent name parent.definition d) ht
    rw [hdefs] at hsettle hudefs
    exact ⟨(hread.trans hrun).trans hsettle, hu, hudefs⟩

theorem ends_mergeAlong_beyond (hask : ∀ name parent t, ∃ r,
      (mergedAbove ask name parent).run t = (r, t) ∧
        r.toOption.map MergedRef.definition = above parent)
    (hf : f < s.factories.length)
    (hseek : Merger.Undisturbed above x (s.bench f, ⟨awaiting, .read name⟩))
    (hd : (s.factory f).definitions.get? name = some d) (hp : d.parent = some q)
    (hlocal : ¬ ((s.factory f).canonical q ≠ name &&
      (s.factory f).definitions.contains ((s.factory f).canonical q)) = true) :
    Ends (mergeAlong f ask (.beyond name d ((s.factory f).canonical q))) s
      (Merger.Resumes above f x awaiting s) := by
  obtain ⟨r, hr, habove⟩ := hask name ((s.factory f).canonical q) s
  simp only [mergeAlong, ends_bind]
  unfold Ends
  rw [hr]
  cases r with
  | error e =>
    refine ⟨hseek.tail ?_, hf, rfl⟩
    simp only [Merger.step, bench, hd, hp]
    refine (if_neg hlocal).trans ?_
    rw [← habove]
    rfl
  | ok parent =>
    refine ends_settleMerge_resumes hf (hseek.tail ?_)
    simp only [Merger.step, bench, hd, hp]
    refine (if_neg hlocal).trans ?_
    rw [← habove]
    rfl

/-- Merging along the line from a name is a merge of it that goes on with the same outcome. -/
theorem ends_mergeAlong_undisturbed (hask : ∀ name parent t, ∃ r,
      (mergedAbove ask name parent).run t = (r, t) ∧
        r.toOption.map MergedRef.definition = above parent) :
    ∀ (steps : Nat) (name : String) (awaiting : List Awaiting) {s : Session},
      f < s.factories.length →
      ((s.factory f).unmet (awaiting.reverse.map Awaiting.name)).length < steps →
      Ends (mergeAlong f ask ((s.factory f).walk steps (awaiting.reverse.map Awaiting.name) name)) s
        (Merger.Resumes above f (s.bench f, ⟨awaiting, .seek name⟩) awaiting s)
  | 0, _, _, _, _, hroom => absurd hroom (Nat.not_lt_zero _)
  | steps + 1, name, awaiting, s, hf, hroom => by
    unfold Factory.walk
    by_cases hpath : name ∈ awaiting.map Awaiting.name
    · have hpath' : (awaiting.reverse.map Awaiting.name).contains name = true := by
        simpa [List.map_reverse] using hpath
      rw [if_pos hpath']
      refine ⟨.single ?_, hf, rfl⟩
      simp only [Merger.step, List.contains_iff_mem.2 hpath, if_true]
      rfl
    have hpath' : ¬ (awaiting.reverse.map Awaiting.name).contains name = true := by
      simpa [List.map_reverse] using hpath
    rw [if_neg hpath']
    cases hm : (s.factory f).merged.get? name with
    | some merged =>
      refine ⟨.single ?_, hf, rfl⟩
      simp only [Merger.step, List.contains_eq_mem, hpath, decide_false, Bool.false_eq_true, if_false,
        bench, hm]
      rfl
    | none =>
      have hseek : Merger.Undisturbed above (s.bench f, ⟨awaiting, .seek name⟩)
          (s.bench f, ⟨awaiting, .read name⟩) := .single (by
        simp only [Merger.step, List.contains_eq_mem, hpath, decide_false, Bool.false_eq_true,
          if_false, bench, hm])
      dsimp only
      cases hd : (s.factory f).definitions.get? name with
      | none =>
        refine ⟨hseek.tail ?_, hf, rfl⟩
        simp only [Merger.step, bench, hd]
        rfl
      | some d =>
        dsimp only
        cases hp : d.parent with
        | none =>
          refine ends_settleMerge_resumes hf (hseek.tail ?_)
          simp only [Merger.step, bench, hd, hp]
        | some q =>
          dsimp only
          split
          · next hlocal =>
            -- the parent comes next, with one more definition that waits
            have hnot : name ∉ awaiting.reverse.map Awaiting.name := by simpa using hpath'
            have hroom' := Factory.length_unmet_lt (OrderedMap.mem_keys_iff.2 ⟨d, hd⟩) hnot
            have ih := ends_mergeAlong_undisturbed hask steps ((s.factory f).canonical q)
              (⟨name, (s.factory f).definitions.generation, d⟩ :: awaiting) hf
              (by simp only [List.reverse_cons, List.map_append, List.map_cons, List.map_nil]; omega)
            simp only [List.reverse_cons, List.map_append, List.map_cons, List.map_nil] at ih
            refine ends_mergeAlong_child rfl (hseek.tail ?_) ih
            simp only [Merger.step, bench, hd, hp]
            exact if_pos hlocal
          · next hlocal => exact ends_mergeAlong_beyond hask hf hseek hd hp hlocal

/-- **A merge that nobody gets in between is the merge of the factory.** -/
theorem ends_mergeLocal_undisturbed (hask : ∀ name parent t, ∃ r,
      (mergedAbove ask name parent).run t = (r, t) ∧
        r.toOption.map MergedRef.definition = above parent) (hf : f < s.factories.length) :
    Ends (mergeLocal f ask name) s fun r t =>
      Merger.Undisturbed above (s.bench f, { stage := .seek name })
        (t.bench f, { stage := .ended r.toOption }) := by
  unfold mergeLocal
  simp only [ends_bind, ends_lift, theFactory_apply]
  have hroom : ((s.factory f).unmet []).length < (s.factory f).definitions.size + 1 := by
    rw [Factory.unmet, DefinitionStore.size, ← OrderedMap.length_keys]
    exact Nat.lt_succ_of_le (List.length_filter_le ..)
  refine (ends_mergeAlong_undisturbed hask _ name [] hf hroom).mono fun r t h => ?_
  cases r <;> exact h.run

end

/-! ## Replacements -/

/-- Steps of one replacement, with no other in between. -/
def Replacer.Undisturbed : Factory × Replacer → Factory × Replacer → Prop :=
  ReflTransGen fun x y => x.2.step x.1 = y

theorem Replacer.Undisturbed.single {x y : Factory × Replacer} (h : x.2.step x.1 = y) :
    Undisturbed x y := ReflTransGen.single h

/-- A factory has the blueprint and the cached merges of a factory in a session. -/
structure Beside (B G : Factory) (f : FactoryId) (s : Session) : Prop where
  here : G.blueprint = B
  there : (s.factory f).blueprint = B
  merged : (s.factory f).merged = G.merged
  length : f < s.factories.length
  linked : s.Linked Set.univ

/-- A replacer has got from some names to those it left for later, and the factory it works on is
still beside the one in the session. -/
def Follows (B G : Factory) (f : FactoryId) (visits : List String) (V : OrderedSet String)
    (later : List String) (V' : OrderedSet String) (t : Session) : Prop :=
  ∃ G', Beside B G' f t ∧
    Replacer.Undisturbed (G, .visit (visits ++ later) V) (G', .visit later V')

/-- A way to reset a name that a replacer follows. -/
def Followed (B : Factory) (f : FactoryId)
    (reset : String → Bool → OrderedSet String → Effect (OrderedSet String)) : Prop :=
  ∀ (later : List String) ⦃G s name destroySingleton V⦄, Beside B G f s →
    Yields True (reset name destroySingleton V) s (Follows B G f [name] V later)

section

variable {env : Collaborators} {again : Reentry} {B G : Factory} {f : FactoryId} {s t : Session}
  {name : String}

theorem Beside.reads (h : Beside B G f s) (hr : s.Reads Set.univ t)
    (hm : (t.factory f).merged = (s.factory f).merged) : Beside B G f t where
  here := h.here
  there := (Factory.blueprint_of_recipe (hr.recipe f)).trans h.there
  merged := hm.trans h.merged
  length := hr.length ▸ h.length
  linked := hr.linked h.linked

theorem Beside.evict (h : Beside B G f s) : Beside B { G with merged := G.merged.evict name } f
    (s.modifyFactory f fun F => { F with merged := F.merged.evict name }) where
  here := h.here
  there := by
    rw [factory_modifyFactory_self h.length]
    exact h.there
  merged := by
    rw [factory_modifyFactory_self h.length]
    exact congrArg (fun cache => MergedCache.evict cache name) h.merged
  length := by simpa using h.length
  linked := by
    rw [modifyFactory_eq_setFactory]
    exact linked_setFactory h.linked rfl

theorem Followed.children {reset : String → Bool → OrderedSet String → Effect (OrderedSet String)}
    (h : Followed B f reset) (later : List String) :
    ∀ {entries : List (String × Definition)} {G s V}, Beside B G f s →
      Yields True (entries.foldlM (fun visited (child, d) => do
          if child ≠ name && (← theFactory f).isChildOf d name then reset child true visited
          else return visited) V) s
        (Follows B G f ((entries.filter fun e => e.1 ≠ name && B.isChildOf e.2 name).map Prod.fst) V
          later)
  | [], G, s, V, hs => ⟨G, hs, .refl⟩
  | (c, d) :: entries, G, s, V, hs => by
    have hchild : (s.factory f).isChildOf d name = B.isChildOf d name := by
      rw [← hs.there]
      rfl
    simp only [List.foldlM_cons, yields_bind, yields_lift, theFactory_apply, hchild]
    split
    · rename_i hc
      rw [List.filter_cons_of_pos (by simpa using hc)]
      let children := (entries.filter fun e => e.1 ≠ name && B.isChildOf e.2 name).map Prod.fst
      refine (h (children ++ later) hs).mono fun V₁ t ht => ?_
      obtain ⟨G₁, ht, hrun⟩ := ht
      refine (h.children later ht).mono fun V' u hu => ?_
      obtain ⟨G', hu, hrun'⟩ := hu
      exact ⟨G', hu, hrun.trans hrun'⟩
    · rename_i hc
      rw [yields_pure, List.filter_cons_of_neg (by simpa using hc)]
      exact h.children later hs

/-- A reset, given that resets of the children are followed and destructions spare the cache. -/
theorem followed_resetDefinition (hreset : Followed B f (again.reset f))
    (hdestroy : ∀ {G s name}, Beside B G f s →
      Yields True (again.destroy f name) s fun _ t => Beside B G f t) :
    Followed B f (resetDefinition again f) := by
  intro later G s name destroySingleton V hs
  unfold resetDefinition
  split
  · rename_i hV
    refine ⟨G, hs, .single ?_⟩
    simp only [List.cons_append, List.nil_append, Replacer.step, hV, if_true]
  · rename_i hV
    let G₁ : Factory := { G with merged := G.merged.evict name }
    have hvisit : Replacer.Undisturbed (G, .visit ([name] ++ later) V)
        (G₁, .descend name later (V.insert name)) := .single (by
      simp only [List.cons_append, List.nil_append, Replacer.step]
      exact if_neg hV)
    have hrest {t : Session} (ht : Beside B G₁ f t) :
        Yields True (do
          let definitions := (← theFactory f).definitions.definitions.entries
          definitions.foldlM (fun visited (child, d) => do
            if child ≠ name && (← theFactory f).isChildOf d name then again.reset f child true visited
            else return visited) (V.insert name)) t (Follows B G f [name] V later) := by
      simp only [yields_bind, yields_lift, theFactory_apply]
      refine (hreset.children later ht).mono fun V' u hu => ?_
      obtain ⟨G', hu, hrun⟩ := hu
      refine ⟨G', hu, (hvisit.tail ?_).trans hrun⟩
      have hentries : (t.factory f).definitions = G₁.definitions :=
        Factory.definitions_of_blueprint (ht.there.trans ht.here.symm)
      simp only [Replacer.step, hentries, Factory.children, ← ht.here]
      rfl
    rw [yields_bind, yields_lift, updateFactory_apply]
    dsimp only
    split
    · rw [yields_bind]
      refine (hdestroy hs.evict).mono fun failures t ht => ?_
      rw [yields_bind, yields_modify]
      exact hrest (ht.reads (.of_remarks .writeNotices)
        (by rw [Session.Remarks.writeNotices.factory]))
    · exact hrest hs.evict

theorem beside_destroy (reading : env.Reading) (quiet : env.QuietEnds) {depth : Nat}
    (h : Beside B G f s) :
    Yields True ((reentry env depth).destroy f name) s fun _ t => Beside B G f t := by
  have hreads := (reentry_reading reading depth).keep.destroy f trivial name s h.linked
  exact (hreads.and (yields_destroy_merged quiet h.length)).mono fun _ _ ht => h.reads ht.1 (ht.2.2 f)

theorem followed_reentry (reading : env.Reading) (quiet : env.QuietEnds) :
    ∀ depth, Followed B f ((reentry env depth).reset f)
  | 0 => fun _ _ _ _ _ _ _ => trivial
  | depth + 1 => followed_resetDefinition (followed_reentry reading quiet depth)
      fun h => beside_destroy reading quiet h

/-- **A replacement that nobody gets in between is a registration**, as far as definitions and
cached merges go. -/
theorem yields_registerDefinition_undisturbed (reading : env.Reading) (quiet : env.QuietEnds)
    (hf : f < s.factories.length) (hl : s.Linked Set.univ) {depth : Nat} {d : Definition} :
    Yields True (registerDefinition (reentry env depth) f name d).run s fun _ t =>
      ∃ G V, Beside G.blueprint G f t ∧
        Replacer.Undisturbed (s.factory f, .define name d) (G, .visit [] V) := by
  unfold registerDefinition
  simp only [yields_run_bind, yields_run_liftState, theFactory_apply, yields_run_liftQuery]
  unfold tryUpdate
  simp only [ends_bind, ends_lift, theFactory_apply]
  cases hnew : (s.factory f).define name d with
  | error e =>
    refine ⟨s.factory f, {}, ⟨rfl, rfl, rfl, hf, hl⟩, .single ?_⟩
    simp only [Replacer.step, hnew]
  | ok new =>
    simp only [ends_modify, write_apply, note_apply, yields_run_liftEffect]
    have hparent : new.parent = (s.factory f).parent := by
      obtain ⟨store, rfl, -⟩ := define_spec hnew
      rfl
    have hbeside : Beside new.blueprint new f (((s.setFactory f new).write (.defined f name)).write
        (.notice (Factory.defineNotice name ((s.factory f).definitions.get? name) d))) :=
      Beside.reads (s := s.setFactory f new)
        ⟨rfl, by rw [factory_setFactory_self hf], by rw [factory_setFactory_self hf], by simpa using hf,
          linked_setFactory hl hparent⟩ (.of_factories rfl (.of_univ [_, _] rfl)) rfl
    refine (followed_resetDefinition (followed_reentry reading quiet depth)
      (fun h => beside_destroy reading quiet h) [] hbeside).mono fun V t ht => ?_
    obtain ⟨G, ht, hrun⟩ := ht
    refine ⟨G, V, ht.here.symm ▸ ht, .head ?_ hrun⟩
    simp only [Replacer.step, hnew]
    rfl

end

end BeanContainer
