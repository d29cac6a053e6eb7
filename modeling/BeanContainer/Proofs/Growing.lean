import BeanContainer.Proofs.Needs

/-!
Making beans by collaborators that never turn to the session. Once it is known
what a bean depends on, the making comes to an end (`terminates_makeOfKind`); and
while beans are made, dependencies are recorded and none is taken back
(`keeps_lookup_growing`).
-/

namespace BeanContainer

open Session

variable {α β : Type} {env : Collaborators} {again : Reentry} {U : Set FactoryId} {s t : Session}
  {f : FactoryId} {name : String} {m : MergedDefinition}

/-! ## Coming to an end -/

/-- A computation comes to an end in every session. -/
def Terminates (m : Effect α) : Prop := ∀ s, Yields False m s fun _ _ => True

theorem terminates_run_pure {a : α} : Terminates (pure a : Act α).run := fun _ => trivial

theorem terminates_run_throw {e : BeanError} : Terminates (throw e : Act α).run := fun _ => trivial

theorem terminates_run_get : Terminates (get : Act Session).run := fun _ => trivial

theorem terminates_run_lift {m : StateM Session α} : Terminates (liftM m : Act α).run := fun _ => trivial

theorem terminates_run_modifyGet {g : Session → α × Session} : Terminates (modifyGet g : Act α).run :=
  fun _ => trivial

theorem Terminates.run_bind {a : Act α} {k : α → Act β} (h : Terminates a.run)
    (hk : ∀ x, Terminates (k x).run) : Terminates (a >>= k).run := by
  intro s
  rw [yields_run_bind]
  refine (h s).mono fun r t _ => ?_
  cases r with
  | ok x => exact hk x t
  | error e => trivial

theorem terminates_run_foldlM {step : β → α → Act β} {l : List α} (h : ∀ b a, Terminates (step b a).run) :
    ∀ {b}, Terminates (l.foldlM step b).run := by
  induction l with
  | nil => exact terminates_run_pure
  | cons a l ih =>
    intro b
    rw [List.foldlM_cons]
    exact (h b a).run_bind fun _ => ih

theorem Terminates.run_unless {c : Prop} [Decidable c] {e : BeanError} {a : Act α} (h : Terminates a.run) :
    Terminates (if c then (do throw e; a) else a : Act α).run := by
  split
  · exact terminates_run_throw.run_bind fun _ => h
  · exact h

theorem terminates_whileHolding {g : Guard} {body : Act α} (h : Terminates body.run) :
    Terminates (whileHolding f g body).run := by
  intro s
  rw [yields_whileHolding]
  split
  · trivial
  · exact h _

theorem terminates_runFor {script : Script α} (h : script.Quiet) :
    Terminates (runFor again name script).run := by
  intro s
  unfold runFor
  rw [yields_run_bind, yields_run_liftEffect]
  refine (yields_runScript_quiet h s).mono fun r t _ => ?_
  cases r <;> trivial

theorem terminates_createBean (quiet : env.Quiet) : Terminates (createBean env again f name m).run := by
  unfold createBean
  refine terminates_run_lift.run_bind fun F => ?_
  split
  · refine terminates_run_lift.run_bind fun _ => terminates_run_lift.run_bind fun _ => ?_
    refine (terminates_runFor (quiet.construct _ _ _ _)).run_bind fun raw =>
      terminates_run_lift.run_bind fun F => ?_
    refine (terminates_run_foldlM fun i p => terminates_run_get.run_bind fun s =>
      terminates_runFor (quiet.before _ _ _)).run_bind fun readied => ?_
    refine (terminates_run_foldlM fun i p => terminates_run_get.run_bind fun s =>
      terminates_runFor (quiet.after _ _ _)).run_bind fun finished => ?_
    exact terminates_run_lift.run_bind fun _ => terminates_run_pure
  · exact terminates_run_throw

theorem terminates_createSingleton (quiet : env.Quiet) :
    Terminates (createSingleton env again f name m).run := by
  unfold createSingleton
  refine terminates_run_lift.run_bind fun F => ?_
  split
  · exact terminates_run_pure
  · rw [whileCreatingSingleton_eq]
    refine Terminates.run_unless (terminates_whileHolding ?_)
    refine (terminates_createBean quiet).run_bind fun made => terminates_run_lift.run_bind fun _ =>
      terminates_run_lift.run_bind fun _ => terminates_run_modifyGet

theorem terminates_createPrototype (quiet : env.Quiet) :
    Terminates (whileCreatingPrototype f name (createBean env again f name m)).run := by
  rw [whileCreatingPrototype_eq]
  exact terminates_whileHolding (terminates_createBean quiet)

theorem terminates_createScoped (quiet : env.Quiet) :
    Terminates (createScoped env again f name m).run := by
  have hmade {k : ScopeId} : Terminates (Scope.getOrMake k name
      (whileCreatingPrototype f name (createBean env again f name m))).run := by
    unfold Scope.getOrMake
    refine terminates_run_get.run_bind fun s => ?_
    split
    · exact terminates_run_pure
    · exact (terminates_createPrototype quiet).run_bind fun made =>
        terminates_run_modifyGet.run_bind fun counts => terminates_run_pure
  unfold createScoped
  refine terminates_run_lift.run_bind fun F => ?_
  split
  · refine hmade.run_bind fun (counts, made) => ?_
    dsimp only
    split
    · refine terminates_run_lift.run_bind fun required => ?_
      split
      · refine terminates_run_lift.run_bind fun F' => ?_
        split
        · exact Terminates.run_bind (fun _ => trivial) fun _ => terminates_run_pure
        · refine terminates_run_lift.run_bind fun _ => Terminates.run_bind (fun s => ?_) fun failure => ?_
          · rw [yields_run_liftEffect]
            exact (yields_destroyInstance_quiet quiet.toQuietEnds).mono fun _ _ _ => trivial
          · split
            · exact terminates_run_lift.run_bind fun _ => terminates_run_pure
            · exact terminates_run_pure
      · exact terminates_run_pure
    · exact terminates_run_pure
  · exact terminates_run_throw

/-- **The making of a bean comes to an end**, when what it depends on has been looked up. -/
theorem terminates_makeOfKind (quiet : env.Quiet) : Terminates (makeOfKind env again f name m).run := by
  unfold makeOfKind
  split
  · exact (terminates_createSingleton quiet).run_bind fun _ => terminates_run_lift.run_bind fun _ =>
      terminates_run_pure
  · split
    · exact terminates_createPrototype quiet
    · exact terminates_createScoped quiet

/-! ## Edges that stay -/

/-- Beans have come and gone, merges were cached, and no dependency was taken back. -/
structure Session.Grows (U : Set FactoryId) (s t : Session) : Prop extends s.Reads U t where
  edges : ∀ {g b d}, s.edge g b d → t.edge g b d

namespace Session.Grows

theorem of_dependencies (h : s.Reads U t)
    (same : ∀ g, (t.factory g).dependencies = (s.factory g).dependencies) : s.Grows U t where
  toReads := h
  edges {g _ _} he := by rwa [edge, same g]

theorem of_factories (h : t.factories = s.factories) (told : s.Tells U t) : s.Grows U t :=
  .of_dependencies (.of_factories h told) fun g => by unfold factory; rw [h]

theorem of_merged (h : s.Merged U t) : s.Grows U t := .of_dependencies h.toReads fun g => by rw [h.factory]

theorem addEdge {d n : String} (hf : f ∈ U) : s.Grows U (s.addEdge f d n) where
  toReads := .addEdge hf
  edges {g b c} he := by
    rw [edge, Session.addEdge, modifyFactory_eq_setFactory]
    exact rel_setFactory (R := fun F F' => F.dependencies.Edge b c → F'.dependencies.Edge b c)
      (fun _ => id) (fun he => DependencyGraph.hasEdge_register.2 (.inl he)) he

end Session.Grows

/-- To let things grow, in a session whose factories are well linked. -/
def growing (U : Set FactoryId) : Manner where
  Start s := s.Linked U
  Leads s t := s.Grows U t
  refl s := ⟨.refl s, id⟩
  trans hl h h' := ⟨h.toReads.trans hl h'.toReads, fun he => h'.edges (h.edges he)⟩
  start hl h := h.toReads.linked hl

theorem coversMaking_growing (U : Set FactoryId) : (growing U).CoversMaking U where
  making hl h := by
    have reads := (covers_reading U).making.making hl h
    cases h with
    | addEdge hf => exact .addEdge hf
    | _ => exact .of_dependencies reads fun _ => rfl
  cache hl hf _ hm := .of_dependencies ((covers_reading U).making.cache hl hf trivial hm) fun _ =>
    proj_setFactory (p := Factory.dependencies) rfl
  hold hl hf ha := (covers_reading U).making.hold hl hf ha
  unhold {s t f g singletons} hl hf ha h := by
    refine ⟨(covers_reading U).making.unhold hl hf ha h.toReads, fun {x b d} he => ?_⟩
    have held : ((s.setFactory f { s.factory f with singletons }).factory x).dependencies =
      (s.factory x).dependencies := proj_setFactory (p := Factory.dependencies) rfl
    have freed : ((t.modifyFactory f fun F =>
        { F with singletons := F.singletons.release g }).factory x).dependencies =
      (t.factory x).dependencies := by
      rw [modifyFactory_eq_setFactory]
      exact proj_setFactory (p := Factory.dependencies) rfl
    rw [edge, freed]
    exact h.edges (by rwa [edge, held])
  parent hl hf hp := (hl _ hf _ hp).1
  ownMerges hl hf := (ends_mergedOwn hl hf).mono fun _ _ h => .of_merged h.1
  merges hl hf := (ends_mergedDefinition hl hf).mono fun _ _ h => .of_merged h.1
  merged _ _ := fun _ _ => trivial

theorem Script.Quiet.keeps {M : Manner} (cover : M.CoversMaking U) {script : Script α} (h : script.Quiet) :
    Keeps M (runScript again script) :=
  keeps_runScript cover (h.within (V := ∅) (P := fun _ => False)) (fun _ hf => hf.elim) fun _ h => h.elim

theorem Collaborators.Quiet.keepCreation {M : Manner} (cover : M.CoversMaking U) (quiet : env.Quiet) :
    env.KeepCreation M U again where
  construct _ _ _ _ _ := (quiet.construct _ _ _ _).keeps cover
  before _ _ _ := (quiet.before _ _ _).keeps cover
  after _ _ _ := (quiet.after _ _ _).keeps cover

theorem keeps_destroyInstance_growing (quiet : env.Quiet) {i : Instance} {processors : List ProcessorId} :
    Keeps (growing U) (destroyInstance env again name i processors) := by
  intro s _
  refine (yields_destroyInstance_quiet quiet.toQuietEnds).of_total.mono ?_
  rintro failure _ ⟨t, ht, rfl⟩
  have told : s.Tells U (s.write (.destroying name i)) := .write nofun
  exact .of_factories ht.factories ((told.trans ht.tells).trans (.write nofun))

theorem keeps_createScoped_growing (quiet : env.Quiet) (hf : f ∈ U) (hm : m.isSingleton = false) :
    Keeps (growing U) (createScoped env again f name m).run := by
  have cover := coversMaking_growing U
  have hmade {k : ScopeId} : Keeps (growing U) (Scope.getOrMake k name
      (whileCreatingPrototype f name (createBean env again f name m))).run := by
    unfold Scope.getOrMake
    refine keeps_run_get.run_bind fun s => ?_
    rw [whileCreatingPrototype_eq]
    split
    · exact keeps_run_pure
    · refine (keeps_whileHolding cover hf (keeps_createBean cover (quiet.keepCreation cover) hf hm)).run_bind
        fun made => Keeps.run_bind (fun s _ => ?_) fun counts => keeps_run_pure
      exact .of_factories factories_keepIn tells_keepIn
  unfold createScoped
  refine keeps_run_theFactory.run_bind fun F => ?_
  split
  · refine hmade.run_bind fun (counts, made) => ?_
    dsimp only
    split
    · refine Keeps.run_bind (fun s _ => (growing U).refl s) fun required => ?_
      split
      · refine keeps_run_theFactory.run_bind fun F' => ?_
        split
        · refine Keeps.run_bind (fun s _ => ?_) fun _ => keeps_run_pure
          exact .of_factories rfl (.of_record_eq rfl)
        · refine cover.keeps_run_note.run_bind fun _ =>
            (keeps_run_effect (keeps_destroyInstance_growing quiet)).run_bind fun failure => ?_
          split
          · exact cover.keeps_run_note.run_bind fun _ => keeps_run_pure
          · exact keeps_run_pure
      · exact keeps_run_pure
    · exact keeps_run_pure
  · exact keeps_run_throw

/-- **Lookups let things grow**, however deep they go. -/
theorem keeps_lookup_growing (quiet : env.Quiet) : ∀ {depth : Nat}, ∀ f ∈ U, ∀ name,
    Keeps (growing U) ((reentry env depth).lookup f name).run
  | 0, _, _, _ => fun _ _ => trivial
  | depth + 1, _, hf, _ => by
    have cover := coversMaking_growing U
    have making : env.KeepMaking (growing U) U (reentry env depth) :=
      { quiet.keepCreation cover with
        ready := fun _ _ => (quiet.ready _ _).keeps cover
        inScope := fun _ hf _ _ _ hm => keeps_createScoped_growing quiet hf hm }
    exact keeps_lookup cover making (keeps_lookup_growing quiet) hf

end BeanContainer
