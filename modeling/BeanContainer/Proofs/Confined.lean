import BeanContainer.Proofs.Budget
import BeanContainer.Proofs.Changes
import BeanContainer.Proofs.Reading

/-!
What happens among some factories. Ways back that lead to these alone
(`reentryWithin`) have no result for collaborators that ask for others; where they
have one, it is the result of the session itself (`callFactory_of_within`). If the
parents of the factories are among them, then nothing that is asked of them
changes any other factory in this way (`confined_within`).
-/

namespace BeanContainer

open Session

/-! ## Ways back to some factories -/

/-- Whether an operation is a call of one of these factories, and links it to none but these. What
is not known by a label is not called. -/
def Operation.staysWithin (U : List FactoryId) (s : Session) : Operation → Bool
  | on label call => (s.factoryLabels.get? label).all (U.contains ·) && match call with
    | .setParent parent => (s.factoryLabels.get? parent).all (U.contains ·)
    | _ => true
  | _ => false

/-- These ways back, as far as they lead to factories in `U`. There is no result for whoever takes
another one. -/
def Reentry.within (U : List FactoryId) (again : Reentry) : Reentry where
  lookup f name := if f ∈ U then again.lookup f name else ExceptT.mk fun _ => none
  destroy := again.destroy
  reset := again.reset
  perform operation s := if operation.staysWithin U s then again.perform operation s else none

/-- The ways back into a session for collaborators that use none but these factories. -/
def reentryWithin (env : Collaborators) (U : List FactoryId) : Nat → Reentry
  | 0 => reentry env 0
  | depth + 1 => ((reentryWithin env U depth).next env).within U

variable {env : Collaborators} {again : Reentry} {f : FactoryId} {name : String}

theorem approximates_within {U : List FactoryId} : (again.within U).Approximates again where
  lookup f name s r hr := by
    unfold Reentry.within at hr
    dsimp only at hr
    split at hr
    · exact hr
    · cases hr
  destroy _ _ := .refl _
  reset _ _ _ _ := .refl _
  perform operation s r hr := by
    unfold Reentry.within at hr
    dsimp only at hr
    split at hr
    · exact hr
    · cases hr

theorem approximates_reentryWithin {U : List FactoryId} :
    ∀ {depth : Nat}, (reentryWithin env U depth).Approximates (reentry env depth)
  | 0 => approximates_reentry_zero
  | _ + 1 => approximates_within.trans approximates_reentryWithin.next

/-- **What comes of collaborators that use none but some factories comes of them anyway.** -/
theorem callFactory_of_within {U : List FactoryId} {depth : Nat} {call : FactoryCall} {s : Session}
    {r : Answer × Session} (h : callFactory env (reentryWithin env U depth) f call s = some r) :
    callFactory env (reentry env depth) f call s = some r :=
  approximates_callFactory approximates_reentryWithin s r h

/-! ## Changes -/

/-- The parents of these factories are among them. -/
def Session.Closed (s : Session) (U : Set FactoryId) : Prop :=
  ∀ f ∈ U, ∀ p, (s.factory f).parent = some p → p ∈ U

/-- Nothing has changed but the factories in `U`, and their parents are still among them. -/
structure Session.Confined (U : Set FactoryId) (s t : Session) : Prop where
  outside : ∀ g ∉ U, t.factory g = s.factory g
  closed : s.Closed U → t.Closed U

variable {U : Set FactoryId} {s t u : Session}

namespace Session.Confined

theorem refl (s : Session) : s.Confined U s := ⟨fun _ _ => rfl, id⟩

theorem trans (h : s.Confined U t) (h' : t.Confined U u) : s.Confined U u where
  outside g hg := (h'.outside g hg).trans (h.outside g hg)
  closed hc := h'.closed (h.closed hc)

theorem of_parents (outside : ∀ g ∉ U, t.factory g = s.factory g)
    (parents : ∀ g, (t.factory g).parent = (s.factory g).parent) : s.Confined U t where
  outside := outside
  closed hc f hf p hp := hc f hf p (parents f ▸ hp)

theorem setFactory {new : Factory} (hf : f ∈ U) (hp : new.parent = (s.factory f).parent) :
    s.Confined U (s.setFactory f new) :=
  .of_parents (fun _ hg => factory_setFactory_of_ne fun e => hg (e ▸ hf))
    fun _ => proj_setFactory (p := Factory.parent) hp

theorem link {p : FactoryId} (hf : f ∈ U) (hp : p ∈ U) :
    s.Confined U (s.modifyFactory f fun F => { F with parent := some p }) where
  outside g hg := factory_modifyFactory_of_ne fun e => hg (e ▸ hf)
  closed hc g hg q hq := by
    rw [modifyFactory_eq_setFactory] at hq
    by_cases hgf : g = f
    · by_cases hlen : g < s.factories.length
      · subst hgf
        rw [factory_setFactory_self hlen] at hq
        exact Option.some.inj hq ▸ hp
      · rw [factory_of_length_le (by simpa using hlen)] at hq
        cases hq
    · rw [factory_setFactory_of_ne hgf] at hq
      exact hc g hg q hq

end Session.Confined

theorem Session.BeanChange.confined (h : s.BeanChange U t) : s.Confined U t :=
  .of_parents (fun _ hg => h.reads.outside hg) fun _ => h.reads.parent

/-- To change only the factories in `U`, whose parents are among them. -/
def confining (U : Set FactoryId) : Manner where
  Start s := s.Closed U
  Leads s t := s.Confined U t
  refl := .refl
  trans _ h h' := h.trans h'
  start hs h := h.closed hs

theorem confined_settleMerge {n : String} {m : MergedDefinition} (hf : f ∈ U) :
    s.Confined U (settleMerge f n m s).2 := by
  have hmerged : s.Remerged (settleMerge f n m s).2 := remerged_settleMerge
  refine .of_parents (fun g hg => ?_) fun g => by rw [hmerged.factory]
  have hne : g ≠ f := fun e => hg (e ▸ hf)
  rw [settleMerge_apply]
  dsimp only
  split
  · split <;> exact factory_modifyFactory_of_ne hne
  · rfl

/-- **To be confined to some factories covers whatever is done to them.** -/
theorem covers_confining (U : Set FactoryId) : (confining U).CoversCalls U :=
  have steps : MergeSteps U (confining U).Start (fun _ _ => True) fun _ => Asks (confining U) :=
    mergeSteps_asks (fun _ _ => trivial) (fun _ hf _ => confined_settleMerge hf)
      fun hs hf => mem_chain_of_closed hs hf
  have beans : (confining U).CoversBeans U :=
    { bean := fun _ h => h.confined
      parent := fun hs hf hp => hs _ hf _ hp
      ownMerges := fun hs hf => steps.mergedOwn hf _ hs
      merged := fun _ _ _ _ => trivial
      merges := fun hs hf => steps.mergedDefinition hf _ hs }
  beans.covers.coversCalls (fun _ hf h => .setFactory hf h.beans.2)
    (fun {s f source} _ hf => by
      have hset : s.Confined U (s.setFactory f ((s.factory f).copyConfiguration (s.factory source))) :=
        .setFactory hf parent_copyConfiguration
      exact hset.trans (.of_parents (fun _ _ => rfl) fun _ => rfl))
    (fun {s f n i F} _ hf h => by
      obtain ⟨-, _, hF⟩ := registerSingleton_spec h
      have hset : s.Confined U (s.setFactory f F) := .setFactory hf (by rw [hF])
      exact hset.trans (.of_parents (fun _ _ => rfl) fun _ => rfl))
    fun _ hf hp _ _ => .link hf hp

/-- Whatever is asked of these ways back, nothing changes but the factories in `U`. -/
structure Reentry.Confines (U : Set FactoryId) (again : Reentry) : Prop
    extends again.KeepCalls (confining U) U where
  lookups : ∀ f name, Keeps (confining U) (again.lookup f name).run
  perform : ∀ operation, Keeps (confining U) (again.perform operation)

theorem Reentry.Confines.collaborators (ha : again.Confines U) : env.Keep (confining U) U again :=
  Collaborators.within_univ.keep (covers_confining U).toCovers (fun f _ => ha.lookups f)
    fun operation _ => ha.perform operation

variable {V : List FactoryId}

theorem linksWithin_of_staysWithin {label : String} {call : FactoryCall}
    (h : (Operation.on label call).staysWithin V s = true) : call.LinksWithin {g | g ∈ V} s := by
  unfold Operation.staysWithin at h
  cases call
  case setParent parent =>
    intro p hp
    have hparent : (s.factoryLabels.get? parent).all (V.contains ·) = true := (Bool.and_eq_true_iff.1 h).2
    rw [hp] at hparent
    exact List.contains_iff_mem.1 hparent
  all_goals trivial

theorem yields_performOnce_within (ha : again.Confines {g | g ∈ V}) (hs : s.Closed {g | g ∈ V})
    {operation : Operation} (h : operation.staysWithin V s = true) :
    Yields True (performOnce env again operation) s fun _ t => s.Confined {g | g ∈ V} t := by
  cases operation with
  | on label call =>
    unfold performOnce withLabel
    rw [yields_bind, yields_get]
    split
    · next f hf =>
      have hlabel : (s.factoryLabels.get? label).all (V.contains ·) = true := (Bool.and_eq_true_iff.1 h).1
      rw [hf] at hlabel
      exact yields_callFactory (covers_confining _) ha.collaborators ha.toKeepCalls
        (List.contains_iff_mem.1 hlabel) hs (linksWithin_of_staysWithin h)
    · exact .refl s
  | _ => cases h

/-- **Ways back to some factories change no others**, at any depth. -/
theorem confines_reentryWithin : ∀ depth, (reentryWithin env V depth).Confines {g | g ∈ V}
  | 0 => ⟨⟨⟨fun _ _ _ _ _ => trivial, fun _ _ _ _ _ => trivial⟩, fun _ _ _ _ _ _ _ => trivial⟩,
      fun _ _ _ _ => trivial, fun _ _ _ => trivial⟩
  | depth + 1 => by
    have ih := confines_reentryWithin depth
    have hk : env.Keep (confining {g | g ∈ V}) {g | g ∈ V} (reentryWithin env V depth) := ih.collaborators
    have cover := covers_confining {g | g ∈ V}
    have hlookups (f name) : Keeps (confining {g | g ∈ V})
        ((reentryWithin env V (depth + 1)).lookup f name).run := by
      unfold reentryWithin Reentry.within
      dsimp only
      split
      · next hf => exact keeps_lookup cover.making (hk.making cover.toCovers) ih.lookup hf
      · exact fun _ _ => trivial
    refine ⟨⟨⟨fun f _ => hlookups f, fun _ hf _ => cover.cascade hk ih.toKeep hf⟩,
      fun _ hf _ _ _ => keeps_resetDefinition (cover.redefines _ hf).toResets (ih.keepResets hf)⟩, hlookups,
      fun operation s hs => ?_⟩
    refine yields_true_iff.2 fun answer t hr => ?_
    change (if operation.staysWithin V s then performOnce env (reentryWithin env V depth) operation s
      else none) = _ at hr
    split at hr
    · next h => exact yields_true_iff.1 (yields_performOnce_within ih hs h) answer t hr
    · cases hr

end BeanContainer
