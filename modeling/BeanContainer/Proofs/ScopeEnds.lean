import BeanContainer.Proofs.Hosting
import BeanContainer.Proofs.Teardown

/-!
How beans leave their scope, one by one or all at once.

They leave first and are destroyed then; destroy callbacks that do not turn to
the session find nothing to interfere with. Clearing a scope runs every
callback, newest first, and reports one error for each that fails.
-/

namespace BeanContainer

open Session

/-! ## Destructions one after another -/

namespace Session.Destroys

variable {s t u : Session} {ran later : List Destruction}

theorem of_remarks (h : s.Remarks t) : s.Destroys [] t := by
  obtain ⟨new, told, hnew⟩ := h.recorded
  refine ⟨h.same, new, told, ?_, fun o ho => .inl (hnew o ho)⟩
  exact List.filter_eq_nil_iff.2 fun o ho => by simp [Occurrence.isDestruction_of_isRemark (hnew o ho)]

theorem trans (h : s.Destroys ran t) (h' : t.Destroys later u) : s.Destroys (ran ++ later) u where
  same := by rw [h'.same, h.same]
  recorded := by
    obtain ⟨new, e, hran, hnew⟩ := h.recorded
    obtain ⟨new', e', hran', hnew'⟩ := h'.recorded
    refine ⟨new' ++ new, by rw [e', e, List.append_assoc], ?_, fun o ho => ?_⟩
    · rw [List.filter_append, hran, hran', List.flatMap_append, List.reverse_append]
    · exact (List.mem_append.1 ho).elim (hnew' o) (hnew o)

theorem scope (h : s.Destroys ran t) (k : ScopeId) : t.scope k = s.scope k :=
  (congrArg (Session.scope · k) h.same :)

theorem setup {U : Set FactoryId} (h : s.Destroys ran t) : s.SameSetup U t := by
  obtain ⟨new, e, -, hnew⟩ := h.recorded
  have told : s.Tells U t := by
    refine ⟨new, e, fun o ho g hg => ?_⟩
    rcases hnew o ho with ho | ho <;> cases o <;> first | cases hg; done | cases ho
  exact .of_reads (.of_factories h.factories told) (by rw [h.same])

/-- Nothing comes to a scope or leaves it while instances are destroyed. -/
theorem accounts (h : s.Destroys ran t) (k : ScopeId) : ∃ new, t.record = new ++ s.record ∧
    arrivals k new = [] ∧ departures k new = [] ∧
    new.filter Occurrence.isDestruction = (ran.flatMap Destruction.occurrences).reverse := by
  obtain ⟨new, e, hran, hnew⟩ := h.recorded
  have hstays (o) (ho : o ∈ new) : o.keptIn? k = none ∧ o.leftFrom? k = none := by
    rcases hnew o ho with ho | ho <;> cases o <;> first | exact ⟨rfl, rfl⟩ | cases ho
  exact ⟨new, e, arrivals_eq_nil fun o ho => (hstays o ho).1, departures_eq_nil fun o ho => (hstays o ho).2, hran⟩

end Session.Destroys

theorem endings_eq {new : List Occurrence} {ran : List Destruction}
    (h : new.filter Occurrence.isDestruction = (ran.flatMap Destruction.occurrences).reverse) :
    endings new = ran.map fun d => (d.name, d.victim) := by
  have hends : new.filterMap Occurrence.ending? =
      (new.filter Occurrence.isDestruction).filterMap Occurrence.ending? := by
    rw [List.filterMap_filter]
    refine List.filterMap_congr fun o _ => ?_
    cases o <;> rfl
  have hone (d : Destruction) : d.occurrences.filterMap Occurrence.ending? = [(d.name, d.victim)] := rfl
  unfold endings
  rw [hends, h, List.filterMap_reverse, List.reverse_reverse, List.filterMap_flatMap]
  simp only [hone, List.map_eq_flatMap]

variable {env : Collaborators} {again : Reentry} {s t : Session} {n : String} {i : Instance}
  {processors : List ProcessorId}

/-- Callbacks that destroy beans, run one after another: all of them run, whatever fails. -/
theorem yields_mapM_ran {processors : String → List ProcessorId}
    {step : String × ScopeCallback → Effect (String × Option Failure)}
    (hstep : ∀ n i s, Yields False (step (n, .destroyBean n i (processors n))) s fun r t =>
      ∃ failure, r = (n, failure) ∧ s.Destroys [⟨n, i, failure⟩] t ∧
        Destruction.Ran env (processors n) ⟨n, i, failure⟩)
    (l : List (String × Instance)) :
    ∀ s, Yields False ((l.map fun e => (e.1, ScopeCallback.destroyBean e.1 e.2 (processors e.1))).mapM step) s
      fun results t => ∃ ran : List Destruction, ran.map (fun d => (d.name, d.victim)) = l ∧
        results = ran.map (fun d => (d.name, d.failure)) ∧ s.Destroys ran t ∧
          ∀ d ∈ ran, d.Ran env (processors d.name) := by
  induction l with
  | nil => exact fun s => ⟨[], rfl, rfl, .of_remarks (.refl s), by simp⟩
  | cons e l ih =>
    intro s
    rw [List.map_cons, List.mapM_cons, yields_bind]
    refine (hstep e.1 e.2 s).mono ?_
    rintro _ t ⟨failure, rfl, ht, hreal⟩
    rw [yields_bind]
    refine (ih t).mono ?_
    rintro _ u ⟨ran, hran, rfl, hu, hall⟩
    refine ⟨⟨e.1, e.2, failure⟩ :: ran, ?_, rfl, ht.trans hu, ?_⟩
    · rw [List.map_cons, hran]
    · exact List.forall_mem_cons.2 ⟨hreal, hall⟩

/-! ## Leaving a scope -/

namespace ScopeHost

variable {H : ScopeHost} {g : FactoryId} {mid : Session} {ran : List Destruction} {gone : List (String × Instance)}

variable (H) in
/-- Some instances have left the scope, and nothing else has happened. -/
structure Leaves (gone : List (String × Instance)) (s mid : Session) : Prop where
  setup : s.SameSetup H.U mid
  factories : mid.factories = s.factories
  elsewhere : ∀ l ≠ H.k, mid.scope l = s.scope l
  unkept : ∀ x, (s.scope H.k).get? x = none → (mid.scope H.k).get? x = none
  paired : (s.scope H.k).Paired H.required H.processors → (mid.scope H.k).Paired H.required H.processors
  order : (mid.scope H.k).stored.Sublist (s.scope H.k).stored
  balance : (gone ++ (mid.scope H.k).stored).Perm (s.scope H.k).stored
  told : ∃ left, mid.record = left ++ s.record ∧ arrivals H.k left = [] ∧ departures H.k left = gone ∧
    left.filter Occurrence.isDestruction = []

theorem leaves_takeFrom (hlt : H.k < s.scopes.length) :
    H.Leaves (((s.scope H.k).get? n).toList.map fun i => (n, i)) s (s.takeFrom H.k n).2 := by
  have hk : (s.takeFrom H.k n).2.scope H.k = ((s.scope H.k).remove n).2 := by
    rw [scope_takeFrom, scope_setScope_self hlt]
  have htold (o : Option Instance) : let left := o.toList.map fun i => Occurrence.left H.k n i
      arrivals H.k left = [] ∧ departures H.k left = (o.toList.map fun i => (n, i)) ∧
        left.filter Occurrence.isDestruction = [] := by
    cases o with
    | none => exact ⟨rfl, rfl, rfl⟩
    | some i => exact ⟨rfl, by simp [departures, Occurrence.leftFrom?], rfl⟩
  refine { setup := .of_change .take, factories := factories_takeFrom
           elsewhere := fun l hl => by rw [scope_takeFrom, scope_setScope_of_ne hl]
           unkept := fun x hx => by rw [hk]; exact Scope.get?_remove_eq_none hx
           paired := fun hp => by rw [hk]; exact hp.remove
           order := by rw [hk, Scope.stored_remove]; exact List.filter_sublist
           balance := ?_
           told := ⟨_, record_takeFrom, htold _⟩ }
  rw [hk]
  cases hn : (s.scope H.k).get? n with
  | none => rw [Scope.stored_remove_of_none hn]; exact .refl _
  | some i => exact (Scope.perm_stored_remove hn).symm

theorem leaves_emptyScope (hlt : H.k < s.scopes.length) :
    H.Leaves (s.scope H.k).stored s (s.emptyScope H.k) := by
  have hk : (s.emptyScope H.k).scope H.k = (s.scope H.k).emptied := by
    rw [scope_emptyScope, scope_setScope_self hlt]
  have htold (l : List (String × Instance)) :
      let left := (l.map fun e => Occurrence.left H.k e.1 e.2).reverse
      arrivals H.k left = [] ∧ departures H.k left = l ∧ left.filter Occurrence.isDestruction = [] := by
    refine ⟨?_, ?_, ?_⟩
    · simp [arrivals, Occurrence.keptIn?]
    · simp [departures, Occurrence.leftFrom?, List.filterMap_map, Function.comp_def]
    · refine List.filter_eq_nil_iff.2 fun o ho => ?_
      obtain ⟨_, -, rfl⟩ := List.mem_map.1 (List.mem_reverse.1 ho)
      exact Bool.false_ne_true
  exact { setup := .of_change .empty, factories := factories_emptyScope
          elsewhere := fun l hl => by rw [scope_emptyScope, scope_setScope_of_ne hl]
          unkept := fun x _ => by rw [hk, Scope.get?_emptied]
          paired := fun hp => by rw [hk]; exact hp.emptied
          order := by rw [hk, Scope.stored_emptied]; exact List.nil_sublist _
          balance := by rw [hk, Scope.stored_emptied, List.append_nil]
          told := ⟨_, record_emptyScope, htold _⟩ }

variable (H) in
/-- Instances are removed from the scope: what was destroyed, in order, and what is left. The
destructions are those of `ran`. -/
structure Removes (victims : List (String × Instance)) (rest : Scope) (ran : List Destruction)
    (s t : Session) : Prop where
  victims : ran.map (fun d => (d.name, d.victim)) = victims
  real : ∀ d ∈ ran, d.Ran H.env (H.processors d.name)
  record : t.record.filter Occurrence.isDestruction =
    (ran.flatMap Destruction.occurrences).reverse ++ s.record.filter Occurrence.isDestruction
  rest : t.scope H.k = rest
  tends : H.Tends s t

variable (H) in
/-- The instance under a name, if there is one, is removed and destroyed. -/
abbrev Drops (n : String) (ran : List Destruction) (s t : Session) : Prop :=
  H.Removes (((s.scope H.k).get? n).toList.map fun i => (n, i)) ((s.scope H.k).remove n).2 ran s t

variable (H) in
/-- All instances are removed, and those that have to hear of their end are destroyed, newest first. -/
abbrev Clears (ran : List Destruction) (s t : Session) : Prop :=
  H.Removes ((s.scope H.k).stored.filter H.required).reverse (s.scope H.k).emptied ran s t

/-- **What leaves the scope is destroyed**, as far as it has to hear of its end, and nothing else. -/
theorem Leaves.removes {victims : List (String × Instance)} {rest : Scope} (hl : s.Linked H.U)
    (h : H.Leaves gone s mid) (hrest : mid.scope H.k = rest) (hd : mid.Destroys ran t) (hvictims : ran.map (fun d => (d.name, d.victim)) = victims)
    (hreal : ∀ d ∈ ran, d.Ran H.env (H.processors d.name))
    (hended : (victims.filter H.required).Perm (gone.filter H.required))
    (hspared : victims.Subperm gone) : H.Removes victims rest ran s t := by
  have hfactory (g) : t.factory g = s.factory g := by
    unfold factory
    rw [hd.factories, h.factories]
  obtain ⟨left, e, hnone, hgone, hstill⟩ := h.told
  obtain ⟨new, e', hnone', hstay, hran⟩ := hd.accounts H.k
  have hall : (new ++ left).filter Occurrence.isDestruction =
      (ran.flatMap Destruction.occurrences).reverse := by
    rw [List.filter_append, hran, hstill, List.append_nil]
  have hdepartures : departures H.k (new ++ left) = gone := by
    rw [departures_append, hgone, hstay, List.append_nil]
  have hendings : endings (new ++ left) = victims := (endings_eq hall).trans hvictims
  have htold : t.record = (new ++ left) ++ s.record := by rw [e', e, List.append_assoc]
  have haccount : ScopeAccount H.required (H.maker H.k) H.k s.record (s.scope H.k).stored (mid.scope H.k).stored
      (new ++ left) := by
    refine .left ?_ ?_ h.order ?_ ?_
    · rw [arrivals_append, hnone, hnone', List.append_nil]
    · rw [hdepartures]
      exact h.balance
    · rwa [hdepartures, hendings]
    · rwa [hdepartures, hendings]
  refine { victims := hvictims, real := hreal, rest := (hd.scope H.k).trans hrest
           record := by rw [htold, List.filter_append, hall]
           tends :=
             { setup := h.setup.trans hl hd.setup
               paired := fun hp => hd.scope H.k ▸ h.paired hp
               flags := fun g => by rw [hfactory]; exact ⟨rfl, rfl⟩
               unkept := fun _ _ x _ l _ hx => ?_
               singletons := fun _ _ x _ => by unfold singleton?; rw [hfactory]
               told := ⟨_, htold, hd.scope H.k ▸ haccount⟩ } }
  rw [hd.scope]
  by_cases hlk : l = H.k
  · subst hlk
    exact h.unkept x hx
  · rwa [h.elsewhere l hlk]

/-! ## One by one -/

theorem yields_drop (hs : H.Serves s) (hmaker : H.maker H.k n = g) :
    Yields False (do
      match ← modifyGet fun s => s.takeFrom H.k n with
      | some i => destroyBean H.env again g n i
      | none => return : Act Unit).run s fun r t => ∃ ran, H.Drops n ran s t ∧
        r = (ran.filterMap Destruction.error?).head?.elim (.ok ()) .error := by
  have hleaves : H.Leaves _ s (s.takeFrom H.k n).2 := leaves_takeFrom hs.lt
  have hrest : (s.takeFrom H.k n).2.scope H.k = ((s.scope H.k).remove n).2 := by
    rw [scope_takeFrom, scope_setScope_self hs.lt]
  have hprocessors : ((s.takeFrom H.k n).2.factory g).processors = H.processors n := by
    rw [hleaves.setup.factoryProcessors, hs.setup.factoryProcessors, processors, hmaker]
  rw [yields_run_bind, yields_run_modifyGet, show (s.takeFrom H.k n).1 = _ from Scope.remove_fst]
  unfold Drops
  cases hn : (s.scope H.k).get? n with
  | none =>
    rw [hn] at hleaves
    exact ⟨[], hleaves.removes hs.linked hrest (.of_remarks (.refl _)) rfl (by simp) (.refl _) (.refl _), rfl⟩
  | some i =>
    rw [hn] at hleaves
    unfold destroyBean
    dsimp only
    rw [yields_run_bind, yields_run_liftState, theFactory_apply]
    dsimp only
    rw [yields_run_bind, yields_run_liftEffect, hprocessors]
    refine (yields_destroyInstance_ran H.quiet).mono ?_
    rintro failure t ⟨hd, hreal⟩
    have hremoves : H.Removes [(n, i)] ((s.scope H.k).remove n).2 [⟨n, i, failure⟩] s t :=
      hleaves.removes hs.linked hrest hd rfl (by simpa using hreal) (.refl _) (.refl _)
    cases failure <;> exact ⟨_, hremoves, rfl⟩

theorem Removes.after_merged {victims : List (String × Instance)} {rest : Scope} (hl : s.Linked H.U)
    (h : H.Removes victims rest ran mid t) (hm : s.Merged H.U mid) : H.Removes victims rest ran s t where
  victims := h.victims
  real := h.real
  rest := h.rest
  tends := (Tends.of_merged hm).trans hl h.tends
  record := by
    obtain ⟨new, told, hnew⟩ := hm.remarked
    have hremarks : new.filter Occurrence.isDestruction = [] :=
      List.filter_eq_nil_iff.2 fun o ho => by simp [Occurrence.isDestruction_of_isRemark (hnew o ho)]
    rw [h.record, told, List.filter_append, hremarks, List.nil_append]

/-- **A bean that is taken out of its scope is destroyed**, and nothing else happens. -/
theorem yields_destroyScoped {name : String} (hs : H.Serves s) (hg : g ∈ H.U)
    (hn : (H.origin.factory g).canonical name = n)
    (hscope : ∀ m j, H.origin.Own g n m → (H.origin.factory g).scopes.get? m.scope = some j → j = H.k) :
    Yields False (destroyScoped H.env again g name).run s fun r t => H.Tends s t ∧
      ∀ m, H.origin.Own g n m → m.isSingleton = false → m.isPrototype = false →
        (H.origin.factory g).scopes.get? m.scope = some H.k →
        ∃ ran, H.Drops n ran s t ∧ r = (ran.filterMap Destruction.error?).head?.elim (.ok ()) .error := by
  have hown (m) : H.origin.Own g n m ↔ s.Own g n m := (hs.setup.own_iff H.linked hg).symm
  unfold destroyScoped
  rw [yields_run_bind, yields_run_liftState, theFactory_apply]
  dsimp only
  rw [hs.setup.canonical, hn, yields_run_bind, yields_run_liftQuery]
  refine (ends_mergedOwn hs.linked hg).mono ?_
  rintro (e | merged) mid ⟨hm, hdefinition⟩
  · refine ⟨.of_merged hm, fun m hm _ _ _ => ?_⟩
    obtain ⟨_, he, -⟩ := (hdefinition m).1 ((hown m).1 hm)
    cases he
  have howned : H.origin.Own g n merged.definition := (hown _).2 ((hdefinition _).2 ⟨merged, rfl, rfl⟩)
  have hmid : H.Serves mid := hs.tend (.of_merged hm)
  have hstill : mid.scope H.k = s.scope H.k := by
    unfold scope
    rw [(congrArg Session.scopes hm.same :)]
  dsimp only
  split
  · next hother =>
    refine ⟨.of_merged hm, fun m hm hsingleton hprototype _ => ?_⟩
    obtain rfl := own_unique hm howned
    rw [hsingleton, hprototype] at hother
    cases hother
  · next hother =>
    rw [yields_run_bind, yields_run_liftState, theFactory_apply]
    dsimp only
    rw [hmid.setup.scopes]
    split
    · next j hj =>
      obtain rfl := hscope _ j howned hj
      have hsingleton : merged.definition.isSingleton = false := by
        rw [Bool.not_eq_true, Bool.or_eq_false_iff] at hother
        exact hother.1
      have hmaker : H.maker H.k n = g := H.apart g hg n H.k ⟨_, howned, hsingleton, hj⟩
      refine (yields_drop hmid hmaker).mono fun r t hdrop => ?_
      obtain ⟨ran, hremoves, hr⟩ := hdrop
      rw [Drops, hstill] at hremoves
      have hall := hremoves.after_merged hs.linked hm
      exact ⟨hall.tends, fun _ _ _ _ _ => ⟨ran, hall, hr⟩⟩
    · next hnone =>
      refine ⟨.of_merged hm, fun m hm _ _ hk => ?_⟩
      obtain rfl := own_unique hm howned
      exact (hnone _ hk).elim

/-! ## All at once -/

/-- **Clearing the scope runs every callback, newest first, whatever fails.** -/
theorem yields_clearScope (hs : H.Serves s) :
    Yields False (clearScope H.env again H.k) s fun results t => ∃ ran : List Destruction,
      results = ran.map (fun d => (d.name, d.failure)) ∧ H.Clears ran s t := by
  obtain ⟨name, instances, callbacks, hscope⟩ := hs.paired.written
  have hpending := hs.paired.pending
  have hleaves : H.Leaves (s.scope H.k).stored s (s.emptyScope H.k) := leaves_emptyScope hs.lt
  have hrest : (s.emptyScope H.k).scope H.k = (s.scope H.k).emptied := by
    rw [scope_emptyScope, scope_setScope_self hs.lt]
  unfold clearScope
  rw [yields_bind, yields_get]
  dsimp only
  rw [yields_bind, yields_modify, hpending, ← List.map_reverse, hscope]
  dsimp only
  rw [yields_bind]
  refine (@yields_mapM_ran H.env H.processors _ (fun n i t => ?_) _ _).mono ?_
  · dsimp only
    rw [yields_bind]
    refine (yields_destroyInstance_ran H.quiet).mono ?_
    rintro failure u ⟨hd, hreal⟩
    cases failure with
    | none => exact ⟨none, rfl, hd, hreal⟩
    | some failure => exact ⟨some failure, rfl, hd.trans (.of_remarks (.write rfl)), hreal⟩
  · rintro results t ⟨ran, hran, rfl, hd, hreal⟩
    have hend : (s.emptyScope H.k).Destroys ran (t.write (.notice (.scopeCleared name))) := by
      have := hd.trans (.of_remarks (.write rfl) : t.Destroys [] (t.write (.notice (.scopeCleared name))))
      rwa [List.append_nil] at this
    rw [← hscope] at hran
    refine ⟨ran, rfl, hleaves.removes hs.linked hrest hend hran hreal ?_ ?_⟩
    · rw [List.filter_reverse, List.filter_filter]
      simp only [Bool.and_self]
      exact List.reverse_perm _
    · exact (List.reverse_perm _).subperm.trans List.filter_sublist.subperm

end ScopeHost

end BeanContainer
