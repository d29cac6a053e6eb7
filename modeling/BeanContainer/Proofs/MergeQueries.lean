import BeanContainer.Proofs.Merges

/-!
Asking for merges. A merge that is asked for is answered exactly when the name
is merged to something, and with that; whatever else it finds on its way goes
to the caches. Nothing but these and the log changes (`Merged`).
-/

namespace BeanContainer

namespace Session

/-- Two sessions differ by cached merges and their number at most, and by what the log tells of them. -/
structure Remerged (s s' : Session) : Prop where
  same : s' = { s with factories := s'.factories, merges := s'.merges, record := s'.record }
  length : s'.factories.length = s.factories.length
  factory : ∀ g, s'.factory g = { s.factory g with merged := (s'.factory g).merged }
  remarked : ∃ new, s'.record = new ++ s.record ∧ ∀ o ∈ new, o.isRemark = true

/-- Nothing happened between two sessions but merging. -/
structure Merged (U : Set FactoryId) (s s' : Session) : Prop extends Reads U s s', Remerged s s'

variable {U : Set FactoryId} {s t u : Session} {f g : FactoryId} {n : String}
  {m : MergedDefinition}

theorem Remerged.refl (s : Session) : s.Remerged s := ⟨rfl, rfl, fun _ => rfl, [], by simp⟩

theorem Remerged.trans (h : s.Remerged t) (h' : t.Remerged u) : s.Remerged u where
  same := by rw [h'.same, h.same]
  length := h'.length.trans h.length
  factory g := by rw [h'.factory, h.factory]
  remarked := by
    obtain ⟨new, e, hn⟩ := h.remarked
    obtain ⟨new', e', hn'⟩ := h'.remarked
    refine ⟨new' ++ new, by rw [e', e, List.append_assoc], fun o ho => ?_⟩
    exact (List.mem_append.1 ho).elim (hn' o) (hn o)

theorem remerged_noted {k : Nat} {o : Notice} :
    s.Remerged ({ s with merges := k }.write (.notice o)) :=
  ⟨rfl, rfl, fun _ => rfl, [.notice o], rfl, by simp [Occurrence.isRemark]⟩

theorem remerged_cache {c : MergedCache} :
    s.Remerged (s.modifyFactory f fun F => { F with merged := c }) := by
  refine ⟨rfl, length_modifyFactory, fun g => ?_, [], rfl, by simp⟩
  rw [modifyFactory_eq_setFactory]
  by_cases hg : g = f
  · subst hg
    by_cases hlen : g < s.factories.length
    · rw [factory_setFactory_self hlen]
    · rw [factory_of_length_le (by simpa using hlen), factory_of_length_le (by simpa using hlen)]
  · rw [factory_setFactory_of_ne hg]

theorem Merged.refl (s : Session) : s.Merged U s := ⟨.refl s, (Remerged.refl s).same, fun _ => rfl, [], by simp⟩

theorem Merged.trans (hl : s.Linked U) (h : s.Merged U t) (h' : t.Merged U u) : s.Merged U u :=
  { h.toReads.trans hl h'.toReads, h.toRemerged.trans h'.toRemerged with }

theorem length_lt_of_own (h : s.Own f n m) : f < s.factories.length := by
  by_contra hlen
  have hempty : s.factory f = {} := factory_of_length_le (Nat.le_of_not_lt hlen)
  rw [Own, hempty] at h
  rcases h.cached_or_defined with ⟨ref, hr⟩ | hd
  · simp [MergedCache.get?] at hr
  · simp [DefinitionStore.contains, OrderedMap.keys] at hd

theorem merged_cache {c : MergedCache} {k : Nat} {o : Notice} (hf : f ∈ U)
    (hlen : f < s.factories.length)
    (kept : ∀ n ref, (s.factory f).merged.get? n = some ref → c.get? n = some ref)
    (sound : ∀ n ref, c.get? n = some ref → s.Own f n ref.definition) :
    s.Merged U (({ s with merges := k }.write (.notice o)).modifyFactory f fun F =>
      { F with merged := c }) := by
  have h : s.Remerged (({ s with merges := k }.write (.notice o)).modifyFactory f fun F =>
      { F with merged := c }) := remerged_noted.trans remerged_cache
  set t := ({ s with merges := k }.write (.notice o)).modifyFactory f fun F => { F with merged := c }
  have hself : t.factory f = { s.factory f with merged := c } := factory_modifyFactory_self hlen
  have hother {g} (hg : g ≠ f) : t.factory g = s.factory g := factory_modifyFactory_of_ne hg
  refine { h with outside := ?_, recipe := ?_, kept := ?_, sound := ?_, told := .write nofun }
  · exact fun hg => hother fun e => hg (e ▸ hf)
  · intro g
    rw [h.factory]
    rfl
  · intro g n ref hm
    by_cases hg : g = f
    · subst hg
      rw [hself]
      exact kept n ref hm
    · rwa [hother hg]
  · intro g n ref hm
    by_cases hg : g = f
    · subst hg
      rw [hself] at hm
      exact sound n ref hm
    · rw [hother hg] at hm
      exact .cached hm

theorem merged_noted {k : Nat} {o : Notice} :
    s.Merged U ({ s with merges := k }.write (.notice o)) :=
  { Reads.refl s, remerged_noted with told := .write nofun }

end Session

open Session

variable {U : Set FactoryId} {s : Session} {f : FactoryId} {n : String} {m : MergedDefinition}

theorem settleMerge_apply :
    settleMerge f n m s =
      let ref : MergedRef := ⟨s.merges, (s.factory f).settle m⟩
      let t := { s with merges := s.merges + 1 }.write
        (.notice (.definitionMerged n ref.definition.scope))
      if (s.factory f).settings.cacheMetadata then
        match (s.factory f).merged.get? n with
        | some kept => (kept, t.modifyFactory f fun F => { F with merged := (s.factory f).merged })
        | none => (ref, t.modifyFactory f fun F =>
            { F with merged := ⟨(s.factory f).merged.entries.insert n ref⟩ })
      else (ref, t) := by
  unfold settleMerge
  simp only [bind, StateT.bind, theFactory_apply]
  cases hc : (s.factory f).settings.cacheMetadata with
  | false => rfl
  | true =>
    simp only [if_true, MergedCache.insertIfCurrent]
    cases hm : (s.factory f).merged.get? n <;> rfl

theorem settleMerge_spec (hf : f ∈ U) (hown : s.Own f n ((s.factory f).settle m)) :
    (settleMerge f n m s).1.definition = (s.factory f).settle m ∧
      s.Merged U (settleMerge f n m s).2 := by
  have hlen := length_lt_of_own hown
  rw [settleMerge_apply]
  simp only
  split
  · cases hm : (s.factory f).merged.get? n with
    | some kept =>
      simp only
      exact ⟨own_unique (.cached hm) hown, merged_cache hf hlen (fun _ _ h => h) fun _ _ h => .cached h⟩
    | none =>
      simp only
      refine ⟨trivial, merged_cache hf hlen (fun n' ref h => ?_) fun n' ref h => ?_⟩
      · refine (OrderedMap.get?_insert_of_ne ?_).trans h
        rintro rfl
        simp [hm] at h
      · rw [MergedCache.get?, OrderedMap.get?_insert] at h
        split at h
        · rename_i hn
          cases h
          exact hn ▸ hown
        · exact .cached h
  · exact ⟨rfl, merged_noted⟩

/-- Whoever asks is answered exactly what `up` has to say, and only merging happens. -/
def Answers (U : Set FactoryId) (s : Session) (up : String → MergedDefinition → Prop)
    (ask : String → Query MergedRef) : Prop :=
  ∀ n, Ends (ask n) s fun r s' =>
    s.Merged U s' ∧ ∀ m, up n m ↔ ∃ ref, r = .ok ref ∧ ref.definition = m

/-- The factories above are asked, if there are any. -/
def AnswersAbove (U : Set FactoryId) (s : Session) (up : String → MergedDefinition → Prop) :
    Option (String → Query MergedRef) → Prop
  | none => ∀ n m, ¬ up n m
  | some ask => Answers U s up ask

theorem ends_mergedAbove {above : Option (String → Query MergedRef)} {p : String}
    {up : String → MergedDefinition → Prop} (habove : AnswersAbove U s up above) :
    Ends (mergedAbove above n p) s fun r s' =>
      s.Merged U s' ∧ ∀ m, up p m ↔ ∃ ref, r = .ok ref ∧ ref.definition = m := by
  cases above with
  | none =>
    refine ⟨.refl s, fun m => ⟨fun h => absurd h (habove p m), ?_⟩⟩
    rintro ⟨ref, h, -⟩
    cases h
  | some ask =>
    unfold mergedAbove
    simp only [ends_tryCatch]
    refine (habove p).mono ?_
    rintro (e | ref) s' ⟨hs, hr⟩
    · have hno : ∀ m, ¬ up p m := fun m hm => by simpa using (hr m).1 hm
      simp only
      split
      all_goals
        refine ⟨hs, fun m => ⟨fun h => absurd h (hno m), ?_⟩⟩
        rintro ⟨_, h, -⟩
        cases h
    · exact ⟨hs, hr⟩

/-- **A merge along a line is answered exactly when the name is merged to something.** -/
theorem ends_mergeAlong {above : Option (String → Query MergedRef)} (hl : s.Linked U) (hf : f ∈ U)
    (habove : AnswersAbove U s (s.denotes (s.above f)) above) {L : Lineage}
    (hL : (s.factory f).Line n L) :
    Ends (mergeAlong f above L) s fun r s' =>
      s.Merged U s' ∧ ∀ m, s.Own f n m ↔ ∃ ref, r = .ok ref ∧ ref.definition = m := by
  -- Settling happens in a later session, which stands for the same merges.
  have settles {t : Session} {n m} (ht : s.Merged U t) (hown : s.Own f n ((s.factory f).settle m)) :
      Ends (liftM (settleMerge f n m) : Query MergedRef) t fun r s' =>
        s.Merged U s' ∧ ∀ m, s.Own f n m ↔ ∃ ref, r = .ok ref ∧ ref.definition = m := by
    have hsettle : (t.factory f).settle = (s.factory f).settle :=
      Factory.settle_of_blueprint (Factory.blueprint_of_recipe (ht.recipe f))
    obtain ⟨hdef, hmerged⟩ := settleMerge_spec (s := t) (m := m) hf
      (hsettle ▸ (ht.own_iff hl hf).2 hown)
    rw [ends_lift]
    refine ⟨ht.trans hl hmerged, fun m' => ⟨fun h => ⟨_, rfl, ?_⟩, ?_⟩⟩
    · rw [hdef, hsettle]
      exact own_unique hown h
    · rintro ⟨ref, h, rfl⟩
      cases h
      rwa [hdef, hsettle]
  -- No merge comes from a parent that has none.
  have fails {e : BeanError} {t : Session} {n} (ht : s.Merged U t) (hno : ∀ m, ¬ s.Own f n m) :
      s.Merged U t ∧ ∀ m, s.Own f n m ↔
        ∃ ref : MergedRef, (.error e : Except BeanError MergedRef) = .ok ref ∧ ref.definition = m :=
    ⟨ht, fun m => ⟨fun h => absurd h (hno m), fun ⟨_, h, _⟩ => by cases h⟩⟩
  induction hL with
  | @cached n ref hm =>
    refine ⟨.refl s, fun m => ⟨fun h => ⟨ref, rfl, own_unique (.cached hm) h⟩, ?_⟩⟩
    rintro ⟨_, h, rfl⟩
    cases h
    exact .cached hm
  | @missing n hm hd =>
    refine fails (.refl s) fun m h => ?_
    rcases h.cached_or_defined with ⟨ref, hr⟩ | hc
    · simp [hm] at hr
    · obtain ⟨d, hd'⟩ := OrderedMap.contains_iff_get?.1 hc
      cases hd.symm.trans hd'
  | root hm hd hp => exact settles (.refl s) (.root hm hd hp)
  | @child n d q L hm hd hq hne hc hline ih =>
    unfold mergeAlong
    simp only [ends_bind]
    refine ih.mono ?_
    rintro (e | ref) t ⟨ht, hr⟩
    · refine fails ht fun m h => ?_
      obtain ⟨p, hp, -⟩ := h.inv_child hm hd hq hne hc
      simpa using (hr p).1 hp
    · exact settles ht (.child hm hd hq hne hc ((hr _).2 ⟨ref, rfl, rfl⟩))
  | @beyond n d q hm hd hq hlocal =>
    unfold mergeAlong
    simp only [ends_bind]
    refine (ends_mergedAbove habove).mono ?_
    rintro (e | ref) t ⟨ht, hr⟩
    · refine fails ht fun m h => ?_
      obtain ⟨p, hp, -⟩ := h.inv_beyond hm hd hq hlocal
      simpa using (hr p).1 hp
    · exact settles ht (.beyond hm hd hq hlocal ((hr _).2 ⟨ref, rfl, rfl⟩))

theorem ends_mergeAlong_circle {above : Option (String → Query MergedRef)} {x : String}
    {path : List String} {L : Lineage} (h : L.circle? = some (x, path)) :
    Ends (mergeAlong f above L) s fun r s' =>
      r = .error (.definitionStore x (.parentCycle path)) ∧ s' = s := by
  induction L with
  | child _ _ _ ih =>
    unfold mergeAlong
    simp only [ends_bind]
    refine (ih h).mono ?_
    rintro _ _ ⟨rfl, rfl⟩
    exact ⟨rfl, rfl⟩
  | cycle _ _ =>
    cases h
    exact ⟨rfl, rfl⟩
  | _ => cases h

theorem ends_mergeLocal {above : Option (String → Query MergedRef)} (hl : s.Linked U) (hf : f ∈ U)
    (habove : AnswersAbove U s (s.denotes (s.above f)) above) :
    Ends (mergeLocal f above n) s fun r s' =>
      s.Merged U s' ∧ ∀ m, s.Own f n m ↔ ∃ ref, r = .ok ref ∧ ref.definition = m := by
  unfold mergeLocal
  simp only [ends_bind, ends_lift, theFactory_apply]
  cases hc : ((s.factory f).lineage n).circle? with
  | none => exact ends_mergeAlong hl hf habove (Factory.line_of_circle?_eq_none hc)
  | some c =>
    refine (ends_mergeAlong_circle hc).mono ?_
    rintro _ _ ⟨rfl, rfl⟩
    refine ⟨.refl _, fun m => ⟨fun h => ?_, ?_⟩⟩
    · obtain ⟨L, hL⟩ := h.exists_line
      rw [Factory.lineage_eq_of_line hL, hL.circle?_eq_none] at hc
      cases hc
    · rintro ⟨_, h, -⟩
      cases h

theorem answers_mergedIn (hl : s.Linked U) : ∀ {anc : List FactoryId}, s.Chained U anc →
    Answers U s (s.denotes anc) (mergedIn anc)
  | [], _, n => ⟨.refl s, fun m => ⟨False.elim, fun ⟨_, h, _⟩ => by cases h⟩⟩
  | [f], hc, n => by
    have habove : s.above f = [] := by rw [above, hc.2.1]; rfl
    have hnone : AnswersAbove U s (s.denotes (s.above f)) none := by
      rw [habove]
      exact fun _ _ => id
    unfold mergedIn denotes
    simp only [ends_bind, ends_lift, theFactory_apply]
    by_cases hdef : (s.factory f).definitions.contains ((s.factory f).canonical n) = true
    · simp only [hdef, if_true]
      rw [← habove]
      exact ends_mergeLocal hl hc.1 hnone
    · simp only [hdef, Bool.false_eq_true, if_false]
      exact ⟨.refl s, fun m => ⟨False.elim, fun ⟨_, h, _⟩ => by cases h⟩⟩
  | f :: g :: anc, hc, n => by
    have habove : s.above f = g :: anc := by rw [above, hc.2.1]; rfl
    have ih := answers_mergedIn hl hc.2.2
    have hsome : AnswersAbove U s (s.denotes (s.above f)) (some (mergedIn (g :: anc))) := by
      rw [habove]
      exact ih
    unfold mergedIn denotes
    simp only [ends_bind, ends_lift, theFactory_apply]
    by_cases hdef : (s.factory f).definitions.contains ((s.factory f).canonical n) = true
    · simp only [hdef, if_true]
      rw [← habove] at hsome ⊢
      exact ends_mergeLocal hl hc.1 hsome
    · simp only [hdef, Bool.false_eq_true, if_false]
      exact ih _

/-- **Asking a factory for a merge of its own** answers what the name is merged to, if there is
such a merge, and fails otherwise; nothing happens but merging. -/
theorem ends_mergedOwn (hl : s.Linked U) (hf : f ∈ U) :
    Ends (mergedOwn f n) s fun r s' =>
      s.Merged U s' ∧ ∀ m, s.Own f n m ↔ ∃ ref, r = .ok ref ∧ ref.definition = m := by
  have hc := chained_above hl hf
  unfold mergedOwn
  simp only [ends_bind, ends_get]
  split
  · rename_i h
    refine ends_mergeLocal hl hf ?_
    rw [above, h]
    exact fun _ _ => id
  · rename_i h
    refine ends_mergeLocal hl hf ?_
    rw [above, h]
    exact fun _ _ => id
  · rename_i h
    refine ends_mergeLocal hl hf ?_
    rw [above, h] at hc ⊢
    exact answers_mergedIn hl hc

/-- What holds of merging a definition whomever it may ask above holds of asking for the merge. -/
theorem ends_mergedOwn_of_local {Q : Except BeanError MergedRef → Session → Prop}
    (h : ∀ above, Ends (mergeLocal f above n) s Q) : Ends (mergedOwn f n) s Q := by
  unfold mergedOwn
  simp only [ends_bind, ends_get]
  split <;> exact h _

theorem ends_mergedOwn_circle {x : String} {path : List String}
    (hc : ((s.factory f).lineage n).circle? = some (x, path)) :
    Ends (mergedOwn f n) s fun r s' => r = .error (.definitionStore x (.parentCycle path)) ∧ s' = s := by
  refine ends_mergedOwn_of_local fun above => ?_
  unfold mergeLocal
  simp only [ends_bind, ends_lift, theFactory_apply]
  exact ends_mergeAlong_circle hc

theorem ends_mergedOwn_missing (hm : (s.factory f).merged.get? n = none)
    (hd : (s.factory f).definitions.get? n = none) :
    Ends (mergedOwn f n) s fun r s' => r = .error (.noSuchDefinition n) ∧ s' = s := by
  refine ends_mergedOwn_of_local fun above => ?_
  have hline : (s.factory f).lineage n = .missing n := by simp [Factory.lineage, Factory.walk, hm, hd]
  unfold mergeLocal
  simp only [ends_bind, ends_lift, theFactory_apply]
  rw [hline]
  exact ⟨rfl, rfl⟩

theorem ends_mergedDefinition (hl : s.Linked U) (hf : f ∈ U) :
    Ends (mergedDefinition f n) s fun r s' =>
      s.Merged U s' ∧ ∀ m, s.denotes (s.chain f) n m ↔ ∃ ref, r = .ok ref ∧ ref.definition = m := by
  unfold mergedDefinition
  simp only [ends_bind, ends_get]
  exact answers_mergedIn hl (chained_chain hl hf) n

/-! ## What merging is made of -/

/-- Two sessions have the same factories and have counted the same merges. -/
def Session.SameFactories (s t : Session) : Prop := t.factories = s.factories ∧ t.merges = s.merges

/-- The names of the definitions on a line. -/
def Lineage.names : Lineage → List String
  | root name _ | beyond name _ _ => [name]
  | child name _ above => name :: above.names
  | cached _ | cycle .. | missing _ => []

theorem Factory.contains_of_mem_walk {F : Factory} {x : String} : ∀ {steps path n},
    x ∈ (F.walk steps path n).names → F.definitions.contains x = true
  | 0, _, _, h => by simp [walk, Lineage.names] at h
  | steps + 1, path, n, h => by
    have hstep := F.walkStep_walk steps path n
    generalize F.walk (steps + 1) path n = L at hstep h
    cases hstep with
    | met | cached | missing => cases h
    | root _ _ hd | beyond _ _ hd =>
      obtain rfl := List.mem_singleton.1 h
      exact OrderedMap.contains_iff_get?.2 ⟨_, hd⟩
    | child _ _ hd =>
      rcases List.mem_cons.1 h with rfl | h
      · exact OrderedMap.contains_iff_get?.2 ⟨_, hd⟩
      · exact contains_of_mem_walk h

/-- A property of queries that the steps of merging have, one by one, in the sessions in question, as
far as the factories in `U` are concerned. They may go by what is defined there. -/
structure MergeSteps (U : Set FactoryId) (Start : Session → Prop) (Defined : FactoryId → String → Prop)
    (P : (α : Type) → Query α → Prop) : Prop where
  answer {α : Type} (a : α) : P α (pure a)
  fail {α : Type} (e : BeanError) : P α (throw e)
  bind {α β : Type} {q : Query α} {k : α → Query β} : P α q → (∀ a, P β (k a)) → P β (q >>= k)
  handle {α : Type} {q : Query α} {k : BeanError → Query α} :
    P α q → (∀ e, P α (k e)) → P α (tryCatch q k)
  theFactory {α : Type} {f : FactoryId} {k : Factory → Query α} :
    (∀ F : Factory, (∀ n, F.definitions.contains n = true → Defined f n) → P α (k F)) →
      P α (do k (← theFactory f))
  settleMerge {f : FactoryId} {n : String} : f ∈ U → Defined f n → ∀ m,
    P MergedRef (liftM (settleMerge f n m))
  /-- Of the whole session only the factories matter. -/
  get {α : Type} {k : Session → Query α} : (∀ s, Start s → P α (k s)) →
    (∀ s t : Session, s.SameFactories t → k t = k s) → P α (do k (← get))
  chain {s : Session} {f : FactoryId} : Start s → f ∈ U → ∀ g ∈ s.chain f, g ∈ U

theorem Session.SameFactories.factory_eq {t : Session} (h : s.SameFactories t) (g : FactoryId) :
    t.factory g = s.factory g := by rw [Session.factory, h.1]; rfl

theorem Session.SameFactories.chain_eq {t : Session} (h : s.SameFactories t) : t.chain f = s.chain f :=
  chain_congr (by rw [h.1]) fun g => by rw [h.factory_eq]

namespace MergeSteps

variable {Start : Session → Prop} {Defined : FactoryId → String → Prop}
  {P : (α : Type) → Query α → Prop} {above : Option (String → Query MergedRef)} {p : String}

theorem mergedAbove (steps : MergeSteps U Start Defined P) (h : ∀ ask ∈ above, ∀ n, P MergedRef (ask n)) :
    P MergedRef (mergedAbove above n p) := by
  unfold BeanContainer.mergedAbove
  split
  · exact steps.fail _
  · next ask =>
    refine steps.handle (h ask rfl p) fun e => ?_
    split <;> exact steps.fail _

theorem mergeAlong (steps : MergeSteps U Start Defined P) (hf : f ∈ U)
    (h : ∀ ask ∈ above, ∀ n, P MergedRef (ask n)) :
    ∀ line : Lineage, (∀ x ∈ line.names, Defined f x) → P MergedRef (mergeAlong f above line)
  | .cached merged, _ => steps.answer merged
  | .root _ _, hline => steps.settleMerge hf (hline _ List.mem_cons_self) _
  | .child _ _ line, hline =>
    steps.bind (mergeAlong steps hf h line fun x hx => hline x (List.mem_cons_of_mem _ hx)) fun _ =>
      steps.settleMerge hf (hline _ List.mem_cons_self) _
  | .beyond _ _ _, hline =>
    steps.bind (mergedAbove steps h) fun _ => steps.settleMerge hf (hline _ List.mem_cons_self) _
  | .cycle _ _, _ => steps.fail _
  | .missing _, _ => steps.fail _

theorem mergeLocal (steps : MergeSteps U Start Defined P) (hf : f ∈ U)
    (h : ∀ ask ∈ above, ∀ n, P MergedRef (ask n)) : P MergedRef (mergeLocal f above n) :=
  steps.theFactory fun _ hF =>
    mergeAlong steps hf h _ fun x hx => hF x (Factory.contains_of_mem_walk hx)

theorem mergedIn (steps : MergeSteps U Start Defined P) :
    ∀ (chain : List FactoryId) (n : String), (∀ g ∈ chain, g ∈ U) → P MergedRef (mergedIn chain n)
  | [], _, _ => steps.fail _
  | [f], n, hc => by
    unfold BeanContainer.mergedIn
    refine steps.theFactory fun F _ => ?_
    dsimp only
    split
    · exact mergeLocal steps (hc f (by simp)) nofun
    · exact steps.fail _
  | f :: g :: ancestors, n, hc => by
    have ih n := mergedIn steps (g :: ancestors) n fun h hh => hc h (List.mem_cons_of_mem f hh)
    unfold BeanContainer.mergedIn
    refine steps.theFactory fun F _ => ?_
    dsimp only
    split
    · refine mergeLocal steps (hc f (by simp)) ?_
      rintro _ ⟨⟩ n
      exact ih n
    · exact ih _

theorem mergedDefinition (steps : MergeSteps U Start Defined P) (hf : f ∈ U) :
    P MergedRef (mergedDefinition f n) :=
  steps.get (fun _ hs => mergedIn steps _ n (steps.chain hs hf)) fun s t hst => by rw [hst.chain_eq]

/-- **What the steps of merging have, asking for a merge has.** -/
theorem mergedOwn (steps : MergeSteps U Start Defined P) (hf : f ∈ U) : P MergedRef (mergedOwn f n) := by
  unfold BeanContainer.mergedOwn
  refine steps.get (fun s hs => ?_) fun s t hst => by rw [hst.chain_eq]
  have hc := steps.chain hs hf
  split
  · exact mergeLocal steps hf nofun
  · exact mergeLocal steps hf nofun
  · next ancestors he =>
    refine mergeLocal steps hf ?_
    rintro _ ⟨⟩ n
    exact mergedIn steps _ n fun g hg => hc g (he ▸ List.mem_cons_of_mem _ hg)

end MergeSteps

/-! ## In any session -/

theorem remerged_settleMerge : s.Remerged (settleMerge f n m s).2 := by
  rw [settleMerge_apply]
  dsimp only
  split
  · split <;> exact remerged_noted.trans remerged_cache
  · exact remerged_noted

/-- What may be asked in any session changes it by merging at most. -/
def Remerges {α : Type} (q : Query α) : Prop := ∀ s : Session, s.Remerged (q.run s).2

theorem mergeSteps_remerges :
    MergeSteps Set.univ (fun _ => True) (fun _ _ => True) fun _ => Remerges where
  answer _ s := .refl s
  fail _ s := .refl s
  bind {α β q k} h hk s := by
    have hq := h s
    rw [run_bind]
    cases he : q.run s with
    | mk r t =>
      rw [he] at hq
      cases r with
      | ok a => exact hq.trans (hk a t)
      | error e => exact hq
  handle {α q k} h hk s := by
    have hq := h s
    rw [run_tryCatch]
    cases he : q.run s with
    | mk r t =>
      rw [he] at hq
      cases r with
      | ok a => exact hq
      | error e => exact hq.trans (hk e t)
  theFactory h s := h (s.factory _) (fun _ _ => trivial) s
  settleMerge _ _ _ _ := remerged_settleMerge
  get hk _ s := hk s trivial s
  chain _ _ _ _ := trivial

/-- **Whatever asking for a merge finds, nothing but merging happens.** -/
theorem remerged_mergedOwn : s.Remerged ((mergedOwn f n).run s).2 :=
  mergeSteps_remerges.mergedOwn trivial s

/-! ## What is cached -/

theorem cached_settleMerge (hf : f < s.factories.length) (hc : (s.factory f).settings.cacheMetadata = true) :
    Ends (liftM (settleMerge f n m) : Query MergedRef) s fun r t =>
      ∀ ref, r = .ok ref → (t.factory f).merged.get? n = some ref := by
  rw [ends_lift]
  intro ref he
  obtain rfl := Except.ok.inj he
  rw [settleMerge_apply]
  simp only [hc, if_true]
  cases hm : (s.factory f).merged.get? n with
  | some kept =>
    rw [factory_modifyFactory_self (by simpa using hf)]
    exact hm
  | none =>
    rw [factory_modifyFactory_self (by simpa using hf)]
    exact OrderedMap.get?_insert.trans (if_pos rfl)

/-- The first step of a walk: a cached merge ends it, and otherwise the name itself comes first. -/
theorem lineage_cases (F : Factory) (n : String) :
    (∃ ref, F.merged.get? n = some ref ∧ F.lineage n = .cached ref) ∨ F.lineage n = .missing n ∨
      (∃ d, F.lineage n = .root n d) ∨ (∃ d above, F.lineage n = .child n d above) ∨
      ∃ d p, F.lineage n = .beyond n d p := by
  have hstep := F.walkStep_walk F.definitions.size [] n
  unfold Factory.lineage
  generalize F.walk (F.definitions.size + 1) [] n = L at hstep ⊢
  cases hstep with
  | met hn => cases hn
  | @cached m _ hm => exact .inl ⟨m, hm, rfl⟩
  | missing => exact .inr (.inl rfl)
  | root => exact .inr (.inr (.inl ⟨_, rfl⟩))
  | child => exact .inr (.inr (.inr (.inl ⟨_, _, rfl⟩)))
  | beyond => exact .inr (.inr (.inr (.inr ⟨_, _, rfl⟩)))

/-- How asking for a merge ends: a cached merge is the answer; otherwise, whatever is merged before,
the name itself is taken up last. -/
theorem ends_mergedOwn_of_settled {Start L : Session → Prop} {P : (α : Type) → Query α → Prop}
    {Q : Except BeanError MergedRef → Session → Prop} (steps : MergeSteps Set.univ Start (fun _ _ => True) P)
    (leads : ∀ q : Query MergedRef, P MergedRef q → Ends q s fun _ t => L t) (start : L s)
    (cached : ∀ ref, (s.factory f).merged.get? n = some ref → Q (.ok ref) s)
    (failed : ∀ e t, L t → Q (.error e) t)
    (settled : ∀ m t, L t → Ends (liftM (settleMerge f n m) : Query MergedRef) t Q) :
    Ends (mergedOwn f n) s Q := by
  have settles {q : Query MergedRef} {m : MergedRef → MergedDefinition} (hq : P MergedRef q) :
      Ends (do let parent ← q; settleMerge f n (m parent)) s Q := by
    rw [ends_bind]
    refine (leads q hq).mono fun r t ht => ?_
    cases r with
    | error e => exact failed e t ht
    | ok parent => exact settled _ t ht
  have within {above : Option (String → Query MergedRef)}
      (habove : ∀ ask ∈ above, ∀ n, P MergedRef (ask n)) : Ends (mergeLocal f above n) s Q := by
    unfold mergeLocal
    rw [ends_bind, ends_lift, theFactory_apply]
    dsimp only
    obtain ⟨ref, hm, hline⟩ | hline | ⟨d, hline⟩ | ⟨d, line, hline⟩ | ⟨d, p, hline⟩ :=
      lineage_cases (s.factory f) n
    all_goals rw [hline]
    · exact cached ref hm
    · exact failed _ s start
    · exact settled _ s start
    · exact settles (steps.mergeAlong trivial habove line fun _ _ => trivial)
    · exact settles (steps.mergedAbove habove)
  unfold mergedOwn
  rw [ends_bind, ends_get]
  dsimp only
  split
  · exact within nofun
  · exact within nofun
  · refine within ?_
    rintro _ ⟨⟩ n
    exact steps.mergedIn _ n fun _ _ => trivial

/-- **What is answered as the merge of a name is in the cache from then on**, where merges are cached. -/
theorem cached_mergedOwn (hf : f < s.factories.length) (hc : (s.factory f).settings.cacheMetadata = true) :
    Ends (mergedOwn f n) s fun r t => ∀ ref, r = .ok ref → (t.factory f).merged.get? n = some ref := by
  refine ends_mergedOwn_of_settled (L := s.Remerged) mergeSteps_remerges (fun _ hq => hq s) (.refl s)
    (fun ref hm => ?_) (fun e t _ ref he => nomatch he) fun m t ht => ?_
  · rintro _ ⟨⟩
    exact hm
  · have hlen : f < t.factories.length := by rwa [ht.length]
    have hcaches : (t.factory f).settings.cacheMetadata = true := by rwa [ht.factory]
    exact cached_settleMerge hlen hcaches

/-! ## What the record has to do with it: nothing -/

/-- A query is answered alike in sessions with the same factories. -/
def Unrecorded {α : Type} (q : Query α) : Prop :=
  ∀ s t : Session, s.SameFactories t →
    (q.run t).1 = (q.run s).1 ∧ (q.run s).2.SameFactories (q.run t).2

variable {α β : Type}

theorem Unrecorded.bind {q : Query α} {k : α → Query β} (h : Unrecorded q)
    (hk : ∀ a, Unrecorded (k a)) : Unrecorded (q >>= k) := by
  intro s t hst
  obtain ⟨hr, hs⟩ := h s t hst
  rw [run_bind, run_bind]
  cases hq : q.run s with
  | mk r s' =>
    cases hq' : q.run t with
    | mk r' t' =>
      rw [hq, hq'] at hr hs
      obtain rfl : r' = r := hr
      cases r' with
      | ok a => exact hk a s' t' hs
      | error e => exact ⟨rfl, hs⟩

theorem Unrecorded.tryCatch {q : Query α} {k : BeanError → Query α} (h : Unrecorded q)
    (hk : ∀ e, Unrecorded (k e)) : Unrecorded (tryCatch q k : Query α) := by
  intro s t hst
  obtain ⟨hr, hs⟩ := h s t hst
  rw [run_tryCatch, run_tryCatch]
  cases hq : q.run s with
  | mk r s' =>
    cases hq' : q.run t with
    | mk r' t' =>
      rw [hq, hq'] at hr hs
      obtain rfl : r' = r := hr
      cases r' with
      | ok a => exact ⟨rfl, hs⟩
      | error e => exact hk e s' t' hs

theorem unrecorded_settleMerge : Unrecorded (liftM (settleMerge f n m) : Query MergedRef) := by
  intro s t hst
  change Except.ok (settleMerge f n m t).1 = Except.ok (settleMerge f n m s).1 ∧
    (settleMerge f n m s).2.SameFactories (settleMerge f n m t).2
  rw [settleMerge_apply, settleMerge_apply, hst.factory_eq, hst.2]
  have hcount {o : Notice} {k : Nat} : ({ s with merges := k }.write (.notice o)).SameFactories
      ({ t with merges := k }.write (.notice o)) := ⟨hst.1, rfl⟩
  have hcache {o : Notice} {k : Nat} {c : Factory → Factory} :
      (({ s with merges := k }.write (.notice o)).modifyFactory f c).SameFactories
        (({ t with merges := k }.write (.notice o)).modifyFactory f c) :=
    ⟨congrArg (fun fs => fs.modify f c) hst.1, rfl⟩
  simp only
  split
  · split <;> exact ⟨rfl, hcache⟩
  · exact ⟨rfl, hcount⟩

/-- **What a name is merged to goes by the factories alone.** -/
theorem unrecorded_mergedOwn : Unrecorded (mergedOwn f n) :=
  have steps : MergeSteps Set.univ (fun _ => True) (fun _ _ => True) fun _ => Unrecorded :=
    { answer := fun _ _ _ h => ⟨rfl, h⟩
      fail := fun _ _ _ h => ⟨rfl, h⟩
      bind := .bind
      handle := .tryCatch
      theFactory := fun hk => Unrecorded.bind
        (fun _ _ h => ⟨congrArg Except.ok (h.factory_eq _), h⟩) fun F => hk F fun _ _ => trivial
      settleMerge := fun _ _ _ => unrecorded_settleMerge
      get := fun {α k} hk same s t hst => by
        change ((k t).run t).1 = ((k s).run s).1 ∧ ((k s).run s).2.SameFactories ((k t).run t).2
        rw [same s t hst]
        exact hk s trivial s t hst
      chain := fun _ _ _ _ => trivial }
  steps.mergedOwn trivial

end BeanContainer
