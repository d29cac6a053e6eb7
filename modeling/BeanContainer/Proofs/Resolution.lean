import BeanContainer.Proofs.Making

/-!
Looking up a bean whose constructor looks up others. The lookup comes to an end,
and it succeeds exactly when the bean is makeable: recorded dependencies and the
flags of beans in the making together stop every circle, and refuse nothing
else.

Each function has one lemma that says what came of it (`Tried`). How deep the
calls may nest is measured by `need`, so the induction is on the depth.
-/

namespace BeanContainer

open Relation Session

variable {α β : Type} {env : Collaborators} {refs : String → List String} {f : FactoryId}
  {again : Reentry} {start s t : Session} {n y : String} {ys : List String} {k : Nat}
  {m : MergedDefinition}

/-! ## How deep a lookup can go -/

/-- The beans that a factory defines. -/
def Session.beans (s : Session) (f : FactoryId) : Finset String :=
  (s.factory f).definitions.names.toFinset

/-- How deep the calls of a lookup nest at most. -/
noncomputable def need (start : Session) (f : FactoryId) (s : Session) (y : String) : Nat :=
  if start.Defines f y then
    unflagged (start.beans f) (s.factory f).singletons * (2 * (start.beans f).card + 2) +
      climb (start.beans f) (s.edge f) y + 2
  else 1

/-- Calls may nest deep enough for any lookup, given the flags that are not set. -/
def Roomy (start : Session) (f : FactoryId) (s : Session) (k : Nat) : Prop :=
  (unflagged (start.beans f) (s.factory f).singletons + 1) * (2 * (start.beans f).card + 2) + 1 ≤ k

theorem mem_beans : y ∈ s.beans f ↔ s.Defines f y := by
  rw [Session.beans, List.mem_toFinset]
  exact OrderedMap.contains_iff.symm

theorem need_pos : 0 < need start f s y := by
  unfold need
  split <;> omega

theorem Roomy.need_le (h : Roomy start f s k) : need start f s y ≤ k := by
  have hclimb := climb_le (V := start.beans f) (E := s.edge f) (n := y)
  unfold Roomy at h
  rw [Nat.succ_mul] at h
  unfold need
  split <;> omega

theorem Roomy.returned (h : Roomy start f s k) (ht : Returned f s t) : Roomy start f t k := by
  unfold Roomy
  rwa [ht.unflagged_eq]

theorem need_returned (ht : Returned f s t) : need start f t y ≤ need start f s y := by
  have hgrow : ∀ b c, s.edge f b c → t.edge f b c := fun _ _ => ht.edges
  have hclimb := climb_mono (V := start.beans f) (n := y) hgrow
  unfold need
  rw [ht.unflagged_eq]
  split <;> omega

/-- A recorded dependency that was not refused needs less than the bean. -/
theorem need_lt (hn : start.Defines f n) (ht : Returned f s t) (hnew : t.edge f y n)
    (back : ¬ TransGen (s.edge f) n y) : need start f t y < need start f s n := by
  have hgrow : ∀ b c, s.edge f b c → t.edge f b c := fun _ _ => ht.edges
  unfold need
  rw [if_pos hn, ht.unflagged_eq]
  split
  · rename_i hy
    have hclimb := climb_lt hgrow hnew (mem_beans.2 hy) back
    omega
  · omega

/-- With a flag set, calls that went deep enough for the bean go deep enough for all it uses. -/
theorem roomy_of_acquire {g : Guard} {r : SingletonRegistry} (hn : start.Defines f g.name)
    (hneed : need start f s g.name ≤ k + 1) (ha : (s.factory f).singletons.acquire g = .ok r)
    (hr : (t.factory f).singletons = r) : Roomy start f t k := by
  have hlt := unflagged_acquire (mem_beans.2 hn) ha
  have hmul := Nat.mul_le_mul_right (2 * (start.beans f).card + 2) hlt
  unfold need at hneed
  rw [if_pos hn] at hneed
  unfold Roomy
  rw [hr]
  simp only [Nat.succ_eq_add_one] at hmul
  omega

/-- A way to look up beans makes what can be made, if calls may nest so deeply. -/
def Looks (refs : String → List String) (f : FactoryId) (start : Session) (k : Nat)
    (look : String → Act Instance) : Prop :=
  ∀ ⦃s y⦄, Making refs f start s → need start f s y ≤ k → Yields False (look y).run s fun r t =>
    Tried refs f start s (Fit refs f start s y) (· = y) r.isOk t

/-! ## Constructors and post-processors -/

theorem yields_runScript_nil {script : Script α} (h : script.Requires f []) :
    ∀ s, Yields False (runScript again script) s fun r t => r.isOk = true ∧ s.Remarks t := by
  generalize hys : ([] : List String) = ys at h
  induction h with
  | done => exact fun s => ⟨rfl, .refl s⟩
  | @emit _ event _ _ ih =>
    intro s
    simp only [runScript, yields_bind, yields_lift, write_apply]
    exact (ih hys _).mono fun _ _ ht => ⟨ht.1, (Remarks.write (o := .event event) rfl).trans ht.2⟩
  | make _ ih =>
    intro s
    simp only [runScript, yields_bind, yields_modifyGet]
    exact (ih _ hys _).mono fun _ _ ht => ⟨ht.1, Remarks.make.trans ht.2⟩
  | lookup => cases hys

/-- A script makes the beans that it requires, or fails with the first that cannot be made. -/
theorem yields_runScript_requires (hl : start.Linked {f}) (look : Looks refs f start k (again.lookup f))
    {script : Script α} (hscript : script.Requires f ys) :
    ∀ s, Making refs f start s → Roomy start f s k →
      Yields False (runScript again script) s fun r t =>
        Tried refs f start s (∀ y ∈ ys, Fit refs f start s y) (· ∈ ys) r.isOk t := by
  have calm {s t u : Session} {ys : List String} {ok : Bool} (ht : Calm f s t)
      (hu : Tried refs f start t (∀ y ∈ ys, Fit refs f start t y) (· ∈ ys) ok u) :
      Tried refs f start s (∀ y ∈ ys, Fit refs f start s y) (· ∈ ys) ok u :=
    hu.after ht.steady fun hfit y hy => ht.steady.fit_iff.2 (hfit y hy)
  induction hscript with
  | done => exact fun s h _ => .still h (fun _ _ hy => by simp at hy) fun _ => rfl
  | @emit _ event _ _ ih =>
    intro s h hroom
    simp only [runScript, yields_bind, yields_lift, write_apply]
    have hcalm : Calm f s (s.write (.event event)) := .of_remarks (.write rfl)
    exact (ih _ (h.calm hl hcalm) (hroom.returned hcalm.steady.toReturned)).mono fun _ _ => calm hcalm
  | @make _ name spec _ _ ih =>
    intro s h hroom
    simp only [runScript, yields_bind, yields_modifyGet]
    have hcalm : Calm f s (s.make name spec).2 := .of_remarks .make
    exact (ih _ _ (h.calm hl hcalm) (hroom.returned hcalm.steady.toReturned)).mono fun _ _ => calm hcalm
  | @lookup y ys next _ herror ih =>
    intro s h hroom
    simp only [runScript, yields_bind]
    refine (look h hroom.need_le).mono fun r t ht => ?_
    have ht : Tried refs f start s (∀ y' ∈ y :: ys, Fit refs f start s y') (· = y) r.isOk t :=
      ht.mono (fun hfit => hfit y (by simp)) (fun _ => id) fun y' hy' => ⟨y', hy', .refl⟩
    cases r with
    | error e =>
      rw [herror]
      exact ht.fail fun y' hy' => ⟨y', by simp [hy'], .refl⟩
    | ok i =>
      refine (ih i t ht.making (hroom.returned ht.returned)).mono fun r u hu => ?_
      refine (ht.trans hu fun hfit y' hy' => ?_).mono id (fun _ => List.mem_cons.1)
        fun y' hy' => ⟨y', List.mem_cons.2 hy', .refl⟩
      exact ht.returned.fit_iff.2 (hfit y' (by simp [hy']))

theorem yields_runFor {script : Script α} {Q : Bool → Session → Prop}
    (h : Yields False (runScript again script) s fun r t => Q r.isOk t) :
    Yields False (runFor again n script).run s fun r t => Q r.isOk t := by
  unfold runFor
  rw [yields_run_bind, yields_run_liftEffect]
  refine h.mono fun r t ht => ?_
  cases r <;> exact ht

theorem yields_foldlM_isOk {step : β → α → Act β} {l : List α} {I : Session → Prop}
    (h : ∀ b, ∀ a ∈ l, ∀ s, I s → Yields False (step b a).run s fun r t => r.isOk = true ∧ I t) :
    ∀ {b s}, I s → Yields False (l.foldlM step b).run s fun r t => r.isOk = true ∧ I t := by
  induction l with
  | nil => exact fun hs => ⟨rfl, hs⟩
  | cons a l ih =>
    intro b s hs
    rw [List.foldlM_cons, yields_run_bind]
    refine (h b a (by simp) s hs).mono fun r t ht => ?_
    cases r with
    | error e => cases ht.1
    | ok b => exact ih (fun b a ha => h b a (by simp [ha])) ht.2

theorem yields_phase {phase : Processor → Instance → String → Script Instance}
    {processors : List ProcessorId} {i : Instance}
    (h : ∀ p ∈ processors, ∀ i n, (phase (s.processor p) i n).Requires f []) :
    Yields False (processors.foldlM (fun i p => do
      runFor again n (phase ((← get).processor p) i n)) i : Act Instance).run s fun r t =>
        r.isOk = true ∧ s.Remarks t := by
  refine yields_foldlM_isOk (fun i p hp t ht => ?_) (.refl s)
  have hprocessor : t.processor p = s.processor p := by
    unfold Session.processor
    rw [ht.processors]
  rw [yields_run_bind, yields_run_get]
  dsimp only
  rw [hprocessor]
  exact yields_runFor (Q := fun ok u => ok = true ∧ s.Remarks u)
    ((yields_runScript_nil (h p hp i n) t).mono fun _ _ hu => ⟨hu.1, ht.trans hu.2⟩)

namespace Making

theorem constructor_eq (h : Making refs f start s) :
    (s.factory f).constructor = (start.factory f).constructor :=
  show (s.factory f).recipe.constructor = (start.factory f).recipe.constructor by rw [h.reads.recipe]

theorem processors_eq (h : Making refs f start s) :
    (s.factory f).processors = (start.factory f).processors :=
  show (s.factory f).recipe.processors = (start.factory f).recipe.processors by rw [h.reads.recipe]

theorem yields_createBean (alone : Standalone env refs f start) (h : Making refs f start s)
    (look : Looks refs f start k (again.lookup f)) (hroom : Roomy start f s k)
    (hown : start.Own f n m) :
    Yields False (createBean env again f n m).run s fun r t =>
      Tried refs f start s (∀ y ∈ refs n, Fit refs f start s y) (· ∈ refs n) r.isOk t := by
  have hl := alone.linked
  obtain ⟨c, hc, hscript⟩ := alone.constructor
  unfold createBean
  simp only [yields_run_bind, yields_run_liftState, theFactory_apply]
  rw [h.constructor_eq, hc]
  simp only [yields_run_bind, yields_run_liftState, note_apply, write_apply]
  set u := (s.write (.notice (.creating n m.scope))).write (.constructing f n)
  have hu : Calm f s u := .trans (t := s.write (.notice (.creating n m.scope)))
    (h.reads.linked hl) (.of_remarks (.write rfl)) (.write (fun g hg => by cases hg; rfl) fun _ => rfl)
  have hmade := yields_runScript_requires hl look (hscript n m (alone.merged?_eq_some_iff.2 hown)) u
    (h.calm hl hu) (hroom.returned hu.steady.toReturned)
  refine (yields_runFor (Q := fun ok t => Tried refs f start u (∀ y ∈ refs n, Fit refs f start u y)
    (· ∈ refs n) ok t) hmade).mono fun r t ht => ?_
  have ht : Tried refs f start s (∀ y ∈ refs n, Fit refs f start s y) (· ∈ refs n) r.isOk t :=
    ht.after hu.steady fun hfit y hy => hu.steady.fit_iff.2 (hfit y hy)
  cases r with
  | error e => exact ht
  | ok raw =>
    -- From here on nothing happens but remarks, and nothing fails.
    have hprocessor {v} (hv : t.Remarks v) (p) : v.processor p = start.processor p := by
      unfold Session.processor
      rw [hv.processors, ht.making.processors]
    simp only [theFactory_apply]
    rw [ht.making.processors_eq]
    refine (yields_phase (f := f) fun p hp i n => ?_).mono fun r v hv => ?_
    · rw [hprocessor (.refl t)]
      exact (alone.processors p hp i n).1
    cases r with
    | error e => cases hv.1
    | ok readied =>
      refine (yields_phase (f := f) fun p hp i n => ?_).mono fun r w hw => ?_
      · rw [hprocessor hv.2]
        exact (alone.processors p hp i n).2
      cases r with
      | error e => cases hw.1
      | ok finished =>
        have hw := ht.calm hl (.of_remarks (hv.2.trans hw.2))
        exact hw.calm hl (.write (fun g hg => by cases hg; rfl) fun _ => rfl)

theorem yields_whileHolding (alone : Standalone env refs f start) (h : Making refs f start s)
    {g : Guard} (hdef : start.Defines f g.name) (hneed : need start f s g.name ≤ k + 1)
    {body : Act α}
    (hbody : ∀ t, Making refs f start t → Alike f s t → Roomy start f t k →
      Yields False body.run t fun r u => Tried refs f start t
        (∀ y, start.Uses f refs g.name y → Fit refs f start t y) (· = g.name) r.isOk u) :
    Yields False (whileHolding f g body).run s fun r u =>
      Tried refs f start s (Fit refs f start s g.name) (· = g.name) r.isOk u := by
  have hl := alone.linked
  have hlen := h.length alone.length
  rw [BeanContainer.yields_whileHolding]
  cases ha : (s.factory f).singletons.acquire g with
  | error e =>
    -- A bean that comes to a bean whose flag is set, and is that bean, is on a circle.
    refine .still h nofun fun hfit => ?_
    exact absurd (hfit.2 _ (SingletonRegistry.flagged_of_acquire_eq_error ha))
      hfit.1.not_transGen_self
  | ok singletons =>
    set t := s.setFactory f { s.factory f with singletons }
    have hself : (t.factory f).singletons = singletons := by rw [factory_setFactory_self hlen]
    have halike : Alike f s t := .flags hlen (SingletonRegistry.objects_of_acquire ha)
    have hmaking : Making refs f start t := h.flags hl hlen (SingletonRegistry.objects_of_acquire ha)
      (SingletonRegistry.inDestruction_of_acquire ha)
    refine (hbody t hmaking halike (roomy_of_acquire hdef hneed ha hself)).mono fun r u hu => ?_
    have hlenu := hu.making.length alone.length
    rw [modifyFactory_eq_setFactory]
    have halike' := Alike.flags (s := u) hlenu (SingletonRegistry.objects_release (g := g))
    refine ⟨hu.making.flags hl hlenu SingletonRegistry.objects_release
        SingletonRegistry.inDestruction_release,
      ⟨halike.grown.trans (hu.returned.toGrown.trans halike'.grown), ?_⟩,
      fun hok y hy => (hu.provided hok y hy).grown halike'.grown, fun hfit => hu.able fun y hy => ?_,
      fun hi hn => hu.only ((halike'.singleton? _).symm.trans hi) ((halike.singleton? _).trans hn)⟩
    · have hflags := hu.returned.flags
      rw [hself] at hflags
      rw [factory_setFactory_self hlenu]
      exact hflags.release ha
    · refine ⟨hfit.1.uses hy, fun z hz => ?_⟩
      rw [hself] at hz
      rcases SingletonRegistry.flagged_of_acquire ha hz with hz | rfl
      · exact (hfit.2 z hz).tail hy
      · exact .single hy

theorem yields_createSingleton (alone : Standalone env refs f start) (h : Making refs f start s)
    (look : Looks refs f start k (again.lookup f)) (hdef : start.Defines f n)
    (hneed : need start f s n ≤ k + 1) (hown : start.Own f n m)
    (hdeps : ∀ y ∈ m.dependsOn, Provided refs f start s y) :
    Yields False (createSingleton env again f n m).run s fun r t =>
      Tried refs f start s (Fit refs f start s n) (· = n) r.isOk t := by
  have hl := alone.linked
  have hlooks y (hy : y ∈ refs n) : start.Uses f refs n y := ⟨hdef, .inr hy⟩
  unfold createSingleton
  simp only [yields_run_bind, yields_run_liftState, theFactory_apply]
  cases hi : (s.factory f).singletons.get? n with
  | some i => exact .still h (fun _ y hy => hy ▸ h.provided hi) fun _ => rfl
  | none =>
    simp only [h.inDestruction, Bool.false_eq_true, if_false]
    rw [whileCreatingSingleton_eq]
    refine h.yields_whileHolding alone (g := .singleton n) hdef hneed fun t ht halike hroom => ?_
    rw [yields_run_bind]
    refine (ht.yields_createBean alone look hroom hown).mono fun r u hu => ?_
    have hu : Tried refs f start t (∀ y, start.Uses f refs n y → Fit refs f start t y) (· ∈ refs n)
        r.isOk u := hu.mono (fun hfit y hy => hfit y (hlooks y hy)) (fun _ => id) fun y hy => ⟨y, hy, .refl⟩
    cases r with
    | error e => exact hu.fail fun y hy => ⟨n, rfl, .single (hlooks y hy)⟩
    | ok made =>
      simp only [yields_run_bind, yields_run_liftState, note_apply, write_apply, yields_run_modifyGet]
      have hcalm : Calm f u (u.write (.notice (.singletonCached n))) := .of_remarks (.write rfl)
      have hv := hu.calm hl hcalm
      set v := u.write (.notice (.singletonCached n))
      refine hv.cache made alone hdef ((halike.singleton? n).trans hi) fun y hy => ?_
      rcases (alone.uses_iff hdef hown).1 hy with hy | hy
      · exact (hdeps y hy).grown (halike.grown.trans hv.returned.toGrown)
      · exact hv.provided rfl y hy

theorem yields_createPrototype (alone : Standalone env refs f start) (h : Making refs f start s)
    (look : Looks refs f start k (again.lookup f)) (hdef : start.Defines f n)
    (hneed : need start f s n ≤ k + 1) (hown : start.Own f n m) (hsingle : m.isSingleton = false)
    (hdeps : ∀ y ∈ m.dependsOn, Provided refs f start s y) :
    Yields False (whileCreatingPrototype f n (createBean env again f n m)).run s fun r t =>
      Tried refs f start s (Fit refs f start s n) (· = n) r.isOk t := by
  have hlooks y (hy : y ∈ refs n) : start.Uses f refs n y := ⟨hdef, .inr hy⟩
  rw [whileCreatingPrototype_eq]
  refine h.yields_whileHolding alone (g := .prototype n) hdef hneed fun t ht halike hroom => ?_
  refine (ht.yields_createBean alone look hroom hown).mono fun r u hu => ?_
  refine ⟨hu.making, hu.returned, fun hok y hy => ?_, fun hfit => hu.able fun y hy => ?_,
    fun hi hn => ?_⟩
  · rw [hy]
    refine .of_uses hdef (fun y hy => ?_) fun hs => ?_
    · rcases (alone.uses_iff hdef hown).1 hy with hy | hy
      · exact (hdeps y hy).grown (halike.grown.trans hu.returned.toGrown)
      · exact hu.provided hok y hy
    · obtain ⟨-, m', hm', hs⟩ := hs
      rw [own_unique hm' hown, hsingle] at hs
      cases hs
  · exact hfit y (hlooks y hy)
  · obtain ⟨y, hy, hyx⟩ := hu.only hi hn
    exact ⟨n, rfl, .head (hlooks y hy) hyx⟩

/-! ## Lookups -/

theorem yields_forM_tried {step : String → Act Unit} {ds : List String}
    (h : ∀ d ∈ ds, ∀ s, Making refs f start s → need start f s n ≤ k →
      Yields False (step d).run s fun r t =>
        Tried refs f start s (Fit refs f start s n) (· = d) r.isOk t) :
    ∀ s, Making refs f start s → need start f s n ≤ k →
      Yields False (ds.forM step).run s fun r t =>
        Tried refs f start s (Fit refs f start s n) (· ∈ ds) r.isOk t := by
  induction ds with
  | nil => exact fun s hs _ => .still hs (fun _ _ hy => by simp at hy) fun _ => rfl
  | cons d ds ih =>
    intro s hs hneed
    refine yields_run_bind.2 ((h d (by simp) s hs hneed).mono fun r t ht => ?_)
    cases r with
    | error e => exact ht.fail fun y hy => ⟨y, by simp [hy], .refl⟩
    | ok _ =>
      have hneed' := (need_returned ht.returned).trans hneed
      refine (ih (fun d hd => h d (by simp [hd])) t ht.making hneed').mono fun r u hu => ?_
      exact (ht.trans hu ht.returned.fit_iff.2).mono id (fun _ => List.mem_cons.1)
        fun y hy => ⟨y, List.mem_cons.2 hy, .refl⟩

/-- The dependencies of a bean are made one after another. Those that need the bean in turn are
refused, and these alone lead round in a circle. -/
theorem yields_initializeDependencies (alone : Standalone env refs f start)
    (h : Making refs f start s) (look : Looks refs f start k (again.lookup f))
    (hdef : start.Defines f n) (hneed : need start f s n ≤ k + 1) (hown : start.Own f n m) :
    Yields False (initializeDependencies again f n m).run s fun r t =>
      Tried refs f start s (Fit refs f start s n) (· ∈ m.dependsOn) r.isOk t := by
  have hl := alone.linked
  unfold initializeDependencies
  refine yields_forM_tried (fun d hd s h hneed => ?_) s h hneed
  have huses : start.Uses f refs n d := (alone.uses_iff hdef hown).2 (.inl hd)
  have hback : (s.factory f).isDependent n d = true ↔ TransGen (s.edge f) n d := by
    unfold Factory.isDependent
    rw [h.reads.canonical, alone.canonical, DependencyGraph.isDependent_iff_transGen]
  rw [yields_run_bind, yields_run_liftState, theFactory_apply]
  dsimp only
  split
  · next hdep =>
    -- The recorded edges from the bean to its dependency are all uses, the other way round.
    have hcircle : TransGen (start.Uses f refs) n n := by
      have huses' : TransGen (Function.swap (start.Uses f refs)) n d :=
        TransGen.mono (fun _ _ he => h.reasons he) _ _ (hback.1 hdep)
      exact .head huses (transGen_swap.1 huses')
    exact .still h nofun fun hfit => absurd hcircle hfit.1.not_transGen_self
  · next hdep =>
    simp only [yields_run_bind, yields_run_modify, yields_run_liftState, updateFactory_apply,
      yields_run_attempt]
    set t := s.writeNotices ((s.factory f).dependentNotices d n)
    have hcalm : Calm f s t := .of_remarks .writeNotices
    obtain ⟨hu, hadded, hedge⟩ :=
      (h.calm hl hcalm).addEdge alone.length hl (alone.canonical d) huses
    have hsu := hcalm.steady.trans hadded
    have hlt := need_lt hdef hsu.toReturned hedge (mt hback.2 hdep)
    refine (look hu (by omega)).mono fun r v hv => ?_
    have hfit (hfit : Fit refs f start s n) : Fit refs f start (t.addEdge f d n) d :=
      hsu.fit_iff.2 ⟨hfit.1.uses huses, fun z hz => (hfit.2 z hz).tail huses⟩
    cases r with
    | error e => exact (hv.after hsu hfit).fail fun y hy => ⟨y, hy, .refl⟩
    | ok _ => exact hv.after hsu hfit

theorem yields_makeDefined (alone : Standalone env refs f start) (h : Making refs f start s)
    (look : Looks refs f start k (again.lookup f)) (hdef : start.Defines f n)
    (hneed : need start f s n ≤ k + 1) :
    Yields False (makeDefined env again f n).run s fun r t =>
      Tried refs f start s (Fit refs f start s n) (· = n) r.isOk t := by
  have hl := alone.linked
  obtain ⟨m, hm, habstract, hscope⟩ := alone.resolved n hdef
  have hown := alone.merged?_eq_some_iff.1 hm
  unfold makeDefined
  rw [yields_run_bind, yields_run_liftQuery]
  refine (ends_mergedOwn (h.reads.linked hl) rfl).mono ?_
  rintro r t ⟨hmerged, hmerges⟩
  have hcalm : Calm f s t := .of_merged hmerged
  obtain ⟨ref, rfl, rfl⟩ := (hmerges m).1 ((h.reads.own_iff hl rfl).2 hown)
  have hneed' := (need_returned hcalm.steady.toReturned).trans hneed
  simp only [habstract, Bool.false_eq_true, if_false]
  rw [yields_run_bind]
  refine ((h.calm hl hcalm).yields_initializeDependencies alone look hdef hneed' hown).mono ?_
  intro r u hu
  have hu := hu.after hcalm.steady hcalm.steady.fit_iff.2
  have hreach y (hy : y ∈ ref.definition.dependsOn) :
      ∃ y', y' = n ∧ ReflTransGen (start.Uses f refs) y' y :=
    ⟨n, rfl, .single ((alone.uses_iff hdef hown).2 (.inl hy))⟩
  cases r with
  | error e => exact hu.fail hreach
  | ok _ =>
    have hneed := (need_returned hu.returned).trans hneed
    have hdeps := hu.provided rfl
    have after {r : Except BeanError Instance} {v}
        (hv : Tried refs f start u (Fit refs f start u n) (· = n) r.isOk v) :
        Tried refs f start s (Fit refs f start s n) (· = n) r.isOk v :=
      (hu.trans hv hu.returned.fit_iff.2).mono id (fun _ => .inr) fun y hy =>
        hy.elim (hreach y) fun hy => ⟨y, hy, .refl⟩
    cases hsingle : ref.definition.isSingleton with
    | true =>
      simp only [if_true]
      rw [yields_run_bind]
      refine (hu.making.yields_createSingleton alone look hdef hneed hown hdeps).mono fun r v hv => ?_
      cases r with
      | error e => exact after hv
      | ok i =>
        have hcalm : Calm f v (v.write (.handedOut f n i)) := .write (by rintro g ⟨⟩; rfl) fun _ => rfl
        exact after (hv.calm hl hcalm)
    | false =>
      have hprototype := hscope.resolve_left (by simp [hsingle])
      simp only [hprototype, Bool.false_eq_true, if_true, if_false]
      exact (hu.making.yields_createPrototype alone look hdef hneed hown hsingle hdeps).mono
        fun _ _ => after

/-- A lookup makes what can be made, if the lookups that it leads to do. -/
theorem yields_lookup (alone : Standalone env refs f start)
    (look : Looks refs f start k (again.lookup f)) :
    Looks refs f start (k + 1) (lookup env again f) := by
  intro s n h hneed
  have hdef : s.Defines f n ↔ start.Defines f n := by rw [Defines, h.reads.definitions]
  have hcan : (s.factory f).canonical n = n := by rw [h.reads.canonical, alone.canonical]
  unfold lookup
  rw [yields_run_bind, yields_run_get]
  dsimp only
  rw [h.reads.chain, alone.chain]
  have hroute := route_cons (s := s) (f := f) [] n
  rw [hcan] at hroute
  rcases hroute with ⟨i, hi, hr⟩ | ⟨hbusy, hr⟩ | ⟨hn, hr⟩ | ⟨hn, hr⟩
  · rw [hr]
    have hcalm : Calm f s (s.write (.handedOut f n i)) := .write (by rintro g ⟨⟩; rfl) fun _ => rfl
    have htried : Tried refs f start s (Fit refs f start s n) (· = n) true s :=
      .still h (fun _ y hy => hy ▸ h.provided hi) fun _ => rfl
    exact htried.calm alone.linked hcalm
  · rw [hr]
    have hflag : (s.factory f).singletons.Flagged n := .inr (OrderedSet.contains_iff.1 hbusy)
    exact .still h nofun fun hfit => absurd (hfit.2 n hflag) hfit.1.not_transGen_self
  · rw [hr]
    have hcalm : Calm f s (s.write (.missed f n)) := .write (by rintro g ⟨⟩; rfl) fun _ => rfl
    have hneed' := (need_returned hcalm.steady.toReturned).trans hneed
    refine ((h.calm alone.linked hcalm).yields_makeDefined alone look (hdef.1 hn) hneed').mono ?_
    exact fun _ _ ht => ht.after hcalm.steady hcalm.steady.fit_iff.2
  · have hr : s.route [f] n = .nowhere n := by
      rcases hr with hr | hr
      · exact hr
      · rw [hr]
        rfl
    rw [hr]
    exact .still h nofun fun hfit => absurd (hdef.2 hfit.1.defined) hn

end Making

/-- **Every way to look up beans of the factory makes what can be made**, if it may go deep
enough. -/
theorem looks_reentry (alone : Standalone env refs f start) :
    ∀ depth, Looks refs f start depth ((reentry env depth).lookup f)
  | 0 => fun _ _ _ hneed => absurd hneed (Nat.not_le_of_gt need_pos)
  | depth + 1 => Making.yields_lookup alone (looks_reentry alone depth)

theorem need_fresh (hdepth : (2 * (s.factory f).definitions.size + 1) *
    (2 * (s.factory f).definitions.size + 2) ≤ k) : need s f s y ≤ k + 1 := by
  have hcard : (s.beans f).card ≤ (s.factory f).definitions.size :=
    (List.toFinset_card_le _).trans_eq OrderedMap.length_keys
  have hflags := unflagged_le (V := s.beans f) (r := (s.factory f).singletons)
  have hroom : Roomy s f s (k + 1) := by
    unfold Roomy
    refine Nat.add_le_add_right (le_trans ?_ hdepth) 1
    exact Nat.mul_le_mul (by omega) (by omega)
  exact hroom.need_le

/-- **A lookup succeeds exactly when what the bean uses is all defined and leads round in no circle**,
be it by dependencies, by the lookups of constructors, or by both, among singletons and prototypes.
In a factory in which nothing has been made and no dependency is recorded, every lookup ends, and
calls never nest deeper than a bound in the number of definitions. If it succeeds, each
singleton that the bean comes to use has been cached once, after all singletons that it comes to use
itself. A bean that comes to a circle is not cached. No flag stays set. -/
theorem callFactory_get (alone : Standalone env refs f s) (hfresh : (s.factory f).singletons = {})
    (hedges : ∀ c n, ¬ s.edge f c n) {depth : Nat}
    (hdepth : (2 * (s.factory f).definitions.size + 1) *
      (2 * (s.factory f).definitions.size + 2) ≤ depth) :
    ∃ (r : Except BeanError Instance) (t : Session),
      callFactory env (reentry env depth) f (.get n) s =
        some (match r with | .ok i => .bean i | .error e => .failed e, t) ∧
      (r.isOk = true ↔
        (∀ y, ReflTransGen (s.Uses f refs) n y → s.Defines f y) ∧
        ∀ y, ReflTransGen (s.Uses f refs) n y → ¬ TransGen (s.Uses f refs) y y) ∧
      (r.isOk = true → ∀ c, ReflTransGen (s.Uses f refs) n c → s.DefinesSingleton f c →
        (t.factory f).singletons.names.count c = 1 ∧ t.cachings f c = s.cachings f c + 1 ∧
        ∀ c', TransGen (s.Uses f refs) c c' → s.DefinesSingleton f c' →
          Precedes (t.factory f).singletons.names c' c) ∧
      (∀ x y, ReflTransGen (s.Uses f refs) x y → TransGen (s.Uses f refs) y y →
        t.singleton? f x = none) ∧
      (t.factory f).singletons.inCreation = {} ∧
      (t.factory f).singletons.prototypesInCreation = {} := by
  have hmaking : Making refs f s s := .fresh (by rw [hfresh]; rfl) hedges (by rw [hfresh])
  have hlook := Making.yields_lookup alone (looks_reentry alone depth) hmaking (need_fresh hdepth (y := n))
  obtain ⟨r, t, hrun, htried⟩ := yields_false_iff.1 hlook
  have hnoflag z : ¬ (s.factory f).singletons.Flagged z := by
    rw [hfresh]
    rintro (hz | hz) <;> cases hz
  have hok : r.isOk = true ↔ s.Makeable f refs n :=
    ⟨fun hok => (htried.provided hok n rfl).1, fun h => htried.able ⟨h, fun z hz => absurd hz (hnoflag z)⟩⟩
  refine ⟨r, t, ?_, hok.trans makeable_iff, fun hr c hc hs => ?_, fun x y hxy hyy => ?_, ?_, ?_⟩
  · change answerAct _ _ s = _
    unfold answerAct
    change (ExceptT.run (lookup env (reentry env depth) f n) s).bind _ = _
    rw [hrun]
    cases r <;> rfl
  · obtain ⟨i, hi⟩ := (htried.provided hr n rfl).2 c hc hs
    have hmem : c ∈ (t.factory f).singletons.names := OrderedMap.mem_keys_iff.2 ⟨i, hi⟩
    have hcount : (t.factory f).singletons.names.count c = 1 :=
      List.count_eq_one_of_mem OrderedMap.nodup_keys hmem
    exact ⟨hcount, hcount ▸ htried.making.cachings c, fun c' hc' hs' => htried.making.after hi hc' hs'⟩
  · cases hx : t.singleton? f x with
    | none => rfl
    | some i => exact absurd hyy ((htried.making.makeable hx).reaches hxy).not_transGen_self
  · rw [htried.returned.flags.inCreation, hfresh]
  · rw [htried.returned.flags.prototypes, hfresh]

/-- Collaborators that follow written instructions without operations. -/
def readers : Collaborators := Scripted.collaborators (fun k => ⟨k.label, none⟩) fun _ => none

/-- A web server that depends on a database and looks up a pool of connections to it; and a hen and
an egg, of which one depends on the other and is looked up by it. -/
def Session.entwined : Session where
  factories := [{
    definitions := ⟨5, .ofList [
      ("web", { dependsOn := some ["db"], properties := .ofList [("$refs", .list [.text "pool"])] }),
      ("pool", { dependsOn := some ["db"], scope := some "prototype" }),
      ("db", {}),
      ("hen", { dependsOn := some ["egg"] }),
      ("egg", { scope := some "prototype", properties := .ofList [("$refs", .list [.text "hen"])] })]⟩
    constructor := some (.scripted "main") }]

/-- What the constructor looks up there. -/
def entwinedRefs (n : String) : List String :=
  if n = "web" then ["pool"] else if n = "egg" then ["hen"] else []

theorem standalone_entwined : Standalone readers entwinedRefs 0 .entwined := by
  have hall : ∀ n ∈ (Session.entwined.factory 0).definitions.names,
      (Session.entwined.merged? 0 n).any (fun m => m.isAbstract = false &&
        (m.isSingleton || m.isPrototype) &&
        Scripted.textsOf (Scripted.instruction m "$refs") = entwinedRefs n &&
        Scripted.textsOf (Scripted.instruction m "$try") = [] &&
        Scripted.textOf (Scripted.instruction m "$fail") = none) = true := by
    decide +kernel
  have hlinked : Session.entwined.Linked {0} := by
    rintro f rfl p hp
    cases hp
  refine ⟨by decide, rfl, rfl, fun n hn => ?_, ⟨_, rfl, fun n m hm => ?_⟩, nofun⟩
  · obtain ⟨m, hm, hfacts⟩ := (Option.any_eq_true ..).1 (hall n (OrderedMap.contains_iff.1 hn))
    simp only [Bool.and_eq_true, Bool.or_eq_true, decide_eq_true_eq] at hfacts
    exact ⟨m, hm, hfacts.1.1.1.1, hfacts.1.1.1.2⟩
  · -- What merges is defined, for nothing is cached.
    have hn : n ∈ (Session.entwined.factory 0).definitions.names := by
      rcases ((merged?_eq_some_iff hlinked rfl).1 hm).cached_or_defined with ⟨_, hc⟩ | hd
      · cases hc
      · exact OrderedMap.contains_iff.1 hd
    obtain ⟨m', hm', hfacts⟩ := (Option.any_eq_true ..).1 (hall n hn)
    cases hm.symm.trans hm'
    simp only [Bool.and_eq_true, decide_eq_true_eq] at hfacts
    obtain ⟨⟨⟨-, hrefs⟩, htry⟩, hfail⟩ := hfacts
    exact hrefs ▸ .construct htry hfail

theorem entwined_get :
    Standalone readers entwinedRefs 0 .entwined ∧ (Session.entwined.factory 0).singletons = {} ∧
      (∀ c n, ¬ Session.entwined.edge 0 c n) ∧
      (∃ i t, callFactory readers (reentry readers 132) 0 (.get "web") .entwined = some (.bean i, t) ∧
        t.cachings 0 "db" = 1 ∧ Precedes (t.factory 0).singletons.names "db" "web") ∧
      ∃ e t, callFactory readers (reentry readers 132) 0 (.get "hen") .entwined = some (.failed e, t) ∧
        t.singleton? 0 "hen" = none ∧ (t.factory 0).singletons.inCreation = {} := by
  have hedges : ∀ c n, ¬ Session.entwined.edge 0 c n := fun c n => DependencyGraph.not_hasEdge_empty
  have hdepth : (2 * (Session.entwined.factory 0).definitions.size + 1) *
      (2 * (Session.entwined.factory 0).definitions.size + 2) ≤ 132 := by decide
  have hget (n : String) := callFactory_get (n := n) standalone_entwined rfl hedges hdepth
  have hfacts : (Session.entwined.merged? 0 "web").any (fun m => m.isSingleton && m.dependsOn = ["db"]) &&
      (Session.entwined.merged? 0 "db").any MergedDefinition.isSingleton &&
      (Session.entwined.merged? 0 "hen").any (·.dependsOn = ["egg"]) &&
      (callFactory readers (reentry readers 132) 0 (.get "web") .entwined).any (·.1 matches .bean _) &&
      (callFactory readers (reentry readers 132) 0 (.get "hen") .entwined).any (·.1 matches .failed _) := by
    decide +kernel
  simp only [Bool.and_eq_true, Option.any_eq_true, decide_eq_true_eq] at hfacts
  obtain ⟨⟨⟨⟨⟨web, hweb, hwebSingle, hdeps⟩, db, hdb, hdbSingle⟩, hen, hhen, hdeps'⟩, made⟩, refused⟩ :=
    hfacts
  have hown {n m} : Session.entwined.merged? 0 n = some m → Session.entwined.Own 0 n m :=
    standalone_entwined.merged?_eq_some_iff.1
  have huses : Session.entwined.Uses 0 entwinedRefs "web" "db" :=
    (standalone_entwined.uses_iff (by decide) (hown hweb)).2 (.inl (by simp [hdeps]))
  have hcircle : TransGen (Session.entwined.Uses 0 entwinedRefs) "hen" "hen" :=
    .head ((standalone_entwined.uses_iff (by decide) (hown hhen)).2 (.inl (by simp [hdeps'])))
      (.single (show Session.entwined.Uses 0 entwinedRefs "egg" "hen" from ⟨by decide, .inr (by decide)⟩))
  refine ⟨standalone_entwined, rfl, hedges, ?_, ?_⟩
  · obtain ⟨r, t, hrun, -, hmade, -⟩ := hget "web"
    obtain ⟨_, hrun', hbean⟩ := made
    obtain rfl := Option.some.inj (hrun.symm.trans hrun')
    cases r with
    | error e => cases hbean
    | ok i =>
      have hcached := (hmade rfl "db" (.single huses) ⟨by decide, db, hown hdb, hdbSingle⟩).2.1
      have hafter := (hmade rfl "web" .refl ⟨by decide, web, hown hweb, hwebSingle⟩).2.2
      exact ⟨i, t, hrun, hcached, hafter "db" (.single huses) ⟨by decide, db, hown hdb, hdbSingle⟩⟩
  · obtain ⟨r, t, hrun, -, -, huncached, hflags, -⟩ := hget "hen"
    obtain ⟨_, hrun', hfailed⟩ := refused
    obtain rfl := Option.some.inj (hrun.symm.trans hrun')
    cases r with
    | ok i => cases hfailed
    | error e => exact ⟨e, t, hrun, huncached "hen" "hen" .refl hcircle, hflags⟩

end BeanContainer
