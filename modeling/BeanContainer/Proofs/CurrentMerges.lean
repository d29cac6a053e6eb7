import BeanContainer.Proofs.Inheritance
import BeanContainer.Proofs.Redefining

/-!
Merges of a factory while its aliases change, and the definitions above it. What
a definition is merged to goes by what its parent's name stands for, in the
factory and above, but no change of that drops a cached merge. So a merge is the
current one as long as the names of the parents above it keep standing for what
they did, and in any case once the factory has dropped its cache
(`Course.merged_eq_current`). A cached merge, current or not, stays until then
(`Course.kept`).
-/

namespace BeanContainer

open Relation Session

/-! ## What a parent's name stands for -/

namespace Session

variable {s t : Session} {f : FactoryId} {c q : String} {d : Definition} {m : MergedDefinition}

/-- What a name is merged to by a factory that has nothing cached. -/
def Fresh (s : Session) (f : FactoryId) : String → MergedDefinition → Prop :=
  (s.factory f).blueprint.Merges (s.denotes (s.above f))

/-- What the name of a definition's parent stands for: another definition of the factory, or
else what the factories above have to say. -/
def ParentDenotes (s : Session) (f : FactoryId) (c q : String) (m : MergedDefinition) : Prop :=
  let parent := (s.factory f).canonical q
  if parent ≠ c ∧ (s.factory f).definitions.contains parent = true then s.Fresh f parent m
  else s.denotes (s.above f) parent m

theorem fresh_iff (hd : (s.factory f).definitions.get? c = some d) (hq : d.parent = some q) :
    s.Fresh f c m ↔
      ∃ p, s.ParentDenotes f c q p ∧ m = (s.factory f).settle (.ofParent c p d) := by
  unfold ParentDenotes
  simp only
  constructor
  · intro h
    split
    · rename_i hlocal
      exact Factory.Merges.inv_child (F := (s.factory f).blueprint) rfl hd hq hlocal.1 hlocal.2 h
    · rename_i hlocal
      exact Factory.Merges.inv_beyond (F := (s.factory f).blueprint) rfl hd hq hlocal h
  · rintro ⟨p, hp, rfl⟩
    split at hp
    · rename_i hlocal
      exact .child rfl hd hq hlocal.1 hlocal.2 hp
    · rename_i hlocal
      exact .beyond rfl hd hq hlocal hp

end Session

/-! ## Changes that leave a factory alone -/

/-- Nothing happened between two sessions to what a factory was told or to its merges. -/
structure Session.Apart (f : FactoryId) (s t : Session) : Prop where
  length : t.factories.length = s.factories.length
  linked : t.Linked Set.univ
  recipe : (t.factory f).recipe = (s.factory f).recipe
  merged : (t.factory f).merged = (s.factory f).merged

section

variable {env : Collaborators} {f g : FactoryId} {s t u : Session} {α β : Type} {name : String}
  {new : Factory}

theorem Session.Apart.trans (h : s.Apart f t) (h' : t.Apart f u) : s.Apart f u where
  length := h'.length.trans h.length
  linked := h'.linked
  recipe := h'.recipe.trans h.recipe
  merged := h'.merged.trans h.merged

theorem Session.Apart.of_factories (hl : s.Linked Set.univ) (h : t.factories = s.factories) :
    s.Apart f t := by
  have hf (g) : t.factory g = s.factory g := by unfold Session.factory; rw [h]
  exact { length := by rw [h], linked := linked_congr (by rw [h]) (fun g => by rw [hf]) hl,
          recipe := by rw [hf], merged := by rw [hf] }

theorem Session.Apart.setFactory (hl : s.Linked Set.univ) (hne : f ≠ g)
    (hp : new.parent = (s.factory g).parent) : s.Apart f (s.setFactory g new) where
  length := length_setFactory
  linked := linked_setFactory hl hp
  recipe := by rw [factory_setFactory_of_ne hne]
  merged := by rw [factory_setFactory_of_ne hne]

/-- To change a factory `g`, among well linked ones, and leave `f` alone. -/
def sparing (g f : FactoryId) : Manner where
  Start s := s.Linked Set.univ ∧ g < s.factories.length
  Leads s t := s.Linked Set.univ → s.Apart f t
  refl _ hl := .of_factories hl rfl
  trans hs h h' hl := (h hl).trans (h' (h hs.1).linked)
  start hs h := ⟨(h hs.1).linked, (h hs.1).length ▸ hs.2⟩

theorem redefines_sparing (hne : f ≠ g) : (sparing g f).Redefines g where
  define _ h hl := by
    obtain ⟨store, rfl, -⟩ := define_spec h
    exact .setFactory hl hne rfl
  undefine _ h hl := by
    obtain ⟨store, rfl, -⟩ := undefine_spec h
    exact .setFactory hl hne rfl
  evict _ hl := by
    rw [modifyFactory_eq_setFactory]
    exact .setFactory hl hne rfl
  dropEdges _ hl := by
    rw [dropEdges, modifyFactory_eq_setFactory]
    exact .setFactory hl hne rfl
  tell _ _ _ hl := .of_factories hl rfl

theorem keepResets_reentry (reading : env.Reading) (quiet : env.QuietEnds) (hne : f ≠ g) :
    ∀ depth, (reentry env depth).KeepResets (sparing g f) g
  | 0 => ⟨fun _ _ _ => trivial, fun _ _ _ _ _ => trivial⟩
  | depth + 1 =>
    { destroy := fun name s hs => by
        have hreads := (reentry_reading reading (depth + 1)).keep.destroy g trivial name s hs.1
        refine (hreads.and (yields_destroy_merged quiet hs.2)).mono fun _ _ ht hl => ?_
        exact { length := ht.1.length, linked := ht.1.linked hl, recipe := ht.1.recipe f,
                merged := ht.2.2 f }
      reset := fun _ _ _ =>
        keeps_resetDefinition (redefines_sparing hne).toResets (keepResets_reentry reading quiet hne depth) }

end

/-! ## Changes of aliases -/

section

variable {f : FactoryId} {s t u : Session} {name altName : String}

/-- Nothing happened between two sessions but to the aliases of a factory. -/
structure Session.Realiased (f : FactoryId) (s t : Session) : Prop where
  length : t.factories.length = s.factories.length
  linked : t.Linked Set.univ
  factory : ∃ aliases, t.factory f = { s.factory f with aliases }
  above : ∀ n m, t.denotes (t.above f) n m ↔ s.denotes (s.above f) n m

theorem Session.Realiased.of_factories (hl : s.Linked Set.univ) (h : t.factories = s.factories) :
    s.Realiased f t := by
  have hf (g) : t.factory g = s.factory g := by unfold Session.factory; rw [h]
  have habove : t.above f = s.above f :=
    congrArg List.tail (chain_congr (by rw [h]) fun g => by rw [hf])
  refine { length := by rw [h], linked := linked_congr (by rw [h]) (fun g => by rw [hf]) hl,
           factory := ⟨(s.factory f).aliases, hf f⟩, above := fun n m => ?_ }
  rw [habove]
  exact denotes_congr fun g _ => hf g

theorem Session.Realiased.trans (h : s.Realiased f t) (h' : t.Realiased f u) : s.Realiased f u where
  length := h'.length.trans h.length
  linked := h'.linked
  factory := by
    obtain ⟨aliases, e⟩ := h.factory
    obtain ⟨aliases', e'⟩ := h'.factory
    exact ⟨aliases', by rw [e', e]⟩
  above n m := (h'.above n m).trans (h.above n m)

theorem Session.Realiased.setFactory (hl : s.Linked Set.univ) (hf : f < s.factories.length)
    {aliases : AliasMap} : s.Realiased f (s.setFactory f { s.factory f with aliases }) where
  length := length_setFactory
  linked := linked_setFactory hl rfl
  factory := ⟨aliases, factory_setFactory_self hf⟩
  above _ _ := denotes_above_setFactory hl trivial (by rfl)

/-- To change the aliases of a factory, among well linked ones. -/
def realiasing (f : FactoryId) : Manner where
  Start s := s.Linked Set.univ ∧ f < s.factories.length
  Leads s t := s.Linked Set.univ → f < s.factories.length → s.Realiased f t
  refl _ hl _ := .of_factories hl rfl
  trans _ h h' hl hf := (h hl hf).trans (h' (h hl hf).linked ((h hl hf).length ▸ hf))
  start hs h := ⟨(h hs.1 hs.2).linked, (h hs.1 hs.2).length ▸ hs.2⟩

theorem leads_realiasing {new : Factory} (h : ∃ aliases, new = { s.factory f with aliases }) :
    (realiasing f).Leads s (s.setFactory f new) := by
  obtain ⟨aliases, rfl⟩ := h
  exact fun hl hf => .setFactory hl hf

end

/-! ## Runs -/

/-- Whether a call registers or removes a definition. -/
def FactoryCall.isDefining : FactoryCall → Bool
  | register .. | remove _ => true
  | _ => false

/-- Whether a call registers or removes an alias. -/
def FactoryCall.isAliasing : FactoryCall → Bool
  | registerAlias .. | removeAlias _ => true
  | _ => false

/-- Outside of some names, the parents' names of definitions stand for what they did. -/
def Session.Steady (T : Set String) (f : FactoryId) (s t : Session) : Prop :=
  ∀ n ∉ T, ∀ d q, (s.factory f).definitions.get? n = some d → d.parent = some q →
    (t.factory f).canonical q = (s.factory f).canonical q ∧
      ((s.factory f).canonical q ≠ n ∧
          (s.factory f).definitions.contains ((s.factory f).canonical q) = true ∨
        ∀ m, s.denotes (s.above f) ((s.factory f).canonical q) m →
          t.denotes (t.above f) ((s.factory f).canonical q) m)

/-- The sessions that come of asking any factories, of changes to the aliases of a factory `f`, and
of changes to the definitions above it, where the definitions in `T` alone may find that their
parent's name has come to stand for something else. -/
inductive Course (env : Collaborators) (f : FactoryId) (T : Set String) (s : Session) : Session → Prop
  | start : Course env f T s s
  | ask {t u : Session} {g : FactoryId} {call : FactoryCall} {depth : Nat} {answer : Answer} :
      Course env f T s t → call.isReading = true →
      callFactory env (reentry env depth) g call t = some (answer, u) → Course env f T s u
  | aliases {t u : Session} {call : FactoryCall} {depth : Nat} {answer : Answer} :
      Course env f T s t → call.isAliasing = true →
      callFactory env (reentry env depth) f call t = some (answer, u) → t.Steady T f u →
      Course env f T s u
  | above {t u : Session} {g : FactoryId} {call : FactoryCall} {depth : Nat} {answer : Answer} :
      Course env f T s t → g ∈ t.above f → g < t.factories.length → call.isDefining = true →
      callFactory env (reentry env depth) g call t = some (answer, u) → t.Steady T f u →
      Course env f T s u

section

variable {env : Collaborators} {f g : FactoryId} {s t u : Session} {T : Set String}
  {call : FactoryCall} {depth : Nat} {answer : Answer} {B : Factory} {x q : String}
  {up : String → MergedDefinition → Prop}

theorem realiased_callFactory (hcall : call.isAliasing = true)
    (hl : s.Linked Set.univ) (hf : f < s.factories.length) :
    Yields True (callFactory env (reentry env depth) f call) s fun _ t => s.Realiased f t := by
  cases call <;> first | exact absurd hcall Bool.false_ne_true | unfold callFactory answerQuery
  case registerAlias name altName =>
    have h : Asks (realiasing f) (registerAlias f name altName) :=
      asks_registerAlias (fun _ _ _ h => leads_realiasing (registerAlias_spec h))
        fun _ _ _ hl _ => .of_factories hl rfl
    exact yields_answerAct ((h s ⟨hl, hf⟩).mono fun _ _ h => h hl hf)
  case removeAlias altName =>
    have h : Asks (realiasing f) (tryUpdate f fun F => F.removeAlias altName) :=
      asks_tryUpdate fun _ _ _ h => leads_realiasing (removeAlias_spec h)
    exact yields_answerAct ((h s ⟨hl, hf⟩).mono fun _ _ h => h hl hf)

theorem apart_callFactory (reading : env.Reading) (quiet : env.QuietEnds) (hcall : call.isDefining = true)
    (hl : s.Linked Set.univ) (hne : f ≠ g) (hg : g < s.factories.length) :
    Yields True (callFactory env (reentry env depth) g call) s fun _ t => s.Apart f t := by
  have redefines := redefines_sparing hne
  have ha := keepResets_reentry reading quiet hne depth
  cases call <;> first | exact absurd hcall Bool.false_ne_true | unfold callFactory
  case register name d =>
    exact yields_answerAct ((keeps_registerDefinition redefines ha s ⟨hl, hg⟩).mono fun _ _ h => h hl)
  case remove name =>
    exact yields_answerAct ((keeps_removeDefinition redefines ha s ⟨hl, hg⟩).mono fun _ _ h => h hl)

/-- A cache stays right outside of `T` when its factory keeps its definitions and its merges, and the
names of parents stand for what they did. -/
theorem CacheFits.renew (h : CacheFits B up False T f s) (hT : B.Bounds T)
    (hlen : t.factories.length = s.factories.length) (hl : t.Linked Set.univ)
    (hmerged : (t.factory f).merged = (s.factory f).merged)
    (hdefs : (t.factory f).definitions = (s.factory f).definitions)
    (hsettle : (t.factory f).settle = (s.factory f).settle) (steady : s.Steady T f t) :
    CacheFits (t.factory f).blueprint (t.denotes (t.above f)) False T f t ∧
      (t.factory f).blueprint.Bounds T := by
  obtain rfl := h.blueprint
  have carried {n m} (hn : n ∉ T) (hm : (s.factory f).blueprint.Merges up n m) :
      (t.factory f).blueprint.Merges (t.denotes (t.above f)) n m := by
    have hsettle : (t.factory f).blueprint.settle = (s.factory f).blueprint.settle := hsettle
    induction hm with
    | cached hm => simp [Factory.blueprint, MergedCache.get?] at hm
    | root _ hd hp => exact hsettle ▸ .root rfl (hdefs ▸ hd : (t.factory f).definitions.get? _ = _) hp
    | @child n d q m _ hd hq hne hc _ ih =>
      have hcan : (s.factory f).blueprint.canonical q = (t.factory f).canonical q :=
        (steady n hn d q hd hq).1.symm
      have hm := ih (hT hn ⟨d, q, hd, hq, rfl, hne, hc⟩)
      rw [hcan] at hne hc hm
      exact hsettle ▸ .child rfl (hdefs ▸ hd : (t.factory f).definitions.get? _ = _) hq hne
        (hdefs ▸ hc : (t.factory f).definitions.contains _ = true) hm
    | @beyond n d q m _ hd hq hlocal hu =>
      obtain ⟨hcan, habove⟩ := steady n hn d q hd hq
      have hu' := habove.resolve_left hlocal m (h.above.2 hu)
      change ¬ ((s.factory f).canonical q ≠ n ∧
        (s.factory f).definitions.contains ((s.factory f).canonical q) = true) at hlocal
      rw [← hcan] at hlocal hu'
      exact hsettle ▸ .beyond rfl (hdefs ▸ hd : (t.factory f).definitions.get? _ = _) hq
        (hdefs ▸ hlocal : ¬ (_ ∧ (t.factory f).definitions.contains _ = true)) hu'
  refine ⟨{ blueprint := rfl, length := hlen ▸ h.length, linked := hl, above := Iff.rfl,
            defined := fun hn hm => ?_, right := fun hn hm => ?_, pending := False.elim }, ?_⟩
  · rw [hmerged] at hm
    exact hdefs ▸ h.defined hn hm
  · rw [hmerged] at hm
    exact .inl (carried hn ((h.right hn hm).resolve_right fun hno => hno.1))
  · rintro n p hn ⟨d, q, hd, hq, rfl, hne, hc⟩
    have hd : (s.factory f).definitions.get? n = some d := hdefs ▸ hd
    have hcan : (t.factory f).blueprint.canonical q = (s.factory f).blueprint.canonical q :=
      (steady n hn d q hd hq).1
    rw [hcan] at hne hc ⊢
    exact hT hn ⟨d, q, hd, hq, rfl, hne, hdefs ▸ hc⟩

/-- Along a run the cache stays right outside of `T`, and nothing leaves it. -/
theorem Course.fits (reading : env.Reading) (quiet : env.QuietEnds) (hT : B.Bounds T)
    (start : CacheFits B up False T f s) (run : Course env f T s t) :
    (∃ B' up', CacheFits B' up' False T f t ∧ B'.Bounds T) ∧
      ∀ {n ref}, (s.factory f).merged.get? n = some ref → (t.factory f).merged.get? n = some ref := by
  induction run with
  | start => exact ⟨⟨B, up, start, hT⟩, id⟩
  | @ask t u g call depth answer _ hcall hrun ih =>
    obtain ⟨⟨B', up', h, hT'⟩, hkept⟩ := ih
    have ha := reentry_reading reading depth
    have hk := (reading.keep ha).making (covers_reading Set.univ)
    have hreads := yields_true_iff.1
      (keeps_callFactory (f := g) (covers_reading Set.univ).making hk ha.keep.lookup trivial hcall t h.linked)
      _ _ hrun
    exact ⟨⟨B', up', h.reads (.inr hT') hreads, hT'⟩, fun hm => hreads.kept (hkept hm)⟩
  | aliases _ hcall hrun steady ih =>
    obtain ⟨⟨B', up', h, hT'⟩, hkept⟩ := ih
    have hu := yields_true_iff.1 (realiased_callFactory hcall h.linked h.length) _ _ hrun
    obtain ⟨aliases, hfactory⟩ := hu.factory
    refine ⟨⟨_, _, h.renew hT' hu.length hu.linked ?_ ?_ ?_ steady⟩, fun hm => ?_⟩
    · rw [hfactory]
    · rw [hfactory]
    · rw [hfactory]
      rfl
    · rw [hfactory]
      exact hkept hm
  | above _ hmem hg hcall hrun steady ih =>
    obtain ⟨⟨B', up', h, hT'⟩, hkept⟩ := ih
    have hne : f ≠ _ := fun e => not_mem_above h.linked trivial (e ▸ hmem)
    have hu := yields_true_iff.1 (apart_callFactory reading quiet hcall h.linked hne hg) _ _ hrun
    have hblue := Factory.blueprint_of_recipe hu.recipe
    refine ⟨⟨_, _, h.renew hT' hu.length hu.linked hu.merged ?_ ?_ steady⟩, fun hm => ?_⟩
    · exact Factory.definitions_of_blueprint hblue
    · exact Factory.settle_of_blueprint hblue
    · exact hu.merged ▸ hkept hm

/-- What a right cache makes of a name is what its factory would say without one. -/
theorem CacheFits.ends_mergedDefinition (h : CacheFits B up False T f t) (hT : B.Bounds T)
    (hx : (t.factory f).definitions.contains ((t.factory f).canonical x) = true)
    (hn : (t.factory f).canonical x ∉ T) :
    Ends (mergedDefinition f x) t fun r _ => ∀ m, t.Fresh f ((t.factory f).canonical x) m ↔
      ∃ ref, r = .ok ref ∧ ref.definition = m := by
  refine (BeanContainer.ends_mergedDefinition h.linked trivial).mono fun r _ hr m => ?_
  rw [← hr.2 m, denotes_chain_iff h.linked trivial h.length hx]
  have hup : up = t.denotes (t.above f) := by
    funext n m
    exact propext h.above.symm
  subst hup
  obtain rfl := h.blueprint
  refine ⟨h.own_of_merges hT hn, fun hown => ?_⟩
  exact (h.own_right (.inr hT) hn hown).2.resolve_right fun hno => hno.1

/-- A session with the caching of merges switched off in a factory. -/
def Session.uncached (s : Session) (f : FactoryId) : Session :=
  s.modifyFactory f fun F => F.setCacheMetadata false

/-- With all names given up, nothing is said of a cache. -/
theorem CacheFits.of_linked (hf : f < t.factories.length) (hl : t.Linked Set.univ) :
    CacheFits (t.factory f).blueprint (t.denotes (t.above f)) False Set.univ f t where
  blueprint := rfl
  length := hf
  linked := hl
  above := Iff.rfl
  defined hn := absurd trivial hn
  right hn := absurd trivial hn
  pending := False.elim

theorem fits_uncached (hf : f < t.factories.length) (hl : t.Linked Set.univ) :
    CacheFits (t.factory f).blueprint (t.denotes (t.above f)) False ∅ f (t.uncached f) := by
  unfold Session.uncached
  rw [modifyFactory_eq_setFactory]
  refine (CacheFits.of_linked hf hl).recache rfl rfl (fun n _ ref hm => ?_) False.elim
  simp [Factory.setCacheMetadata, MergedCache.clear, MergedCache.get?] at hm

theorem ends_mergedDefinition_uncached (hf : f < t.factories.length) (hl : t.Linked Set.univ)
    (hx : (t.factory f).definitions.contains ((t.factory f).canonical x) = true) :
    Ends (mergedDefinition f x) (t.uncached f) fun r _ =>
      ∀ m, t.Fresh f ((t.factory f).canonical x) m ↔ ∃ ref, r = .ok ref ∧ ref.definition = m := by
  -- the factory has the same blueprint, and the same factories above it
  have hfits := fits_uncached hf hl
  have hcan := Factory.canonical_of_blueprint hfits.blueprint
  have hfresh : (t.uncached f).Fresh f = t.Fresh f := by
    have habove : (t.uncached f).denotes ((t.uncached f).above f) = t.denotes (t.above f) := by
      funext n m
      exact propext hfits.above
    unfold Session.Fresh
    rw [hfits.blueprint, habove]
  rw [← Factory.definitions_of_blueprint hfits.blueprint, ← hcan] at hx
  have h := hfits.ends_mergedDefinition Factory.bounds_empty hx (by simp)
  rwa [hfresh, hcan] at h

theorem Course.mono {T' : Set String} (hT : T ⊆ T') (run : Course env f T s t) : Course env f T' s t := by
  have steady {t u : Session} (h : t.Steady T f u) : t.Steady T' f u := fun n hn => h n fun hT' => hn (hT hT')
  induction run with
  | start => exact .start
  | ask _ hcall hrun ih => exact ih.ask hcall hrun
  | aliases _ hcall hrun hsteady ih => exact ih.aliases hcall hrun (steady hsteady)
  | above _ hmem hg hcall hrun hsteady ih => exact ih.above hmem hg hcall hrun (steady hsteady)

/-- **A cached merge stays as it is**, whatever its parent's name comes to stand for. -/
theorem Course.kept (reading : env.Reading) (quiet : env.QuietEnds) (hf : f < s.factories.length)
    (hl : s.Linked Set.univ) (run : Course env f T s t) {n : String} {ref : MergedRef}
    (hm : (s.factory f).merged.get? n = some ref) : (t.factory f).merged.get? n = some ref :=
  ((run.mono (Set.subset_univ T)).fits reading quiet (fun hn => absurd trivial hn)
    (.of_linked hf hl)).2 hm

/-- **A merge is the current one as long as the parents' names above it stand for what they did**:
it lays the definition over what its parent's name stands for now, through the current aliases and
the current merges of the factories above. Without caching it always does. -/
theorem Course.merged_eq_current (reading : env.Reading) (quiet : env.QuietEnds)
    (hf : f < s.factories.length) (hl : s.Linked Set.univ) (hT : (s.factory f).Bounds T)
    (hcached : ∀ n ∉ T, ∀ ref, (s.factory f).merged.get? n = some ref → s.Fresh f n ref.definition)
    (run : Course env f T s t) {c : String} {d : Definition} (hx : (t.factory f).canonical x = c)
    (hd : (t.factory f).definitions.get? c = some d) (hq : d.parent = some q) :
    let Current := fun m => ∃ p, t.ParentDenotes f c q p ∧ m = (t.factory f).settle (.ofParent c p d)
    (c ∉ T → Ends (mergedDefinition f x) t fun r _ =>
      ∀ m, Current m ↔ ∃ ref, r = .ok ref ∧ ref.definition = m) ∧
    Ends (mergedDefinition f x) (t.uncached f) fun r _ =>
      ∀ m, Current m ↔ ∃ ref, r = .ok ref ∧ ref.definition = m := by
  intro Current
  subst hx
  have hc : (t.factory f).definitions.contains ((t.factory f).canonical x) = true :=
    OrderedMap.contains_iff_get?.2 ⟨d, hd⟩
  have current (m) : Current m ↔ t.Fresh f ((t.factory f).canonical x) m := (fresh_iff hd hq).symm
  have start : CacheFits (s.factory f).blueprint (s.denotes (s.above f)) False T f s :=
    { blueprint := rfl, length := hf, linked := hl, above := Iff.rfl
      defined := fun hn hm => (hcached _ hn _ hm).cached_or_defined.resolve_left (by
        simp [Factory.blueprint, MergedCache.get?])
      right := fun hn hm => .inl (hcached _ hn _ hm), pending := False.elim }
  obtain ⟨⟨B, up, h, hB⟩, -⟩ :=
    run.fits (B := (s.factory f).blueprint) reading quiet (fun hn hp => hT hn hp) start
  refine ⟨fun hn => (h.ends_mergedDefinition hB hc hn).mono fun r _ hr m => (current m).trans (hr m), ?_⟩
  exact (ends_mergedDefinition_uncached h.length h.linked hc).mono fun r _ hr m =>
    (current m).trans (hr m)

end

/-! ## A parent's name that comes to stand for something else -/

/-- A definition whose parent's name is an alias of one of two definitions above it. -/
def Session.templates : Session where
  factories :=
    [{ definitions := ⟨1, .ofList [("child", { parent := some "template" })]⟩
       aliases := ⟨.ofList [("template", "eager")]⟩
       parent := some 1 },
     { definitions := ⟨2, .ofList [("eager", { lazy := some false }), ("late", { lazy := some true })]⟩ }]

theorem linked_templates : Session.templates.Linked Set.univ := by
  intro f _ p hp
  match f with
  | 0 => cases hp; exact ⟨trivial, by decide⟩
  | 1 => cases hp
  | f + 2 => cases hp

/-- Another alias is no concern of the child, whose merge was cached before. -/
theorem merged_eq_current_templates :
    quietly.Reading ∧ quietly.QuietEnds ∧ 0 < Session.templates.factories.length ∧
      Session.templates.Linked Set.univ ∧ (Session.templates.factory 0).Bounds ∅ ∧
      (∀ n ∉ (∅ : Set String), ∀ ref, (Session.templates.factory 0).merged.get? n = some ref →
        Session.templates.Fresh 0 n ref.definition) ∧
      ∃ (t : Session) (d : Definition), Course quietly 0 ∅ .templates t ∧
        ((t.factory 0).merged.get? "child").isSome = true ∧ (t.factory 0).canonical "other" = "late" ∧
        (t.factory 0).canonical "child" = "child" ∧ (t.factory 0).definitions.get? "child" = some d ∧
        d.parent = some "template" ∧
        Ends (mergedDefinition 0 "child") t fun r _ => ∀ m,
          (∃ p, t.ParentDenotes 0 "child" "template" p ∧
            m = (t.factory 0).settle (.ofParent "child" p d)) ↔
              ∃ ref, r = .ok ref ∧ ref.definition = m := by
  have hf : 0 < Session.templates.factories.length := by decide
  have hcached : ∀ n ∉ (∅ : Set String), ∀ ref,
      (Session.templates.factory 0).merged.get? n = some ref →
        Session.templates.Fresh 0 n ref.definition := fun n _ ref h => by cases h
  refine ⟨reading_quietly, Scripted.quietEnds, hf, linked_templates, Factory.bounds_empty, hcached, ?_⟩
  -- the merge is cached, then the other alias is registered
  have hfacts : ((callFactory quietly (reentry quietly 1) 0 (.merged "child") .templates).any fun (_, t) =>
      (t.factory 0).definitions = (Session.templates.factory 0).definitions &&
      (t.factory 0).canonical "template" = "eager" && t.factories.length = 2 &&
      (callFactory quietly (reentry quietly 1) 0 (.registerAlias "late" "other") t).any fun (_, u) =>
        ((u.factory 0).merged.get? "child").isSome && (u.factory 0).canonical "other" = "late" &&
        (u.factory 0).canonical "template" = "eager" && (u.factory 0).canonical "child" = "child" &&
        (u.factory 0).definitions = (Session.templates.factory 0).definitions) = true := by
    decide +kernel
  obtain ⟨⟨answer, t⟩, ht, hfacts⟩ := (Option.any_eq_true ..).1 hfacts
  simp only [Bool.and_eq_true, decide_eq_true_eq] at hfacts
  obtain ⟨⟨⟨hdefs, htemplate⟩, hlen⟩, hfacts⟩ := hfacts
  obtain ⟨⟨answer', u⟩, hu, hfacts⟩ := (Option.any_eq_true ..).1 hfacts
  simp only [Bool.and_eq_true, decide_eq_true_eq] at hfacts
  obtain ⟨⟨⟨⟨hsome, hother⟩, htemplate'⟩, hchild⟩, hdefs'⟩ := hfacts
  have asked : Course quietly 0 ∅ .templates t := .ask .start (by rfl) ht
  have hl : t.Linked Set.univ := by
    obtain ⟨⟨_, _, h, -⟩, -⟩ := asked.fits reading_quietly Scripted.quietEnds Factory.bounds_empty
      (.start hf linked_templates rfl)
    exact h.linked
  have steady : t.Steady ∅ 0 u := by
    have hrealiased : t.Realiased 0 u :=
      yields_true_iff.1 (realiased_callFactory (by rfl) hl (hlen ▸ by decide)) _ _ hu
    have hentries : (Session.templates.factory 0).definitions.definitions.entries =
        [("child", { parent := some "template" })] := by decide +kernel
    intro n _ d q hd hq
    rw [hdefs] at hd
    have hmem := OrderedMap.get?_eq_some_iff.1 hd
    obtain ⟨rfl, rfl⟩ : n = "child" ∧ d = { parent := some "template" } := by
      simpa [hentries] using hmem
    cases hq
    exact ⟨htemplate'.trans htemplate.symm, .inr fun m => (hrealiased.above _ m).2⟩
  have run : Course quietly 0 ∅ .templates u := .aliases asked (by rfl) hu steady
  have hd : (u.factory 0).definitions.get? "child" = some { parent := some "template" } := by
    rw [hdefs']
    decide +kernel
  exact ⟨u, _, run, hsome, hother, hchild, hd, rfl,
    (Course.merged_eq_current reading_quietly Scripted.quietEnds hf linked_templates
      Factory.bounds_empty hcached run hchild hd rfl).1 (by simp)⟩

theorem course_callAll {env : Collaborators} {depth : Nat} {f : FactoryId} {start : Session} :
    ∀ {calls : List FactoryCall} {s t : Session},
      (∀ call ∈ calls, call.isReading = true ∨ call.isAliasing = true) →
      Course env f Set.univ start s → callAll env depth f calls s = some t →
      Course env f Set.univ start t
  | [], s, t, _, hs, h => by
    cases h
    exact hs
  | call :: calls, s, t, hcalls, hs, h => by
    unfold callAll at h
    rw [List.foldlM_cons] at h
    obtain ⟨u, hu, h⟩ := Option.bind_eq_some_iff.1 h
    obtain ⟨⟨answer, _⟩, hcall, rfl⟩ := Option.map_eq_some_iff.1 hu
    refine course_callAll (fun c hc => hcalls c (by simp [hc])) ?_ h
    obtain hread | halias := hcalls call (by simp)
    · exact hs.ask hread hcall
    · exact hs.aliases halias hcall fun n hn => absurd trivial hn

/-- The alias is re-pointed after the merge was cached. -/
theorem not_merged_eq_current_of_repointing : ¬ ∀ (t : Session) (c q : String) (d : Definition)
    (ref : MergedRef), Course quietly 0 Set.univ .templates t → (t.factory 0).canonical c = c →
      (t.factory 0).definitions.get? c = some d → d.parent = some q →
      ((mergedDefinition 0 c).run t).1 = .ok ref →
      ∃ p, t.ParentDenotes 0 c q p ∧ ref.definition = (t.factory 0).settle (.ofParent c p d) := by
  intro claim
  let calls : List FactoryCall := [.merged "child", .registerAlias "late" "template"]
  have hfacts : (callAll quietly 1 0 calls .templates).any (fun t =>
      (t.factory 0).canonical "child" = "child" &&
      (t.factory 0).definitions.get? "child" = some { parent := some "template" } &&
      ((mergedDefinition 0 "child").run t).1.toOption.any (fun ref => !ref.definition.lazy) &&
      ((mergedDefinition 0 "child").run (t.uncached 0)).1.toOption.all fun ref => ref.definition.lazy)
        = true := by decide +kernel
  obtain ⟨t, ht, hfacts⟩ := (Option.any_eq_true ..).1 hfacts
  simp only [Bool.and_eq_true, decide_eq_true_eq] at hfacts
  obtain ⟨⟨⟨hcan, hd⟩, hcached⟩, huncached⟩ := hfacts
  obtain ⟨ref, href, hlazy⟩ := (Option.any_eq_true ..).1 hcached
  have run : Course quietly 0 Set.univ .templates t :=
    course_callAll (by simp [calls, FactoryCall.isReading, FactoryCall.isAliasing]) .start ht
  have hanswer : ((mergedDefinition 0 "child").run t).1 = .ok ref := by
    cases hr : ((mergedDefinition 0 "child").run t).1 <;> rw [hr] at href <;> cases href
    rfl
  -- what would be current is what is answered without caching, and that is something else
  have hcurrent := (fresh_iff hd rfl).2 (claim t "child" "template" _ ref run hcan hd rfl hanswer)
  obtain ⟨⟨_, _, h, -⟩, -⟩ := run.fits reading_quietly Scripted.quietEnds (fun hn => absurd trivial hn)
    (.of_linked (by decide) linked_templates)
  have huncached' := ends_mergedDefinition_uncached (x := "child") h.length h.linked
    (hcan.symm ▸ OrderedMap.contains_iff_get?.2 ⟨_, hd⟩)
  obtain ⟨fresh, hfresh, e⟩ := (huncached' ref.definition).1 (hcan.symm ▸ hcurrent)
  change ((mergedDefinition 0 "child").run (t.uncached 0)).1 = .ok fresh at hfresh
  simp only [hfresh, Except.toOption, Option.all_some] at huncached
  rw [e] at huncached
  simp [huncached] at hlazy

end BeanContainer
