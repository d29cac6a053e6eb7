import BeanContainer.Proofs.Lineage
import BeanContainer.Proofs.Quiet

/-!
What a name is merged to. `Merges` says it without running anything: a name with
a cached merge has that, and any other name what its definition makes of its
parent's merge. `Own` is the same for a factory in a session, where the parent
may be a matter of the factories above.

Merging fills the caches as it goes. `Reads` relates two sessions that differ in
their caches by nothing but merges that the first of them stands for, so both
stand for the same merges (`Reads.own_iff`). Asking for a merge answers exactly
what the name is merged to, and only reads (`ends_mergedOwn`).
-/

namespace BeanContainer

/-- What a name is merged to in a factory; `up` tells what the factories above have to say. -/
inductive Factory.Merges (F : Factory) (up : String → MergedDefinition → Prop) :
    String → MergedDefinition → Prop
  | cached {n : String} {ref : MergedRef} : F.merged.get? n = some ref → Merges F up n ref.definition
  | root {n : String} {d : Definition} : F.merged.get? n = none → F.definitions.get? n = some d →
      d.parent = none → Merges F up n (F.settle (.ofRoot n d))
  | child {n : String} {d : Definition} {q : String} {m : MergedDefinition} :
      F.merged.get? n = none → F.definitions.get? n = some d → d.parent = some q →
      F.canonical q ≠ n → F.definitions.contains (F.canonical q) = true →
      Merges F up (F.canonical q) m → Merges F up n (F.settle (.ofParent n m d))
  | beyond {n : String} {d : Definition} {q : String} {m : MergedDefinition} :
      F.merged.get? n = none → F.definitions.get? n = some d → d.parent = some q →
      ¬ (F.canonical q ≠ n ∧ F.definitions.contains (F.canonical q) = true) →
      up (F.canonical q) m → Merges F up n (F.settle (.ofParent n m d))

namespace Factory

variable {F F' : Factory} {up up' : String → MergedDefinition → Prop} {n : String}
  {m m' : MergedDefinition}

theorem Merges.exists_line (h : F.Merges up n m) : ∃ L, F.Line n L := by
  induction h with
  | cached hm => exact ⟨_, .cached hm⟩
  | root hm hd hp => exact ⟨_, .root hm hd hp⟩
  | child hm hd hq hne hc _ ih =>
    obtain ⟨L, hL⟩ := ih
    exact ⟨_, .child hm hd hq hne hc hL⟩
  | beyond hm hd hq hlocal => exact ⟨_, .beyond hm hd hq hlocal⟩

theorem Merges.cached_or_defined (h : F.Merges up n m) :
    (∃ ref, F.merged.get? n = some ref) ∨ F.definitions.contains n = true := by
  cases h with
  | cached hm => exact .inl ⟨_, hm⟩
  | root _ hd => exact .inr (OrderedMap.contains_iff_get?.2 ⟨_, hd⟩)
  | child _ hd => exact .inr (OrderedMap.contains_iff_get?.2 ⟨_, hd⟩)
  | beyond _ hd => exact .inr (OrderedMap.contains_iff_get?.2 ⟨_, hd⟩)

theorem Merges.inv_root {d : Definition} (hm : F.merged.get? n = none)
    (hd : F.definitions.get? n = some d) (hp : d.parent = none) (h : F.Merges up n m) :
    m = F.settle (.ofRoot n d) := by
  cases h with
  | cached hm' => cases hm.symm.trans hm'
  | root _ hd' => cases hd.symm.trans hd'; rfl
  | child _ hd' hp' | beyond _ hd' hp' =>
    cases hd.symm.trans hd'
    cases hp.symm.trans hp'

theorem Merges.inv_child {d : Definition} {q : String} (hm : F.merged.get? n = none)
    (hd : F.definitions.get? n = some d) (hq : d.parent = some q) (hne : F.canonical q ≠ n)
    (hc : F.definitions.contains (F.canonical q) = true) (h : F.Merges up n m) :
    ∃ p, F.Merges up (F.canonical q) p ∧ m = F.settle (.ofParent n p d) := by
  cases h with
  | cached hm' => cases hm.symm.trans hm'
  | root _ hd' hp' =>
    cases hd.symm.trans hd'
    cases hq.symm.trans hp'
  | child _ hd' hq' _ _ h' =>
    cases hd.symm.trans hd'
    cases hq.symm.trans hq'
    exact ⟨_, h', rfl⟩
  | beyond _ hd' hq' hlocal' =>
    cases hd.symm.trans hd'
    cases hq.symm.trans hq'
    exact absurd ⟨hne, hc⟩ hlocal'

theorem Merges.inv_beyond {d : Definition} {q : String} (hm : F.merged.get? n = none)
    (hd : F.definitions.get? n = some d) (hq : d.parent = some q)
    (hlocal : ¬ (F.canonical q ≠ n ∧ F.definitions.contains (F.canonical q) = true))
    (h : F.Merges up n m) : ∃ p, up (F.canonical q) p ∧ m = F.settle (.ofParent n p d) := by
  cases h with
  | cached hm' => cases hm.symm.trans hm'
  | root _ hd' hp' =>
    cases hd.symm.trans hd'
    cases hq.symm.trans hp'
  | child _ hd' hq' hne' hc' =>
    cases hd.symm.trans hd'
    cases hq.symm.trans hq'
    exact absurd ⟨hne', hc'⟩ hlocal
  | beyond _ hd' hq' _ h' =>
    cases hd.symm.trans hd'
    cases hq.symm.trans hq'
    exact ⟨_, h', rfl⟩

theorem Merges.unique (hup : ∀ n m m', up n m → up n m' → m = m') (h : F.Merges up n m) :
    ∀ {m'}, F.Merges up n m' → m = m' := by
  induction h with
  | cached hm =>
    intro m' h'
    cases h' with
    | cached hm' => cases hm.symm.trans hm'; rfl
    | root hm' | child hm' | beyond hm' => cases hm.symm.trans hm'
  | root hm hd hp => exact fun h' => (h'.inv_root hm hd hp).symm
  | child hm hd hq hne hc _ ih =>
    intro m' h'
    obtain ⟨p, hp, rfl⟩ := h'.inv_child hm hd hq hne hc
    rw [ih hp]
  | beyond hm hd hq hlocal hu =>
    intro m' h'
    obtain ⟨p, hp, rfl⟩ := h'.inv_beyond hm hd hq hlocal
    rw [hup _ _ _ hu hp]

/-- A factory without what becomes of its definitions: its beans and their merges. -/
def recipe (F : Factory) : Factory :=
  { F with singletons := {}, manualNames := {}, dependencies := {}, merged := {} }

/-- What merging goes by, with nothing cached. -/
def blueprint (F : Factory) : Factory where
  definitions := F.definitions
  aliases := F.aliases
  resolvers := F.resolvers
  typeResolver := F.typeResolver

theorem blueprint_of_recipe (h : F'.recipe = F.recipe) : F'.blueprint = F.blueprint :=
  show F'.recipe.blueprint = F.recipe.blueprint by rw [h]

theorem definitions_of_blueprint (h : F'.blueprint = F.blueprint) : F'.definitions = F.definitions :=
  show F'.blueprint.definitions = F.blueprint.definitions by rw [h]

theorem canonical_of_blueprint (h : F'.blueprint = F.blueprint) : F'.canonical = F.canonical :=
  show F'.blueprint.canonical = F.blueprint.canonical by rw [h]

theorem settle_of_blueprint (h : F'.blueprint = F.blueprint) : F'.settle = F.settle :=
  show F'.blueprint.settle = F.blueprint.settle by rw [h]

theorem parent_of_recipe (h : F'.recipe = F.recipe) : F'.parent = F.parent :=
  show F'.recipe.parent = F.recipe.parent by rw [h]

/-- Caching what names are merged to anyway changes nothing. -/
theorem merges_iff_of_cached (hup : ∀ n m m', up n m → up n m' → m = m')
    (same : ∀ n m, up' n m ↔ up n m) (blueprint : F'.blueprint = F.blueprint)
    (kept : ∀ {n ref}, F.merged.get? n = some ref → F'.merged.get? n = some ref)
    (sound : ∀ {n ref}, F'.merged.get? n = some ref → F.Merges up n ref.definition) :
    F'.Merges up' n m ↔ F.Merges up n m := by
  have hdef := definitions_of_blueprint blueprint
  have hcan := canonical_of_blueprint blueprint
  have hsettle := settle_of_blueprint blueprint
  have uncached {n} (h : F'.merged.get? n = none) : F.merged.get? n = none :=
    Option.eq_none_iff_forall_ne_some.2 fun ref hr => by simp [kept hr] at h
  constructor
  · intro h
    induction h with
    | cached hm => exact sound hm
    | root hm hd hp => exact hsettle ▸ .root (uncached hm) (hdef ▸ hd) hp
    | child hm hd hq hne hc _ ih =>
      rw [hcan] at hne hc ih
      rw [hdef] at hd hc
      exact hsettle ▸ .child (uncached hm) hd hq hne hc ih
    | beyond hm hd hq hlocal hu =>
      rw [hcan] at hlocal hu
      rw [hdef] at hd hlocal
      exact hsettle ▸ .beyond (uncached hm) hd hq hlocal ((same _ _).1 hu)
  · -- A name that got its merge cached meanwhile got the same one.
    have meanwhile {n m} (h : F.Merges up n m) (h' : F'.merged.get? n = none → F'.Merges up' n m) :
        F'.Merges up' n m := by
      cases hm : F'.merged.get? n with
      | none => exact h' hm
      | some ref => exact (sound hm).unique hup h ▸ .cached hm
    intro h
    induction h with
    | cached hm => exact .cached (kept hm)
    | root hm hd hp => exact meanwhile (.root hm hd hp) fun hm => hsettle ▸ .root hm (hdef ▸ hd) hp
    | child hm hd hq hne hc h ih =>
      refine meanwhile (.child hm hd hq hne hc h) fun hm => ?_
      rw [← hcan] at hne hc ih
      rw [← hdef] at hd hc
      exact hsettle ▸ .child hm hd hq hne hc ih
    | beyond hm hd hq hlocal hu =>
      refine meanwhile (.beyond hm hd hq hlocal hu) fun hm => ?_
      rw [← hcan] at hlocal hu
      rw [← hdef] at hd hlocal
      exact hsettle ▸ .beyond hm hd hq hlocal ((same _ _).2 hu)

end Factory

namespace Session

/-- What a name is merged to along a chain of factories. -/
def denotes (s : Session) : List FactoryId → String → MergedDefinition → Prop
  | [], _, _ => False
  | f :: ancestors, n, m =>
    let bean := (s.factory f).canonical n
    if (s.factory f).definitions.contains bean then (s.factory f).Merges (s.denotes ancestors) bean m
    else s.denotes ancestors bean m

/-- The factories above a factory, nearest first. -/
abbrev above (s : Session) (f : FactoryId) : List FactoryId := (s.chain f).tail

/-- What a name is merged to by a factory that should define it. -/
def Own (s : Session) (f : FactoryId) : String → MergedDefinition → Prop :=
  (s.factory f).Merges (s.denotes (s.above f))

/-- The parents of these factories are among them, and no chain of theirs is cut off, as it would
be if a factory were its own ancestor. -/
def Linked (s : Session) (U : Set FactoryId) : Prop :=
  ∀ f ∈ U, ∀ p, (s.factory f).parent = some p → p ∈ U ∧ s.chain f = f :: s.chain p

/-- A list of factories each of which is followed by those above it. -/
def Chained (s : Session) (U : Set FactoryId) : List FactoryId → Prop
  | [] => True
  | f :: ancestors => f ∈ U ∧ s.chain f = f :: ancestors ∧ s.Chained U ancestors

/-- Nothing happened between two sessions to the factories but what reading leaves behind: they may
have got and lost beans, and cached merges that the first session stands for. Factories outside
`U` are as they were, and nothing is told of them. -/
structure Reads (U : Set FactoryId) (s s' : Session) : Prop where
  length : s'.factories.length = s.factories.length
  outside : ∀ {g}, g ∉ U → s'.factory g = s.factory g
  recipe : ∀ g, (s'.factory g).recipe = (s.factory g).recipe
  kept : ∀ {g n ref}, (s.factory g).merged.get? n = some ref → (s'.factory g).merged.get? n = some ref
  sound : ∀ {g n ref}, (s'.factory g).merged.get? n = some ref → s.Own g n ref.definition
  told : s.Tells U s'

variable {U : Set FactoryId} {s t u : Session} {f g p : FactoryId} {n : String}
  {m m' : MergedDefinition}

theorem denotes_unique : ∀ (anc : List FactoryId) (n : String) (m m' : MergedDefinition),
    s.denotes anc n m → s.denotes anc n m' → m = m'
  | [], _, _, _, h, _ => h.elim
  | f :: anc, n, m, m', h, h' => by
    unfold denotes at h h'
    simp only at h h'
    split at h
    · rename_i hc
      rw [if_pos hc] at h'
      exact h.unique (denotes_unique anc) h'
    · rename_i hc
      rw [if_neg hc] at h'
      exact denotes_unique anc _ _ _ h h'

theorem own_unique (h : s.Own f n m) (h' : s.Own f n m') : m = m' :=
  Factory.Merges.unique (denotes_unique _) h h'

theorem Reads.refl (s : Session) : s.Reads U s where
  length := rfl
  outside _ := rfl
  recipe _ := rfl
  kept h := h
  sound h := .cached h
  told := .of_record_eq rfl

theorem Reads.parent (h : s.Reads U t) : (t.factory f).parent = (s.factory f).parent :=
  Factory.parent_of_recipe (h.recipe f)

theorem chain_congr (hlen : t.factories.length = s.factories.length)
    (hp : ∀ g, (t.factory g).parent = (s.factory g).parent) : t.chain f = s.chain f := by
  have (links : Nat) : ∀ f, t.chainWithin links f = s.chainWithin links f := by
    induction links with
    | zero => exact fun _ => rfl
    | succ links ih =>
      intro f
      unfold chainWithin
      simp only [hp, ih]
  unfold Session.chain
  rw [hlen, this]

theorem linked_congr (hlen : t.factories.length = s.factories.length)
    (hp : ∀ g, (t.factory g).parent = (s.factory g).parent) (hl : s.Linked U) : t.Linked U := by
  intro f hf p h
  rw [chain_congr hlen hp, chain_congr hlen hp]
  exact hl f hf p (hp f ▸ h)

theorem Reads.chain (h : s.Reads U t) : t.chain f = s.chain f := chain_congr h.length fun _ => h.parent

theorem Reads.linked (h : s.Reads U t) (hl : s.Linked U) : t.Linked U :=
  linked_congr h.length (fun _ => h.parent) hl

theorem chain_eq_cons_of_pos (h : 0 < s.factories.length) : ∃ ancestors, s.chain f = f :: ancestors := by
  obtain ⟨links, hlinks⟩ := Nat.exists_eq_succ_of_ne_zero (Nat.ne_of_gt h)
  unfold Session.chain
  rw [hlinks, chainWithin]
  split
  · exact ⟨_, rfl⟩
  · exact ⟨[], rfl⟩

theorem chain_eq_cons (hf : f < s.factories.length) : ∃ ancestors, s.chain f = f :: ancestors :=
  chain_eq_cons_of_pos (Nat.zero_lt_of_lt hf)

theorem pos_of_mem_chain (h : g ∈ s.chain f) : 0 < s.factories.length := by
  unfold Session.chain at h
  cases hlen : s.factories.length with
  | zero => simp [hlen, chainWithin] at h
  | succ links => exact Nat.succ_pos links

theorem chain_eq (hl : s.Linked U) (hf : f ∈ U) : s.chain f = [] ∨ s.chain f = f :: s.above f := by
  unfold above
  cases hp : (s.factory f).parent with
  | some p =>
    rw [(hl f hf p hp).2]
    exact .inr rfl
  | none =>
    unfold Session.chain
    cases s.factories.length with
    | zero => exact .inl rfl
    | succ links => simp [chainWithin, hp]

/-- The chain of a factory whose session is well linked is a chain for each of its members. -/
theorem chained_chain (hl : s.Linked U) (hf : f ∈ U) : s.Chained U (s.chain f) := by
  generalize hk : (s.chain f).length = k
  induction k using Nat.strongRecOn generalizing f with
  | ind k ih =>
    cases hp : (s.factory f).parent with
    | none =>
      unfold Session.chain at hk ⊢
      cases hlen : s.factories.length with
      | zero => trivial
      | succ links =>
        have hc : s.chain f = [f] := by
          unfold Session.chain
          rw [hlen]
          simp [chainWithin, hp]
        simp only [chainWithin, hp]
        exact ⟨hf, hc, trivial⟩
    | some p =>
      obtain ⟨hpU, hc⟩ := hl f hf p hp
      rw [hc] at hk ⊢
      exact ⟨hf, hc, ih _ (by rw [← hk]; simp) hpU rfl⟩

theorem chained_above (hl : s.Linked U) (hf : f ∈ U) : s.Chained U (s.above f) := by
  have := chained_chain hl hf
  unfold above
  cases hc : s.chain f with
  | nil => trivial
  | cons g anc =>
    rw [hc] at this
    exact this.2.2

theorem Chained.chain_eq : ∀ {below above : List FactoryId}, s.Chained U (below ++ g :: above) →
    s.chain g = g :: above
  | [], _, h => h.2.1
  | _ :: _, _, h => chain_eq h.2.2

theorem Chained.nodup : ∀ {anc : List FactoryId}, s.Chained U anc → anc.Nodup
  | [], _ => .nil
  | f :: anc, h => by
    refine List.nodup_cons.2 ⟨fun hmem => ?_, h.2.2.nodup⟩
    obtain ⟨below, above, rfl⟩ := List.append_of_mem hmem
    have habove := (List.cons.inj (h.2.1.symm.trans h.2.2.chain_eq)).2
    have hlen := congrArg List.length habove
    simp only [List.length_append, List.length_cons] at hlen
    omega

theorem not_mem_above (hl : s.Linked U) (hf : f ∈ U) : f ∉ s.above f := by
  rcases chain_eq hl hf with hc | hc
  · simp [above, hc]
  · have hnodup := (chained_chain hl hf).nodup
    rw [hc] at hnodup
    exact (List.nodup_cons.1 hnodup).1

theorem Chained.parent_mem (hl : s.Linked U) {anc : List FactoryId} (hc : s.Chained U anc) (hg : g ∈ anc)
    (hp : (s.factory g).parent = some p) : p ∈ anc := by
  obtain ⟨below, above, rfl⟩ := List.append_of_mem hg
  have hself := hc.chain_eq
  have hmem : g ∈ U := by
    clear hself hg
    induction below with
    | nil => exact hc.1
    | cons x below ih => exact ih hc.2.2
  have habove : above = s.chain p := (List.cons.inj (hself.symm.trans (hl g hmem p hp).2)).2
  obtain ⟨ancestors, hcons⟩ := chain_eq_cons_of_pos (f := p) (pos_of_mem_chain (f := g) (hself ▸ List.mem_cons_self))
  rw [habove, hcons]
  simp

theorem linked_above (hl : s.Linked Set.univ) : s.Linked {g | g ∈ s.above f} :=
  fun g hg p hp => ⟨(chained_above (f := f) hl trivial).parent_mem hl hg hp, (hl g trivial p hp).2⟩

theorem Reads.denotes_iff (h : s.Reads U t) : ∀ {anc}, s.Chained U anc → ∀ {n m},
    t.denotes anc n m ↔ s.denotes anc n m
  | [], _, _, _ => Iff.rfl
  | f :: anc, hc, n, m => by
    have hblue := Factory.blueprint_of_recipe (h.recipe f)
    unfold denotes
    simp only [Factory.canonical_of_blueprint hblue, Factory.definitions_of_blueprint hblue]
    split
    · refine Factory.merges_iff_of_cached (denotes_unique _)
        (fun _ _ => h.denotes_iff hc.2.2) hblue h.kept fun hm => ?_
      have := h.sound hm
      rwa [Own, above, hc.2.1] at this
    · exact h.denotes_iff hc.2.2

/-- **Reading does not change what a name is merged to.** -/
theorem Reads.own_iff (h : s.Reads U t) (hl : s.Linked U) (hf : f ∈ U) :
    t.Own f n m ↔ s.Own f n m := by
  unfold Own
  rw [above, h.chain]
  exact Factory.merges_iff_of_cached (denotes_unique _)
    (fun _ _ => h.denotes_iff (chained_above hl hf)) (Factory.blueprint_of_recipe (h.recipe f)) h.kept
    fun hm => h.sound hm

theorem Reads.trans (hl : s.Linked U) (h : s.Reads U t) (h' : t.Reads U u) : s.Reads U u where
  length := h'.length.trans h.length
  outside hg := (h'.outside hg).trans (h.outside hg)
  recipe g := (h'.recipe g).trans (h.recipe g)
  kept hm := h'.kept (h.kept hm)
  sound {g n ref} hm := by
    by_cases hg : g ∈ U
    · exact (h.own_iff hl hg).1 (h'.sound hm)
    · rw [h'.outside hg] at hm
      exact h.sound hm
  told := h.told.trans h'.told

end Session

end BeanContainer
