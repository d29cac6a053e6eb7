import BeanContainer.Hierarchy
import BeanContainer.Registration
import BeanContainer.Proofs.Aliases
import BeanContainer.Proofs.Merges
import Mathlib.Data.Finset.Card
import Mathlib.Order.WellFounded

/-!
The parents of factories. A factory gets its parent once, and only if it is not
on the way up from there, so the factories stay a forest (`Forest.link`). In a
forest the way up from a factory takes fewer steps than there are factories: the
chain of its ancestors is whole (`Forest.chain_eq`), and what asks a factory and
then those above it asks its parent and then those above that
(`Forest.asksParent`).
-/

namespace BeanContainer

open Relation

namespace Session

/-- A factory is the parent of another one. -/
def ParentOf (s : Session) (p f : FactoryId) : Prop := (s.factory f).parent = some p

/-- A factory is above another one, as its parent or further up. -/
abbrev Ancestor (s : Session) : FactoryId → FactoryId → Prop := TransGen s.ParentOf

/-- All parents are factories of the session, and no factory is its own ancestor. -/
structure Forest (s : Session) : Prop where
  parent_lt : ∀ {p f}, s.ParentOf p f → p < s.factories.length
  not_ancestor_self : ∀ f, ¬ s.Ancestor f f

open Classical in
/-- The factories of a session that are above a factory. -/
noncomputable def ancestors (s : Session) (f : FactoryId) : Finset FactoryId :=
  (Finset.range s.factories.length).filter fun a => s.Ancestor a f

variable {s t : Session} {a f g p q : FactoryId}

theorem mem_ancestors : a ∈ s.ancestors f ↔ a < s.factories.length ∧ s.Ancestor a f := by
  simp [ancestors]

/-! ## Chains of ancestors -/

theorem forest_of_no_parent (h : ∀ f, (s.factory f).parent = none) : s.Forest where
  parent_lt {p f} hp := by simp [ParentOf, h f] at hp
  not_ancestor_self f hf := by
    obtain ⟨g, -, hg⟩ := TransGen.tail'_iff.1 hf
    simp [ParentOf, h f] at hg

/-- Parents that were all made later than their children form a forest. -/
theorem forest_of_lt (h : ∀ p f, s.ParentOf p f → f < p ∧ p < s.factories.length) : s.Forest where
  parent_lt hp := (h _ _ hp).2
  not_ancestor_self f hf := by
    have hlt {a b : FactoryId} (hab : s.Ancestor a b) : b < a := by
      induction hab with
      | single hp => exact (h _ _ hp).1
      | tail _ hp ih => exact Nat.lt_trans (h _ _ hp).1 ih
    exact Nat.lt_irrefl f (hlt hf)

/-- So do two factories, one below the other. -/
theorem forest_of_pair {F G : Factory} (hs : s.factories = [F, G]) (hF : F.parent = some 1)
    (hG : G.parent = none) : s.Forest := by
  refine forest_of_lt fun p f hp => ?_
  rw [ParentOf, factory, hs] at hp
  rcases f with _ | _ | f
  · obtain rfl := Option.some.inj (hF.symm.trans hp)
    rw [hs]
    exact ⟨Nat.zero_lt_one, Nat.one_lt_two⟩
  · cases hG.symm.trans hp
  · cases hp

namespace Forest

/-- Less is above a parent: itself not. -/
theorem card_ancestors_lt (h : s.Forest) (hp : s.ParentOf p f) :
    (s.ancestors p).card < (s.ancestors f).card := by
  refine Finset.card_lt_card ((Finset.ssubset_iff_of_subset fun a ha => ?_).2 ⟨p, ?_, ?_⟩)
  · rw [mem_ancestors] at ha ⊢
    exact ⟨ha.1, ha.2.tail hp⟩
  · exact mem_ancestors.2 ⟨h.parent_lt hp, .single hp⟩
  · exact fun hself => h.not_ancestor_self p (mem_ancestors.1 hself).2

/-- **Going up from parent to parent comes to an end.** -/
theorem wellFounded (h : s.Forest) : WellFounded s.ParentOf :=
  Subrelation.wf h.card_ancestors_lt (measure fun f => (s.ancestors f).card).wf

theorem card_ancestors_lt_length (h : s.Forest) (hf : f < s.factories.length) :
    (s.ancestors f).card < s.factories.length := by
  have hsub : s.ancestors f ⊆ Finset.range s.factories.length := fun a ha =>
    Finset.mem_range.2 (mem_ancestors.1 ha).1
  have hlt : (s.ancestors f).card < (Finset.range s.factories.length).card :=
    Finset.card_lt_card ((Finset.ssubset_iff_of_subset hsub).2 ⟨f, Finset.mem_range.2 hf,
      fun hself => h.not_ancestor_self f (mem_ancestors.1 hself).2⟩)
  simpa using hlt

theorem chainWithin_succ (h : s.Forest) : ∀ {links : Nat} {f : FactoryId}, (s.ancestors f).card < links →
    s.chainWithin (links + 1) f = s.chainWithin links f
  | 0, _, hlinks => absurd hlinks (Nat.not_lt_zero _)
  | links + 1, f, hlinks => by
    rw [chainWithin, chainWithin]
    cases hp : (s.factory f).parent with
    | none => rfl
    | some p =>
      have hlt := h.card_ancestors_lt hp
      exact congrArg (f :: ·) (h.chainWithin_succ (by omega))

/-- **The chain of a factory is the factory and the chain of its parent.** -/
theorem chain_eq (h : s.Forest) (hf : f < s.factories.length) :
    s.chain f = f :: (s.factory f).parent.elim [] s.chain := by
  obtain ⟨links, hlinks⟩ := Nat.exists_eq_succ_of_ne_zero (Nat.ne_zero_of_lt hf)
  have hroom := h.card_ancestors_lt_length hf
  unfold Session.chain
  rw [hlinks] at hroom ⊢
  rw [chainWithin]
  cases hp : (s.factory f).parent with
  | none => rfl
  | some p =>
    have hlt := h.card_ancestors_lt hp
    exact congrArg (f :: ·) (h.chainWithin_succ (by omega)).symm

theorem mem_chain_iff (h : s.Forest) (hf : f < s.factories.length) :
    a ∈ s.chain f ↔ ReflTransGen s.ParentOf a f := by
  induction f using h.wellFounded.induction with
  | h f ih =>
    rw [h.chain_eq hf, List.mem_cons, ReflTransGen.cases_tail_iff]
    refine or_congr eq_comm ?_
    cases hp : (s.factory f).parent with
    | none => simp [ParentOf, hp]
    | some p =>
      have hmem : a ∈ s.chain p ↔ ReflTransGen s.ParentOf a p := ih p hp (h.parent_lt hp)
      simp [ParentOf, hp, hmem]

/-- In a forest no chain is cut off. -/
theorem linked (h : s.Forest) : s.Linked Set.univ := by
  intro f _ p hp
  refine ⟨trivial, ?_⟩
  by_cases hf : f < s.factories.length
  · rw [h.chain_eq hf, hp]
    rfl
  · rw [factory_of_length_le (Nat.le_of_not_lt hf)] at hp
    cases hp

end Forest

/-! ## Lookups that go up -/

/-- A factory tells what it can itself, and its parent is asked for the rest, under the name that the
factory puts in the place of the given one. Without a parent the way ends. -/
structure AsksParent (s : Session) (f : FactoryId) : Prop where
  chain : s.chain f = f :: (s.factory f).parent.elim [] s.chain
  contains : ∀ name, s.containsBean f name = ((s.factory f).containsLocal name ||
    (s.factory f).parent.any fun p => s.containsBean p ((s.factory f).canonical name))
  route : ∀ name, s.route (s.chain f) name =
    let bean := (s.factory f).canonical name
    match (s.factory f).singletons.get? bean with
    | some i => .cached f bean i
    | none =>
      if (s.factory f).singletons.isPrototypeInCreation bean then .busy bean
      else if (s.factory f).definitions.contains bean then .defined f bean
      else (s.factory f).parent.elim (.nowhere name) fun p => s.route (s.chain p) bean
  ask : ∀ {α : Type} (own : FactoryId → String → Query (Option α)) (name : String),
    askUpwards own (s.chain f) name = do
      let bean := (← theFactory f).canonical name
      match ← own f bean with
      | some answer => return answer
      | none =>
        match (s.factory f).parent with
        | none => throw (.noSuchDefinition name)
        | some p => askUpwards own (s.chain p) bean
  merged : ∀ name, mergedIn (s.chain f) name = do
    let factory ← theFactory f
    let bean := factory.canonical name
    let above := (s.factory f).parent.map fun p => mergedIn (s.chain p)
    if factory.definitions.contains bean then mergeLocal f above bean
    else
      match above with
      | none => throw (.noSuchDefinition name)
      | some ask => ask bean
  mergedOwn : ∀ name, (mergedOwn f name).run s =
    (mergeLocal f ((s.factory f).parent.map fun p => mergedIn (s.chain p)) name).run s

/-- **In a forest, whatever is looked up in a factory is looked up in its parent next.** -/
theorem Forest.asksParent (h : s.Forest) (hf : f < s.factories.length) : s.AsksParent f := by
  have hchain := h.chain_eq hf
  cases hp : (s.factory f).parent with
  | none =>
    rw [hp] at hchain
    refine ⟨by rw [hchain, hp], fun name => ?_, fun name => ?_, fun own name => ?_, fun name => ?_,
      fun name => ?_⟩
    · simp [containsBean, hchain, containsIn, hp]
    · rw [hchain, hp]
      rfl
    · rw [hchain, hp]
      rfl
    · rw [hchain, hp]
      rfl
    · unfold BeanContainer.mergedOwn
      rw [run_bind, show (get : Query Session).run s = (.ok s, s) from rfl]
      dsimp only
      rw [hchain, hp]
      rfl
  | some p =>
    rw [hp] at hchain
    obtain ⟨above, habove⟩ := chain_eq_cons (h.parent_lt hp)
    change s.chain f = f :: s.chain p at hchain
    refine ⟨by rw [hchain, hp]; rfl, fun name => ?_, fun name => ?_, fun own name => ?_, fun name => ?_,
      fun name => ?_⟩
    · simp [containsBean, hchain, containsIn, hp]
    · rw [hchain, hp]
      dsimp only [Option.elim]
      rw [habove]
      rfl
    · rw [hchain, hp]
      dsimp only
      rw [habove]
      rfl
    · rw [hchain, hp]
      dsimp only [Option.map]
      rw [habove]
      rfl
    · unfold BeanContainer.mergedOwn
      rw [run_bind, show (get : Query Session).run s = (.ok s, s) from rfl]
      dsimp only
      rw [hchain, hp]
      dsimp only [Option.map]
      rw [habove]

/-! ## Calls that set a parent -/

/-- A session after a factory was linked to its parent. -/
def link (s : Session) (f p : FactoryId) : Session :=
  (s.modifyFactory f fun F => { F with parent := some p }).write (.notice .parentSet)

theorem run_setParent : (setParent f p).run s =
    if f ∈ s.chain p then (.error (.illegalState .parentLoop), s)
    else if (s.factory f).parent.isSome then (.error (.illegalState .parentSet), s)
    else (.ok (), s.link f p) := by
  have hcontains : (s.chain p).contains f = decide (f ∈ s.chain p) := by simp
  unfold setParent
  rw [run_bind]
  change ((if (s.chain p).contains f = true then _ else _ : Query Unit)).run s = _
  simp only [hcontains, decide_eq_true_eq]
  split
  · rfl
  · change ((if (s.factory f).parent.isSome = true then _ else _ : Query Unit)).run s = _
    split <;> rfl

/-- A call that sets a parent fails and leaves all as it was, or makes the link. -/
theorem setParent_cases : (∃ e, (setParent f p).run s = (.error e, s)) ∨
    f ∉ s.chain p ∧ (s.factory f).parent = none ∧ (setParent f p).run s = (.ok (), s.link f p) := by
  rw [run_setParent]
  split
  · exact .inl ⟨_, rfl⟩
  · next hloop =>
    split
    · exact .inl ⟨_, rfl⟩
    · next hnone => exact .inr ⟨hloop, by simpa using hnone, rfl⟩

theorem length_setParent :
    ((setParent f p).run s).2.factories.length = s.factories.length := by
  rcases setParent_cases (s := s) (f := f) (p := p) with ⟨e, h⟩ | ⟨-, -, h⟩
  · rw [h]
  · rw [h]
    exact length_modifyFactory

theorem factory_link_of_ne (h : g ≠ f) : (s.link f p).factory g = s.factory g :=
  factory_modifyFactory_of_ne h

theorem factory_link_self (hf : f < s.factories.length) :
    (s.link f p).factory f = { s.factory f with parent := some p } :=
  factory_modifyFactory_self hf

theorem parentOf_link (hf : f < s.factories.length) (h : (s.link f p).ParentOf a g) :
    s.ParentOf a g ∨ a = p ∧ g = f := by
  unfold ParentOf at h
  by_cases hg : g = f
  · subst hg
    rw [factory_link_self hf] at h
    exact .inr ⟨(Option.some.inj h).symm, rfl⟩
  · rw [factory_link_of_ne hg] at h
    exact .inl h

/-- **A link to a factory on whose chain the linked one is not makes no circle.** -/
theorem Forest.link (h : s.Forest) (hf : f < s.factories.length) (hp : p < s.factories.length)
    (hloop : f ∉ s.chain p) : (s.link f p).Forest where
  parent_lt ha := by
    refine Nat.lt_of_lt_of_eq ?_ length_modifyFactory.symm
    rcases parentOf_link hf ha with ha | ⟨rfl, -⟩
    · exact h.parent_lt ha
    · exact hp
  not_ancestor_self g hg := by
    rcases transGen_of_added (fun _ _ => parentOf_link hf) hg with hg | ⟨hto, hfrom⟩
    · exact h.not_ancestor_self g hg
    · exact hloop ((h.mem_chain_iff hp).2 (hfrom.trans hto))

theorem Forest.setParent (h : s.Forest) (hf : f < s.factories.length) (hp : p < s.factories.length) :
    ((setParent f p).run s).2.Forest := by
  rcases setParent_cases (s := s) (f := f) (p := p) with ⟨e, he⟩ | ⟨hloop, -, he⟩
  · rwa [he]
  · rw [he]
    exact h.link hf hp hloop

theorem ParentOf.setParent (h : s.ParentOf p f) : ((setParent g q).run s).2.ParentOf p f := by
  rcases setParent_cases (s := s) (f := g) (p := q) with ⟨e, he⟩ | ⟨-, hnone, he⟩
  · rwa [he]
  · have hfg : f ≠ g := fun e => by simp [ParentOf, e, hnone] at h
    rw [he, ParentOf, factory_link_of_ne hfg]
    exact h

/-- **A parent is taken by a factory that has none, and is neither that parent nor above it.** -/
theorem Forest.setParent_eq_ok_iff (h : s.Forest) (hp : p < s.factories.length) :
    ((BeanContainer.setParent f p).run s).1 = .ok () ↔
      (s.factory f).parent = none ∧ f ≠ p ∧ ¬ s.Ancestor f p := by
  have hchain : f ∈ s.chain p ↔ f = p ∨ s.Ancestor f p := by
    rw [h.mem_chain_iff hp, reflTransGen_iff_eq_or_transGen, eq_comm]
  rw [run_setParent]
  split
  · next hloop => exact ⟨nofun, fun ⟨_, hne, hnot⟩ => ((hchain.1 hloop).elim hne hnot).elim⟩
  · next hloop =>
    obtain ⟨hne, hnot⟩ := not_or.1 (mt hchain.2 hloop)
    cases hparent : (s.factory f).parent with
    | none => exact ⟨fun _ => ⟨rfl, hne, hnot⟩, fun _ => rfl⟩
    | some q => exact ⟨nofun, fun ⟨hnone, _⟩ => nomatch hnone⟩

/-! ## Sequences of such calls -/

/-- A session after calls that each set a parent of a factory, whether they succeed or fail. -/
def linkAll (s : Session) (calls : List (FactoryId × FactoryId)) : Session :=
  calls.foldl (fun s c => ((BeanContainer.setParent c.1 c.2).run s).2) s

theorem linkAll_append {calls more : List (FactoryId × FactoryId)} :
    s.linkAll (calls ++ more) = (s.linkAll calls).linkAll more := List.foldl_append

theorem length_linkAll {calls : List (FactoryId × FactoryId)} :
    (s.linkAll calls).factories.length = s.factories.length := by
  induction calls generalizing s with
  | nil => rfl
  | cons c calls ih => exact ih.trans length_setParent

theorem Forest.linkAll (h : s.Forest) {calls : List (FactoryId × FactoryId)}
    (known : ∀ c ∈ calls, c.1 < s.factories.length ∧ c.2 < s.factories.length) :
    (s.linkAll calls).Forest := by
  induction calls generalizing s with
  | nil => exact h
  | cons c calls ih =>
    obtain ⟨hf, hp⟩ := known c List.mem_cons_self
    refine ih (h.setParent hf hp) fun c' hc' => ?_
    rw [length_setParent]
    exact known c' (List.mem_cons_of_mem c hc')

theorem ParentOf.linkAll (h : s.ParentOf p f) {calls : List (FactoryId × FactoryId)} :
    (s.linkAll calls).ParentOf p f := by
  induction calls generalizing s with
  | nil => exact h
  | cons c calls ih => exact ih h.setParent

/-- **Factories that get their parents one call after another stay a forest.**

Whatever calls there were, accepted or refused: no factory is its own ancestor, going up comes to an end,
and so does whatever asks a factory and then its parent, which goes over the factory and its ancestors,
each once. A parent stays for good. And the next call succeeds exactly if its factory has no parent yet,
and is neither the one it is to get nor an ancestor of that one; if it fails it changes nothing. -/
theorem parents_form_forest (fresh : ∀ f, (s.factory f).parent = none)
    (calls : List (FactoryId × FactoryId))
    (known : ∀ c ∈ calls, c.1 < s.factories.length ∧ c.2 < s.factories.length) :
    let t := s.linkAll calls
    (∀ f, ¬ t.Ancestor f f) ∧ WellFounded t.ParentOf ∧
      (∀ f < s.factories.length,
        t.AsksParent f ∧ (t.chain f).Nodup ∧ ∀ a, a ∈ t.chain f ↔ a = f ∨ t.Ancestor a f) ∧
      (∀ more p f, t.ParentOf p f → (s.linkAll (calls ++ more)).ParentOf p f) ∧
      ∀ f < s.factories.length, ∀ p < s.factories.length,
        ∃ r u, (BeanContainer.setParent f p).run t = (r, u) ∧
          (r = .ok () ↔ (t.factory f).parent = none ∧ f ≠ p ∧ ¬ t.Ancestor f p) ∧
          (r = .ok () → u.ParentOf p f) ∧ (r ≠ .ok () → u = t) := by
  intro t
  have hforest : t.Forest := (forest_of_no_parent fresh).linkAll known
  have hlen : t.factories.length = s.factories.length := length_linkAll
  refine ⟨hforest.not_ancestor_self, hforest.wellFounded, fun f hf => ?_, fun more p f hp => ?_,
    fun f hf p hp => ⟨_, _, (Prod.eta _).symm, hforest.setParent_eq_ok_iff (hlen ▸ hp), ?_⟩⟩
  · rw [← hlen] at hf
    refine ⟨hforest.asksParent hf, (chained_chain hforest.linked trivial).nodup, fun a => ?_⟩
    rw [hforest.mem_chain_iff hf, reflTransGen_iff_eq_or_transGen, eq_comm]
  · rw [linkAll_append]
    exact hp.linkAll
  · rcases setParent_cases (s := t) (f := f) (p := p) with ⟨e, he⟩ | ⟨-, -, he⟩
    · rw [he]
      exact ⟨nofun, fun _ => rfl⟩
    · rw [he]
      refine ⟨fun _ => ?_, fun hfail => absurd rfl hfail⟩
      rw [ParentOf, factory_link_self (hlen ▸ hf)]

/-- Two factories, one above the other; the upper one is refused the lower one as its parent, which
changes nothing. -/
theorem parents_form_forest_pair :
    let s : Session := { factories := [{}, {}] }
    let t := s.linkAll [(1, 0), (0, 1)]
    t.chain 1 = [1, 0] ∧ (∀ f, ¬ t.Ancestor f f) ∧ WellFounded t.ParentOf ∧ t.AsksParent 1 ∧
      (s.linkAll [(1, 0), (0, 1), (1, 1)]).ParentOf 0 1 ∧
      ∃ e, (BeanContainer.setParent 0 1).run t = (.error e, t) := by
  intro s t
  have fresh (f) : (s.factory f).parent = none := by
    rcases f with _ | _ | f <;> rfl
  have hchain : t.chain 1 = [1, 0] := by decide +kernel
  have hlink : (t.factory 1).parent = some 0 := by decide +kernel
  obtain ⟨hirrefl, hwf, hasks, hstays, hcalls⟩ :=
    parents_form_forest fresh [(1, 0), (0, 1)] (by simp [s])
  obtain ⟨r, u, hrun, hok, -, hfail⟩ := hcalls 0 (by decide) 1 (by decide)
  refine ⟨hchain, hirrefl, hwf, (hasks 1 (by decide)).1, hstays [(1, 1)] 0 1 hlink, ?_⟩
  cases r with
  | ok => exact absurd (.single hlink) (hok.1 rfl).2.2
  | error e => exact ⟨e, hrun.trans (congrArg (Prod.mk _) (hfail fun h => by cases h))⟩

end Session

end BeanContainer
