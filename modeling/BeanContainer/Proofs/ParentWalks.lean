import BeanContainer.Proofs.Ancestry
import BeanContainer.Proofs.MergeQueries

/-!
The way from a definition to its parent, and on to the parent's parent. A
parent's name leads to another definition of the factory itself, if there is
one, and otherwise it is looked up in the factories above. At the end of the way
there is a definition without a parent, or a circle, or a name that is defined
nowhere; a merge succeeds in the first case, and fails in the others before
anything has been merged (`merged_iff_reachesRoot`).

The functions that go this way are bounded: in how many aliases they follow for a
name, how many definitions on a line and how many factories on a chain. None of
the bounds counts (`Unbounded`).
-/

namespace BeanContainer

open Relation

/-- A factory and the name of a definition in it. -/
abbrev Place := FactoryId × String

/-- An error about what is defined. -/
def BeanError.IsDefinitionStore (e : BeanError) : Prop := ∃ bean fault, e = .definitionStore bean fault

namespace Session

/-- Where the definition is that a name leads to from a factory: there or above. Each factory on the
way replaces the name by what it stands for there. -/
inductive Finds (s : Session) : FactoryId → String → Place → Prop
  | here {f : FactoryId} {x : String} :
      (s.factory f).definitions.contains ((s.factory f).canonical x) = true →
      Finds s f x (f, (s.factory f).canonical x)
  | above {f p : FactoryId} {x : String} {place : Place} :
      ¬ (s.factory f).definitions.contains ((s.factory f).canonical x) = true → s.ParentOf p f →
      Finds s p ((s.factory f).canonical x) place → Finds s f x place

/-- The parent's name of a definition leads to another one. -/
inductive DerivesFrom (s : Session) : Place → Place → Prop
  | locally {f : FactoryId} {n p : String} : (s.factory f).LocalParent n p → DerivesFrom s (f, n) (f, p)
  | above {f p : FactoryId} {n q : String} {d : Definition} {place : Place} :
      (s.factory f).definitions.get? n = some d → d.parent = some q →
      ¬ ((s.factory f).canonical q ≠ n ∧ (s.factory f).definitions.contains ((s.factory f).canonical q) = true) →
      s.ParentOf p f → s.Finds p ((s.factory f).canonical q) place → DerivesFrom s (f, n) place

/-- The way from a definition to its parent, and on, comes to a definition without a parent. -/
def ReachesRoot (s : Session) (start : Place) : Prop :=
  ∃ place d, ReflTransGen s.DerivesFrom start place ∧
    (s.factory place.1).definitions.get? place.2 = some d ∧ d.parent = none

/-- A name leads from a factory to a definition whose way comes to one without a parent. -/
def Rooted (s : Session) (f : FactoryId) (x : String) : Prop := ∃ place, s.Finds f x place ∧ s.ReachesRoot place

variable {s t : Session} {f g p : FactoryId} {n q x : String} {d : Definition} {place : Place} {L : Lineage}

/-! ## The way from a definition -/

theorem finds_iff_of_contains (h : (s.factory f).definitions.contains ((s.factory f).canonical x) = true) :
    s.Finds f x place ↔ place = (f, (s.factory f).canonical x) := by
  constructor
  · rintro (_ | ⟨hnot, -, -⟩)
    · rfl
    · exact absurd h hnot
  · rintro rfl
    exact .here h

theorem finds_iff_of_not_contains
    (h : ¬ (s.factory f).definitions.contains ((s.factory f).canonical x) = true) :
    s.Finds f x place ↔ ∃ p, s.ParentOf p f ∧ s.Finds p ((s.factory f).canonical x) place := by
  constructor
  · rintro (hhere | ⟨-, hp, hfinds⟩)
    · exact absurd hhere h
    · exact ⟨_, hp, hfinds⟩
  · rintro ⟨p, hp, hfinds⟩
    exact .above h hp hfinds

theorem reachesRoot_of_root (hd : (s.factory f).definitions.get? n = some d) (hp : d.parent = none) :
    s.ReachesRoot (f, n) := ⟨_, d, .refl, hd, hp⟩

theorem reachesRoot_iff (hd : (s.factory f).definitions.get? n = some d) (hq : d.parent = some q) :
    s.ReachesRoot (f, n) ↔ ∃ place, s.DerivesFrom (f, n) place ∧ s.ReachesRoot place := by
  constructor
  · rintro ⟨root, d', hway, hd', hp'⟩
    obtain rfl | ⟨place, hstep, hrest⟩ := ReflTransGen.cases_head hway
    · cases hd.symm.trans hd'
      cases hq.symm.trans hp'
    · exact ⟨place, hstep, root, d', hrest, hd', hp'⟩
  · rintro ⟨place, hstep, root, d', hrest, hd', hp'⟩
    exact ⟨root, d', .head hstep hrest, hd', hp'⟩

theorem reachesRoot_iff_of_local (hd : (s.factory f).definitions.get? n = some d) (hq : d.parent = some q)
    (hne : (s.factory f).canonical q ≠ n)
    (hc : (s.factory f).definitions.contains ((s.factory f).canonical q) = true) :
    s.ReachesRoot (f, n) ↔ s.ReachesRoot (f, (s.factory f).canonical q) := by
  have hlocal : (s.factory f).LocalParent n ((s.factory f).canonical q) := ⟨d, q, hd, hq, rfl, hne, hc⟩
  rw [reachesRoot_iff hd hq]
  constructor
  · rintro ⟨_, h | ⟨hd', hq', hnot, -, -⟩, hroot⟩
    · rwa [h.unique hlocal] at hroot
    · cases hd.symm.trans hd'
      cases hq.symm.trans hq'
      exact absurd ⟨hne, hc⟩ hnot
  · exact fun hroot => ⟨_, .locally hlocal, hroot⟩

theorem reachesRoot_iff_of_beyond (hd : (s.factory f).definitions.get? n = some d) (hq : d.parent = some q)
    (hlocal : ¬ ((s.factory f).canonical q ≠ n ∧
      (s.factory f).definitions.contains ((s.factory f).canonical q) = true)) :
    s.ReachesRoot (f, n) ↔ ∃ p, s.ParentOf p f ∧ s.Rooted p ((s.factory f).canonical q) := by
  rw [reachesRoot_iff hd hq]
  constructor
  · rintro ⟨place, ⟨d', q', hd', hq', rfl, hne, hc⟩ | ⟨hd', hq', -, hp, hfinds⟩, hroot⟩
    · cases hd.symm.trans hd'
      cases hq.symm.trans hq'
      exact absurd ⟨hne, hc⟩ hlocal
    · cases hd.symm.trans hd'
      cases hq.symm.trans hq'
      exact ⟨_, hp, place, hfinds, hroot⟩
  · rintro ⟨p, hp, place, hfinds, hroot⟩
    exact ⟨place, .above hd hq hlocal hp hfinds, hroot⟩

/-- A way that comes to a definition without a parent does not come round in the factory it starts in. -/
theorem exists_line_of_reachesRoot (h : s.ReachesRoot place) (fresh : (s.factory place.1).merged = {}) :
    ∃ L, (s.factory place.1).Line place.2 L := by
  obtain ⟨root, d, hway, hd, hp⟩ := h
  have uncached {f} (fresh : (s.factory f).merged = {}) (n : String) : (s.factory f).merged.get? n = none := by
    rw [fresh]
    rfl
  induction hway using ReflTransGen.head_induction_on with
  | refl => exact ⟨_, .root (uncached fresh _) hd hp⟩
  | head hstep _ ih =>
    cases hstep with
    | locally hlocal =>
      obtain ⟨d', q, hd', hq, rfl, hne, hc⟩ := hlocal
      obtain ⟨L, hL⟩ := ih fresh
      exact ⟨_, .child (uncached fresh _) hd' hq hne hc hL⟩
    | above hd' hq hlocal =>
      -- The line ends here, whatever becomes of the way further up.
      exact ⟨_, .beyond (uncached fresh _) hd' hq hlocal⟩

/-! ## What a merge comes to -/

/-- A merge succeeds if there is a root to come to, and otherwise fails in a certain way and has done
nothing. -/
def Decided (s : Session) (root : Prop) (fault : BeanError → Prop) :
    Except BeanError MergedRef → Session → Prop
  | .ok _, _ => root
  | .error e, t => ¬ root ∧ fault e ∧ t = s

theorem Decided.congr {root root' : Prop} {fault : BeanError → Prop} {r : Except BeanError MergedRef}
    (h : s.Decided root fault r t) (same : root ↔ root') : s.Decided root' fault r t :=
  propext same ▸ h

/-- A lookup succeeds if it comes to a definition whose way leads to a root. It fails because there is
no such definition, or because its way ends elsewhere. -/
def Decides (s : Session) (f : FactoryId) : Prop :=
  ∀ x, Ends (mergedIn (s.chain f) x) s
    (s.Decided (s.Rooted f x) fun e =>
      e.IsDefinitionStore ∨ (∃ y, e = .noSuchDefinition y) ∧ ∀ place, ¬ s.Finds f x place)

/-- Who asks for the merges above a factory. -/
abbrev askAbove (s : Session) (f : FactoryId) : Option (String → Query MergedRef) :=
  (s.factory f).parent.map fun p => mergedIn (s.chain p)

theorem decided_mergedAbove (habove : ∀ p, s.ParentOf p f → s.Decides p) :
    Ends (mergedAbove (s.askAbove f) n x) s
      (s.Decided (∃ p, s.ParentOf p f ∧ s.Rooted p x) BeanError.IsDefinitionStore) := by
  unfold askAbove mergedAbove
  cases hp : (s.factory f).parent with
  | none =>
    refine ⟨?_, ⟨_, _, rfl⟩, rfl⟩
    rintro ⟨p, hp', -⟩
    cases hp.symm.trans hp'
  | some p =>
    have same : s.Rooted p x ↔ ∃ p, s.ParentOf p f ∧ s.Rooted p x := by
      refine ⟨fun h => ⟨p, hp, h⟩, ?_⟩
      rintro ⟨p', hp', h⟩
      cases hp.symm.trans hp'
      exact h
    simp only [Option.map_some, ends_tryCatch]
    refine (habove p hp x).mono ?_
    rintro (e | ref) t h
    · obtain ⟨hroot, hfault, rfl⟩ := h.congr same
      simp only
      split
      · exact ⟨hroot, ⟨_, _, rfl⟩, rfl⟩
      · next hnot =>
        obtain hstore | ⟨⟨y, rfl⟩, -⟩ := hfault
        · exact ⟨hroot, hstore, rfl⟩
        · exact absurd rfl (hnot y)
    · exact h.congr same

/-- **Merging along a line succeeds if the way on from it leads to a root, and has done nothing else.** -/
theorem decided_mergeAlong (fresh : (s.factory f).merged = {}) (habove : ∀ p, s.ParentOf p f → s.Decides p)
    (hL : (s.factory f).Line n L) (hn : (s.factory f).definitions.contains n = true) :
    Ends (mergeAlong f (s.askAbove f) L) s (s.Decided (s.ReachesRoot (f, n)) BeanError.IsDefinitionStore) := by
  induction hL with
  | cached hm =>
    rw [fresh] at hm
    cases hm
  | missing _ hd =>
    obtain ⟨d, hd'⟩ := OrderedMap.contains_iff_get?.1 hn
    cases hd.symm.trans hd'
  | root _ hd hp => exact reachesRoot_of_root hd hp
  | child _ hd hq hne hc _ ih =>
    -- Taking up the merge cannot fail: what becomes of the parent decides.
    unfold mergeAlong
    simp only [ends_bind]
    refine (ih hc).mono ?_
    rintro (e | ref) t h
    · exact h.congr (reachesRoot_iff_of_local hd hq hne hc).symm
    · exact (reachesRoot_iff_of_local hd hq hne hc).2 h
  | beyond _ hd hq hlocal =>
    unfold mergeAlong
    simp only [ends_bind]
    refine (decided_mergedAbove habove).mono ?_
    rintro (e | ref) t h
    · exact h.congr (reachesRoot_iff_of_beyond hd hq hlocal).symm
    · exact (reachesRoot_iff_of_beyond hd hq hlocal).2 h

theorem decided_mergeLocal (fresh : (s.factory f).merged = {}) (habove : ∀ p, s.ParentOf p f → s.Decides p)
    (hn : (s.factory f).definitions.contains n = true) :
    Ends (mergeLocal f (s.askAbove f) n) s (s.Decided (s.ReachesRoot (f, n)) BeanError.IsDefinitionStore) := by
  unfold mergeLocal
  simp only [ends_bind, ends_lift, theFactory_apply]
  cases hc : ((s.factory f).lineage n).circle? with
  | none => exact decided_mergeAlong fresh habove (Factory.line_of_circle?_eq_none hc) hn
  | some circle =>
    refine (ends_mergeAlong_circle hc).mono ?_
    rintro _ t ⟨rfl, rfl⟩
    refine ⟨fun hroot => ?_, ⟨_, _, rfl⟩, rfl⟩
    obtain ⟨L, hL⟩ := exists_line_of_reachesRoot hroot fresh
    rw [Factory.lineage_eq_of_line hL, hL.circle?_eq_none] at hc
    cases hc

/-- **Along a chain of factories, a lookup is decided by where the way leads.** -/
theorem Forest.decides (h : s.Forest) (hf : f < s.factories.length)
    (fresh : ∀ g ∈ s.chain f, (s.factory g).merged = {}) : s.Decides f := by
  induction f using h.wellFounded.induction with
  | h f ih =>
    have hchain := h.chain_eq hf
    have habove : ∀ p, s.ParentOf p f → s.Decides p := by
      intro p hp
      refine ih p hp (h.parent_lt hp) fun g hg => fresh g ?_
      rw [hchain, show (s.factory f).parent = some p from hp]
      exact List.mem_cons_of_mem f hg
    have hfresh := fresh f (hchain ▸ List.mem_cons_self)
    intro x
    rw [(h.asksParent hf).merged x]
    simp only [ends_bind, ends_lift, theFactory_apply]
    by_cases hc : (s.factory f).definitions.contains ((s.factory f).canonical x) = true
    · have hroot : s.Rooted f x ↔ s.ReachesRoot (f, (s.factory f).canonical x) := by
        simp only [Rooted, finds_iff_of_contains hc, exists_eq_left]
      simp only [hc, if_true]
      refine (decided_mergeLocal hfresh habove hc).mono ?_
      rintro (e | ref) t hends
      · exact ⟨mt hroot.1 hends.1, .inl hends.2.1, hends.2.2⟩
      · exact hroot.2 hends
    · simp only [hc]
      cases hp : (s.factory f).parent with
      | none =>
        have hno : ∀ place, ¬ s.Finds f x place := by
          intro place hfinds
          obtain ⟨p, hp', -⟩ := (finds_iff_of_not_contains hc).1 hfinds
          cases hp.symm.trans hp'
        refine ⟨?_, .inr ⟨⟨x, rfl⟩, hno⟩, rfl⟩
        rintro ⟨place, hfinds, -⟩
        exact hno place hfinds
      | some p =>
        have hfinds (place : Place) : s.Finds f x place ↔ s.Finds p ((s.factory f).canonical x) place := by
          rw [finds_iff_of_not_contains hc]
          refine ⟨?_, fun hfinds => ⟨p, hp, hfinds⟩⟩
          rintro ⟨p', hp', hfinds⟩
          cases hp.symm.trans hp'
          exact hfinds
        simp only [Rooted, hfinds]
        exact habove p hp _

/-- No bound cuts a merge short in a factory: a name is replaced by the end of its chain of aliases, parents
are followed to the end of their line or round their circle, and whatever is not found is asked of the parent
factory, if there is one. -/
structure Unbounded (s : Session) (f : FactoryId) : Prop where
  canonical_eq_iff : ∀ x y, (s.factory f).canonical x = y ↔
    ReflTransGen (s.factory f).aliases.StandsFor x y ∧ (s.factory f).aliases.isAlias y = false
  walk_succ : ∀ steps path n, ((s.factory f).unmet path).length < steps →
    (s.factory f).walk (steps + 1) path n = (s.factory f).walk steps path n
  line_or_circular : ∀ n, (s.factory f).Line n ((s.factory f).lineage n) ∨ (s.factory f).Circular n
  asksParent : s.AsksParent f

theorem Forest.unbounded (h : s.Forest) (hf : f < s.factories.length)
    (hacyclic : (s.factory f).aliases.Acyclic) : s.Unbounded f where
  canonical_eq_iff _ _ := AliasMap.canonical_eq_iff hacyclic
  walk_succ _ _ _ := Factory.walk_succ
  line_or_circular n := by
    cases hc : ((s.factory f).lineage n).circle? with
    | none => exact .inl (Factory.line_of_circle?_eq_none hc)
    | some _ => exact .inr (Factory.circular_of_circle? hc)
  asksParent := h.asksParent hf

/-- **A definition is merged exactly if the way along its parents comes to one without a parent.**

Whatever definitions there are in a factory and above it, parents that lead round in a circle, to their
own names or to nothing included: nothing is asked for without end, and a merge that fails does so with an
error about the definitions and leaves everything as it was. The definition is the one that the name asked
for stands for. -/
theorem Forest.merged_iff_reachesRoot (h : s.Forest) (hf : f < s.factories.length)
    (hacyclic : ∀ g ∈ s.chain f, (s.factory g).aliases.Acyclic)
    (fresh : ∀ g ∈ s.chain f, (s.factory g).merged = {})
    (hx : (s.factory f).definitions.contains ((s.factory f).canonical x) = true) :
    (∀ g ∈ s.chain f, s.Unbounded g) ∧
      Ends (mergedDefinition f x) s fun r t =>
        ((∃ ref, r = .ok ref) ↔ s.ReachesRoot (f, (s.factory f).canonical x)) ∧
          ∀ e, r = .error e → e.IsDefinitionStore ∧ t = s := by
  have hroot : s.Rooted f x ↔ s.ReachesRoot (f, (s.factory f).canonical x) := by
    simp only [Rooted, finds_iff_of_contains hx, exists_eq_left]
  refine ⟨fun g hg => ?_, ?_⟩
  · refine h.unbounded ?_ (hacyclic g hg)
    obtain rfl | ⟨c, hgc, -⟩ := ReflTransGen.cases_head ((h.mem_chain_iff hf).1 hg)
    · exact hf
    · exact h.parent_lt hgc
  · unfold mergedDefinition
    simp only [ends_bind, ends_get]
    refine (h.decides hf fresh x).mono ?_
    rintro (e | ref) t hends
    · obtain ⟨hno, hfault, rfl⟩ := hends
      refine ⟨⟨?_, fun hyes => absurd (hroot.2 hyes) hno⟩, ?_⟩
      · rintro ⟨_, he⟩
        cases he
      · rintro _ ⟨⟩
        obtain hstore | ⟨-, hnone⟩ := hfault
        · exact ⟨hstore, rfl⟩
        · exact absurd (.here hx) (hnone _)
    · refine ⟨⟨fun _ => hroot.1 hends, fun _ => ⟨ref, rfl⟩⟩, ?_⟩
      rintro _ ⟨⟩

/-- A factory, and one above it. The base of the cars is named like its own parent, which the upper factory
knows by an alias; the trailer has a parent that nobody defines. -/
def carPool : Session where
  factories :=
    [{ definitions := ⟨3, .ofList [("car", { parent := some "base" }), ("base", { parent := some "base" }),
        ("trailer", { parent := some "hitch" })]⟩
       aliases := ⟨.ofList [("auto", "car")]⟩, parent := some 1 },
     { definitions := ⟨1, .ofList [("vehicle", {})]⟩, aliases := ⟨.ofList [("base", "vehicle")]⟩ }]

theorem forest_carPool : carPool.Forest := forest_of_pair rfl rfl rfl

/-- The car, asked for by its alias, is merged with the vehicle above. The trailer is not merged, and nothing
has happened. -/
theorem merged_iff_reachesRoot_carPool :
    carPool.Forest ∧ (∀ g ∈ carPool.chain 0, (carPool.factory g).aliases.Acyclic) ∧
      (∃ ref, ((mergedDefinition 0 "auto").run carPool).1 = .ok ref) ∧ carPool.ReachesRoot (0, "car") ∧
      (∃ e, (mergedDefinition 0 "trailer").run carPool = (.error e, carPool) ∧ e.IsDefinitionStore) ∧
      ¬ carPool.ReachesRoot (0, "trailer") := by
  have hacyclic : ∀ g ∈ carPool.chain 0, (carPool.factory g).aliases.Acyclic := by
    intro g hg
    rw [show carPool.chain 0 = [0, 1] by decide +kernel, List.mem_pair] at hg
    obtain rfl | rfl := hg
    · exact AliasMap.acyclic_empty.register (show AliasMap.register {} "car" "auto" true = .ok _ by decide +kernel)
    · exact AliasMap.acyclic_empty.register
        (show AliasMap.register {} "vehicle" "base" true = .ok _ by decide +kernel)
  have fresh : ∀ g ∈ carPool.chain 0, (carPool.factory g).merged = {} := by decide +kernel
  have decided (x : String) := forest_carPool.merged_iff_reachesRoot (f := 0) (x := x) (by decide) hacyclic fresh
  obtain ⟨-, hcar, -⟩ := decided "auto" (by decide +kernel)
  obtain ⟨-, htrailer, hfails⟩ := decided "trailer" (by decide +kernel)
  have hmerged : ((mergedDefinition 0 "auto").run carPool).1.toOption.isSome = true := by decide +kernel
  have hrefused : ((mergedDefinition 0 "trailer").run carPool).1.toOption = none := by decide +kernel
  obtain ⟨ref, href⟩ := Option.isSome_iff_exists.1 hmerged
  have hok : ∃ ref, ((mergedDefinition 0 "auto").run carPool).1 = .ok ref := ⟨ref, eq_ok_of_toOption href⟩
  refine ⟨forest_carPool, hacyclic, hok, hcar.1 hok, ?_, fun hroot => ?_⟩
  · cases hr : ((mergedDefinition 0 "trailer").run carPool).1 with
    | ok ref =>
      rw [hr] at hrefused
      cases hrefused
    | error e =>
      obtain ⟨hstore, hsame⟩ := hfails e hr
      exact ⟨e, Prod.ext hr hsame, hstore⟩
  · obtain ⟨ref, hr⟩ := htrailer.2 hroot
    rw [hr] at hrefused
    cases hrefused

/-- A factory in which the name of a definition is an alias, as it may become when aliases are resolved. -/
def haunted : Session where
  factories := [{ definitions := ⟨1, .ofList [("bean", {})]⟩, aliases := ⟨.ofList [("bean", "ghost")]⟩ }]

/-- A definition whose name stands for another one is not what is merged. -/
theorem not_merged_of_reachesRoot : ¬ ∀ (s : Session) (f : FactoryId) (n : String),
    s.Forest → f < s.factories.length → (∀ g ∈ s.chain f, (s.factory g).aliases.Acyclic) →
    (∀ g ∈ s.chain f, (s.factory g).merged = {}) → (s.factory f).definitions.contains n = true →
    Ends (mergedDefinition f n) s fun r t =>
      ((∃ ref, r = .ok ref) ↔ s.ReachesRoot (f, n)) ∧
        ∀ e, r = .error e → e.IsDefinitionStore ∧ ∀ g, (t.factory g).merged = (s.factory g).merged := by
  intro claim
  have hforest : haunted.Forest := forest_of_no_parent fun f => by
    rcases f with _ | f <;> rfl
  have hacyclic : ∀ g ∈ haunted.chain 0, (haunted.factory g).aliases.Acyclic := by
    intro g hg
    rw [show haunted.chain 0 = [0] by decide +kernel, List.mem_singleton] at hg
    subst hg
    exact AliasMap.acyclic_empty.register (show AliasMap.register {} "ghost" "bean" true = .ok _ by decide +kernel)
  have hends := claim haunted 0 "bean" hforest (by decide) hacyclic (by decide +kernel) (by decide +kernel)
  have hroot : haunted.ReachesRoot (0, "bean") :=
    reachesRoot_of_root (show _ = some ({} : Definition) by decide +kernel) rfl
  obtain ⟨ref, href⟩ := hends.1.2 hroot
  have hrefused : ((mergedDefinition 0 "bean").run haunted).1.toOption = none := by decide +kernel
  rw [href] at hrefused
  cases hrefused

end Session

end BeanContainer
