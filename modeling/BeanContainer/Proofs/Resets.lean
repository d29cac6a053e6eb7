import BeanContainer.Proofs.ReadingScripts
import Mathlib.Order.BooleanAlgebra.Set

/-!
The cache of merged definitions when a definition changes.

A change of a definition outdates the merges of all definitions below it, and a
reset visits these one by one. In between, destroy callbacks may ask for merges,
and what they get is cached. So the invariant speaks of the cache outside a set
of names that are still to be visited (`CacheFits`): a merge there is the right
one, as long as its parents do not lead into that set. The only way in is a
circle through the name that was changed, and there no merge would be right.
-/

namespace BeanContainer

open Relation Session

namespace Factory

variable {B F F' : Factory} {up : String → MergedDefinition → Prop} {stale : Prop}
  {a c n p : String} {m : MergedDefinition}

/-- A definition names another one as its parent, whether that is defined or not. -/
def ChildOf (B : Factory) (c p : String) : Prop :=
  ∃ d, B.definitions.get? c = some d ∧ c ≠ p ∧ B.isChildOf d p = true

theorem isChildOf_iff {d : Definition} :
    B.isChildOf d p = true ↔ ∃ q, d.parent = some q ∧ B.canonical q = p := by
  simp [isChildOf, Option.any_eq_true]

theorem localParent_iff : B.LocalParent n p ↔ B.ChildOf n p ∧ B.definitions.contains p = true := by
  constructor
  · rintro ⟨d, q, hd, hq, rfl, hne, hc⟩
    exact ⟨⟨d, hd, hne.symm, isChildOf_iff.2 ⟨q, hq, rfl⟩⟩, hc⟩
  · rintro ⟨⟨d, hd, hne, hp⟩, hc⟩
    obtain ⟨q, hq, rfl⟩ := isChildOf_iff.1 hp
    exact ⟨d, q, hd, hq, rfl, hne.symm, hc⟩

theorem ChildOf.contains (h : B.ChildOf c p) : B.definitions.contains c = true := by
  obtain ⟨d, hd, -⟩ := h
  exact OrderedMap.contains_iff_get?.2 ⟨d, hd⟩

theorem ChildOf.unique {q : String} (h : B.ChildOf c p) (h' : B.ChildOf c q) : p = q := by
  obtain ⟨d, hd, -, hp⟩ := h
  obtain ⟨d', hd', -, hq⟩ := h'
  obtain ⟨x, hx, rfl⟩ := isChildOf_iff.1 hp
  obtain ⟨y, hy, rfl⟩ := isChildOf_iff.1 hq
  cases hd.symm.trans hd'
  cases hx.symm.trans hy
  rfl

/-- A name and all that has it above it. -/
def Below (B : Factory) (a : String) : Set String := {x | ReflTransGen (fun p c => B.ChildOf c p) a x}

theorem mem_below_self : a ∈ B.Below a := ReflTransGen.refl

theorem ne_of_not_mem_below (h : n ∉ B.Below a) : n ≠ a := by
  rintro rfl
  exact h mem_below_self

theorem Below.child (h : p ∈ B.Below a) (hc : B.ChildOf c p) : c ∈ B.Below a := ReflTransGen.tail h hc

/-- From below a definition its local parents lead up to it. -/
theorem localParents_of_below (ha : B.definitions.contains a = true) (h : n ∈ B.Below a) :
    ReflTransGen B.LocalParent n a := by
  induction h with
  | refl => exact .refl
  | @tail b c hb hc ih =>
    have hbc : B.definitions.contains b = true := by
      rcases ReflTransGen.cases_tail hb with rfl | ⟨x, -, hx⟩
      · exact ha
      · exact hx.contains
    exact .head (localParent_iff.2 ⟨hc, hbc⟩) ih

theorem circular_of_below (hp : B.LocalParent a p) (h : p ∈ B.Below a) : B.Circular a := by
  have ha : B.definitions.contains a = true := (localParent_iff.1 hp).1.contains
  exact ⟨a, .refl, .head' hp (localParents_of_below ha h)⟩

/-- A merge is the right one, or there is no right one and `stale` merges are put up with. -/
def Right (B : Factory) (up : String → MergedDefinition → Prop) (stale : Prop) (n : String)
    (m : MergedDefinition) : Prop := B.Merges up n m ∨ stale ∧ B.Circular n

/-- Two blueprints that differ in one definition at most. -/
structure DiffersAt (a : String) (B B' : Factory) : Prop where
  canonical : B'.canonical = B.canonical
  settle : B'.settle = B.settle
  empty : B.merged = {} ∧ B'.merged = {}
  definitions : ∀ x ≠ a, B'.definitions.get? x = B.definitions.get? x

namespace DiffersAt

variable {B' : Factory}

theorem contains (h : DiffersAt a B B') {x : String} (hx : x ≠ a) :
    B'.definitions.contains x = true ↔ B.definitions.contains x = true := by
  change B'.definitions.definitions.contains x = true ↔ B.definitions.definitions.contains x = true
  rw [OrderedMap.contains_iff_get?, OrderedMap.contains_iff_get?]
  exact Eq.to_iff (congrArg (fun o => ∃ v, o = some v) (h.definitions x hx))

/-- The parent of a name that is not below the changed one is not below it either. -/
theorem parent_not_mem (h : DiffersAt a B B') (hn : n ∉ B'.Below a) {d : Definition} {q : String}
    (hd : B.definitions.get? n = some d) (hq : d.parent = some q) (hne : B.canonical q ≠ n) :
    B.canonical q ∉ B'.Below a := by
  intro hp
  refine hn (Below.child hp ⟨d, (h.definitions n (ne_of_not_mem_below hn)).trans hd, hne.symm, ?_⟩)
  exact isChildOf_iff.2 ⟨q, hq, by rw [h.canonical]⟩

theorem merges (h : DiffersAt a B B') (hm : B.Merges up n m) (hn : n ∉ B'.Below a) :
    B'.Merges up n m := by
  have uncached (n) : B'.merged.get? n = none := by rw [h.empty.2]; rfl
  induction hm with
  | cached hm =>
    rw [h.empty.1] at hm
    simp [MergedCache.get?] at hm
  | @root n d _ hd hp =>
    exact h.settle ▸ .root (uncached n) ((h.definitions n (ne_of_not_mem_below hn)).trans hd) hp
  | @child n d q m _ hd hq hne hc _ ih =>
    have hp := h.parent_not_mem hn hd hq hne
    have hmp := ih hp
    have hc' := (h.contains (ne_of_not_mem_below hp)).2 hc
    rw [← h.canonical] at hne hmp hc'
    exact h.settle ▸ .child (uncached n) ((h.definitions n (ne_of_not_mem_below hn)).trans hd) hq hne hc' hmp
  | @beyond n d q m _ hd hq hlocal hu =>
    have hlocal' : ¬ (B.canonical q ≠ n ∧ B'.definitions.contains (B.canonical q) = true) := by
      rintro ⟨hne, hc⟩
      exact hlocal ⟨hne, (h.contains (ne_of_not_mem_below (h.parent_not_mem hn hd hq hne))).1 hc⟩
    rw [← h.canonical] at hlocal' hu
    exact h.settle ▸ .beyond (uncached n) ((h.definitions n (ne_of_not_mem_below hn)).trans hd) hq hlocal' hu

theorem localParent (h : DiffersAt a B B') (hn : n ∉ B'.Below a) (hp : B.LocalParent n p) :
    B'.LocalParent n p ∧ p ∉ B'.Below a := by
  obtain ⟨d, q, hd, hq, rfl, hne, hc⟩ := hp
  have hmem := h.parent_not_mem hn hd hq hne
  exact ⟨⟨d, q, (h.definitions n (ne_of_not_mem_below hn)).trans hd, hq, by rw [h.canonical], hne,
    (h.contains (ne_of_not_mem_below hmem)).2 hc⟩, hmem⟩

theorem circular (h : DiffersAt a B B') (hn : n ∉ B'.Below a) (hc : B.Circular n) :
    B'.Circular n := by
  obtain ⟨x, hnx, hxx⟩ := hc
  have lift {n x} (hn : n ∉ B'.Below a) (hnx : ReflTransGen B.LocalParent n x) :
      ReflTransGen B'.LocalParent n x ∧ x ∉ B'.Below a := by
    induction hnx with
    | refl => exact ⟨.refl, hn⟩
    | tail _ hp ih =>
      obtain ⟨hp', hmem⟩ := h.localParent ih.2 hp
      exact ⟨ih.1.tail hp', hmem⟩
  obtain ⟨hnx', hx⟩ := lift hn hnx
  obtain ⟨y, hxy, hyx⟩ := TransGen.head'_iff.1 hxx
  obtain ⟨hxy', hy⟩ := h.localParent hx hxy
  exact ⟨x, hnx', .head' hxy' (lift hy hyx).1⟩

end DiffersAt

end Factory

/-! ## Around one factory -/

namespace Session

variable {U : Set FactoryId} {s t : Session} {f : FactoryId} {new : Factory}

theorem denotes_congr : ∀ {anc : List FactoryId}, (∀ g ∈ anc, t.factory g = s.factory g) →
    ∀ {n m}, t.denotes anc n m ↔ s.denotes anc n m
  | [], _, _, _ => Iff.rfl
  | f :: anc, h, n, m => by
    have ih := fun n m => denotes_congr (n := n) (m := m) fun g hg => h g (List.mem_cons_of_mem f hg)
    have ih' : t.denotes anc = s.denotes anc := by
      funext n m
      exact propext (ih n m)
    unfold denotes
    rw [h f (by simp), ih']

theorem chain_setFactory (hp : new.parent = (s.factory f).parent) (g : FactoryId) :
    (s.setFactory f new).chain g = s.chain g :=
  chain_congr length_setFactory fun _ => proj_setFactory (p := Factory.parent) hp

theorem linked_setFactory (hl : s.Linked U) (hp : new.parent = (s.factory f).parent) :
    (s.setFactory f new).Linked U :=
  linked_congr length_setFactory (fun _ => proj_setFactory (p := Factory.parent) hp) hl

theorem denotes_above_setFactory (hl : s.Linked U) (hf : f ∈ U)
    (hp : new.parent = (s.factory f).parent) {n : String} {m : MergedDefinition} :
    (s.setFactory f new).denotes ((s.setFactory f new).above f) n m ↔ s.denotes (s.above f) n m := by
  rw [above, chain_setFactory hp]
  refine denotes_congr fun g hg => factory_setFactory_of_ne ?_
  rintro rfl
  exact not_mem_above hl hf hg

end Session

/-! ## The invariant -/

/-- Outside of some names, parents are outside, too. -/
def Factory.Bounds (B : Factory) (T : Set String) : Prop :=
  ∀ {n p}, n ∉ T → B.LocalParent n p → p ∉ T

theorem Factory.bounds_empty {B : Factory} : B.Bounds ∅ := fun _ _ => id

/-- A session whose factory `f` has the blueprint `B`, with `up` for what is merged above. Outside
`T`, its cache holds merges of definitions, and right ones. -/
structure CacheFits (B : Factory) (up : String → MergedDefinition → Prop) (stale : Prop)
    (T : Set String) (f : FactoryId) (s : Session) : Prop where
  blueprint : (s.factory f).blueprint = B
  length : f < s.factories.length
  linked : s.Linked Set.univ
  above : ∀ {n m}, s.denotes (s.above f) n m ↔ up n m
  defined : ∀ {n ref}, n ∉ T → (s.factory f).merged.get? n = some ref →
    B.definitions.contains n = true
  right : ∀ {n ref}, n ∉ T → (s.factory f).merged.get? n = some ref →
    B.Right up stale n ref.definition
  pending : stale → ∀ {n p}, n ∉ T → p ∈ T → B.LocalParent n p → B.Circular n

namespace CacheFits

variable {B : Factory} {up : String → MergedDefinition → Prop} {stale : Prop} {T : Set String}
  {f : FactoryId} {s t : Session} {n a : String} {m : MergedDefinition}

theorem own_right (h : CacheFits B up stale T f s) (hT : stale ∨ B.Bounds T) (hn : n ∉ T)
    (hown : s.Own f n m) : B.definitions.contains n = true ∧ B.Right up stale n m := by
  obtain rfl := h.blueprint
  unfold Own at hown
  induction hown with
  | cached hm => exact ⟨h.defined hn hm, h.right hn hm⟩
  | root hm hd hp =>
    exact ⟨OrderedMap.contains_iff_get?.2 ⟨_, hd⟩, .inl (.root rfl hd hp)⟩
  | @child n d q m hm hd hq hne hc _ ih =>
    refine ⟨OrderedMap.contains_iff_get?.2 ⟨_, hd⟩, ?_⟩
    have hlocal : (s.factory f).blueprint.LocalParent n ((s.factory f).canonical q) :=
      ⟨d, q, hd, hq, rfl, hne, hc⟩
    by_cases hp : (s.factory f).canonical q ∈ T
    · rcases hT with hstale | hbounds
      · exact .inr ⟨hstale, h.pending hstale hn hp hlocal⟩
      · exact absurd hp (hbounds hn hlocal)
    · rcases (ih hp).2 with hr | ⟨hstale, hr⟩
      · exact .inl (.child rfl hd hq hne hc hr)
      · exact .inr ⟨hstale, hr.head hlocal⟩
  | beyond hm hd hq hlocal hu =>
    exact ⟨OrderedMap.contains_iff_get?.2 ⟨_, hd⟩, .inl (.beyond rfl hd hq hlocal (h.above.1 hu))⟩

theorem of_reads (h : CacheFits B up stale T f s) (hr : s.Reads Set.univ t)
    (hmerged : ∀ {n ref}, n ∉ T → (t.factory f).merged.get? n = some ref →
      B.definitions.contains n = true ∧ B.Right up stale n ref.definition) :
    CacheFits B up stale T f t where
  blueprint := (Factory.blueprint_of_recipe (hr.recipe f)).trans h.blueprint
  length := hr.length ▸ h.length
  linked := hr.linked h.linked
  above {n m} := by
    rw [Session.above, hr.chain]
    exact (hr.denotes_iff (chained_above h.linked trivial)).trans h.above
  defined hn hm := (hmerged hn hm).1
  right hn hm := (hmerged hn hm).2
  pending := h.pending

/-- Reading keeps the cache right, as long as no parent is outdated or stale merges are put up
with. -/
theorem reads (h : CacheFits B up stale T f s) (hT : stale ∨ B.Bounds T) (hr : s.Reads Set.univ t) :
    CacheFits B up stale T f t :=
  h.of_reads hr fun hn hm => h.own_right hT hn (hr.sound hm)

theorem reads_of_merged_eq (h : CacheFits B up stale T f s) (hr : s.Reads Set.univ t)
    (hm : (t.factory f).merged = (s.factory f).merged) : CacheFits B up stale T f t :=
  h.of_reads hr fun hn hm' => ⟨h.defined hn (hm ▸ hm'), h.right hn (hm ▸ hm')⟩

theorem recache (h : CacheFits B up stale T f s) {T' : Set String} {new : Factory}
    (hblue : new.blueprint = (s.factory f).blueprint) (hparent : new.parent = (s.factory f).parent)
    (fewer : ∀ n ∉ T', ∀ ref, new.merged.get? n = some ref →
      n ∉ T ∧ (s.factory f).merged.get? n = some ref)
    (pending : stale → ∀ {n p}, n ∉ T' → p ∈ T' → B.LocalParent n p → B.Circular n) :
    CacheFits B up stale T' f (s.setFactory f new) where
  blueprint := by rw [factory_setFactory_self h.length, hblue, h.blueprint]
  length := by simpa using h.length
  linked := linked_setFactory h.linked hparent
  above := (denotes_above_setFactory h.linked trivial hparent).trans h.above
  defined hn hm := by
    rw [factory_setFactory_self h.length] at hm
    obtain ⟨hn, hm⟩ := fewer _ hn _ hm
    exact h.defined hn hm
  right hn hm := by
    rw [factory_setFactory_self h.length] at hm
    obtain ⟨hn, hm⟩ := fewer _ hn _ hm
    exact h.right hn hm
  pending := pending

theorem evict (h : CacheFits B up stale T f s)
    (hname : stale → ∀ p ∈ T, B.LocalParent n p → p ≠ n → B.Circular n) :
    CacheFits B up stale (T \ {n}) f
      (s.setFactory f { s.factory f with merged := (s.factory f).merged.evict n }) := by
  refine h.recache rfl rfl (fun x hx ref hm => ?_) fun hstale {x p} hx hp hlocal => ?_
  · have hxn : x ≠ n := by
      rintro rfl
      exact absurd (OrderedMap.get?_erase_self.symm.trans hm) (by simp)
    refine ⟨fun hT => hx ⟨hT, hxn⟩, ?_⟩
    exact (OrderedMap.get?_erase_of_ne hxn).symm.trans hm
  · by_cases hxn : x = n
    · subst hxn
      exact hname hstale p hp.1 hlocal hp.2
    · exact h.pending hstale (fun hT => hx ⟨hT, hxn⟩) hp.1 hlocal

/-- After a change of one definition, the merges of those below it are outdated. -/
theorem redefine (h : CacheFits B up stale ∅ f s) {new : Factory}
    (hparent : new.parent = (s.factory f).parent) (hmerged : new.merged = (s.factory f).merged)
    (hdiff : Factory.DiffersAt a B new.blueprint) :
    CacheFits new.blueprint up stale (new.blueprint.Below a) f (s.setFactory f new) where
  blueprint := by rw [factory_setFactory_self h.length]
  length := by simpa using h.length
  linked := linked_setFactory h.linked hparent
  above := (denotes_above_setFactory h.linked trivial hparent).trans h.above
  defined {n ref} hn hm := by
    rw [factory_setFactory_self h.length, hmerged] at hm
    exact (hdiff.contains (Factory.ne_of_not_mem_below hn)).2 (h.defined (by simp) hm)
  right {n ref} hn hm := by
    rw [factory_setFactory_self h.length, hmerged] at hm
    rcases h.right (by simp) hm with hr | ⟨hstale, hr⟩
    · exact .inl (hdiff.merges hr hn)
    · exact .inr ⟨hstale, hdiff.circular hn hr⟩
  pending _ {n p} hn hp hlocal := absurd (Factory.Below.child hp (Factory.localParent_iff.1 hlocal).1) hn

theorem clear (h : CacheFits B up stale ∅ f s) {change : Factory → Factory}
    (hblue : (change (s.factory f)).blueprint = (s.factory f).blueprint)
    (hparent : (change (s.factory f)).parent = (s.factory f).parent)
    (hmerged : (change (s.factory f)).merged = (s.factory f).merged ∨
      (change (s.factory f)).merged = {}) :
    CacheFits B up stale ∅ f (s.modifyFactory f change) := by
  rw [modifyFactory_eq_setFactory]
  refine h.recache hblue hparent (fun n hn ref hm => ⟨hn, ?_⟩) fun _ {_ _} _ hp => hp.elim
  rcases hmerged with e | e
  · rwa [e] at hm
  · rw [e] at hm
    simp [MergedCache.get?] at hm

end CacheFits

/-! ## Resets -/

section

variable {B : Factory} {up : String → MergedDefinition → Prop} {stale : Prop} {a : String}
  {f : FactoryId} {s t u : Session} {V V' W : OrderedSet String} {names : List String}

/-- After a reset of some names below `a`, the names in `V'` have been visited: these and, of those
that were not in `V` yet, all children. What is left to visit may be outdated. -/
structure Visited (B : Factory) (up : String → MergedDefinition → Prop) (stale : Prop) (a : String)
    (f : FactoryId) (V : OrderedSet String) (names : List String) (V' : OrderedSet String)
    (t : Session) : Prop where
  fits : CacheFits B up stale (B.Below a \ {x | x ∈ V'.toList}) f t
  grows : V.toList ⊆ V'.toList
  visited : ∀ n ∈ names, n ∈ V'.toList
  closed : ∀ x ∈ V'.toList, x ∈ V.toList ∨ ∀ c, B.ChildOf c x → c ∈ V'.toList

theorem Visited.trans {more : List String} (h : Visited B up stale a f V names V' t)
    (h' : Visited B up stale a f V' more W u) : Visited B up stale a f V (names ++ more) W u where
  fits := h'.fits
  grows _ hx := h'.grows (h.grows hx)
  visited n hn := (List.mem_append.1 hn).elim (fun hn => h'.grows (h.visited n hn)) (h'.visited n)
  closed x hx := by
    rcases h'.closed x hx with hx | hx
    · exact (h.closed x hx).imp id fun hc c hcx => h'.grows (hc c hcx)
    · exact .inr hx

/-- A way to reset a name below `a` whose parent has been visited. -/
def Resets (B : Factory) (up : String → MergedDefinition → Prop) (stale : Prop) (a : String)
    (f : FactoryId) (reset : String → Bool → OrderedSet String → Effect (OrderedSet String)) : Prop :=
  ∀ ⦃s V name destroySingleton⦄, CacheFits B up stale (B.Below a \ {x | x ∈ V.toList}) f s →
    name ∈ B.Below a → (name = a ∨ ∃ y ∈ V.toList, B.ChildOf name y) →
    Yields True (reset name destroySingleton V) s (Visited B up stale a f V [name])

theorem Resets.children {reset : String → Bool → OrderedSet String → Effect (OrderedSet String)}
    (h : Resets B up stale a f reset) {name : String} (hname : name ∈ B.Below a) :
    ∀ {entries : List (String × Definition)} {s : Session} {V : OrderedSet String},
      (∀ e ∈ entries, B.definitions.get? e.1 = some e.2) → name ∈ V.toList →
      CacheFits B up stale (B.Below a \ {x | x ∈ V.toList}) f s →
      Yields True (entries.foldlM (fun visited (child, d) => do
          if child ≠ name && (← theFactory f).isChildOf d name then reset child true visited
          else return visited) V) s
        (Visited B up stale a f V
          ((entries.filter fun e => e.1 ≠ name && B.isChildOf e.2 name).map Prod.fst))
  | [], s, V, _, _, hfits => ⟨hfits, fun _ => id, by simp, fun x hx => .inl hx⟩
  | (c, d) :: entries, s, V, hdef, hV, hfits => by
    have hchild : (s.factory f).isChildOf d name = B.isChildOf d name := by
      rw [← hfits.blueprint]
      rfl
    simp only [List.foldlM_cons, yields_bind, yields_lift, theFactory_apply, hchild]
    split
    · rename_i hc
      simp only [Bool.and_eq_true, decide_eq_true_eq] at hc
      have hof : B.ChildOf c name := ⟨d, hdef (c, d) (by simp), hc⟩
      refine (h hfits (Factory.Below.child hname hof) (.inr ⟨name, hV, hof⟩)).mono fun W t ht => ?_
      refine (h.children hname (fun e he => hdef e (by simp [he])) (ht.grows hV) ht.fits).mono
        fun W' u hu => ?_
      have := ht.trans hu
      rwa [List.filter_cons_of_pos (by simpa using hc)]
    · rename_i hc
      rw [yields_pure, List.filter_cons_of_neg (by simpa using hc)]
      exact h.children hname (fun e he => hdef e (by simp [he])) hV hfits

/-- A reset of a name, given that resets of its children go well and destructions spare the cache. -/
theorem resets_resetDefinition {again : Reentry} (hreset : Resets B up stale a f (again.reset f))
    (hdestroy : ∀ {T s name}, CacheFits B up stale T f s →
      Yields True (again.destroy f name) s fun _ t => CacheFits B up stale T f t) :
    Resets B up stale a f (resetDefinition again f) := by
  intro s V name destroySingleton hfits hname hparent
  unfold resetDefinition
  split
  · rename_i hV
    exact ⟨hfits, fun _ => id, by simpa using hV, fun x hx => .inl hx⟩
  · rename_i hV
    have hset : (B.Below a \ {x | x ∈ V.toList}) \ {name} =
        B.Below a \ {x | x ∈ (V.insert name).toList} := by
      ext x
      simp only [Set.mem_sdiff, Set.mem_ofPred_eq, Set.mem_singleton_iff, OrderedSet.mem_insert]
      tauto
    have hevict := hfits.evict (n := name) fun _ p hp hlocal hne => by
      rcases hparent with rfl | ⟨y, hy, hof⟩
      · exact Factory.circular_of_below hlocal hp.1
      · exact absurd (hof.unique (Factory.localParent_iff.1 hlocal).1 ▸ hy) hp.2
    rw [hset] at hevict
    have hrest {t : Session} (ht : CacheFits B up stale (B.Below a \ {x | x ∈ (V.insert name).toList}) f t) :
        Yields True (do
          let definitions := (← theFactory f).definitions.definitions.entries
          definitions.foldlM (fun visited (child, d) => do
            if child ≠ name && (← theFactory f).isChildOf d name then again.reset f child true visited
            else return visited) (V.insert name)) t (Visited B up stale a f V [name]) := by
      simp only [yields_bind, yields_lift, theFactory_apply]
      have hentries : (t.factory f).definitions = B.definitions := by
        rw [← ht.blueprint]
        rfl
      rw [hentries]
      have hmem : name ∈ (V.insert name).toList := OrderedSet.mem_insert.2 (.inr rfl)
      refine (hreset.children hname (fun e he => ?_) hmem ht).mono fun V' u hu => ?_
      · exact OrderedMap.get?_eq_some_iff.2 he
      · refine ⟨hu.fits, fun x hx => hu.grows (OrderedSet.mem_insert.2 (.inl hx)),
          by simpa using hu.grows hmem, fun x hx => ?_⟩
        rcases hu.closed x hx with hx | hx
        · rcases OrderedSet.mem_insert.1 hx with hx | rfl
          · exact .inl hx
          · refine .inr fun c hc => hu.visited c ?_
            obtain ⟨d, hd, hne, hp⟩ := hc
            refine List.mem_map.2 ⟨(c, d), List.mem_filter.2 ⟨?_, by simp [hne, hp]⟩, rfl⟩
            exact OrderedMap.get?_eq_some_iff.1 hd
        · exact .inr hx
    rw [yields_bind, yields_lift, updateFactory_apply, modifyFactory_eq_setFactory]
    dsimp only
    split
    · rw [yields_bind]
      refine (hdestroy hevict).mono fun failures t ht => ?_
      rw [yields_bind, yields_modify]
      exact hrest (ht.reads_of_merged_eq (.of_remarks .writeNotices)
        (by rw [Session.Remarks.writeNotices.factory]))
    · exact hrest hevict

/-- Once a whole reset is over, nothing is outdated any more. -/
theorem Visited.all (h : Visited B up stale a f {} [a] V t) : CacheFits B up stale ∅ f t := by
  have hall : ∀ x ∈ B.Below a, x ∈ V.toList := by
    intro x hx
    induction hx with
    | refl => exact h.visited a (by simp)
    | tail _ hc ih => exact ((h.closed _ ih).resolve_left (by simp)) _ hc
  have hset : B.Below a \ {x | x ∈ V.toList} = ∅ := Set.sdiff_eq_empty.2 hall
  exact hset ▸ h.fits

variable {env : Collaborators} {name : String}

theorem yields_destroy_merged (quiet : env.QuietEnds) : ∀ {depth : Nat} {name : String} {s : Session},
    f < s.factories.length → Yields True ((reentry env depth).destroy f name) s fun _ t =>
      f < t.factories.length ∧ ∀ g, (t.factory g).merged = (s.factory g).merged
  | 0, _, _, _ => trivial
  | depth + 1, name, s, hf => by
    refine (yields_destroyCascade hf).2 ?_
    have hdetach : f < (s.detach f name).factories.length ∧
        ∀ g, ((s.detach f name).factory g).merged = (s.factory g).merged := by
      refine ⟨by simpa [Session.detach, Session.takeDependents] using hf, fun g => ?_⟩
      exact (proj_setFactory (p := Factory.merged) (by rfl)).trans
        ((congrArg Factory.merged factory_release).trans (proj_setFactory (p := Factory.merged) (by rfl)))
    have hdrop {t : Session}
        (ht : f < t.factories.length ∧ ∀ g, (t.factory g).merged = (s.factory g).merged) :
        f < (t.dropEdges f name).factories.length ∧
          ∀ g, ((t.dropEdges f name).factory g).merged = (s.factory g).merged := by
      refine ⟨by simpa [Session.dropEdges] using ht.1, fun g => ?_⟩
      rw [Session.dropEdges, modifyFactory_eq_setFactory]
      exact (proj_setFactory (p := Factory.merged) (by rfl)).trans (ht.2 g)
    have hfold : Yields True (((s.factory f).dependencies.dependentsOf name).foldlM (fun failures d => do
        return failures ++ (← (reentry env depth).destroy f d)) [])
          ((s.detach f name).writeNotices (if ((s.factory f).dependencies.dependentsOf name).isEmpty
            then [] else [.dependentsFirst name ((s.factory f).dependencies.dependentsOf name)]))
          fun _ t => f < t.factories.length ∧ ∀ g, (t.factory g).merged = (s.factory g).merged := by
      refine yields_foldlM (fun _ d _ t ht => ?_) ?_
      · rw [yields_bind]
        exact (yields_destroy_merged quiet ht.1).mono fun _ u hu =>
          ⟨hu.1, fun g => (hu.2 g).trans (ht.2 g)⟩
      · simp only [Session.Remarks.writeNotices.factories, Session.Remarks.writeNotices.factory]
        exact hdetach
    refine hfold.mono fun before t ht => ?_
    split
    · exact hdrop ht
    · refine (yields_destroyInstance_quiet quiet).of_total.mono ?_
      rintro failure _ ⟨u, hu, rfl⟩
      have hu' : f < u.factories.length ∧ ∀ g, (u.factory g).merged = (s.factory g).merged := by
        simp only [hu.factories, hu.factory]
        exact ht
      split <;> exact hdrop hu'

/-- Destructions spare the cache, outdated or not, if they are quiet or stale merges are put up
with. -/
theorem fits_destroy (reading : env.Reading) (hstale : stale ∨ env.QuietEnds) {depth : Nat}
    {T : Set String} (h : CacheFits B up stale T f s) :
    Yields True ((reentry env depth).destroy f name) s fun _ t => CacheFits B up stale T f t := by
  have hreads := (reentry_reading reading depth).keep.destroy f trivial name s h.linked
  rcases hstale with hstale | quiet
  · exact hreads.mono fun _ _ => h.reads (.inl hstale)
  · exact (hreads.and (yields_destroy_merged quiet h.length)).mono fun _ _ ht =>
      h.reads_of_merged_eq ht.1 (ht.2.2 f)

theorem resets_reentry (reading : env.Reading) (hstale : stale ∨ env.QuietEnds) :
    ∀ depth, Resets B up stale a f ((reentry env depth).reset f)
  | 0 => fun _ _ _ _ _ _ _ => trivial
  | depth + 1 => resets_resetDefinition (resets_reentry reading hstale depth)
      fun h => fits_destroy reading hstale h

/-- **A reset leaves no outdated merge.** -/
theorem fits_resetDefinition (reading : env.Reading) (hstale : stale ∨ env.QuietEnds) {depth : Nat}
    {destroySingleton : Bool} (h : CacheFits B up stale (B.Below a) f s) :
    Yields True (resetDefinition (reentry env depth) f a destroySingleton {}) s fun _ t =>
      CacheFits B up stale ∅ f t := by
  have hset : B.Below a \ {x | x ∈ ({} : OrderedSet String).toList} = B.Below a := by
    simp [Set.sdiff_empty]
  have hchildren : Resets B up stale a f ((reentry env depth).reset f) :=
    resets_reentry reading hstale depth
  have hresets := resets_resetDefinition hchildren fun h => fits_destroy reading hstale h
  exact (hresets (hset.symm ▸ h) Factory.mem_below_self (.inl rfl)).mono fun _ _ ht => ht.all

end

end BeanContainer
