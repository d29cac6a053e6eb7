import BeanContainer.Proofs.DependencyGraph
import BeanContainer.Proofs.Quiet
import Mathlib.Data.Set.Insert

/-!
Destroying all singletons, dependents first.

The walk over the graph deletes the edges it follows, and a name may be met
again while it is still open. What makes the order come out right is an
invariant over three kinds of names: those not met yet, those `opened` and not
`finished`, and those finished. An edge that is gone has an opened or finished
end; what a finished bean leads to is finished or still open; and an open bean
leads to the one at hand. So a bean finds all that depends on it finished,
except what it depends on itself (`Walk`).
-/

namespace BeanContainer

open Relation

/-- A destruction that took place: of which bean, of which instance, and what it failed with. -/
structure Destruction where
  name : String
  victim : Instance
  failure : Option Failure

namespace Destruction

/-- What the record holds of a destruction, beginning first. -/
def occurrences (d : Destruction) : List Occurrence :=
  [.destroying d.name d.victim, .destroyed d.name d.victim d.failure]

/-- The error that a destruction is answered with, if it failed. -/
def error? (d : Destruction) : Option BeanError := d.failure.map (BeanError.destructionOf d.name)

/-- Whether a run of the destruction by some post-processors, in some session, comes to this. -/
def Ran (env : Collaborators) (processors : List ProcessorId) (d : Destruction) : Prop :=
  ∃ s s', ∀ again, destroyInstance env again d.name d.victim processors s = some (d.failure, s')

end Destruction

/-- One element stands before another one in a list. -/
def Precedes (l : List α) (a b : α) : Prop := ∃ pre mid post, l = pre ++ a :: mid ++ b :: post

theorem precedes_of_mem {l pre post : List α} {a b : α} (h : l = pre ++ b :: post) (ha : a ∈ pre) :
    Precedes l a b := by
  obtain ⟨pre', mid, rfl⟩ := List.append_of_mem ha
  exact ⟨pre', mid, post, h⟩

/-- What lies behind a bean along edges none of which leads to something the bean needs. -/
def DependencyGraph.Ahead (g : DependencyGraph) (b d : String) : Prop :=
  TransGen (fun x y => g.Edge x y ∧ ¬ TransGen g.Edge y b) b d

theorem DependencyGraph.Ahead.single {g : DependencyGraph} {b d : String} (h : g.Edge b d)
    (back : ¬ TransGen g.Edge d b) : g.Ahead b d := TransGen.single ⟨h, back⟩

theorem DependencyGraph.Ahead.of_acyclic {g : DependencyGraph} (acyclic : ∀ x, ¬ TransGen g.Edge x x)
    {b d : String} (h : TransGen g.Edge b d) : g.Ahead b d := by
  induction h with
  | single he => exact .single he fun h => acyclic _ (.head he h)
  | tail hbc he ih => exact ih.tail ⟨he, fun h => acyclic _ ((hbc.tail he).trans h)⟩

theorem DependencyGraph.Ahead.transGen {g : DependencyGraph} {b d : String} (h : g.Ahead b d) :
    TransGen g.Edge b d := TransGen.mono (fun _ _ he => he.1) _ _ h

/-! ## One bean -/

/-- The edges of a factory's graph. -/
abbrev Session.edge (s : Session) (f : FactoryId) : String → String → Prop :=
  (s.factory f).dependencies.Edge

section

variable {env : Collaborators} {again : Reentry} {lost : Prop} {f : FactoryId} {name : String}
  {start s t : Session}

theorem factory_detach (hf : f < s.factories.length) : (s.detach f name).factory f =
    { s.factory f with
      singletons := (s.factory f).singletons.erase name
      manualNames := (s.factory f).manualNames.erase name
      dependencies := ((s.factory f).dependencies.takeDependents name).2 } := by
  unfold Session.detach Session.takeDependents
  rw [Session.factory_setFactory_self (by simpa using hf), Session.factory_release,
    Session.factory_setFactory_self hf]
  rfl

/-- That a singleton left the cache is no destruction yet. -/
theorem filter_record_detach : (s.detach f name).record.filter Occurrence.isDestruction =
    s.record.filter Occurrence.isDestruction := by
  change (s.release f name).2.record.filter _ = _
  rw [Session.record_release, List.filter_append]
  cases (s.factory f).singletons.get? name <;> rfl

theorem filter_record_releaseAll : (s.releaseAll f).record.filter Occurrence.isDestruction =
    s.record.filter Occurrence.isDestruction := by
  rw [Session.record_releaseAll, List.filter_append, List.append_left_eq_self,
    List.filter_eq_nil_iff]
  simp only [List.mem_reverse, List.mem_map]
  rintro _ ⟨e, -, rfl⟩
  exact Bool.false_ne_true

theorem factory_dropEdges (hf : f < s.factories.length) : (s.dropEdges f name).factory f =
    { s.factory f with dependencies := (s.factory f).dependencies.removeBean name } :=
  Session.factory_modifyFactory_self hf

theorem edge_detach (hf : f < s.factories.length) {b d : String} :
    (s.detach f name).edge f b d ↔ s.edge f b d ∧ b ≠ name := by
  unfold Session.edge DependencyGraph.Edge
  rw [factory_detach hf]
  exact DependencyGraph.hasEdge_takeDependents

theorem singleton?_detach (hf : f < s.factories.length) {n : String} :
    (s.detach f name).singleton? f n = if n = name then none else s.singleton? f n := by
  unfold Session.singleton?
  rw [factory_detach hf]
  exact OrderedMap.get?_erase

theorem edge_of_dropEdges (hf : f < s.factories.length) {b d : String}
    (h : (s.dropEdges f name).edge f b d) : s.edge f b d := by
  unfold Session.edge DependencyGraph.Edge at h
  rw [factory_dropEdges hf] at h
  exact DependencyGraph.hasEdge_of_removeBean h

theorem edge_dropEdges_of_ne (hf : f < s.factories.length) {b d : String} (h : s.edge f b d)
    (hb : b ≠ name) (hd : d ≠ name) : (s.dropEdges f name).edge f b d := by
  unfold Session.edge DependencyGraph.Edge
  rw [factory_dropEdges hf]
  exact DependencyGraph.hasEdge_removeBean_of_ne h hb hd

theorem singleton?_dropEdges (hf : f < s.factories.length) {n : String} :
    (s.dropEdges f name).singleton? f n = s.singleton? f n := by
  unfold Session.singleton?
  rw [factory_dropEdges hf]

theorem size_dependents_detach_le : ((s.detach f name).factory f).dependencies.dependents.size ≤
    (s.factory f).dependencies.dependents.size := by
  by_cases hf : f < s.factories.length
  · rw [factory_detach hf]
    exact DependencyGraph.size_takeDependents_le
  · rw [Session.factory_of_length_le (by simpa [Session.detach, Session.takeDependents] using hf),
      Session.factory_of_length_le (by simpa using hf)]

theorem size_dependents_detach_lt (hf : f < s.factories.length)
    (h : (s.factory f).dependencies.dependentsOf name ≠ []) :
    ((s.detach f name).factory f).dependencies.dependents.size <
      (s.factory f).dependencies.dependents.size := by
  rw [factory_detach hf]
  exact DependencyGraph.size_takeDependents_lt h

theorem size_dependents_dropEdges_le :
    ((s.dropEdges f name).factory f).dependencies.dependents.size ≤
      (s.factory f).dependencies.dependents.size := by
  by_cases hf : f < s.factories.length
  · rw [factory_dropEdges hf]
    exact DependencyGraph.size_removeBean_le
  · rw [Session.factory_of_length_le (by simpa [Session.dropEdges] using hf),
      Session.factory_of_length_le (by simpa using hf)]

/-- What a cascade ends with: first the dependents go, in order, then the bean itself, then its
edges. -/
theorem yields_destroyCascade {Q : List BeanError → Session → Prop} (hf : f < s.factories.length) :
    Yields lost (destroyCascade env again f name) s Q ↔
      Yields lost (((s.factory f).dependencies.dependentsOf name).foldlM (fun failures d => do
          return failures ++ (← again.destroy f d)) [])
        ((s.detach f name).writeNotices
          (if ((s.factory f).dependencies.dependentsOf name).isEmpty then []
            else [.dependentsFirst name ((s.factory f).dependencies.dependentsOf name)]))
        fun before t =>
          match (s.factory f).singletons.get? name with
          | none => Q before (t.dropEdges f name)
          | some i =>
            Yields lost (destroyInstance env again name i (t.factory f).processors) t fun failure u =>
              match failure with
              | none => Q before (u.dropEdges f name)
              | some failure => Q (before ++ [.destructionOf name failure])
                  ((u.write (.notice (.singletonFailed name failure))).dropEdges f name) := by
  have hdeps : ((s.release f name).2.factory f).dependencies = (s.factory f).dependencies := by
    rw [Session.factory_release, Session.factory_setFactory_self hf]
    rfl
  unfold destroyCascade Session.detach Session.takeDependents
  simp only [yields_bind, yields_modifyGet, Session.release_fst, hdeps,
    DependencyGraph.takeDependents_fst]
  split
  all_goals
    simp only [yields_bind, yields_lift, note_apply, Session.writeNotices, List.foldl_cons,
      List.foldl_nil]
    refine yields_congr fun before t => ?_
    cases hv : (s.factory f).singletons.get? name with
    | none => simp [Session.dropEdges]
    | some i =>
      simp only [yields_bind, yields_lift, theFactory_apply]
      refine yields_congr fun failure u => ?_
      cases failure <;> simp [Session.dropEdges]

/-! ## The walk -/

/-- The state of a walk that began in `start`: the destructions that `ran`, in order, and how the
session `s` of the moment has come from `start`. -/
structure Walk (env : Collaborators) (f : FactoryId) (start : Session) (opened finished : Set String)
    (ran : List Destruction) (s : Session) : Prop where
  length : s.factories.length = start.factories.length
  processors : (s.factory f).processors = (start.factory f).processors
  edges : ∀ {b d}, s.edge f b d → start.edge f b d
  taken : ∀ {b d}, b ∈ opened ∪ finished → ¬ s.edge f b d
  gone : ∀ {b d}, start.edge f b d → s.edge f b d ∨ b ∈ opened ∪ finished ∨ d ∈ opened ∪ finished
  cached : ∀ {n i}, s.singleton? f n = some i ↔ start.singleton? f n = some i ∧ n ∉ opened ∪ finished
  apart : ∀ n ∈ opened, n ∉ finished
  closed : ∀ b ∈ finished, ∀ d, start.edge f b d → d ∈ opened ∪ finished
  victims : ∀ {n i}, (n, i) ∈ ran.map (fun x => (x.name, x.victim)) ↔
    n ∈ finished ∧ start.singleton? f n = some i
  once : (ran.map Destruction.name).Nodup
  order : ∀ pre x post, ran = pre ++ x :: post → ∀ d, (start.factory f).dependencies.Ahead x.name d →
    (start.singleton? f d).isSome → d ∈ pre.map Destruction.name
  real : ∀ x ∈ ran, x.Ran env (start.factory f).processors
  record : s.record.filter Occurrence.isDestruction =
    (ran.flatMap Destruction.occurrences).reverse ++ start.record.filter Occurrence.isDestruction

namespace Walk

variable {opened finished : Set String} {ran : List Destruction}

theorem begin_ (env : Collaborators) (f : FactoryId) (start : Session) :
    Walk env f start ∅ ∅ [] start where
  length := rfl
  processors := rfl
  edges h := h
  taken h := by simp at h
  gone h := .inl h
  cached := by simp
  apart := by simp
  closed := by simp
  victims := by simp
  once := List.nodup_nil
  order pre x post h := by simp at h
  real := by simp
  record := rfl

theorem remarks (h : Walk env f start opened finished ran s) (hr : s.Remarks t) :
    Walk env f start opened finished ran t where
  length := by rw [hr.factories, h.length]
  processors := by rw [hr.factory, h.processors]
  edges he := h.edges (by unfold Session.edge at *; rwa [hr.factory] at he)
  taken hb he := h.taken hb (by unfold Session.edge at *; rwa [hr.factory] at he)
  gone he := by unfold Session.edge; rw [hr.factory]; exact h.gone he
  cached := by unfold Session.singleton?; rw [hr.factory]; exact h.cached
  apart := h.apart
  closed := h.closed
  victims := h.victims
  once := h.once
  order := h.order
  real := h.real
  record := by
    rw [hr.filter_record fun _ => Occurrence.isDestruction_of_isRemark, h.record]

theorem detach (h : Walk env f start opened finished ran s) (hf : f < start.factories.length)
    (hname : name ∉ opened ∪ finished) :
    Walk env f start (insert name opened) finished ran (s.detach f name) := by
  have hlen : f < s.factories.length := h.length ▸ hf
  simp only [Set.mem_union, not_or] at hname
  constructor
  case length => simpa [Session.detach, Session.takeDependents] using h.length
  case processors => rw [factory_detach hlen]; exact h.processors
  case edges => exact fun he => h.edges ((edge_detach hlen).1 he).1
  case taken =>
    intro b d hb he
    obtain ⟨he, hne⟩ := (edge_detach hlen).1 he
    simp only [Set.mem_union, Set.mem_insert_iff, hne, false_or] at hb
    exact h.taken hb he
  case gone =>
    intro b d he
    rw [edge_detach hlen]
    by_cases hb : b = name
    · simp [hb]
    · have := h.gone he
      simp only [Set.mem_union, Set.mem_insert_iff] at this ⊢
      tauto
  case cached =>
    intro n i
    rw [singleton?_detach hlen]
    by_cases hn : n = name
    · simp [hn]
    · rw [if_neg hn, h.cached]
      simp [hn]
  case apart =>
    intro n hn
    rcases hn with rfl | hn
    · exact hname.2
    · exact h.apart n hn
  case closed =>
    intro b hb d he
    have := h.closed b hb d he
    simp only [Set.mem_union, Set.mem_insert_iff] at this ⊢
    tauto
  case victims => exact h.victims
  case once => exact h.once
  case order => exact h.order
  case real => exact h.real
  case record => exact filter_record_detach.trans h.record

/-- Meeting a name again changes nothing, except that the edges that lead to it go. -/
theorem revisit (h : Walk env f start opened finished ran s) (hf : f < start.factories.length)
    (hname : name ∈ opened ∪ finished) :
    Walk env f start opened finished ran ((s.detach f name).dropEdges f name) := by
  have hlen : f < s.factories.length := h.length ▸ hf
  have hlen' : f < (s.detach f name).factories.length := by simpa [Session.detach, Session.takeDependents] using hlen
  have hedge {b d} (he : ((s.detach f name).dropEdges f name).edge f b d) : s.edge f b d :=
    ((edge_detach hlen).1 (edge_of_dropEdges hlen' he)).1
  constructor
  case length => simpa [Session.detach, Session.takeDependents, Session.dropEdges] using h.length
  case processors =>
    rw [factory_dropEdges hlen', factory_detach hlen]
    exact h.processors
  case edges => exact fun he => h.edges (hedge he)
  case taken => exact fun hb he => h.taken hb (hedge he)
  case gone =>
    intro b d he
    by_cases hb : b = name
    · exact .inr (.inl (hb ▸ hname))
    by_cases hd : d = name
    · exact .inr (.inr (hd ▸ hname))
    exact (h.gone he).imp (fun he => edge_dropEdges_of_ne hlen' ((edge_detach hlen).2 ⟨he, hb⟩) hb hd) id
  case cached =>
    intro n i
    rw [singleton?_dropEdges hlen', singleton?_detach hlen]
    by_cases hn : n = name
    · subst hn
      simp only [if_true]
      exact ⟨fun e => (Option.some_ne_none i e.symm).elim, fun e => absurd hname e.2⟩
    · rw [if_neg hn, h.cached]
  case apart => exact h.apart
  case closed => exact h.closed
  case victims => exact h.victims
  case once => exact h.once
  case order => exact h.order
  case real => exact h.real
  case record => exact filter_record_detach.trans h.record

/-- What lies ahead of a bean is finished once its own dependents have been visited: nothing
ahead leads back to the bean, as whatever is open does. -/
theorem ahead_finished (h : Walk env f start (insert name opened) finished ran s)
    (path : ∀ x ∈ opened, TransGen (start.edge f) x name)
    (visited : ∀ d, start.edge f name d → d ∈ insert name opened ∪ finished) {d : String}
    (hd : (start.factory f).dependencies.Ahead name d) : d ∈ finished := by
  -- An open bean cannot be ahead: it leads to `name`.
  have hopen : ∀ d, TransGen (start.edge f) name d → ¬ TransGen (start.edge f) d name →
      d ∈ insert name opened ∪ finished → d ∈ finished := by
    intro d hto hback hd
    rcases hd with (rfl | hd) | hd
    · exact absurd hto hback
    · exact absurd (path d hd) hback
    · exact hd
  induction hd with
  | single he => exact hopen _ (.single he.1) he.2 (visited _ he.1)
  | tail hto he ih =>
    have hto' : TransGen (start.edge f) name _ := (DependencyGraph.Ahead.transGen hto).tail he.1
    exact hopen _ hto' he.2 (h.closed _ ih _ he.1)

theorem once_append (h : Walk env f start opened finished ran s) (hnot : name ∉ finished)
    {own : List Destruction} (hown : own.map (fun x => (x.name, x.victim)) =
      (start.singleton? f name).toList.map fun i => (name, i)) :
    ((ran ++ own).map Destruction.name).Nodup := by
  have hnames : own.map Destruction.name = (start.singleton? f name).toList.map fun _ => name := by
    simpa [Function.comp_def] using congrArg (List.map Prod.fst) hown
  rw [List.map_append, List.nodup_append, hnames]
  refine ⟨h.once, by cases start.singleton? f name <;> simp, ?_⟩
  rintro a ha b hb rfl
  obtain ⟨x, hx, rfl⟩ := List.mem_map.1 ha
  obtain ⟨-, -, hname⟩ := List.mem_map.1 hb
  have : x.name ∈ finished := (h.victims.1 (List.mem_map.2 ⟨x, hx, rfl⟩)).1
  exact hnot (hname ▸ this)

/-- What is ahead of a bean whose dependents have been visited has run, so the bean may be next. -/
theorem order_append (h : Walk env f start (insert name opened) finished ran s)
    (path : ∀ x ∈ opened, TransGen (start.edge f) x name)
    (visited : ∀ d, start.edge f name d → d ∈ insert name opened ∪ finished)
    {own : List Destruction} (hnames : ∀ x ∈ own, x.name = name) {pre post : List Destruction}
    {x : Destruction} (e : ran ++ own = pre ++ x :: post) {d : String}
    (hd : (start.factory f).dependencies.Ahead x.name d) (hcached : (start.singleton? f d).isSome) :
    d ∈ pre.map Destruction.name := by
  have last : x ∈ own → ran.map Destruction.name ⊆ pre.map Destruction.name →
      d ∈ pre.map Destruction.name := by
    intro hx hsub
    rw [hnames x hx] at hd
    obtain ⟨i, hi⟩ := Option.isSome_iff_exists.1 hcached
    obtain ⟨y, hy, he⟩ := List.mem_map.1 (h.victims.2 ⟨h.ahead_finished path visited hd, hi⟩)
    exact hsub (List.mem_map.2 ⟨y, hy, congrArg Prod.fst he⟩)
  obtain ⟨more, rfl, hmore⟩ | ⟨rest, hran, -⟩ := split_of_grown e
  · exact last (by simp [hmore]) (by simp)
  · exact h.order pre x rest hran d hd hcached

/-- A bean is finished: its own destruction, if it is cached, comes last, and its edges go. -/
theorem finish (h : Walk env f start (insert name opened) finished ran s)
    (hf : f < start.factories.length) (hname : name ∉ opened)
    (path : ∀ x ∈ opened, TransGen (start.edge f) x name)
    (visited : ∀ d, start.edge f name d → d ∈ insert name opened ∪ finished)
    {own : List Destruction} (hown : own.map (fun x => (x.name, x.victim)) =
      (start.singleton? f name).toList.map fun i => (name, i))
    (real : ∀ x ∈ own, x.Ran env (start.factory f).processors) (ht : t.factories = s.factories)
    (hrec : t.record.filter Occurrence.isDestruction =
      (own.flatMap Destruction.occurrences).reverse ++ s.record.filter Occurrence.isDestruction) :
    Walk env f start opened (insert name finished) (ran ++ own) (t.dropEdges f name) := by
  have hlen : f < t.factories.length := by rw [ht, h.length]; exact hf
  have htF : t.factory f = s.factory f := by unfold Session.factory; rw [ht]
  have hnot : name ∉ finished := h.apart name (Set.mem_insert ..)
  have hset {n : String} : n ∈ opened ∪ insert name finished ↔ n ∈ insert name opened ∪ finished := by
    simp only [Set.mem_union, Set.mem_insert_iff]
    tauto
  have hedge {b d} (he : (t.dropEdges f name).edge f b d) : s.edge f b d := by
    have := edge_of_dropEdges hlen he
    unfold Session.edge at this
    rwa [htF] at this
  have hnames : ∀ x ∈ own, x.name = name := by
    intro x hx
    have : (x.name, x.victim) ∈ (start.singleton? f name).toList.map fun i => (name, i) :=
      hown ▸ List.mem_map_of_mem hx
    obtain ⟨i, -, hi⟩ := List.mem_map.1 this
    exact (congrArg Prod.fst hi).symm
  constructor
  case length => simpa [Session.dropEdges, ht] using h.length
  case processors => rw [factory_dropEdges hlen, htF]; exact h.processors
  case edges => exact fun he => h.edges (hedge he)
  case taken => exact fun hb he => h.taken (hset.1 hb) (hedge he)
  case gone =>
    intro b d he
    rw [hset, hset]
    by_cases hb : b ∈ insert name opened ∪ finished
    · exact .inr (.inl hb)
    by_cases hd : d ∈ insert name opened ∪ finished
    · exact .inr (.inr hd)
    left
    have hs := (h.gone he).resolve_right (by simp [hb, hd])
    simp only [Set.mem_union, Set.mem_insert_iff, not_or] at hb hd
    refine edge_dropEdges_of_ne hlen ?_ hb.1.1 hd.1.1
    unfold Session.edge
    rwa [htF]
  case cached =>
    intro n i
    rw [hset, singleton?_dropEdges hlen]
    unfold Session.singleton?
    rw [htF]
    exact h.cached
  case apart =>
    intro n hn
    simp only [Set.mem_insert_iff, not_or]
    exact ⟨fun e => hname (e ▸ hn), h.apart n (.inr hn)⟩
  case closed =>
    intro b hb d he
    rw [hset]
    rcases hb with rfl | hb
    · exact visited d he
    · exact h.closed b hb d he
  case victims =>
    intro n i
    rw [List.map_append, List.mem_append, h.victims, hown]
    simp only [List.mem_map, Option.mem_toList, Prod.mk.injEq, Set.mem_insert_iff]
    constructor
    · rintro (⟨hn, hi⟩ | ⟨j, hj, rfl, rfl⟩)
      · exact ⟨.inr hn, hi⟩
      · exact ⟨.inl rfl, hj⟩
    · rintro ⟨rfl | hn, hi⟩
      · exact .inr ⟨i, hi, rfl, rfl⟩
      · exact .inl ⟨hn, hi⟩
  case once => exact h.once_append hnot hown
  case order => exact fun _ _ _ e _ hd hcached => h.order_append path visited hnames e hd hcached
  case real => exact fun x hx => (List.mem_append.1 hx).elim (h.real x) (real x)
  case record =>
    simp only [Session.dropEdges, Session.record_modifyFactory, hrec, h.record, List.flatMap_append,
      List.reverse_append, List.append_assoc]

end Walk

/-- How a walk goes on: it has visited some more beans, and the destructions that ran meanwhile
are answered with `failures`. No bean has got dependents. -/
def Continues (env : Collaborators) (f : FactoryId) (start : Session) (opened finished : Set String)
    (ran : List Destruction) (s : Session) (names : List String) (failures : List BeanError)
    (t : Session) : Prop :=
  ∃ finished' more, Walk env f start opened finished' (ran ++ more) t ∧ finished ⊆ finished' ∧
    (∀ name ∈ names, name ∈ opened ∪ finished') ∧ failures = more.filterMap Destruction.error? ∧
    (t.factory f).dependencies.dependents.size ≤ (s.factory f).dependencies.dependents.size

/-- Visiting a bean continues every walk whose open beans lead to it, as long as at most `n` beans
have dependents left. -/
def Visits (env : Collaborators) (f : FactoryId) (start : Session) (n : Nat)
    (destroy : String → Effect (List BeanError)) : Prop :=
  ∀ ⦃s opened finished ran name⦄, Walk env f start opened finished ran s →
    (s.factory f).dependencies.dependents.size ≤ n →
    (∀ x ∈ opened, TransGen (start.edge f) x name) →
    Yields False (destroy name) s (Continues env f start opened finished ran s [name])

theorem Visits.foldlM {n : Nat} {destroy : String → Effect (List BeanError)}
    (h : Visits env f start n destroy) : ∀ {names : List String} {before : List BeanError}
      {s : Session} {opened finished : Set String} {ran : List Destruction},
    Walk env f start opened finished ran s → (s.factory f).dependencies.dependents.size ≤ n →
    (∀ name ∈ names, ∀ x ∈ opened, TransGen (start.edge f) x name) →
    Yields False (names.foldlM (fun failures name => do return failures ++ (← destroy name)) before) s
      fun failures t => ∃ new, failures = before ++ new ∧
        Continues env f start opened finished ran s names new t
  | [], before, s, opened, finished, ran, hw, _, _ => by
    refine ⟨[], by simp, finished, [], ?_, subset_rfl, by simp, rfl, Nat.le_refl _⟩
    rwa [List.append_nil]
  | name :: names, before, s, opened, finished, ran, hw, hsize, hpath => by
    simp only [List.foldlM_cons, yields_bind, yields_pure]
    refine (h hw hsize (hpath name (by simp))).mono ?_
    rintro failures t ⟨mid, more, hw', hsub, hname, rfl, hsize'⟩
    refine (h.foldlM hw' (hsize'.trans hsize) fun d hd => hpath d (by simp [hd])).mono ?_
    rintro failures u ⟨new, rfl, last, more', hw'', hsub', hnames, rfl, hsize''⟩
    refine ⟨_, List.append_assoc .., last, more ++ more', ?_, hsub.trans hsub', ?_,
      List.filterMap_append.symm, hsize''.trans hsize'⟩
    · rwa [← List.append_assoc]
    · intro d hd
      rcases List.mem_cons.1 hd with rfl | hd
      · exact Set.union_subset_union_right _ hsub' (hname _ (by simp))
      · exact hnames d hd

section

variable {opened finished : Set String} {ran : List Destruction} {n : Nat}

theorem yields_dependents {notices : List Notice} (hf : f < start.factories.length)
    (below : ∀ k, k + 1 = n → Visits env f start k (again.destroy f))
    (hw : Walk env f start opened finished ran s)
    (hsize : (s.factory f).dependencies.dependents.size ≤ n)
    (hpath : ∀ x ∈ opened, TransGen (start.edge f) x name) (hmet : name ∉ opened ∪ finished) :
    Yields False (((s.factory f).dependencies.dependentsOf name).foldlM (fun failures d => do
        return failures ++ (← again.destroy f d)) []) ((s.detach f name).writeNotices notices)
      (Continues env f start (insert name opened) finished ran s
        ((s.factory f).dependencies.dependentsOf name)) := by
  have hlen : f < s.factories.length := hw.length ▸ hf
  have hw' := (hw.detach hf hmet).remarks (t := (s.detach f name).writeNotices notices) .writeNotices
  have hsize' : (((s.detach f name).writeNotices notices).factory f).dependencies.dependents.size =
      ((s.detach f name).factory f).dependencies.dependents.size := by
    rw [Session.Remarks.writeNotices.factory]
  by_cases hnil : (s.factory f).dependencies.dependentsOf name = []
  · rw [hnil]
    refine ⟨finished, [], ?_, subset_rfl, by simp, rfl, hsize'.trans_le size_dependents_detach_le⟩
    rwa [List.append_nil]
  · have hlt := size_dependents_detach_lt hlen hnil
    have hpath' : ∀ d ∈ (s.factory f).dependencies.dependentsOf name, ∀ x ∈ insert name opened,
        TransGen (start.edge f) x d := by
      intro d hd x hx
      have he : start.edge f name d := hw.edges (DependencyGraph.mem_dependentsOf.1 hd)
      rcases hx with rfl | hx
      · exact .single he
      · exact (hpath x hx).tail he
    refine ((below (n - 1) (by omega)).foldlM hw' (by omega) hpath').mono ?_
    rintro _ t ⟨before, rfl, finished', more, ht, hsub, hdone, he, hle⟩
    exact ⟨finished', more, ht, hsub, hdone, by simpa using he, by omega⟩

/-- The end of a visit: the bean's dependents are visited, and it has its own turn. -/
theorem Continues.finish {before : List BeanError} (own : List Destruction) (u : Session)
    (hf : f < start.factories.length) (hw : Walk env f start opened finished ran s)
    (hpath : ∀ x ∈ opened, TransGen (start.edge f) x name) (hmet : name ∉ opened ∪ finished)
    (h : Continues env f start (insert name opened) finished ran s
      ((s.factory f).dependencies.dependentsOf name) before t)
    (hown : own.map (fun x => (x.name, x.victim)) =
      ((s.factory f).singletons.get? name).toList.map fun i => (name, i))
    (real : ∀ x ∈ own, x.Ran env (start.factory f).processors) (hu : u.factories = t.factories)
    (hrec : u.record.filter Occurrence.isDestruction =
      (own.flatMap Destruction.occurrences).reverse ++ t.record.filter Occurrence.isDestruction) :
    Continues env f start opened finished ran s [name]
      (before ++ own.filterMap Destruction.error?) (u.dropEdges f name) := by
  obtain ⟨finished', more, ht, hsub, hdone, rfl, hsize⟩ := h
  have hvisited : ∀ d, start.edge f name d → d ∈ insert name opened ∪ finished' := by
    intro d he
    rcases hw.gone he with he | hn | (hd | hd)
    · exact hdone d (DependencyGraph.mem_dependentsOf.2 he)
    · exact absurd hn hmet
    · exact .inl (.inr hd)
    · exact .inr (hsub hd)
  have hvictim : (s.factory f).singletons.get? name = start.singleton? f name := by
    refine Option.ext fun i => ?_
    exact (hw.cached (n := name) (i := i)).trans ⟨fun h => h.1, fun h => ⟨h, hmet⟩⟩
  rw [hvictim] at hown
  refine ⟨insert name finished', more ++ own, ?_, fun x hx => .inr (hsub hx), by simp,
    List.filterMap_append.symm, size_dependents_dropEdges_le.trans ?_⟩
  · rw [← List.append_assoc]
    exact ht.finish hf (fun h => hmet (.inl h)) hpath hvisited hown real hu hrec
  · rw [show u.factory f = t.factory f by unfold Session.factory; rw [hu]]
    exact hsize

/-- Nothing happened between two sessions but these destructions. -/
structure Session.Destroys (ran : List Destruction) (s t : Session) : Prop where
  same : t = { s with record := t.record, made := t.made }
  recorded : ∃ new, t.record = new ++ s.record ∧
    new.filter Occurrence.isDestruction = (ran.flatMap Destruction.occurrences).reverse ∧
    ∀ o ∈ new, o.isRemark = true ∨ o.isDestruction = true

theorem Session.Destroys.factories {ran : List Destruction} (h : s.Destroys ran t) :
    t.factories = s.factories := (congrArg Session.factories h.same :)

theorem Session.Destroys.filter_record {ran : List Destruction} (h : s.Destroys ran t) :
    t.record.filter Occurrence.isDestruction =
      (ran.flatMap Destruction.occurrences).reverse ++ s.record.filter Occurrence.isDestruction := by
  obtain ⟨new, e, hran, -⟩ := h.recorded
  rw [e, List.filter_append, hran]

theorem yields_destroyInstance_ran (quiet : env.QuietEnds) {n : String} {i : Instance}
    {processors : List ProcessorId} : Yields False (destroyInstance env again n i processors) s fun failure t =>
      s.Destroys [⟨n, i, failure⟩] t ∧ Destruction.Ran env processors ⟨n, i, failure⟩ := by
  have hrun : Yields False (destroyInstance env again n i processors) s fun failure t =>
      destroyInstance env again n i processors s = some (failure, t) := by
    obtain ⟨failure, t, e, -⟩ := yields_false_iff.1 (yields_destroyInstance_quiet (s := s) quiet)
    exact yields_false_iff.2 ⟨failure, t, e, e⟩
  refine ((yields_destroyInstance_quiet quiet).and hrun).mono ?_
  rintro failure _ ⟨⟨t, ht, rfl⟩, e⟩
  refine ⟨⟨?_, ?_⟩, s, _, fun again' => (congrFun (destroyInstance_quiet_congr quiet) s).trans e⟩
  · rw [ht.same]
    rfl
  · obtain ⟨new, told, hnew⟩ := ht.recorded
    refine ⟨.destroyed n i failure :: new ++ [.destroying n i], ?_, ?_, ?_⟩
    · rw [Session.record_write, told]
      simp
    · have hremarks : new.filter Occurrence.isDestruction = [] :=
        List.filter_eq_nil_iff.2 fun o ho => by simp [Occurrence.isDestruction_of_isRemark (hnew o ho)]
      rw [List.cons_append, List.filter_cons_of_pos rfl, List.filter_append, hremarks]
      rfl
    · intro o ho
      simp only [List.cons_append, List.mem_cons, List.mem_append, List.not_mem_nil, or_false] at ho
      rcases ho with rfl | ho | rfl
      · exact .inr rfl
      · exact .inl (hnew o ho)
      · exact .inr rfl

/-- The visit of a bean, given that a level below its dependents are visited. -/
theorem visits_of_reentry (quiet : env.QuietEnds) (hf : f < start.factories.length)
    (below : ∀ k, k + 1 = n → Visits env f start k (again.destroy f)) :
    Visits env f start n (destroyCascade env again f) := by
  intro s opened finished ran name hw hsize hpath
  have hlen : f < s.factories.length := hw.length ▸ hf
  rw [yields_destroyCascade hlen]
  by_cases hmet : name ∈ opened ∪ finished
  · -- Met before: nothing is left of it but edges that lead to it.
    have hnil : (s.factory f).dependencies.dependentsOf name = [] :=
      List.eq_nil_iff_forall_not_mem.2 fun d hd =>
        hw.taken hmet (DependencyGraph.mem_dependentsOf.1 hd)
    have hnone : (s.factory f).singletons.get? name = none :=
      Option.eq_none_iff_forall_ne_some.2 fun i hi => (hw.cached.1 hi).2 hmet
    simp only [hnil, hnone, List.foldlM_nil, yields_pure, List.isEmpty_nil, if_true]
    refine ⟨finished, [], ?_, subset_rfl, by simpa using hmet, rfl,
      size_dependents_dropEdges_le.trans size_dependents_detach_le⟩
    rw [List.append_nil]
    exact hw.revisit hf hmet
  · refine (yields_dependents hf below hw hsize hpath hmet).mono fun before t h => ?_
    cases hv : (s.factory f).singletons.get? name with
    | none =>
      have := h.finish [] t hf hw hpath hmet (by simp [hv]) (by simp) rfl rfl
      rwa [List.filterMap_nil, List.append_nil] at this
    | some i =>
      simp only
      have hproc : (t.factory f).processors = (start.factory f).processors := by
        obtain ⟨_, _, ht, -⟩ := h
        exact ht.processors
      rw [hproc]
      refine (yields_destroyInstance_ran quiet).mono ?_
      rintro failure u ⟨hu, hran⟩
      have hown (u : Session) := h.finish [⟨name, i, failure⟩] u hf hw hpath hmet
        (by simp [hv]) (by simpa using hran)
      cases failure with
      | none =>
        have := hown u hu.factories (by simpa using hu.filter_record)
        rwa [List.filterMap_cons_none rfl, List.filterMap_nil, List.append_nil] at this
      | some failure =>
        refine hown (u.write _) hu.factories ?_
        rw [Session.record_write, List.filter_cons_of_neg Bool.false_ne_true, hu.filter_record]

end

/-- **A cascade visits its bean.** Every level of it uses up a bean with dependents, so its budget
need not be larger than the number of these. -/
theorem visits_destroyCascade (quiet : env.QuietEnds) (hf : f < start.factories.length) :
    ∀ n, Visits env f start n (destroyCascade env (reentry env n) f) := by
  intro n
  induction n with
  | zero => exact visits_of_reentry quiet hf fun k hk => absurd hk (by omega)
  | succ n ih =>
    refine visits_of_reentry quiet hf fun k hk => ?_
    obtain rfl : k = n := by omega
    exact ih

/-! ## All singletons -/

/-- How a factory is torn down: the destructions that `ran`, in order, and what is left. -/
structure TornDown (env : Collaborators) (f : FactoryId) (s : Session) (ran : List Destruction)
    (t : Session) : Prop where
  once : (ran.map fun d => (d.name, d.victim)).Perm (s.factory f).singletons.objects.entries
  real : ∀ d ∈ ran, d.Ran env (s.factory f).processors
  record : t.record.filter Occurrence.isDestruction =
    (ran.flatMap Destruction.occurrences).reverse ++ s.record.filter Occurrence.isDestruction
  order : ∀ {b d}, (s.factory f).dependencies.Ahead b d → (s.singleton? f b).isSome →
    (s.singleton? f d).isSome → Precedes (ran.map Destruction.name) d b
  singletons : (t.factory f).singletons.names = []
  manualNames : (t.factory f).manualNames.toList = []
  dependencies : (t.factory f).dependencies = {}
  inDestruction : (t.factory f).singletons.inDestruction = false

theorem Walk.tornDown {finished : Set String} {ran : List Destruction} (notices : List Notice)
    (hw : Walk env f start ∅ finished ran s) (hf : f < start.factories.length)
    (all : ∀ name ∈ (start.factory f).singletons.names, name ∈ finished) :
    TornDown env f start ran
      (((s.releaseAll f).writeNotices notices).write (.tornDown f)) := by
  have hlen : f < s.factories.length := hw.length ▸ hf
  have hafter : (((s.releaseAll f).writeNotices notices).write (.tornDown f)).factory f =
      (s.factory f).dropSingletons := by
    rw [Session.factory_write, Session.Remarks.writeNotices.factory, Session.factory_releaseAll,
      Session.factory_modifyFactory_self hlen]
  have hdone {n i} (h : start.singleton? f n = some i) : n ∈ finished :=
    all n (OrderedMap.mem_keys_iff.2 ⟨i, h⟩)
  constructor
  case once =>
    have hnames : (ran.map fun d => (d.name, d.victim)).map Prod.fst = ran.map Destruction.name := by
      simp [Function.comp_def]
    refine (List.perm_ext_iff_of_nodup (.of_map Prod.fst (hnames ▸ hw.once))
      (.of_map Prod.fst (start.factory f).singletons.objects.nodup)).2 fun ⟨n, i⟩ => ?_
    rw [hw.victims, ← OrderedMap.get?_eq_some_iff]
    exact ⟨fun h => h.2, fun h => ⟨hdone h, h⟩⟩
  case real => exact hw.real
  case record =>
    rw [Session.record_write, List.filter_cons_of_neg Bool.false_ne_true,
      Session.Remarks.writeNotices.filter_record fun _ => Occurrence.isDestruction_of_isRemark,
      filter_record_releaseAll]
    exact hw.record
  case order =>
    intro b d hd hb hcached
    obtain ⟨i, hi⟩ := Option.isSome_iff_exists.1 hb
    obtain ⟨x, hx, he⟩ := List.mem_map.1 (hw.victims.2 ⟨hdone hi, hi⟩)
    obtain ⟨pre, post, rfl⟩ := List.append_of_mem hx
    obtain rfl : x.name = b := congrArg Prod.fst he
    exact precedes_of_mem (by rw [List.map_append, List.map_cons])
      (hw.order pre x post rfl d hd hcached)
  case singletons => rw [hafter]; rfl
  case manualNames => rw [hafter]; rfl
  case dependencies => rw [hafter]; rfl
  case inDestruction => rw [hafter]; rfl

theorem yields_destroyAll (quiet : env.QuietEnds) (hf : f < s.factories.length) {depth : Nat}
    (hdepth : (s.factory f).dependencies.dependents.size ≤ depth) :
    Yields False (destroyAll env (reentry env depth) f) s fun failures t =>
      ∃ ran, failures = ran.filterMap Destruction.error? ∧ TornDown env f s ran t := by
  unfold destroyAll
  simp only [yields_bind, yields_lift, yields_pure, write_apply, updateFactory_apply, note_apply,
    theFactory_apply]
  set start := ((s.write (.tearingDown f)).modifyFactory f fun f =>
    { f with singletons := f.singletons.setInDestruction true }).write (.notice .destructionStarted)
    with hstart
  have hf' : f < start.factories.length := by simpa [hstart] using hf
  have hstartF : start.factory f = { s.factory f with
      singletons := (s.factory f).singletons.setInDestruction true } := by
    rw [hstart, Session.factory_write, Session.factory_modifyFactory_self (by simpa using hf)]
    rfl
  have hsize : (start.factory f).dependencies.dependents.size ≤ depth := by rwa [hstartF]
  refine ((visits_destroyCascade quiet hf' depth).foldlM (.begin_ env f start) hsize
    (by simp)).mono ?_
  rintro _ t ⟨failures, rfl, finished, ran, hw, -, hall, rfl, -⟩
  have htorn := hw.tornDown [if (ran.filterMap Destruction.error?).isEmpty then
    .destructionFinished else .destructionIncomplete] hf' (by simpa using hall)
  refine ⟨ran, rfl, ?_⟩
  obtain ⟨once, real, record, order, singletons, manualNames, dependencies, inDestruction⟩ := htorn
  unfold Session.singleton? at order
  rw [hstartF] at once real order
  exact ⟨once, real, record, order, singletons, manualNames, dependencies, inDestruction⟩

theorem tornDown_callFactory (quiet : env.QuietEnds) (hf : f < s.factories.length) {depth : Nat}
    (hdepth : (s.factory f).dependencies.dependents.size ≤ depth) :
    ∃ ran t, callFactory env (reentry env depth) f .destroySingletons s =
      some (answerFailures (ran.filterMap Destruction.error?), t) ∧ TornDown env f s ran t := by
  obtain ⟨_, t, hrun, ran, rfl, h⟩ := yields_false_iff.1 (yields_destroyAll quiet hf hdepth)
  have : Yields False (callFactory env (reentry env depth) f .destroySingletons) s fun a t' =>
      a = answerFailures (ran.filterMap Destruction.error?) ∧ t' = t := by
    unfold callFactory
    rw [yields_bind, yields_false_iff]
    exact ⟨_, t, hrun, rfl, rfl⟩
  obtain ⟨_, _, e, rfl, rfl⟩ := yields_false_iff.1 this
  exact ⟨ran, _, e, h⟩

/-- **Destroying all singletons destroys each of them once, dependents first**, whatever the graph
is like and whatever fails. The destructions do not overlap in the record; the answer has their
errors, in their order. An edge counts unless the bean needs its dependent in turn. -/
theorem callFactory_destroySingletons (quiet : env.QuietEnds) (hf : f < s.factories.length)
    {depth : Nat} (hdepth : (s.factory f).dependencies.dependents.size ≤ depth) :
    ∃ (ran : List Destruction) (t : Session),
      callFactory env (reentry env depth) f .destroySingletons s =
        some (if ran.filterMap Destruction.error? = [] then .done
          else .failures (ran.filterMap Destruction.error?), t) ∧
      (ran.map fun d => (d.name, d.victim)).Perm (s.factory f).singletons.objects.entries ∧
      (∀ d ∈ ran, d.Ran env (s.factory f).processors) ∧
      t.record.filter Occurrence.isDestruction =
        (ran.flatMap Destruction.occurrences).reverse ++ s.record.filter Occurrence.isDestruction ∧
      (∀ b d, s.edge f b d → (s.singleton? f b).isSome → (s.singleton? f d).isSome →
        ¬ TransGen (s.edge f) d b → Precedes (ran.map Destruction.name) d b) ∧
      ((∀ x, ¬ TransGen (s.edge f) x x) → ∀ b d, TransGen (s.edge f) b d →
        (s.singleton? f b).isSome → (s.singleton? f d).isSome →
        Precedes (ran.map Destruction.name) d b) ∧
      (t.factory f).singletons.names = [] ∧ (t.factory f).manualNames.toList = [] ∧
      (t.factory f).dependencies = {} ∧ (t.factory f).singletons.inDestruction = false := by
  obtain ⟨ran, t, hrun, h⟩ := tornDown_callFactory quiet hf hdepth
  refine ⟨ran, t, ?_, h.once, h.real, h.record, ?_, ?_, h.singletons, h.manualNames, h.dependencies,
    h.inDestruction⟩
  · rw [hrun, answerFailures]
    simp only [List.isEmpty_iff]
  · exact fun b d he hb hd back => h.order (.single he back) hb hd
  · exact fun acyclic b d hbd hb hd => h.order (.of_acyclic acyclic hbd) hb hd

end

/-- Three singletons: two need each other, the third needs one of them and cannot be destroyed
properly. -/
def Session.entangled : Session where
  factories :=
    let objects := OrderedMap.ofList
      [("a", ⟨0, "a", .closer⟩), ("b", ⟨1, "b", .closer⟩), ("c", ⟨2, "c", .closer⟩)]
    [{ singletons := { objects }
       dependencies := ((DependencyGraph.register {} "a" "b").register "b" "a").register "a" "c" }]
  made := [(⟨0, "a", .closer⟩, {}), (⟨1, "b", .closer⟩, {}),
    (⟨2, "c", .closer⟩, { failDestroy := some "stuck" })]

theorem entangled_destroySingletons :
    let env := Scripted.collaborators (fun k => ⟨k.label, none⟩) fun _ => none
    env.QuietEnds ∧ 0 < Session.entangled.factories.length ∧
      (Session.entangled.factory 0).dependencies.dependents.size ≤ 2 ∧
      ∃ (ran : List Destruction) (t : Session),
        (∃ a, callFactory env (reentry env 2) 0 .destroySingletons Session.entangled = some (a, t)) ∧
        (ran.map Destruction.name).Perm ["a", "b", "c"] ∧
        Precedes (ran.map Destruction.name) "c" "a" ∧ (t.factory 0).singletons.names = [] := by
  intro env
  have quiet : env.QuietEnds := Scripted.quietEnds
  have hf : 0 < Session.entangled.factories.length := by decide
  have hdepth : (Session.entangled.factory 0).dependencies.dependents.size ≤ 2 := by decide
  refine ⟨quiet, hf, hdepth, ?_⟩
  obtain ⟨ran, t, run, once, -, -, order, -, rest, -⟩ := callFactory_destroySingletons quiet hf hdepth
  refine ⟨ran, t, ⟨_, run⟩, ?_, ?_, rest⟩
  · have := once.map Prod.fst
    rwa [List.map_map] at this
  · refine order "a" "c" (by unfold Session.edge DependencyGraph.Edge; decide) (by decide) (by decide) ?_
    rw [Session.edge, ← DependencyGraph.isDependent_iff_transGen]
    decide

end BeanContainer
