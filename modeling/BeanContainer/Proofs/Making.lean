import BeanContainer.Proofs.Uses

/-!
What holds while beans are made by constructors that look up other beans. The
factory is a `Standalone` one: nothing is above it and nothing is renamed.
`Making` relates the session of the moment to the one it all began in, `Tried`
says what came of one attempt: it leaves the flags as they were, caches nothing
that what was tried does not come to use, a success provides what was tried, and
what was fit to be tried succeeds.
-/

namespace BeanContainer

open Relation Session

/-- A script looks up these beans of a factory in order, ends with the first error, and succeeds
without. -/
inductive Script.Requires {α : Type} (f : FactoryId) : List String → Script α → Prop
  | done (result : α) : Requires f [] (.done result)
  | emit {ys : List String} {event : Event} {next : Script α} : Requires f ys next →
      Requires f ys (.emit event next)
  | make {ys : List String} {name : String} {spec : BeanSpec} {next : Instance → Script α} :
      (∀ i, Requires f ys (next i)) → Requires f ys (.make name spec next)
  | lookup {y : String} {ys : List String} {next : Except BeanError Instance → Script α} :
      (∀ i, Requires f ys (next (.ok i))) → (∀ e, next (.error e) = .fail (.error e)) →
      Requires f (y :: ys) (.lookup f y next)

namespace Script.Requires

variable {α β : Type} {f : FactoryId} {ys zs : List String}

theorem bind {script : Script α} {k : α → Script β} (h : script.Requires f ys)
    (hk : ∀ a, (k a).Requires f zs) : (script >>= k).Requires f (ys ++ zs) := by
  change (Script.bind script k).Requires f (ys ++ zs)
  induction h with
  | done a => exact hk a
  | emit _ ih => exact .emit ih
  | make _ ih => exact .make ih
  | lookup _ herror ih => exact .lookup ih fun e => by rw [herror]; rfl

theorem forM_require : ∀ ys : List String, (ys.forM (Scripted.require f)).Requires f ys
  | [] => .done ()
  | y :: ys =>
    have one : (Scripted.require f y).Requires f [y] := .lookup (fun _ => .done ()) fun _ => rfl
    one.bind fun _ => forM_require ys

theorem runSteps_none (steps : List Value) :
    (Scripted.runSteps (fun _ => none) steps).Requires f [] := by
  induction steps with
  | nil => exact .done ()
  | cons _ _ ih => exact (done (f := f) ()).bind fun _ => ih

/-- A written constructor without tries, operations and failures requires what it names under
`$refs`. -/
theorem construct {label n : String} {m : MergedDefinition}
    (htry : Scripted.textsOf (Scripted.instruction m "$try") = [])
    (hfail : Scripted.textOf (Scripted.instruction m "$fail") = none) :
    (Scripted.construct (fun _ => none) label f n m).Requires f
      (Scripted.textsOf (Scripted.instruction m "$refs")) := by
  unfold Scripted.construct
  rw [htry, hfail]
  have rest : Script.Requires f [] (do
      [].forM (Scripted.attempt f)
      Scripted.runSteps (fun _ => none) (Scripted.itemsOf (Scripted.instruction m "$ops"))
      Scripted.failWith none
      .make n (Scripted.specOf m) .done) :=
    (done ()).bind fun _ => (runSteps_none _).bind fun _ => (done ()).bind fun _ => .make .done
  have all := (forM_require (f := f) (Scripted.textsOf (Scripted.instruction m "$refs"))).bind
    fun _ => rest
  rw [List.append_nil] at all
  exact .emit all

end Script.Requires

/-- A factory without a parent and without aliases, whose definitions can be merged to singletons and
prototypes. Its constructor looks up the beans `refs` of each bean; its post-processors do not
fail. -/
structure Standalone (env : Collaborators) (refs : String → List String) (f : FactoryId)
    (s : Session) : Prop where
  length : f < s.factories.length
  parent : (s.factory f).parent = none
  aliases : (s.factory f).aliases.entries = []
  resolved : ∀ n, s.Defines f n → ∃ m, s.merged? f n = some m ∧ m.isAbstract = false ∧
    (m.isSingleton = true ∨ m.isPrototype = true)
  constructor : ∃ c, (s.factory f).constructor = some c ∧
    ∀ n m, s.merged? f n = some m → (env.construct c f n m).Requires f (refs n)
  processors : ∀ p ∈ (s.factory f).processors, ∀ i n,
    (env.before (s.processor p) i n).Requires f [] ∧ (env.after (s.processor p) i n).Requires f []

variable {env : Collaborators} {refs : String → List String} {f : FactoryId}
  {start s t u : Session} {n c y : String} {made : Instance}

namespace Standalone

theorem linked (h : Standalone env refs f start) : start.Linked {f} := by
  rintro g rfl p hp
  rw [h.parent] at hp
  cases hp

theorem chain (h : Standalone env refs f start) : start.chain f = [f] := by
  unfold Session.chain
  cases hlen : start.factories.length with
  | zero => exact absurd (hlen ▸ h.length) (Nat.not_lt_zero f)
  | succ links => simp [chainWithin, h.parent]

theorem canonical (h : Standalone env refs f start) (y : String) :
    (start.factory f).canonical y = y := by
  have hnone : (start.factory f).aliases.toMap.get? y = none := by
    have he : (start.factory f).aliases.toMap.entries = [] := h.aliases
    simp [OrderedMap.get?, he]
  unfold Factory.canonical AliasMap.canonical AliasMap.follow
  rw [hnone]

theorem merged?_eq_some_iff (h : Standalone env refs f start) {m : MergedDefinition} :
    start.merged? f n = some m ↔ start.Own f n m := Session.merged?_eq_some_iff h.linked rfl

/-- What a bean uses: what its merged definition names, and what its constructor looks up. -/
theorem uses_iff (h : Standalone env refs f start) (hdef : start.Defines f n) {m : MergedDefinition}
    (hown : start.Own f n m) : start.Uses f refs n y ↔ y ∈ m.dependsOn ∨ y ∈ refs n := by
  constructor
  · rintro ⟨-, ⟨m', d, hm', hd, rfl⟩ | hy⟩
    · rw [h.canonical]
      exact .inl (own_unique hm' hown ▸ hd)
    · exact .inr hy
  · rintro (hy | hy)
    · exact ⟨hdef, .inl ⟨m, y, hown, hy, h.canonical y⟩⟩
    · exact ⟨hdef, .inr hy⟩

end Standalone

/-! ## The state of the moment -/

/-- Whether a finished singleton of a name goes into the cache of a factory. -/
def Occurrence.caches (f : FactoryId) (n : String) : Occurrence → Bool
  | cached g x _ => g = f && x = n
  | _ => false

/-- How often a finished singleton of a name went into the cache of a factory. -/
def Session.cachings (s : Session) (f : FactoryId) (n : String) : Nat :=
  s.record.countP (Occurrence.caches f n)

/-- The state of making beans that began in `start`. -/
structure Making (refs : String → List String) (f : FactoryId) (start s : Session) : Prop where
  reads : start.Reads {f} s
  processors : s.processors = start.processors
  inDestruction : (s.factory f).singletons.inDestruction = false
  reasons : ∀ {c n}, s.edge f c n → start.Uses f refs n c
  makeable : ∀ {n i}, s.singleton? f n = some i → start.Makeable f refs n
  after : ∀ {n i c}, s.singleton? f n = some i → TransGen (start.Uses f refs) n c →
    start.DefinesSingleton f c → Precedes (s.factory f).singletons.names c n
  cachings : ∀ x, s.cachings f x = start.cachings f x + (s.factory f).singletons.names.count x

/-- A bean is makeable, and does not come to a bean whose flag is set, because these come to it. -/
def Fit (refs : String → List String) (f : FactoryId) (start s : Session) (y : String) : Prop :=
  start.Makeable f refs y ∧ ∀ z, (s.factory f).singletons.Flagged z →
    TransGen (start.Uses f refs) z y

/-- A bean was makeable, and all singletons that it comes to use, itself included, are there. -/
def Provided (refs : String → List String) (f : FactoryId) (start s : Session) (y : String) : Prop :=
  start.Makeable f refs y ∧ ∀ c, ReflTransGen (start.Uses f refs) y c →
    start.DefinesSingleton f c → ∃ i, s.singleton? f c = some i

/-- Edges and singletons have been added, and flags are as they were. -/
structure Returned (f : FactoryId) (s t : Session) : Prop extends Grown f s t where
  flags : (s.factory f).singletons.SameFlags (t.factory f).singletons

/-- Edges have been added, and singletons and flags are as they were. -/
structure Steady (f : FactoryId) (s t : Session) : Prop extends Returned f s t where
  same : ∀ x, t.singleton? f x = s.singleton? f x

/-- What came of an attempt that began in `s`: if it is `able` to, it succeeds; if it succeeds, it
has provided some beans; and it caches nothing that these do not come to use. -/
structure Tried (refs : String → List String) (f : FactoryId) (start s : Session) (able : Prop)
    (provides : String → Prop) (ok : Bool) (t : Session) : Prop where
  making : Making refs f start t
  returned : Returned f s t
  provided : ok = true → ∀ y, provides y → Provided refs f start t y
  able : able → ok = true
  only : ∀ {x i}, t.singleton? f x = some i → s.singleton? f x = none →
    ∃ y, provides y ∧ ReflTransGen (start.Uses f refs) y x

/-- Nothing that matters for the making of beans has happened. -/
structure Calm (f : FactoryId) (s t : Session) : Prop where
  reads : s.Reads {f} t
  processors : t.processors = s.processors
  singletons : (t.factory f).singletons = (s.factory f).singletons
  dependencies : (t.factory f).dependencies = (s.factory f).dependencies
  cachings : ∀ x, t.cachings f x = s.cachings f x

theorem Provided.grown (h : Provided refs f start s y) (ht : Grown f s t) :
    Provided refs f start t y := by
  refine ⟨h.1, fun c hc hs => ?_⟩
  obtain ⟨i, hi⟩ := h.2 c hc hs
  exact ⟨i, ht.singletons hi⟩

/-- What has been provided for all that a bean uses, and is there itself if it has to be, is
provided. -/
theorem Provided.of_uses (hdef : start.Defines f n)
    (huses : ∀ y, start.Uses f refs n y → Provided refs f start s y)
    (hn : start.DefinesSingleton f n → ∃ i, s.singleton? f n = some i) :
    Provided refs f start s n := by
  refine ⟨.intro hdef fun y hy => (huses y hy).1, fun c hc hs => ?_⟩
  rcases ReflTransGen.cases_head hc with rfl | ⟨y, hy, hyc⟩
  · exact hn hs
  · exact (huses y hy).2 c hyc hs

/-! ## Nothing happens -/

namespace Returned

theorem refl (s : Session) : Returned f s s := ⟨.refl s, rfl, rfl⟩

theorem trans (h : Returned f s t) (h' : Returned f t u) : Returned f s u :=
  ⟨h.toGrown.trans h'.toGrown, h.flags.trans h'.flags⟩

theorem fit_iff (h : Returned f s t) : Fit refs f start t y ↔ Fit refs f start s y := by
  unfold Fit
  simp only [h.flags.flagged_iff]

theorem unflagged_eq {V : Finset String} (h : Returned f s t) :
    unflagged V (t.factory f).singletons = unflagged V (s.factory f).singletons := by
  unfold unflagged
  rw [h.flags.inCreation, h.flags.prototypes]

end Returned

theorem Session.cachings_eq {new : List Occurrence} (h : t.record = new ++ s.record)
    (hn : ∀ o ∈ new, o.caches f n = false) : t.cachings f n = s.cachings f n := by
  have : new.countP (Occurrence.caches f n) = 0 := List.countP_eq_zero.2 fun o ho => by simp [hn o ho]
  unfold Session.cachings
  rw [h, List.countP_append, this, Nat.zero_add]

theorem Occurrence.caches_of_isRemark {o : Occurrence} (h : o.isRemark = true) :
    o.caches f n = false := by
  cases o <;> first | rfl | cases h

namespace Calm

theorem of_remarks (h : s.Remarks t) : Calm f s t where
  reads := .of_remarks h
  processors := h.processors
  singletons := by rw [h.factory]
  dependencies := by rw [h.factory]
  cachings x := by
    obtain ⟨new, e, hn⟩ := h.recorded
    exact cachings_eq e fun o ho => Occurrence.caches_of_isRemark (hn o ho)

theorem of_merged (h : s.Merged {f} t) : Calm f s t where
  reads := h.toReads
  processors := by rw [h.same]
  singletons := by rw [h.factory]
  dependencies := by rw [h.factory]
  cachings x := by
    obtain ⟨new, e, hn⟩ := h.remarked
    exact cachings_eq e fun o ho => Occurrence.caches_of_isRemark (hn o ho)

theorem write {o : Occurrence} (ho : ∀ g, o.factory? = some g → g = f)
    (hc : ∀ x, o.caches f x = false) : Calm f s (s.write o) where
  reads := .of_factories rfl (.write ho)
  processors := rfl
  singletons := rfl
  dependencies := rfl
  cachings x := cachings_eq (show (s.write o).record = [o] ++ s.record from rfl) (by simpa using hc x)

theorem trans (hl : s.Linked {f}) (h : Calm f s t) (h' : Calm f t u) : Calm f s u where
  reads := h.reads.trans hl h'.reads
  processors := h'.processors.trans h.processors
  singletons := h'.singletons.trans h.singletons
  dependencies := h'.dependencies.trans h.dependencies
  cachings x := (h'.cachings x).trans (h.cachings x)

theorem alike (h : Calm f s t) : Alike f s t := ⟨by rw [h.singletons], h.dependencies⟩

theorem steady (h : Calm f s t) : Steady f s t where
  toGrown := h.alike.grown
  flags := by
    rw [h.singletons]
    exact ⟨rfl, rfl⟩
  same := h.alike.singleton?

end Calm

theorem Steady.trans (h : Steady f s t) (h' : Steady f t u) : Steady f s u where
  toReturned := h.toReturned.trans h'.toReturned
  same x := (h'.same x).trans (h.same x)

namespace Tried

variable {able able' : Prop} {provides provides' : String → Prop} {ok : Bool}

theorem still (h : Making refs f start s)
    (provided : ok = true → ∀ y, provides y → Provided refs f start s y) (able : able' → ok = true) :
    Tried refs f start s able' provides ok s where
  making := h
  returned := .refl s
  provided := provided
  able := able
  only hi hn := by cases hn.symm.trans hi

theorem fail (h : Tried refs f start s able provides false t)
    (hreach : ∀ y, provides y → ∃ y', provides' y' ∧ ReflTransGen (start.Uses f refs) y' y) :
    Tried refs f start s able provides' false t where
  making := h.making
  returned := h.returned
  provided hok := by cases hok
  able := h.able
  only hi hn := by
    obtain ⟨y, hy, hyx⟩ := h.only hi hn
    obtain ⟨y', hy', hyy⟩ := hreach y hy
    exact ⟨y', hy', hyy.trans hyx⟩

theorem trans (h : Tried refs f start s able provides true t)
    (h' : Tried refs f start t able' provides' ok u) (hable : able → able') :
    Tried refs f start s able (fun y => provides y ∨ provides' y) ok u where
  making := h'.making
  returned := h.returned.trans h'.returned
  provided hok y hy := by
    rcases hy with hy | hy
    · exact (h.provided rfl y hy).grown h'.returned.toGrown
    · exact h'.provided hok y hy
  able ha := h'.able (hable ha)
  only {x i} hi hn := by
    cases ht : t.singleton? f x with
    | none => exact (h'.only hi ht).imp fun _ => And.imp_left .inr
    | some j => exact (h.only ht hn).imp fun _ => And.imp_left .inl

/-- What happened before an attempt, and does not matter to it, is part of it. -/
theorem after (h : Tried refs f start t able provides ok u) (ht : Steady f s t)
    (hable : able' → able) : Tried refs f start s able' provides ok u where
  making := h.making
  returned := ht.toReturned.trans h.returned
  provided := h.provided
  able ha := h.able (hable ha)
  only hi hn := h.only hi ((ht.same _).trans hn)

theorem mono (h : Tried refs f start s able provides ok t) (hable : able' → able)
    (hprovides : ∀ y, provides' y → provides y)
    (hreach : ∀ y, provides y → ∃ y', provides' y' ∧ ReflTransGen (start.Uses f refs) y' y) :
    Tried refs f start s able' provides' ok t where
  making := h.making
  returned := h.returned
  provided hok y hy := h.provided hok y (hprovides y hy)
  able ha := h.able (hable ha)
  only hi hn := by
    obtain ⟨y, hy, hyx⟩ := h.only hi hn
    obtain ⟨y', hy', hyy⟩ := hreach y hy
    exact ⟨y', hy', hyy.trans hyx⟩

end Tried

namespace Making

theorem alike (h : Making refs f start s) (hl : start.Linked {f}) (reads : s.Reads {f} t)
    (processors : t.processors = s.processors) (alike : Alike f s t)
    (inDestruction : (t.factory f).singletons.inDestruction = (s.factory f).singletons.inDestruction)
    (cachings : ∀ x, t.cachings f x = s.cachings f x) : Making refs f start t := by
  refine ⟨h.reads.trans hl reads, processors.trans h.processors, inDestruction.trans h.inDestruction,
    fun he => h.reasons (alike.edge ▸ he), fun hi => h.makeable (alike.singleton? _ ▸ hi),
    fun hi hc hs => ?_, fun x => ?_⟩
  · rw [alike.names]
    exact h.after (alike.singleton? _ ▸ hi) hc hs
  · rw [cachings, alike.names, h.cachings]

theorem calm (h : Making refs f start s) (hl : start.Linked {f}) (ht : Calm f s t) :
    Making refs f start t :=
  h.alike hl ht.reads ht.processors ht.alike (by rw [ht.singletons]) ht.cachings

theorem flags (h : Making refs f start s) (hl : start.Linked {f}) (hlen : f < s.factories.length)
    {singletons : SingletonRegistry} (hobjects : singletons.objects = (s.factory f).singletons.objects)
    (hdestruction : singletons.inDestruction = (s.factory f).singletons.inDestruction) :
    Making refs f start (s.setFactory f { s.factory f with singletons }) :=
  h.alike hl (.setFactory rfl rfl rfl) rfl (.flags hlen hobjects)
    (by rw [factory_setFactory_self hlen]; exact hdestruction) fun _ => rfl

theorem length (h : Making refs f start s) (hf : f < start.factories.length) :
    f < s.factories.length := h.reads.length ▸ hf

theorem fresh (hs : (start.factory f).singletons.names = []) (he : ∀ c n, ¬ start.edge f c n)
    (hd : (start.factory f).singletons.inDestruction = false) : Making refs f start start := by
  have hnone {n i} (hi : start.singleton? f n = some i) : False := by
    cases (singleton?_eq_none_of_names hs).symm.trans hi
  exact ⟨.refl _, rfl, hd, fun h => absurd h (he _ _), fun hi => (hnone hi).elim,
    fun hi => (hnone hi).elim, fun x => by simp [hs]⟩

theorem provided (h : Making refs f start s) (hi : s.singleton? f n = some made) :
    Provided refs f start s n := by
  refine ⟨h.makeable hi, fun c hc hs => ?_⟩
  rcases reflTransGen_iff_eq_or_transGen.1 hc with rfl | hc
  · exact ⟨made, hi⟩
  · obtain ⟨pre, mid, post, hsplit⟩ := h.after hi hc hs
    refine OrderedMap.mem_keys_iff.1 (?_ : c ∈ (s.factory f).singletons.names)
    rw [hsplit]
    simp

/-! ## Something happens -/

theorem addEdge (h : Making refs f start s) (hf : f < start.factories.length)
    (hl : start.Linked {f}) (hcan : (start.factory f).canonical c = c)
    (huses : start.Uses f refs n c) :
    Making refs f start (s.addEdge f c n) ∧ Steady f s (s.addEdge f c n) ∧
      (s.addEdge f c n).edge f c n := by
  have hlen := h.length hf
  have hsame := singletons_addEdge (d := c) (n := n) hlen
  have hsingle (x) : (s.addEdge f c n).singleton? f x = s.singleton? f x := singleton?_addEdge hlen
  have hedge {b x} : (s.addEdge f c n).edge f b x ↔ s.edge f b x ∨ b = c ∧ x = n := by
    rw [edge_addEdge hlen, h.reads.canonical, hcan]
  refine ⟨⟨h.reads.trans hl (.addEdge rfl), h.processors, by rw [hsame, h.inDestruction],
    fun he => ?_, fun hi => h.makeable (hsingle _ ▸ hi), fun hi hc hs => ?_, fun x => ?_⟩,
    { toGrown := .addEdge hlen, flags := ?_, same := hsingle }, hedge.2 (.inr ⟨rfl, rfl⟩)⟩
  · rcases hedge.1 he with he | ⟨rfl, rfl⟩
    · exact h.reasons he
    · exact huses
  · rw [hsame]
    exact h.after (hsingle _ ▸ hi) hc hs
  · rw [hsame]
    exact h.cachings x
  · rw [hsame]
    exact ⟨rfl, rfl⟩

/-- A finished singleton goes to the end of the cache, after all that it comes to use. -/
theorem cache (h : Making refs f start s) (made : Instance) (hf : f < start.factories.length)
    (hl : start.Linked {f}) (hnone : s.singleton? f n = none) (hmakeable : start.Makeable f refs n)
    (huses : ∀ y, start.Uses f refs n y → Provided refs f start s y) :
    let t := (s.write (.cached f n made)).addSingleton f n made
    Making refs f start t ∧ Returned f s t ∧
      ∀ x, t.singleton? f x = if x = n then some made else s.singleton? f x := by
  intro t
  have hlen : f < (s.write (.cached f n made)).factories.length := h.length hf
  have hsingle (x) : t.singleton? f x = if x = n then some made else s.singleton? f x :=
    singleton?_addSingleton hlen hnone
  have hnames : (t.factory f).singletons.names = (s.factory f).singletons.names ++ [n] :=
    names_addSingleton hlen hnone
  have hgrown : Grown f s t :=
    have hadded : Grown f (s.write (.cached f n made)) t := .addSingleton hlen hnone
    ⟨hadded.edges, hadded.singletons⟩
  have hreads : s.Reads {f} (s.write (.cached f n made)) :=
    .of_factories rfl (.write fun g hg => by cases hg; rfl)
  refine ⟨⟨(h.reads.trans hl hreads).trans hl (.addSingleton rfl), h.processors, ?_, fun he => ?_,
    fun {x i} hi => ?_, fun {x i c} hi hc hs => ?_, fun x => ?_⟩,
    ⟨hgrown, ?_⟩, hsingle⟩
  · rw [factory_addSingleton hlen hnone]
    exact h.inDestruction
  · rw [edge_addSingleton hlen] at he
    exact h.reasons he
  · rw [hsingle] at hi
    split at hi
    · next hx => exact hx ▸ hmakeable
    · exact h.makeable hi
  · rw [hsingle] at hi
    rw [hnames]
    split at hi
    · next hx =>
      subst hx
      obtain ⟨y, hy, hyc⟩ := TransGen.head'_iff.1 hc
      obtain ⟨j, hj⟩ := (huses y hy).2 c hyc hs
      exact precedes_append_self (OrderedMap.mem_keys_iff.2 ⟨j, hj⟩)
    · exact (h.after hi hc hs).append _
  · have hcachings : t.cachings f x = s.cachings f x + [n].count x := by
      change (Occurrence.cached f n made :: s.record).countP (Occurrence.caches f x) = _
      rw [List.countP_cons, Session.cachings]
      simp [Occurrence.caches, List.count_singleton]
    rw [hcachings, hnames, List.count_append, h.cachings, Nat.add_assoc]
  · rw [factory_addSingleton hlen hnone]
    exact ⟨rfl, rfl⟩

end Making

theorem Tried.cache {able : Prop} (h : Tried refs f start s able (· ∈ refs n) true t)
    (made : Instance) (alone : Standalone env refs f start) (hdef : start.Defines f n)
    (hnone : s.singleton? f n = none)
    (huses : ∀ y, start.Uses f refs n y → Provided refs f start t y) :
    Tried refs f start s able (· = n) true
      ((t.write (.cached f n made)).addSingleton f n made) := by
  have hlooks y (hy : y ∈ refs n) : start.Uses f refs n y := ⟨hdef, .inr hy⟩
  have hmakeable : start.Makeable f refs n := .intro hdef fun y hy => (huses y hy).1
  -- Had the bean been cached meanwhile, what it looked up would have come to use it.
  have hnone : t.singleton? f n = none := by
    cases hi : t.singleton? f n with
    | none => rfl
    | some j =>
      obtain ⟨y, hy, hyn⟩ := h.only hi hnone
      exact absurd (.head' (hlooks y hy) hyn) hmakeable.not_transGen_self
  obtain ⟨hmaking, hreturned, hcached⟩ :=
    h.making.cache made alone.length alone.linked hnone hmakeable huses
  refine ⟨hmaking, h.returned.trans hreturned, fun _ y hy => ?_, fun _ => rfl, fun {x i} hx hn => ?_⟩
  · rw [hy]
    exact .of_uses hdef (fun y hy => (huses y hy).grown hreturned.toGrown) fun _ =>
      ⟨made, (hcached n).trans (if_pos rfl)⟩
  · rw [hcached] at hx
    split at hx
    · next hxn => exact ⟨n, rfl, hxn ▸ .refl⟩
    · obtain ⟨y, hy, hyx⟩ := h.only hx hn
      exact ⟨n, rfl, .head (hlooks y hy) hyx⟩

theorem Tried.calm {able : Prop} {provides : String → Prop} {ok : Bool}
    (h : Tried refs f start s able provides ok t) (hl : start.Linked {f}) (ht : Calm f t u) :
    Tried refs f start s able provides ok u where
  making := h.making.calm hl ht
  returned := h.returned.trans ht.steady.toReturned
  provided hok y hy := (h.provided hok y hy).grown ht.steady.toGrown
  able := h.able
  only hi hn := h.only ((ht.steady.same _).symm.trans hi) hn

end BeanContainer
