import BeanContainer.Proofs.Needs

/-!
What holds while the singletons of a factory are made, one bean leading to the
next. `Building` relates the session of the moment to the one it all began in: a
singleton in the cache has all that it needs there before it, with an edge from
each, and the record tells that these were finished before its constructor was
called. Beans whose dependencies are still being looked up are `opened`; they
alone may have edges although nobody knows yet that they are settled.
-/

namespace BeanContainer

open Session

variable {start s t u : Session} {f : FactoryId} {opened : Set String} {n c : String}
  {made : Instance}

/-- A bean needs a singleton of its own factory. -/
def Session.NeedsSingleton (s : Session) (f : FactoryId) (n c : String) : Prop :=
  s.DependsOn f n c ∧ s.DefinesSingleton f c

/-- What the record has got since the start, `new`, tells of the beans of a factory. -/
structure Story (start : Session) (f : FactoryId) (new : List Occurrence) (s : Session) : Prop where
  record : s.record = new ++ start.record
  made : ∀ {n i}, s.singleton? f n = some i → .constructing f n ∈ new ∧ .constructed f n i ∈ new
  before : ∀ {later n earlier c}, new = later ++ .constructing f n :: earlier →
    start.NeedsSingleton f n c → ∃ i, s.singleton? f c = some i ∧ .constructed f c i ∈ earlier

/-- The state of making singletons that began in `start`. -/
structure Building (start : Session) (f : FactoryId) (opened : Set String) (s : Session) : Prop where
  reads : start.Reads Set.univ s
  reasons : ∀ {c n}, s.edge f c n →
    start.DependsOn f n c ∧ start.Defines f n ∧ (n ∈ opened ∨ start.Settled f n)
  settled : ∀ {n i}, s.singleton? f n = some i → start.Defines f n ∧ start.Settled f n
  after : ∀ {n i c}, s.singleton? f n = some i → start.NeedsSingleton f n c →
    s.edge f c n ∧ Precedes (s.factory f).singletons.names c n
  story : ∃ new, Story start f new s

/-- What matters for the making of a factory's singletons has not changed. -/
structure Still (f : FactoryId) (s t : Session) : Prop extends Alike f s t where
  reads : s.Reads Set.univ t
  told : ∃ more, t.record = more ++ s.record ∧ ∀ n, .constructing f n ∉ more

/-- What is left of a bean that was looked up: it is settled, and if it is a singleton it is there. -/
def Served (start : Session) (f : FactoryId) (s : Session) (c : String) : Prop :=
  start.Defines f c → start.Settled f c ∧
    (start.DefinesSingleton f c → ∃ i, s.singleton? f c = some i)

theorem Served.grown (h : Served start f s c) (hg : Grown f s t) : Served start f t c := by
  refine fun hc => ⟨(h hc).1, fun hs => ?_⟩
  obtain ⟨i, hi⟩ := (h hc).2 hs
  exact ⟨i, hg.singletons hi⟩

/-! ## Nothing happens -/

namespace Still

theorem of_remarks (h : s.Remarks t) : Still f s t where
  toAlike := .of_factory (h.factory f)
  reads := .of_remarks h
  told := by
    obtain ⟨more, e, hmore⟩ := h.recorded
    exact ⟨more, e, fun n hn => absurd (hmore _ hn) Bool.false_ne_true⟩

theorem write {o : Occurrence} (ho : ∀ n, .constructing f n ≠ o) : Still f s (s.write o) where
  toAlike := .of_factory rfl
  reads := .of_factories rfl (.write fun _ _ => trivial)
  told := ⟨[o], rfl, fun n => by simpa using ho n⟩

theorem of_factories (h : t.factories = s.factories) (hr : t.record = s.record) : Still f s t where
  toAlike := .of_factory (by unfold Session.factory; rw [h])
  reads := .of_factories h (.of_record_eq hr)
  told := ⟨[], hr, by simp⟩

theorem keepIn {k : ScopeId} : Still f s (s.keepIn k n made).2 where
  toAlike := .of_factory (by unfold Session.factory; rw [factories_keepIn])
  reads := .of_factories factories_keepIn tells_keepIn
  told := ⟨_, record_keepIn, fun n hn => by split at hn <;> simp at hn⟩

theorem of_merged (h : s.Merged Set.univ t) : Still f s t where
  toAlike := ⟨by rw [h.factory], by rw [h.factory]⟩
  reads := h.toReads
  told := by
    obtain ⟨more, e, hmore⟩ := h.remarked
    exact ⟨more, e, fun n hn => absurd (hmore _ hn) Bool.false_ne_true⟩

theorem of_outside {U : Set FactoryId} (h : s.Reads U t) (hf : f ∉ U) : Still f s t where
  toAlike := .of_factory (h.outside hf)
  reads := { h with outside := fun hg => absurd trivial hg
                    told := h.told.imp fun _ hn => ⟨hn.1, fun _ _ _ _ => trivial⟩ }
  told := by
    obtain ⟨more, e, hmore⟩ := h.told
    exact ⟨more, e, fun n hn => hf (hmore _ hn f rfl)⟩

theorem flags (hlen : f < s.factories.length) {singletons : SingletonRegistry}
    (h : singletons.objects = (s.factory f).singletons.objects) :
    Still f s (s.setFactory f { s.factory f with singletons }) where
  toAlike := .flags hlen h
  reads := .setFactory trivial rfl rfl
  told := ⟨[], rfl, by simp⟩

theorem trans (hl : s.Linked Set.univ) (h : Still f s t) (h' : Still f t u) : Still f s u where
  toAlike := h.toAlike.trans h'.toAlike
  reads := h.reads.trans hl h'.reads
  told := by
    obtain ⟨more, e, hmore⟩ := h.told
    obtain ⟨more', e', hmore'⟩ := h'.told
    refine ⟨more' ++ more, by rw [e', e, List.append_assoc], fun n hn => ?_⟩
    exact (List.mem_append.1 hn).elim (hmore' n) (hmore n)

end Still

/-- A list grows at its front, but not by the element at which it is split. -/
theorem split_of_append_eq {α : Type} {x : α} {more new later earlier : List α} (hx : x ∉ more)
    (h : more ++ new = later ++ x :: earlier) : ∃ later', new = later' ++ x :: earlier := by
  obtain ⟨later', -, hnew⟩ | ⟨mid, hmore, -⟩ := split_of_grown h
  · exact ⟨later', hnew⟩
  · exact absurd (by simp [hmore]) hx

namespace Story

variable {new : List Occurrence}

theorem still (h : Story start f new s) (hs : Still f s t) : ∃ new', Story start f new' t := by
  obtain ⟨more, e, hmore⟩ := hs.told
  refine ⟨more ++ new, by rw [e, h.record, List.append_assoc], fun hi => ?_, fun hsplit hneeds => ?_⟩
  · rw [hs.singleton?] at hi
    exact ⟨List.mem_append_right _ (h.made hi).1, List.mem_append_right _ (h.made hi).2⟩
  · obtain ⟨later', hnew⟩ := split_of_append_eq (hmore _) hsplit
    rw [hs.singleton?]
    exact h.before hnew hneeds

end Story

namespace Building

variable {i : Instance}

theorem linked (h : Building start f opened s) (hl : start.Linked Set.univ) : s.Linked Set.univ :=
  h.reads.linked hl

theorem length (h : Building start f opened s) (hf : f < start.factories.length) :
    f < s.factories.length := h.reads.length ▸ hf

theorem still (h : Building start f opened s) (hl : start.Linked Set.univ) (hs : Still f s t) :
    Building start f opened t where
  reads := h.reads.trans hl hs.reads
  reasons he := h.reasons (hs.edge ▸ he)
  settled hi := h.settled (hs.singleton? _ ▸ hi)
  after hi hneeds := by
    rw [hs.edge, hs.names]
    exact h.after (hs.singleton? _ ▸ hi) hneeds
  story := by
    obtain ⟨new, hstory⟩ := h.story
    exact hstory.still hs

/-! ## Something happens -/

theorem fresh (hs : (start.factory f).singletons.names = []) (he : ∀ c n, ¬ start.edge f c n) :
    Building start f ∅ start := by
  have hnone {n i} (hi : start.singleton? f n = some i) : False := by
    cases (singleton?_eq_none_of_names hs).symm.trans hi
  exact ⟨.refl _, fun h => absurd h (he _ _), fun hi => (hnone hi).elim, fun hi => (hnone hi).elim,
    [], rfl, fun hi => (hnone hi).elim, fun h => by simp at h⟩

theorem addEdge (h : Building start f (insert n opened) s) (hf : f < start.factories.length)
    (hl : start.Linked Set.univ) {d : String} (hdef : start.Defines f n)
    (hdep : start.DependsOn f n ((start.factory f).canonical d)) :
    Building start f (insert n opened) (s.addEdge f d n) := by
  have hlen := h.length hf
  have hsingle (x) : (s.addEdge f d n).singleton? f x = s.singleton? f x := singleton?_addEdge hlen
  obtain ⟨new, hstory⟩ := h.story
  refine ⟨h.reads.trans hl (.addEdge trivial), fun he => ?_, fun hi => h.settled (hsingle _ ▸ hi),
    fun hi hneeds => ?_, new, hstory.record, fun hi => hstory.made (hsingle _ ▸ hi),
    fun hsplit hneeds => ?_⟩
  · rcases (edge_addEdge hlen).1 he with he | ⟨rfl, rfl⟩
    · exact h.reasons he
    · rw [h.reads.canonical]
      exact ⟨hdep, hdef, .inl (.inl rfl)⟩
  · obtain ⟨he, hp⟩ := h.after (hsingle _ ▸ hi) hneeds
    rw [singletons_addEdge hlen]
    exact ⟨(edge_addEdge hlen).2 (.inl he), hp⟩
  · rw [hsingle]
    exact hstory.before hsplit hneeds

theorem open_ (h : Building start f opened s) (n : String) : Building start f (insert n opened) s :=
  { h with reasons := fun he => (h.reasons he).imp id (And.imp id (Or.imp .inr id)) }

/-- A bean that turns out to be settled is opened no more. -/
theorem close (h : Building start f (insert n opened) s) (hn : start.Settled f n) :
    Building start f opened s := by
  refine { h with reasons := fun he => (h.reasons he).imp id (And.imp id fun ho => ?_) }
  rcases ho with (rfl | ho) | hset
  · exact .inr hn
  · exact .inl ho
  · exact .inr hset

/-- A constructor is called when all that its bean needs is there. -/
theorem constructing (h : Building start f opened s) (hl : start.Linked Set.univ)
    (hready : ∀ c, start.NeedsSingleton f n c → ∃ i, s.singleton? f c = some i) :
    Building start f opened (s.write (.constructing f n)) := by
  obtain ⟨new, hstory⟩ := h.story
  refine ⟨h.reads.trans hl (.of_factories rfl (.write fun _ _ => trivial)), h.reasons, h.settled,
    h.after, .constructing f n :: new, by rw [record_write, hstory.record]; rfl,
    fun hi => (hstory.made hi).imp (.tail _) (.tail _), fun {later x earlier c} hsplit hneeds => ?_⟩
  cases later with
  | nil =>
    cases hsplit
    obtain ⟨i, hi⟩ := hready c hneeds
    exact ⟨i, hi, (hstory.made hi).2⟩
  | cons o later =>
    cases hsplit
    exact hstory.before rfl hneeds

theorem addSingleton (h : Building start f opened s) (hf : f < start.factories.length)
    (hl : start.Linked Set.univ) (hnone : s.singleton? f n = none) (hdef : start.Defines f n)
    (hset : start.Settled f n)
    (htold : ∃ new, s.record = new ++ start.record ∧ .constructing f n ∈ new ∧
      .constructed f n made ∈ new)
    (hready : ∀ c, start.NeedsSingleton f n c → s.edge f c n ∧ ∃ i, s.singleton? f c = some i) :
    Building start f opened (s.addSingleton f n made) := by
  have hlen := h.length hf
  have hgrown : Grown f s (s.addSingleton f n made) := .addSingleton hlen hnone
  obtain ⟨new, hstory⟩ := h.story
  refine ⟨h.reads.trans hl (.addSingleton trivial), fun he => ?_, fun {x i} hi => ?_,
    fun {x i c} hi hneeds => ?_, new, hstory.record, fun {x i} hi => ?_, fun hsplit hneeds => ?_⟩
  · rw [edge_addSingleton hlen] at he
    exact h.reasons he
  · rw [singleton?_addSingleton hlen hnone] at hi
    split at hi
    · next hx => exact hx ▸ ⟨hdef, hset⟩
    · exact h.settled hi
  · rw [singleton?_addSingleton hlen hnone] at hi
    rw [edge_addSingleton hlen, names_addSingleton hlen hnone]
    split at hi
    · next hx =>
      subst hx
      obtain ⟨he, j, hj⟩ := hready c hneeds
      exact ⟨he, precedes_append_self (OrderedMap.mem_keys_iff.2 ⟨j, hj⟩)⟩
    · exact (h.after hi hneeds).imp id fun hp => hp.append _
  · rw [singleton?_addSingleton hlen hnone] at hi
    split at hi
    · next hx =>
      cases hi
      obtain ⟨new', e, hmade⟩ := htold
      rw [List.append_cancel_right (hstory.record.symm.trans e), hx]
      exact hmade
    · exact hstory.made hi
  · obtain ⟨i, hi, hmem⟩ := hstory.before hsplit hneeds
    exact ⟨i, hgrown.singletons hi, hmem⟩

end Building

end BeanContainer
