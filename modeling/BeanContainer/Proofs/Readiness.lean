import BeanContainer.Proofs.Supplies

/-!
Making all singletons ahead of need, as a whole: first the definitions have
their turns, one after another, then the singletons are told. The two loops go
over different lists, the first in the order of the definitions, the second in
the order in which the singletons were finished; either stops at its first
failure (`made_then_told`).

A definition is `Eager` if its bean is made when its turn comes. What is made up
to some turn is what the names of the eager ones so far lead to, and what that
comes to draw (`Session.wanted`). A definition's name leads to the definition
itself unless it is an alias, too: then the bean that it stands for is made in
its place.
-/

namespace BeanContainer

open Relation Session

variable {lost : Prop} {env : Collaborators} {again : Reentry} {s t u v : Session} {f : FactoryId}
  {R : Set (FactoryId × String)} {n name : String} {names : List String} {e : BeanError}
  {h : String × Instance} {l l' : List (String × Instance)}

namespace Session

/-- A definition of a singleton that is neither abstract nor lazy. -/
def Eager (s : Session) (f : FactoryId) (n : String) : Prop :=
  s.Defines f n ∧ ∃ m, s.merged? f n = some m ∧
    m.isAbstract = false ∧ m.isSingleton = true ∧ m.lazy = false

/-- What the names of eager definitions lead to, and what that comes to draw. -/
def wanted (s : Session) (f : FactoryId) (names : List String) : Set (FactoryId × String) :=
  {q | ∃ n ∈ names, s.Eager f n ∧ ∃ p, s.provider (s.chain f) n = some p ∧ ReflTransGen s.Draws p q}

/-- The singletons that have a definition and want to hear that all are made, in the order in which they
were finished. -/
def hearers (s : Session) (f : FactoryId) : List (String × Instance) :=
  (s.factory f).singletons.objects.entries.filter fun e =>
    e.2.kind.isSmartInitializing && (s.factory f).definitions.contains e.1

/-- From one session to the other these beans were told, once each and in this order, that all
singletons are made. Nothing else happened to the factories. -/
structure Announced (f : FactoryId) (l : List (String × Instance)) (s t : Session) : Prop where
  factories : t.factories = s.factories
  told : ∃ new, t.record = new ++ s.record ∧ (∀ o ∈ new, o.isRemark = true ∨ o.isAnnouncement = true) ∧
    new.filter Occurrence.isAnnouncement = (l.map fun h => .announced f h.1 h.2).reverse

end Session

/-! ## The course of it -/

/-- These definitions had their turns, and no turn failed. -/
def TakenUp (env : Collaborators) (again : Reentry) (f : FactoryId) (names : List String) (s t : Session) :
    Prop :=
  (names.forM (preInstantiateOne env again f)).run (s.write (.notice .preInstantiationStarted)) =
    some (.ok (), t)

/-- When a definition has its turn, merging it fails, or making its bean does. -/
def Balks (env : Collaborators) (again : Reentry) (f : FactoryId) (n : String) (e : BeanError)
    (s t : Session) : Prop :=
  (mergedOwn f n).run s = (.error e, t) ∨
    ∃ ref u v, (mergedOwn f n).run s = (.ok ref, u) ∧
      ref.definition.isAbstract = false ∧ ref.definition.isSingleton = true ∧ ref.definition.lazy = false ∧
      (lookup env again f n).run u = some (.error e, v) ∧ t = v.write (.notice (.preInstantiationFailed n e))

/-- Tells a bean that all singletons are made. -/
def tell (env : Collaborators) (again : Reentry) (f : FactoryId) (h : String × Instance) : Act Unit := do
  note (.announcing h.1)
  write (.announced f h.1 h.2)
  runFor again h.1 (env.ready h.2 ((← get).behaviour h.2))

theorem yields_preInstantiateOne {Q : Except BeanError Unit → Session → Prop} :
    Yields lost (preInstantiateOne env again f n).run s Q ↔ Ends (mergedOwn f n) s fun r t =>
      match r with
      | .error e => Q (.error e) t
      | .ok ref =>
        if ref.definition.isAbstract || !ref.definition.isSingleton || ref.definition.lazy then Q (.ok ()) t
        else Yields lost (lookup env again f n).run t fun r u =>
          match r with
          | .error e => Q (.error e) (u.write (.notice (.preInstantiationFailed n e)))
          | .ok _ => Q (.ok ()) u := by
  unfold preInstantiateOne
  rw [yields_run_bind, yields_run_liftQuery]
  refine iff_of_eq (congrArg (Ends (mergedOwn f n) s) (funext fun r => funext fun t => propext ?_))
  cases r with
  | error e => exact Iff.rfl
  | ok ref =>
    dsimp only
    split
    · exact Iff.rfl
    · rw [yields_run_bind, yields_run_attempt]
      refine yields_congr fun r u => ?_
      cases r <;> exact Iff.rfl

/-- First the definitions have their turns, then the singletons among them are told. -/
theorem yields_preInstantiate {Q : Except BeanError Unit → Session → Prop} :
    Yields lost (preInstantiate env again f).run s Q ↔
      Yields lost ((s.factory f).definitions.names.forM (preInstantiateOne env again f)).run
        (s.write (.notice .preInstantiationStarted)) fun r u =>
          match r with
          | .error e => Q (.error e) u
          | .ok _ =>
            Yields lost (((u.factory f).singletons.names.filter fun name =>
              (s.factory f).definitions.names.contains name).forM (announceTo env again f)).run u fun r v =>
                match r with
                | .error e => Q (.error e) v
                | .ok _ => Q (.ok ()) (v.write (.notice .preInstantiationFinished)) := by
  unfold preInstantiate
  rw [yields_run_bind, yields_run_liftState]
  dsimp only
  rw [yields_run_bind, yields_run_liftState, theFactory_apply]
  dsimp only
  rw [yields_run_bind]
  refine yields_congr fun r u => ?_
  cases r with
  | error e => exact Iff.rfl
  | ok _ =>
    dsimp only
    rw [yields_run_bind, yields_run_liftState, theFactory_apply]
    dsimp only
    rw [yields_run_bind]
    refine yields_congr fun r v => ?_
    cases r <;> exact Iff.rfl

/-! ## What is wanted -/

theorem wanted_mono {names' : List String} (hsub : ∀ n ∈ names, n ∈ names') :
    s.wanted f names ⊆ s.wanted f names' := fun _ ⟨n, hn, h⟩ => ⟨n, hsub n hn, h⟩

theorem selfContained_wanted : s.SelfContained (s.wanted f names) :=
  fun _ ⟨n, hn, heager, p, hp, hdraws⟩ _ hq => ⟨n, hn, heager, p, hp, hdraws.tail hq⟩

theorem provider_eq_self (hdef : s.Defines f n) (halias : (s.factory f).aliases.isAlias n = false)
    (hf : f < s.factories.length) : s.provider (s.chain f) n = some (f, n) := by
  have hcanonical : (s.factory f).canonical n = n := canonical_of_not_isAlias halias
  obtain ⟨ancestors, hchain⟩ := chain_eq_cons hf
  rw [hchain, provider, hcanonical]
  exact if_pos (.inl hdef)

theorem Session.Supplied.eager_iff (hl : s.Linked Set.univ) (h : s.Supplied R t) :
    t.Eager f n ↔ s.Eager f n := by
  unfold Eager
  rw [h.merged? hl, h.defines_iff]

/-! ## The turns of the definitions -/

/-- When an eager definition has its turn, what its name leads to is made, with what that comes to
draw; nothing is made when another one has. -/
theorem yields_preInstantiateOne_supplying (quiet : env.QuietMaking) (depth : Nat)
    (hs : (supplying R).Start s) (hdef : s.Defines f n)
    (hn : s.Eager f n → ∀ q, s.provider (s.chain f) n = some q → q ∈ R) :
    Yields True (preInstantiateOne env (reentry env depth) f n).run s fun r t => s.Supplied R t ∧
      (r = .ok () → s.Eager f n → (s.factory f).aliases.isAlias n = false →
        ∃ i, t.singleton? f n = some i) := by
  rw [yields_preInstantiateOne]
  refine (ends_mergedOwn hs.1 (Set.mem_univ f)).mono ?_
  rintro r t ⟨hmerged, hown⟩
  have hst : s.Supplied R t := .of_merged hmerged
  cases r with
  | error e => exact ⟨hst, nofun⟩
  | ok ref =>
    have hown : s.Own f n ref.definition := (hown _).2 ⟨ref, rfl, rfl⟩
    have hm : s.merged? f n = some ref.definition :=
      (merged?_eq_some_iff hs.1 (Set.mem_univ f)).2 hown
    dsimp only
    split
    · next hpassed =>
      refine ⟨hst, fun _ ⟨_, m, hm', habstract, hsingleton, hlazy⟩ => ?_⟩
      cases hm.symm.trans hm'
      simp [habstract, hsingleton, hlazy] at hpassed
    · next heager =>
      simp only [Bool.or_eq_true, Bool.not_eq_true', not_or, Bool.not_eq_true, Bool.not_eq_false] at heager
      obtain ⟨⟨habstract, hsingleton⟩, hlazy⟩ := heager
      have heager : s.Eager f n := ⟨hdef, _, hm, habstract, hsingleton, hlazy⟩
      refine (supplies_lookup quiet (supplies_reentry quiet depth) ((supplying R).start hs hst)
        fun q hq => hn heager q ?_).mono fun r u ⟨hu, hcached⟩ => ?_
      · rwa [hst.provider, hst.reads.chain] at hq
      have hsu := hst.trans hs.1 hu
      cases r with
      | error e => exact ⟨hsu.trans hs.1 (.write (fun _ _ => nofun) rfl), nofun⟩
      | ok i =>
        refine ⟨hsu, fun _ _ halias => hcached i n rfl ?_ ⟨hst.defines_iff.2 hdef, _, ?_, hsingleton⟩⟩
        · rw [hst.provider, hst.reads.chain]
          exact provider_eq_self hdef halias (length_lt_of_own hown)
        · exact (hst.reads.own_iff hs.1 trivial).2 hown

theorem gives_turns (quiet : env.QuietMaking) (depth : Nat) (hs : (supplying R).Start s)
    (hdef : ∀ n ∈ names, s.Defines f n) (hwanted : s.wanted f names ⊆ R) :
    Gives (names.forM (preInstantiateOne env (reentry env depth) f))
      (s.write (.notice .preInstantiationStarted)) fun _ t => s.Supplied R t ∧
        ∀ n ∈ names, s.Eager f n → (s.factory f).aliases.isAlias n = false →
          ∃ i, t.singleton? f n = some i := by
  refine gives_forM (I := fun done t => s.Supplied R t ∧ ∀ n ∈ done, s.Eager f n →
    (s.factory f).aliases.isAlias n = false → ∃ i, t.singleton? f n = some i) ?_
    ⟨.write (fun _ _ => nofun) rfl, by simp⟩
  rintro done n rest rfl t ⟨ht, hdone⟩
  have hmem : n ∈ done ++ n :: rest := by simp
  refine Yields.mono (yields_preInstantiateOne_supplying quiet depth ((supplying R).start hs ht)
    (ht.defines_iff.2 (hdef n hmem)) fun heager q hq => ?_) ?_
  · rw [ht.provider, ht.reads.chain] at hq
    exact hwanted ⟨n, hmem, (ht.eager_iff hs.1).1 heager, q, hq, .refl⟩
  · rintro r u ⟨htu, hcached⟩ ⟨⟩ hr
    refine ⟨ht.trans hs.1 htu, fun x hx heager halias => ?_⟩
    rcases List.mem_append.1 hx with hx | hx
    · obtain ⟨i, hi⟩ := hdone x hx heager halias
      exact ⟨i, htu.singleton?_eq hi⟩
    · obtain rfl := List.mem_singleton.1 hx
      refine hcached hr ((ht.eager_iff hs.1).2 heager) ?_
      rwa [ht.reads.aliases]

theorem TakenUp.supplied (quiet : env.QuietMaking) {depth : Nat} (hs : (supplying R).Start s)
    (hdef : ∀ n ∈ names, s.Defines f n) (hwanted : s.wanted f names ⊆ R)
    (h : TakenUp env (reentry env depth) f names s t) : s.Supplied R t :=
  (yields_true_iff.1 (gives_turns quiet depth hs hdef hwanted) _ _ h () rfl).1

theorem Balks.run (h : Balks env again f n e s t) :
    (preInstantiateOne env again f n).run s = some (.error e, t) := by
  refine run_eq_some_iff.2 (yields_preInstantiateOne.2 ?_)
  unfold Ends
  rcases h with h | ⟨ref, u, v, h, habstract, hsingleton, hlazy, hlookup, rfl⟩
  · rw [h]
    exact ⟨rfl, rfl⟩
  · rw [h]
    simp only [habstract, hsingleton, hlazy]
    exact (yields_of_run hlookup).2 ⟨rfl, rfl⟩

/-! ## The announcements -/

namespace Session.Announced

theorem of_remarks (h : s.Remarks t) : s.Announced f [] t where
  factories := h.factories
  told := by
    obtain ⟨new, e, hnew⟩ := h.recorded
    refine ⟨new, e, fun o ho => .inl (hnew o ho), List.filter_eq_nil_iff.2 fun o ho => ?_⟩
    rw [Occurrence.isAnnouncement_of_isRemark (hnew o ho)]
    exact Bool.false_ne_true

theorem write : s.Announced f [h] (s.write (.announced f h.1 h.2)) where
  factories := rfl
  told := ⟨[.announced f h.1 h.2], rfl, by simp [Occurrence.isAnnouncement], rfl⟩

theorem trans (h : s.Announced f l t) (h' : t.Announced f l' u) : s.Announced f (l ++ l') u where
  factories := h'.factories.trans h.factories
  told := by
    obtain ⟨new, e, hnew, htold⟩ := h.told
    obtain ⟨new', e', hnew', htold'⟩ := h'.told
    refine ⟨new' ++ new, by rw [e', e, List.append_assoc], fun o ho => ?_, ?_⟩
    · exact (List.mem_append.1 ho).elim (hnew' o) (hnew o)
    · rw [List.filter_append, htold', htold, List.map_append, List.reverse_append]

theorem singleton? (h : s.Announced f l t) {g : FactoryId} {x : String} : t.singleton? g x = s.singleton? g x := by
  unfold Session.singleton? factory
  rw [h.factories]

theorem hearers (h : s.Announced f l t) {g : FactoryId} : t.hearers g = s.hearers g := by
  unfold Session.hearers factory
  rw [h.factories]

end Session.Announced

theorem yields_tell (quiet : env.QuietMaking) : Yields False (tell env again f h).run s fun r t =>
    s.Announced f [h] t ∧ ∀ e, r = .error e → ∃ failure, e = .creationOf h.1 failure := by
  unfold tell runFor
  simp only [yields_run_bind, yields_run_liftState, note_apply, write_apply, yields_run_get,
    yields_run_liftEffect]
  refine (yields_runScript_quiet (quiet.ready _ _) _).mono fun r t ht => ?_
  have hnoted : s.Announced f [] (s.write (.notice (.announcing h.1))) := .of_remarks (.write rfl)
  have htold := (hnoted.trans .write).trans (.of_remarks ht)
  cases r with
  | ok _ => exact ⟨htold, fun e he => by cases he⟩
  | error failure =>
    refine ⟨htold, fun e he => ⟨failure, ?_⟩⟩
    cases he
    rfl

theorem yields_announceTo {i : Instance} {Q : Except BeanError Unit → Session → Prop}
    (hi : s.singleton? f n = some i) : Yields lost (announceTo env again f n).run s Q ↔
      if i.kind.isSmartInitializing then Yields lost (tell env again f (n, i)).run s Q else Q (.ok ()) s := by
  unfold announceTo
  rw [yields_run_bind, yields_run_liftState, theFactory_apply]
  dsimp only
  rw [show (s.factory f).singletons.get? n = some i from hi]
  dsimp only
  split <;> exact Iff.rfl

/-- Singletons that do not want to hear are passed over. -/
theorem yields_forM_announceTo (quiet : env.QuietMaking) {Q : Except BeanError Unit → Session → Prop} :
    ∀ {l : List (String × Instance)} {s : Session}, (∀ h ∈ l, s.singleton? f h.1 = some h.2) →
      (Yields lost ((l.map Prod.fst).forM (announceTo env again f)).run s Q ↔
        Yields lost ((l.filter fun h => h.2.kind.isSmartInitializing).forM (tell env again f)).run s Q)
  | [], _, _ => Iff.rfl
  | h :: l, s, hl => by
    have hi := hl h List.mem_cons_self
    have hrest {t : Session} (ht : ∀ x, t.singleton? f x = s.singleton? f x) :
        Yields lost ((l.map Prod.fst).forM (announceTo env again f)).run t Q ↔
          Yields lost ((l.filter fun h => h.2.kind.isSmartInitializing).forM (tell env again f)).run t Q :=
      yields_forM_announceTo quiet fun h' hh => (ht _).trans (hl h' (List.mem_cons_of_mem _ hh))
    refine yields_run_bind.trans ((yields_announceTo hi).trans ?_)
    by_cases hsmart : h.2.kind.isSmartInitializing = true
    · rw [if_pos hsmart, List.filter_cons, if_pos hsmart]
      refine Iff.trans ?_ yields_run_bind.symm
      have htell : Yields False (tell env again f h).run s fun r t => _ := yields_tell quiet
      obtain ⟨r, t, hrun, ht, -⟩ := yields_false_iff.1 htell
      rw [yields_of_run hrun, yields_of_run hrun]
      cases r with
      | ok _ => exact hrest fun _ => ht.singleton?
      | error e => exact Iff.rfl
    · rw [if_neg hsmart, List.filter_cons, if_neg hsmart]
      exact hrest fun _ => rfl

theorem yields_announcements (quiet : env.QuietMaking) {Q : Except BeanError Unit → Session → Prop}
    (h : (u.factory f).definitions = (s.factory f).definitions) :
    Yields lost (((u.factory f).singletons.names.filter fun name =>
      (s.factory f).definitions.names.contains name).forM (announceTo env again f)).run u Q ↔
        Yields lost ((u.hearers f).forM (tell env again f)).run u Q := by
  have hnames : ((u.factory f).singletons.names.filter fun name =>
      (s.factory f).definitions.names.contains name) =
      ((u.factory f).singletons.objects.entries.filter fun e =>
        (u.factory f).definitions.contains e.1).map Prod.fst := by
    rw [h]
    exact List.filter_map
  have hhearers : u.hearers f = ((u.factory f).singletons.objects.entries.filter fun e =>
      (u.factory f).definitions.contains e.1).filter fun e => e.2.kind.isSmartInitializing :=
    List.filter_filter.symm
  rw [hnames, hhearers]
  exact yields_forM_announceTo quiet fun e he => OrderedMap.get?_eq_some_iff.2 (List.mem_of_mem_filter he)

/-- All that are told are told in order, and the first failure ends it. -/
theorem gives_tellings (quiet : env.QuietMaking) : Gives (l.forM (tell env again f)) s fun _ t =>
    s.Announced f l t := by
  refine gives_forM (I := fun told t => s.Announced f told t) (fun told h _ _ t ht => ?_)
    (.of_remarks (.refl s))
  exact Yields.mono (yields_tell quiet).of_total fun r u hu _ _ => ht.trans hu.1

/-! ## All together -/

theorem run_preInstantiate_of_balks {before after : List String}
    (hsplit : (s.factory f).definitions.names = before ++ n :: after) (hbefore : TakenUp env again f before s u)
    (hbalks : Balks env again f n e u t) : (preInstantiate env again f).run s = some (.error e, t) := by
  refine run_eq_some_iff.2 (yields_preInstantiate.2 ?_)
  rw [hsplit, yields_forM_append]
  refine (yields_of_run hbefore).2 (yields_run_bind.2 ?_)
  exact (yields_of_run hbalks.run).2 ⟨rfl, rfl⟩

theorem run_preInstantiate_of_tell (quiet : env.QuietMaking) {told untold : List (String × Instance)}
    (hturns : TakenUp env again f (s.factory f).definitions.names s u)
    (hdefinitions : (u.factory f).definitions = (s.factory f).definitions)
    (hsplit : u.hearers f = told ++ h :: untold)
    (htold : (told.forM (tell env again f)).run u = some (.ok (), v))
    (hfail : (tell env again f h).run v = some (.error e, t)) :
    (preInstantiate env again f).run s = some (.error e, t) := by
  refine run_eq_some_iff.2 (yields_preInstantiate.2 ?_)
  refine (yields_of_run hturns).2 ((yields_announcements quiet hdefinitions).2 ?_)
  rw [hsplit, yields_forM_append]
  refine (yields_of_run htold).2 (yields_run_bind.2 ?_)
  exact (yields_of_run hfail).2 ⟨rfl, rfl⟩

/-- If all goes well, what is wanted is made, and then the hearers are told. -/
theorem gives_preInstantiate_told (quiet : env.QuietMaking) (hl : s.Linked Set.univ) (depth : Nat) :
    Gives (preInstantiate env (reentry env depth) f) s fun _ t =>
      ∃ u, s.Supplied (s.wanted f (s.factory f).definitions.names) u ∧
        (∀ n, s.Eager f n → (s.factory f).aliases.isAlias n = false → ∃ i, u.singleton? f n = some i) ∧
        u.Announced f (u.hearers f) t := by
  have hturns := gives_turns quiet depth ⟨hl, selfContained_wanted⟩ (fun n hn => OrderedMap.contains_iff.2 hn)
    (Set.Subset.refl (s.wanted f (s.factory f).definitions.names))
  refine yields_preInstantiate.2 (Yields.mono hturns fun r u hu => ?_)
  cases r with
  | error e => exact nofun
  | ok _ =>
    obtain ⟨hsupplied, hcached⟩ := hu () rfl
    refine (yields_announcements quiet hsupplied.reads.definitions).2
      (Yields.mono (gives_tellings quiet) fun r v hv => ?_)
    cases r with
    | error e => exact nofun
    | ok _ =>
      have hdone := (hv () rfl).trans (.of_remarks (.write (o := .notice .preInstantiationFinished) rfl))
      rw [List.append_nil] at hdone
      exact fun _ _ => ⟨u, hsupplied, fun n h => hcached n (OrderedMap.contains_iff.1 h.1) h, hdone⟩

/-- Up to a turn that fails, and in it, nothing is made but what is wanted so far. -/
theorem supplied_of_balks (quiet : env.QuietMaking) (hl : s.Linked Set.univ) {depth : Nat}
    {before after : List String} (hsplit : (s.factory f).definitions.names = before ++ n :: after)
    (hbefore : TakenUp env (reentry env depth) f before s u) (hbalks : Balks env (reentry env depth) f n e u t) :
    s.Supplied (s.wanted f (before ++ [n])) t := by
  have hdef : ∀ x ∈ before ++ [n], s.Defines f x := by
    refine fun x hx => OrderedMap.contains_iff.2 (?_ : x ∈ (s.factory f).definitions.names)
    rw [hsplit, List.append_cons]
    exact List.mem_append_left _ hx
  have hs : (supplying (s.wanted f (before ++ [n]))).Start s := ⟨hl, selfContained_wanted⟩
  have hu := hbefore.supplied quiet hs (fun x hx => hdef x (List.mem_append_left _ hx))
    (wanted_mono fun _ => List.mem_append_left _)
  have hn : n ∈ before ++ [n] := by simp
  have hturn := yields_preInstantiateOne_supplying quiet depth ((supplying _).start hs hu)
    (hu.defines_iff.2 (hdef n hn)) fun heager q hq => by
      rw [hu.provider, hu.reads.chain] at hq
      exact ⟨n, hn, (hu.eager_iff hl).1 heager, q, hq, .refl⟩
  exact hu.trans hl (yields_true_iff.1 hturn _ _ hbalks.run).1

/-- **Making all singletons ahead of need.** If it succeeds, every eager definition whose name is no alias
is cached, what was cached anew is wanted, and then the hearers, and nobody else, were told in order.
If a turn fails, that error is the answer; only what is wanted up to that turn was made, and nobody was
told. If a bean fails over being told, the answer is its creation error, and nobody after it was told. -/
theorem made_then_told (quiet : env.QuietMaking) (hl : s.Linked Set.univ) {depth : Nat} :
    (∀ t, callFactory env (reentry env depth) f .preInstantiate s = some (.done, t) →
      (∀ n, s.Eager f n → (s.factory f).aliases.isAlias n = false → ∃ i, t.singleton? f n = some i) ∧
      (∀ g x i, t.singleton? g x = some i → s.singleton? g x = none →
        (g, x) ∈ s.wanted f (s.factory f).definitions.names) ∧
      ∃ u, s.Supplied (s.wanted f (s.factory f).definitions.names) u ∧ u.Announced f (t.hearers f) t) ∧
    (∀ before n after e u t, (s.factory f).definitions.names = before ++ n :: after →
      TakenUp env (reentry env depth) f before s u → Balks env (reentry env depth) f n e u t →
      callFactory env (reentry env depth) f .preInstantiate s = some (.failed e, t) ∧
        s.Supplied (s.wanted f (before ++ [n])) t) ∧
    ∀ told h untold e u v t, TakenUp env (reentry env depth) f (s.factory f).definitions.names s u →
      u.hearers f = told ++ h :: untold →
      (told.forM (tell env (reentry env depth) f)).run u = some (.ok (), v) →
      (tell env (reentry env depth) f h).run v = some (.error e, t) →
      callFactory env (reentry env depth) f .preInstantiate s = some (.failed e, t) ∧
        (∃ failure, e = .creationOf h.1 failure) ∧ u.Announced f (told ++ [h]) t := by
  have hfailed {e : BeanError} {t : Session}
      (hrun : (preInstantiate env (reentry env depth) f).run s = some (.error e, t)) :
      callFactory env (reentry env depth) f .preInstantiate s = some (.failed e, t) :=
    run_eq_some_iff.2 (yields_answerAct_iff.2 ((yields_of_run hrun).2 ⟨rfl, rfl⟩))
  refine ⟨fun t hrun => ?_, fun before n after e u t hsplit hbefore hbalks => ?_,
    fun told h untold e u v t hturns hsplit htold hfail => ?_⟩
  · obtain ⟨-, u, hsupplied, hcached, hannounced⟩ :=
      (gives_preInstantiate_told quiet hl depth).of_answerAct hrun
    refine ⟨fun n heager halias => ?_, fun g x i hi hnone => ?_, u, hsupplied, ?_⟩
    · rw [hannounced.singleton?]
      exact hcached n heager halias
    · rw [hannounced.singleton?] at hi
      rcases hsupplied.singletons g x with he | ⟨-, -, hwanted⟩
      · cases hnone.symm.trans (he.symm.trans hi)
      · exact hwanted
    · rwa [hannounced.hearers]
  · exact ⟨hfailed (run_preInstantiate_of_balks hsplit hbefore hbalks),
      supplied_of_balks quiet hl hsplit hbefore hbalks⟩
  · have hu := hturns.supplied quiet ⟨hl, selfContained_wanted⟩ (fun n hn => OrderedMap.contains_iff.2 hn)
      (Set.Subset.refl _)
    have hannounced := yields_true_iff.1 (gives_tellings quiet) _ _ htold () rfl
    have htell := (yields_of_run hfail).1 (yields_tell quiet)
    exact ⟨hfailed (run_preInstantiate_of_tell quiet hturns hu.reads.definitions hsplit htold hfail),
      htell.2 e rfl, hannounced.trans htell.1⟩

/-- A factory with some definitions, and nothing else in the session. -/
def Session.rehearsal (definitions : List (String × Definition)) : Session where
  factories := [{ definitions := ⟨definitions.length, .ofList definitions⟩, constructor := some .direct }]

/-- The definition of a bean that wants to hear when all singletons are made. -/
def Definition.hearing : Definition where
  properties := .ofList [("$kind", .text "ready")]

/-- A web server that needs the database after it. -/
def smoothRehearsal : List (String × Definition) :=
  [("web", { Definition.hearing with dependsOn := some ["db"] }), ("cron", { lazy := some true }), ("db", .hearing)]

/-- A definition between others that cannot be merged. -/
def brokenRehearsal : List (String × Definition) :=
  [("first", {}), ("orphan", { parent := some "ghost" }), ("last", {})]

/-- A bean between others that fails over being told. -/
def troubledRehearsal : List (String × Definition) :=
  [("first", .hearing),
    ("grumpy", { properties := .ofList [("$kind", .text "ready"), ("$fail_ready", .text "not now")] }),
    ("last", .hearing)]

theorem balks_rehearsal : ∃ e u t, TakenUp makers (reentry makers 2) 0 ["first"] (.rehearsal brokenRehearsal) u ∧
    Balks makers (reentry makers 2) 0 "orphan" e u t := by
  have hfacts : ((["first"].forM (preInstantiateOne makers (reentry makers 2) 0)).run
      ((Session.rehearsal brokenRehearsal).write (.notice .preInstantiationStarted))).any (fun r =>
        r.1.toBool && !((mergedOwn 0 "orphan").run r.2).1.toBool) = true := by
    decide +kernel
  obtain ⟨⟨r, u⟩, hturns, hfacts⟩ := (Option.any_eq_true ..).1 hfacts
  obtain ⟨hok, hmerge⟩ := Bool.and_eq_true_iff.1 hfacts
  rcases r with e | _
  · cases hok
  · rcases horphan : (mergedOwn 0 "orphan").run u with ⟨e | ref, t⟩
    · exact ⟨e, u, t, hturns, .inl horphan⟩
    · rw [horphan] at hmerge
      cases hmerge

theorem tells_rehearsal : ∃ first grumpy untold e u v t,
    TakenUp makers (reentry makers 2) 0 ((Session.rehearsal troubledRehearsal).factory 0).definitions.names
      (.rehearsal troubledRehearsal) u ∧
    u.hearers 0 = [("first", first)] ++ ("grumpy", grumpy) :: untold ∧
    ([("first", first)].forM (tell makers (reentry makers 2) 0)).run u = some (.ok (), v) ∧
    (tell makers (reentry makers 2) 0 ("grumpy", grumpy)).run v = some (.error e, t) := by
  have hfacts : ((((Session.rehearsal troubledRehearsal).factory 0).definitions.names.forM
      (preInstantiateOne makers (reentry makers 2) 0)).run
        ((Session.rehearsal troubledRehearsal).write (.notice .preInstantiationStarted))).any (fun r =>
        r.1.toBool && (r.2.hearers 0)[0]?.any fun first => (r.2.hearers 0)[1]?.any fun grumpy =>
          first.1 = "first" && grumpy.1 = "grumpy" &&
          (([first].forM (tell makers (reentry makers 2) 0)).run r.2).any fun r => r.1.toBool &&
            ((tell makers (reentry makers 2) 0 grumpy).run r.2).any fun r => !r.1.toBool) = true := by
    decide +kernel
  obtain ⟨⟨r, u⟩, hturns, hfacts⟩ := (Option.any_eq_true ..).1 hfacts
  obtain ⟨hok, hfacts⟩ := Bool.and_eq_true_iff.1 hfacts
  rcases hhearers : u.hearers 0 with _ | ⟨⟨firstName, first⟩, _ | ⟨⟨grumpyName, grumpy⟩, untold⟩⟩
  · rw [hhearers] at hfacts
    cases hfacts
  · rw [hhearers] at hfacts
    cases hfacts
  · simp only [hhearers, List.getElem?_cons_zero, List.getElem?_cons_succ, Option.any_some, Bool.and_eq_true,
      decide_eq_true_eq] at hfacts
    obtain ⟨⟨rfl, rfl⟩, htold⟩ := hfacts
    obtain ⟨⟨r', v⟩, htold, hfacts⟩ := (Option.any_eq_true ..).1 htold
    obtain ⟨hok', hfail⟩ := Bool.and_eq_true_iff.1 hfacts
    obtain ⟨⟨r'', t⟩, hfail, herror⟩ := (Option.any_eq_true ..).1 hfail
    rcases r with _ | _
    · cases hok
    rcases r' with _ | _
    · cases hok'
    rcases r'' with e | _
    · exact ⟨first, grumpy, untold, e, u, v, t, hturns, hhearers, htold, hfail⟩
    · cases herror

theorem linked_rehearsal {definitions : List (String × Definition)} :
    (Session.rehearsal definitions).Linked Set.univ := by
  intro f _ p hp
  cases f with
  | zero => cases hp
  | succ f => cases hp

theorem Answer.eq_done {answer : Answer} (h : (answer matches .done) = true) : answer = .done := by
  cases answer <;> first | rfl | cases h

theorem made_then_told_rehearsed :
    makers.QuietMaking ∧ (∀ definitions, (Session.rehearsal definitions).Linked Set.univ) ∧
    (∃ u t : Session, callFactory makers (reentry makers 2) 0 .preInstantiate (.rehearsal smoothRehearsal) =
        some (.done, t) ∧
      (t.factory 0).singletons.names = ["db", "web"] ∧ (t.hearers 0).map Prod.fst = ["db", "web"] ∧
      u.Announced 0 (t.hearers 0) t) ∧
    (∃ (e : BeanError) (t : Session),
      callFactory makers (reentry makers 2) 0 .preInstantiate (.rehearsal brokenRehearsal) = some (.failed e, t) ∧
      (Session.rehearsal brokenRehearsal).Supplied
        ((Session.rehearsal brokenRehearsal).wanted 0 ["first", "orphan"]) t) ∧
    ∃ (failure : Failure) (u t : Session) (first grumpy : Instance),
      callFactory makers (reentry makers 2) 0 .preInstantiate (.rehearsal troubledRehearsal) =
        some (.failed (.creationOf "grumpy" failure), t) ∧
      u.Announced 0 [("first", first), ("grumpy", grumpy)] t := by
  have quiet : makers.QuietMaking := quiet_makers.making
  refine ⟨quiet, fun _ => linked_rehearsal, ?_, ?_, ?_⟩
  · have hfacts : (callFactory makers (reentry makers 2) 0 .preInstantiate (.rehearsal smoothRehearsal)).any
        (fun r => (r.1 matches .done) && (r.2.factory 0).singletons.names = ["db", "web"] &&
          (r.2.hearers 0).map Prod.fst = ["db", "web"]) = true := by
      decide +kernel
    obtain ⟨⟨answer, t⟩, hrun, hfacts⟩ := (Option.any_eq_true ..).1 hfacts
    simp only [Bool.and_eq_true, decide_eq_true_eq] at hfacts
    obtain ⟨⟨hdone, hnames⟩, hhearers⟩ := hfacts
    obtain rfl := Answer.eq_done hdone
    obtain ⟨-, -, u, -, hannounced⟩ := (made_then_told quiet linked_rehearsal).1 t hrun
    exact ⟨u, t, hrun, hnames, hhearers, hannounced⟩
  · obtain ⟨e, u, t, hturns, hbalks⟩ := balks_rehearsal
    exact ⟨e, t, (made_then_told quiet linked_rehearsal).2.1 ["first"] "orphan" ["last"] e u t (by decide) hturns
      hbalks⟩
  · obtain ⟨first, grumpy, untold, e, u, v, t, hturns, hhearers, htold, hfail⟩ := tells_rehearsal
    obtain ⟨hanswer, ⟨failure, rfl⟩, hannounced⟩ := (made_then_told quiet linked_rehearsal).2.2
      [("first", first)] ("grumpy", grumpy) untold e u v t hturns hhearers htold hfail
    exact ⟨failure, u, t, first, grumpy, hanswer, hannounced⟩

/-- A definition whose name came to be an alias is not cached: the lazy one that the alias stands for is made
in its place. -/
theorem not_cached_of_alias : ¬ ∀ (env : Collaborators) (s t : Session) (f : FactoryId) (n : String) (depth : Nat),
    env.QuietMaking → Run env .initial s →
      callFactory env (reentry env depth) f .preInstantiate s = some (.done, t) → s.Eager f n →
      ∃ i, t.singleton? f n = some i := by
  intro claim
  let all : FactoryId → FactoryCall → Bool := fun _ _ => true
  have hfacts : (performAll makers all all 1
      [.on "main" (.register "other" { lazy := some true }), .on "main" (.registerAlias "other" "placeholder"),
        .on "main" (.register "bean" {}),
        .on "main" (.resolveAliases fun v => some (if v = "placeholder" then "bean" else v))] .initial).any (fun s =>
      (s.factory 0).definitions.contains "bean" && (s.merged? 0 "bean").any (fun m =>
        !m.isAbstract && m.isSingleton && !m.lazy) &&
      (callFactory makers (reentry makers 2) 0 .preInstantiate s).any fun r =>
        (r.1 matches .done) && r.2.singleton? 0 "bean" = none) = true := by
    decide +kernel
  obtain ⟨s, hs, hfacts⟩ := (Option.any_eq_true ..).1 hfacts
  simp only [Bool.and_eq_true, Option.any_eq_true, Bool.not_eq_true'] at hfacts
  obtain ⟨⟨hdef, m, hm, ⟨habstract, hsingleton⟩, hlazy⟩, ⟨answer, t⟩, hrun, hdone, hnone⟩ := hfacts
  obtain rfl := Answer.eq_done hdone
  obtain ⟨i, hi⟩ := claim makers s t 0 "bean" 2 quiet_makers.making (permittedRun_performAll hs).run hrun
    ⟨hdef, m, hm, habstract, hsingleton, hlazy⟩
  rw [decide_eq_true_eq] at hnone
  cases hnone.symm.trans hi

end BeanContainer
