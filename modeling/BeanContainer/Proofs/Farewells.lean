import BeanContainer.Proofs.Barred
import BeanContainer.Proofs.Chronicle

/-!
How singletons leave the cache of a factory.

One that leaves by itself is destroyed afterwards. When all are to be destroyed,
though, their names are taken down first, and whatever is in the cache when all
of them have had their turn is dropped without a word. So a singleton that comes
to the cache while the destruction is under way may be dropped; one that was
there before is not.

Each single change of a session may leave a singleton without its end, which is
still to come then; what keeps the account is a cascade as a whole, and so is the
destruction of all (`covers_accounting`).
-/

namespace BeanContainer

open Relation Session Function

/-! ## The account of a record -/

/-- A singleton leaves the cache, and the end of its destruction is told later. -/
def SeenOff (f : FactoryId) (n : String) (i : Instance) (new : List Occurrence) : Prop :=
  ∃ late early failure, new = late ++ .released f n i :: early ∧ .destroyed n i failure ∈ late

/-- A singleton leaves the cache with all that are left there when a destruction of all singletons is
over, which had begun before. -/
def Dropped (f : FactoryId) (n : String) (i : Instance) (new : List Occurrence) : Prop :=
  ∃ late notice left early, new = late ++ .tornDown f :: .notice notice :: (left ++ early) ∧
    (∀ o ∈ left, ∃ m j, o = .released f m j) ∧ .released f n i ∈ left ∧ .tearingDown f ∉ early

/-- What becomes of a singleton that is in the cache at some moment, as told from then on: `before` is
what was told until then, and `d` is in the cache in the end. -/
inductive Fate (f : FactoryId) (d : String → Option Instance) (before after : List Occurrence)
    (n : String) (i : Instance) : Prop
  | stays : d n = some i → .tearingDown f ∉ after → Fate f d before after n i
  | seenOff : SeenOff f n i after → Fate f d before after n i
  | dropped : .tearingDown f ∈ before → Dropped f n i after → Fate f d before after n i

/-- A part of the record, after an `old` one, accounts for all that is in the cache at any moment. -/
structure Accounts (f : FactoryId) (old : List Occurrence) (c : String → Option Instance)
    (new : List Occurrence) (d : String → Option Instance) : Prop where
  chronicle : Chronicle f c new d
  fate : ∀ {after before e n i}, new = after ++ before → Chronicle f c before e → e n = some i →
    Fate f d (before ++ old) after n i

variable {f g : FactoryId} {c d e r : String → Option Instance} {n : String} {i : Instance}
  {old new early late before after : List Occurrence}

theorem SeenOff.earlier (h : SeenOff f n i early) : SeenOff f n i (late ++ early) := by
  obtain ⟨late', early', failure, rfl, hend⟩ := h
  exact ⟨late ++ late', early', failure, by simp, List.mem_append_right _ hend⟩

theorem SeenOff.later (h : SeenOff f n i late) : SeenOff f n i (late ++ early) := by
  obtain ⟨late', early', failure, rfl, hend⟩ := h
  exact ⟨late', early' ++ early, failure, by simp, hend⟩

theorem Dropped.earlier (h : Dropped f n i early) : Dropped f n i (late ++ early) := by
  obtain ⟨late', notice, left, early', rfl, hleft, hi, hnot⟩ := h
  exact ⟨late ++ late', notice, left, early', by simp, hleft, hi, hnot⟩

theorem Dropped.later (h : Dropped f n i late) (hnot : .tearingDown f ∉ early) :
    Dropped f n i (late ++ early) := by
  obtain ⟨late', notice, left, early', rfl, hleft, hi, hnot'⟩ := h
  refine ⟨late', notice, left, early' ++ early, by simp, hleft, hi, fun hmem => ?_⟩
  exact (List.mem_append.1 hmem).elim hnot' hnot

theorem Fate.mono (h : Fate f d before after n i) (sub : .tearingDown f ∈ before → .tearingDown f ∈ old) :
    Fate f d old after n i := by
  cases h with
  | stays hd hnot => exact .stays hd hnot
  | seenOff h => exact .seenOff h
  | dropped hbefore h => exact .dropped (sub hbefore) h

theorem Fate.followed (h : Fate f r before after n i) (h' : Accounts f (after ++ before) r new d) :
    Fate f d before (new ++ after) n i := by
  cases h with
  | seenOff h => exact .seenOff h.earlier
  | dropped hbefore h => exact .dropped hbefore h.earlier
  | stays hr hnot =>
    have hfate : Fate f d (after ++ before) new n i := h'.fate (List.append_nil new).symm .start hr
    cases hfate with
    | stays hd hnot' => exact .stays hd fun hmem => (List.mem_append.1 hmem).elim hnot' hnot
    | seenOff h => exact .seenOff h.later
    | dropped hbefore h => exact .dropped ((List.mem_append.1 hbefore).resolve_left hnot) (h.later hnot)

namespace Accounts

theorem mono (h : Accounts f old c new d) (sub : old ⊆ early) : Accounts f early c new d where
  chronicle := h.chronicle
  fate he hc hi := (h.fate he hc hi).mono fun hmem =>
    List.mem_append.2 ((List.mem_append.1 hmem).imp_right fun hold => sub hold)

theorem append (hearly : Chronicle f c early r)
    (fate : ∀ {after before e n i}, early = after ++ before → after ≠ [] → Chronicle f c before e →
      e n = some i → Fate f d (before ++ old) (late ++ after) n i)
    (h : Accounts f (early ++ old) r late d) : Accounts f old c (late ++ early) d where
  chronicle := hearly.trans h.chronicle
  fate := by
    intro after before e n i he hc hi
    -- A moment is either before the later part, or at its beginning or in it.
    obtain ⟨mid, rfl, rfl⟩ | ⟨mid, rfl, rfl⟩ := List.append_eq_append_iff.1 he
    · by_cases hmid : mid = []
      · subst hmid
        obtain rfl := hearly.unique hc
        rw [List.append_nil]
        exact h.fate (List.append_nil late).symm .start hi
      · exact fate rfl hmid hc hi
    · obtain ⟨r', hr', hmid⟩ := hc.split
      obtain rfl := hearly.unique hr'
      rw [List.append_assoc]
      exact h.fate rfl hmid hi

theorem trans (h : Accounts f old c early r) (h' : Accounts f (early ++ old) r late d) :
    Accounts f old c (late ++ early) d :=
  append h.chronicle (fun he _ hc hi => (h.fate he hc hi).followed (by rwa [← List.append_assoc, ← he])) h'

theorem nil : Accounts f old c [] c where
  chronicle := .start
  fate he hc hi := by
    obtain ⟨rfl, rfl⟩ := List.append_eq_nil_iff.1 he.symm
    cases hc
    exact .stays hi (by simp)

theorem of_stays (h : Chronicle f c new d) (hnot : ∀ n i, .released f n i ∉ new)
    (hnone : .tearingDown f ∉ new) : Accounts f old c new d where
  chronicle := h
  fate := by
    rintro after before e n i rfl hc hi
    obtain ⟨e', hc', hafter⟩ := h.split
    obtain rfl := hc.unique hc'
    refine .stays (hafter.stays hi fun j hj => ?_) fun hmem => ?_
    · exact hnot n j (List.mem_append_left _ hj)
    · exact hnone (List.mem_append_left _ hmem)

theorem released {failure : Option Failure} (hi : c n = some i)
    (h : Accounts f old (update c n none) new d) (hend : .destroyed n i failure ∈ new) :
    Accounts f old c (new ++ [.released f n i]) d := by
  have h' : Accounts f ([.released f n i] ++ old) (update c n none) new d :=
    h.mono (List.subset_append_right _ _)
  refine append (.single (.released hi)) ?_ h'
  intro after before e m j he hne hc hj
  obtain ⟨rfl, rfl⟩ := (List.singleton_eq_append_iff.1 he).resolve_left fun h => hne h.1
  cases hc
  by_cases hm : m = n
  · subst hm
    obtain rfl : i = j := Option.some.inj (hi.symm.trans hj)
    exact .seenOff ⟨new, [], failure, rfl, hend⟩
  · have hstays : update c n none m = some j := by rwa [update_of_ne hm]
    exact (Fate.stays hstays (by simp)).followed h'

theorem dropped {notice : Notice} {left : List Occurrence} (hold : .tearingDown f ∈ old)
    (hleft : ∀ o ∈ left, ∃ m j, o = .released f m j) (h : Chronicle f c left fun _ => none) :
    Accounts f old c (.tornDown f :: .notice notice :: left) fun _ => none := by
  have hall : Chronicle f c (.tornDown f :: .notice notice :: left) fun _ => none :=
    .next (.next h (.aside nofun)) (.aside nofun)
  refine ⟨hall, ?_⟩
  intro after before e n i he hc hi
  obtain ⟨e', hc', hafter⟩ := (he ▸ hall).split
  obtain rfl := hc.unique hc'
  have hreleased : .released f n i ∈ after := hafter.released_of_gone hi nofun
  -- So the moment is before the last of those that leave.
  match after, he with
  | a :: b :: left', he =>
    obtain ⟨rfl, rfl, rfl⟩ : .tornDown f = a ∧ .notice notice = b ∧ left = left' ++ before := by
      simpa using he
    refine .dropped (List.mem_append_right _ hold) ⟨[], notice, left', [], by simp, ?_, ?_, by simp⟩
    · exact fun o ho => hleft o (List.mem_append_left _ ho)
    · simpa using hreleased
  | [a], he =>
    obtain rfl : .tornDown f = a := (List.cons.inj he).1
    simp at hreleased

/-- The destruction of all singletons accounts for the cache, if all that are there when it begins are
seen off. -/
theorem tornDown {begun notice : Notice} {loop left : List Occurrence} (h : Accounts f [] c loop d)
    (seen : ∀ n i, c n = some i → SeenOff f n i loop) (hleft : ∀ o ∈ left, ∃ m j, o = .released f m j)
    (hgone : Chronicle f d left fun _ => none) :
    Accounts f old c (.tornDown f :: .notice notice :: (left ++ loop) ++ [.notice begun, .tearingDown f])
      fun _ => none := by
  have hbegin {l : List Occurrence} (hl : l ⊆ [.notice begun, .tearingDown f]) : Chronicle f c l c :=
    .of_aside fun o ho => by
      obtain rfl | rfl : o = .notice begun ∨ o = .tearingDown f := by simpa using hl ho
      · exact nofun
      · exact nofun
  have hend : Accounts f (loop ++ ([.notice begun, .tearingDown f] ++ old)) d
      (.tornDown f :: .notice notice :: left) fun _ => none := dropped (by simp) hleft hgone
  refine append (hbegin (List.Subset.refl _)) ?_ ((h.mono (List.nil_subset _)).trans hend)
  intro after before e n i he _ hc hi
  obtain rfl := (hbegin (he ▸ List.subset_append_right _ _)).unique hc
  have hseen : SeenOff f n i (.tornDown f :: .notice notice :: left ++ loop) := (seen n i hi).earlier
  exact .seenOff hseen.later

/-- What is in the cache at some moment, and not in the end, is seen off, unless it came in the meantime and
is dropped. -/
theorem seenOff_or (h : Accounts f [] c (after ++ before) d) (hc : Chronicle f c before e) (hi : e n = some i)
    (hgone : d n = none) : SeenOff f n i after ∨
      (.cached f n i ∈ before ∨ .registered f n i ∈ before) ∧ Dropped f n i after := by
  have hnot : d n ≠ some i := by simp [hgone]
  cases h.fate rfl hc hi with
  | stays hd => exact absurd hd hnot
  | seenOff hseen => exact .inl hseen
  | dropped _ hdropped =>
    obtain hstart | harrived := hc.arrived hi
    · -- It was there from the start, so it is seen off; if that is past, it has come again.
      cases h.fate (List.append_nil _).symm .start hstart with
      | stays hd => exact absurd hd hnot
      | dropped hbegun => cases hbegun
      | seenOff hseen =>
        obtain ⟨late, early, failure, he, hend⟩ := hseen
        obtain ⟨mid, -, rfl⟩ | ⟨mid, rfl, -⟩ := split_of_grown he
        · refine .inr ⟨(hc.arrived_since hi).imp ?_ ?_, hdropped⟩ <;> exact List.mem_append_left _
        · exact .inl ⟨late, mid, failure, rfl, hend⟩
    · exact .inr ⟨harrived, hdropped⟩

end Accounts

/-! ## Single changes -/

/-- Whether an occurrence tells that a singleton leaves the cache of a factory, or that all are to be
destroyed. -/
def Occurrence.isFarewell (f : FactoryId) : Occurrence → Bool
  | released g .. | tearingDown g => g = f
  | _ => false

theorem Occurrence.isFarewell_of_ne {o : Occurrence} (h : o.factory? ≠ some f) : o.isFarewell f = false := by
  cases o <;> first | rfl | exact decide_eq_false fun e => h (congrArg some e)

/-- From a session to a later one, the record accounts for the singletons in the cache of a factory. -/
structure Session.AccountsFor (f : FactoryId) (s t : Session) : Prop where
  length : s.factories.length ≤ t.factories.length
  told : ∃ new, t.record = new ++ s.record ∧ Accounts f [] (s.singleton? f) new (t.singleton? f)

/-- Between two sessions, a singleton has left the cache and was destroyed afterwards. -/
def Session.SeesOff (f : FactoryId) (n : String) (i : Instance) (s t : Session) : Prop :=
  ∃ new, t.record = new ++ s.record ∧ SeenOff f n i new

/-- To account for the singletons in the cache of a factory. -/
def accounting (f : FactoryId) : Manner where
  Start s := f < s.factories.length
  Leads s t := s.AccountsFor f t
  refl s := ⟨Nat.le_refl _, [], rfl, .nil⟩
  trans _ h h' := by
    obtain ⟨new, e, hnew⟩ := h.told
    obtain ⟨new', e', hnew'⟩ := h'.told
    exact ⟨h.length.trans h'.length, new' ++ new, by rw [e', e, List.append_assoc],
      hnew.trans (hnew'.mono (List.nil_subset _))⟩
  start hs h := hs.trans_le h.length

variable {U : Set FactoryId} {s t u : Session} {m : MergedDefinition} {name : String}

namespace Session.AccountsFor

theorem of_chronicled (length : s.factories.length ≤ t.factories.length) (h : Chronicled f s t)
    (hr : t.record = new ++ s.record) (hnew : ∀ o ∈ new, o.isFarewell f = false) : s.AccountsFor f t := by
  obtain ⟨new', hr', hc⟩ := h
  obtain rfl : new' = new := List.append_cancel_right (hr'.symm.trans hr)
  refine ⟨length, new', hr, .of_stays hc (fun n i hmem => ?_) fun hmem => ?_⟩
  · simpa [Occurrence.isFarewell] using hnew _ hmem
  · simpa [Occurrence.isFarewell] using hnew _ hmem

theorem of_change (hf : f < s.factories.length) (h : s.Change t) (new : List Occurrence)
    (hr : t.record = new ++ s.record) (hnew : ∀ o ∈ new, o.isFarewell f = false) : s.AccountsFor f t :=
  .of_chronicled h.length_le (h.chronicled hf) hr hnew

theorem of_tells (length : s.factories.length ≤ t.factories.length) (h : Chronicled f s t)
    (told : s.Tells U t) (hU : f ∉ U) : s.AccountsFor f t := by
  obtain ⟨new, hr, hnew⟩ := told
  exact .of_chronicled length h hr fun o ho => Occurrence.isFarewell_of_ne fun e => hU (hnew o ho f e)

theorem of_record_eq (hf : f < s.factories.length) (h : s.Change t) (hr : t.record = s.record) :
    s.AccountsFor f t := .of_change hf h [] hr (by simp)

theorem making (hf : f < s.factories.length) (h : s.MakingChange Set.univ t) : s.AccountsFor f t := by
  have change : s.Change t := .bean (.making h)
  cases h with
  | count | addEdge => exact .of_record_eq hf change rfl
  | @tell o ho _ =>
    refine .of_change hf change [o] rfl fun o' ho' => ?_
    obtain rfl := List.mem_singleton.1 ho'
    cases o' <;> first | rfl | cases ho
  | construct => exact .of_change hf change [_, _] rfl (by simp [Occurrence.isFarewell])
  | miss | handOut => exact .of_change hf change [_] rfl (by simp [Occurrence.isFarewell])

theorem scope (hf : f < s.factories.length) (h : s.ScopeChange t) : s.AccountsFor f t := by
  have change : s.Change t := .bean h.bean
  have told : s.Tells ∅ t := by
    cases h with
    | keep => exact tells_keepIn
    | addCallback => exact .of_record_eq rfl
    | take => exact tells_takeFrom
    | empty => exact tells_emptyScope
  exact .of_tells change.length_le (change.chronicled hf) told (Set.notMem_empty f)

theorem ending (hf : f < s.factories.length) (hg : g ≠ f) (h : s.EndingChange {g} t) : s.AccountsFor f t :=
  .of_tells (Nat.le_of_eq h.reads.length.symm) (h.chronicled hf) h.reads.told fun e => hg e.symm

theorem remerged (h : s.Remerged t) : s.AccountsFor f t := by
  obtain ⟨new, hr, hnew⟩ := h.remarked
  have hsame : t.singleton? f = s.singleton? f := funext fun n => by rw [Session.singleton?, h.factory]
  have hother (o) (ho : o ∈ new) : o.factory? ≠ some f := by simp [Occurrence.factory?_of_isRemark (hnew o ho)]
  exact .of_chronicled (Nat.le_of_eq h.length.symm) ⟨new, hr, hsame ▸ .of_aside fun o ho _ => hother o ho⟩ hr
    fun o ho => Occurrence.isFarewell_of_ne (hother o ho)

theorem stays_or (h : s.AccountsFor f t) (hi : s.singleton? f n = some i) :
    t.singleton? f n = some i ∨ s.SeesOff f n i t := by
  obtain ⟨new, hr, haccounts⟩ := h.told
  have hfate : Fate f (t.singleton? f) ([] ++ []) new n i :=
    haccounts.fate (List.append_nil new).symm .start hi
  cases hfate with
  | stays ht _ => exact .inl ht
  | seenOff h => exact .inr ⟨new, hr, h⟩
  | dropped hbefore => cases hbefore

end Session.AccountsFor

theorem Session.SeesOff.earlier (h : t.SeesOff f n i u) (hst : s.AccountsFor f t) : s.SeesOff f n i u := by
  obtain ⟨new, hr, hseen⟩ := h
  obtain ⟨new', hr', -⟩ := hst.told
  exact ⟨new ++ new', by rw [hr, hr', List.append_assoc], hseen.later⟩

theorem Session.SeesOff.later (h : s.SeesOff f n i t) (htu : t.AccountsFor f u) : s.SeesOff f n i u := by
  obtain ⟨new, hr, hseen⟩ := h
  obtain ⟨new', hr', -⟩ := htu.told
  exact ⟨new' ++ new, by rw [hr', hr, List.append_assoc], hseen.earlier⟩

/-! ## All that is done to beans -/

theorem coversMaking_accounting : (accounting f).CoversMaking Set.univ where
  making hs h := .making hs h
  cache hs _ _ _ := .of_change hs (.bean (.cache trivial)) [_] rfl (by simp [Occurrence.isFarewell])
  hold hs _ _ := by
    change f < (Session.setFactory _ _ _).factories.length
    rwa [length_setFactory]
  unhold {s _ g guard singletons} hs _ hg ht := by
    have hbegun : s.AccountsFor f (s.setFactory g { s.factory g with singletons }) :=
      .of_record_eq hs (.bean (.begin trivial hg)) rfl
    have hst := (accounting f).trans hs hbegun ht
    exact (accounting f).trans hs hst
      (.of_record_eq ((accounting f).start hs hst) (.bean (.finish trivial)) rfl)
  parent _ _ _ := trivial
  ownMerges _ _ := .remerged remerged_mergedOwn
  merges _ _ := .remerged (mergeSteps_remerges.mergedDefinition trivial _)
  merged _ _ _ _ := trivial

theorem coversDestroying_accounting : (accounting f).CoversDestroying Set.univ where
  making := coversMaking_accounting
  destroying {s o} hs ho := by
    cases o <;> first
      | cases ho; done
      | exact .of_change hs (.bean (.ending (.tell rfl nofun))) [_] rfl (by simp [Occurrence.isFarewell])
  takeDependents hs _ := .of_record_eq hs (.bean (.ending (.takeDependents trivial))) rfl
  dropEdges hs _ := .of_record_eq hs (.bean (.ending (.dropEdges trivial))) rfl

section

variable {env : Collaborators} {again : Reentry} (h : env.Keep (accounting f) Set.univ again)
  (ha : again.Keep (accounting f) Set.univ)
include h ha

theorem yields_destroyCascade_seenOff (hf : f < s.factories.length) :
    Yields True (destroyCascade env again f name) s fun _ t => s.AccountsFor f t ∧
      ∀ i, s.singleton? f name = some i → s.SeesOff f name i t := by
  have hlen : (accounting f).Start (s.release f name).2 := by
    change f < (s.release f name).2.factories.length
    rwa [length_release]
  refine (yields_destroyCascade_released coversDestroying_accounting h ha trivial hlen).mono ?_
  rintro _ t ⟨hrt, hend⟩
  have change : s.Change (s.release f name).2 := .bean (.ending (.release trivial))
  have hrecord : (s.release f name).2.record =
    (s.singleton? f name).toList.map (.released f name) ++ s.record := record_release
  cases hi : s.singleton? f name with
  | none =>
    rw [hi] at hrecord
    exact ⟨(accounting f).trans hf (.of_record_eq hf change hrecord) hrt, nofun⟩
  | some i =>
    rw [hi] at hrecord
    obtain ⟨u, failure, hru, hut⟩ := hend i hi
    obtain ⟨new, hr, haccounts⟩ := hrt.told
    obtain ⟨mid, hmid, -⟩ := hru.told
    obtain ⟨late, hlate, -⟩ := hut.told
    obtain rfl : new = late ++ .destroyed name i failure :: mid := by
      refine List.append_cancel_right (hr.symm.trans ?_)
      rw [hlate, record_write, hmid]
      simp
    rw [singleton?_release hf] at haccounts
    have hall : t.record = late ++ .destroyed name i failure :: mid ++ [.released f name i] ++ s.record := by
      simp [hr, hrecord]
    have hmem : .destroyed name i failure ∈ late ++ .destroyed name i failure :: mid := by simp
    refine ⟨⟨change.length_le.trans hrt.length, _, hall, haccounts.released hi hmem⟩, ?_⟩
    rintro _ ⟨⟩
    exact ⟨_, hall, _, [], failure, rfl, hmem⟩

theorem yields_destroyEach_seenOff {names : List String} : ∀ {failures : List BeanError} {s : Session},
    f < s.factories.length → Yields True (names.foldlM (fun failures name => do
        return failures ++ (← destroyCascade env again f name)) failures) s fun _ t =>
      s.AccountsFor f t ∧ ∀ n ∈ names, ∀ i, s.singleton? f n = some i → s.SeesOff f n i t := by
  induction names with
  | nil => exact fun _ => ⟨(accounting f).refl _, nofun⟩
  | cons name names ih =>
    intro failures s hf
    simp only [List.foldlM_cons, yields_bind, yields_pure]
    refine (yields_destroyCascade_seenOff h ha hf).mono ?_
    rintro own t ⟨hst, hname⟩
    refine (ih (hf.trans_le hst.length)).mono ?_
    rintro _ u ⟨htu, hnames⟩
    refine ⟨(accounting f).trans hf hst htu, fun n hn i hi => ?_⟩
    obtain rfl | hn := List.mem_cons.1 hn
    · exact (hname i hi).later htu
    · obtain ht | hseen := hst.stays_or hi
      · exact (hnames n hn i ht).earlier hst
      · exact Session.SeesOff.later hseen htu

/-- The destruction of all singletons accounts for the cache, and leaves none there. -/
theorem yields_destroyAll_accounted (hf : f < s.factories.length) :
    Yields True (destroyAll env again f) s fun _ t => s.AccountsFor f t ∧ ∀ n, t.singleton? f n = none := by
  have hlen : ((s.bar f).write (.notice .destructionStarted)).factories.length = s.factories.length :=
    length_modifyFactory
  have hsame : ((s.bar f).write (.notice .destructionStarted)).singleton? f = s.singleton? f := singleton?_bar hf
  refine (yields_destroyAll_each (yields_destroyEach_seenOff h ha (hlen ▸ hf))).mono ?_
  rintro _ _ ⟨u, notice, ⟨hbu, hseen⟩, rfl⟩
  have hu : f < u.factories.length := (hlen ▸ hf).trans_le hbu.length
  obtain ⟨loop, hloop, haccounts⟩ := hbu.told
  rw [hsame] at haccounts
  have seen (n i) (hi : s.singleton? f n = some i) : SeenOff f n i loop := by
    rw [← hsame] at hi
    obtain ⟨new, hr, hnew⟩ := hseen n (List.mem_reverse.2 (OrderedMap.mem_keys_iff.2 ⟨i, hi⟩)) i hi
    exact List.append_cancel_right (hr.symm.trans hloop) ▸ hnew
  have hnone : (u.releaseAll f).singleton? f = fun _ => none := singleton?_releaseAll hu
  obtain ⟨left, hleft, hgone⟩ : Chronicled f u (u.releaseAll f) := .releaseAll hu
  refine ⟨⟨?_, .tornDown f :: .notice notice :: (left ++ loop) ++ [.notice .destructionStarted, .tearingDown f],
    ?_, ?_⟩, fun n => congrFun hnone n⟩
  · change s.factories.length ≤ (u.releaseAll f).factories.length
    rw [factories_releaseAll, length_modifyFactory, ← hlen]
    exact hbu.length
  · change _ :: _ :: (u.releaseAll f).record = _
    rw [hleft, hloop]
    simp [Session.bar, modifyFactory]
  · change Accounts f [] _ _ ((u.releaseAll f).singleton? f)
    rw [hnone] at hgone ⊢
    exact haccounts.tornDown seen (fun o => released_of_releaseAll hleft) hgone

end

/-- **What happens to beans accounts for the singletons in the cache of every factory.** -/
theorem covers_accounting : (accounting f).Covers Set.univ where
  toCoversDestroying := coversDestroying_accounting
  scope hs h := .scope hs h
  cascade {_ _ g _} h ha _ := by
    by_cases hg : g = f
    · subst hg
      exact fun s hs => (yields_destroyCascade_seenOff h ha hs).mono fun _ _ ht => ht.1
    · exact keeps_destroyCascade coversDestroying_accounting h ha trivial fun hs => .ending hs hg (.release rfl)
  teardown {_ _ g} h ha _ := by
    by_cases hg : g = f
    · subst hg
      exact fun s hs => (yields_destroyAll_accounted h ha hs).mono fun _ _ ht => ht.1
    · refine keeps_destroyAll coversMaking_accounting (Set.mem_singleton g) (.ending · hg) fun _ => ?_
      exact keeps_destroyCascade coversDestroying_accounting h ha trivial fun hs => .ending hs hg (.release rfl)

theorem coversOperations_accounting : (accounting f).CoversOperations fun _ _ => True :=
  have calls : (accounting f).CoversCalls Set.univ :=
    covers_accounting.coversCalls (fun hs _ h => .of_record_eq hs (.factory h) rfl)
      (fun hs _ => .of_change hs .takeOver [_] rfl (by simp [Occurrence.isFarewell]))
      (fun hs _ h => .of_change hs (.register h) [_] rfl (by simp [Occurrence.isFarewell]))
      fun hs _ _ hloop hnone => .of_record_eq hs (.setParent hloop hnone) rfl
  { toCoversCallsOf := calls.toCoversCallsOf
    addProcessor := fun hs => .of_record_eq hs .addProcessor rfl
    addScope := fun hs => .of_record_eq hs .addScope rfl
    addFactory := fun hs => .of_record_eq hs .addFactory rfl
    label := fun hs _ => .of_record_eq hs .label rfl
    definitions := fun _ _ => .inl (calls.redefines _ trivial)
    fresh := fun _ => ⟨calls.redefines _ trivial, fun _ => trivial⟩ }

variable {env : Collaborators}

/-- **In every run the record accounts for the singletons in the cache of every factory**: each of them stays
there, or is destroyed after it has left, or is dropped when the destruction of all ends that had begun
before. -/
theorem Run.accountsFor (h : Run env s t) (hf : f < s.factories.length) : s.AccountsFor f t := by
  induction h with
  | start => exact (accounting f).refl s
  | @perform t u operation answer depth _ hp ih =>
    have ha : (reentry env depth).KeepOperations (accounting f) := coversOperations_accounting.keepOperations depth
    have hstep : Yields True (performOnce env (reentry env depth) operation) t fun _ u => t.AccountsFor f u :=
      yields_performOnce coversOperations_accounting (coversOperations_accounting.collaborators ha) ha
        (hf.trans_le ih.length) fun _ _ _ => trivial
    exact (accounting f).trans hf ih (yields_true_iff.1 hstep _ _ hp)

theorem accountsFor_destroySingletons {depth : Nat} {answer : Answer} (hf : f < s.factories.length)
    (h : callFactory env (reentry env depth) f .destroySingletons s = some (answer, t)) :
    s.AccountsFor f t ∧ ∀ n, t.singleton? f n = none := by
  have ha : (reentry env depth).KeepOperations (accounting f) := coversOperations_accounting.keepOperations depth
  have hall : Yields True (callFactory env (reentry env depth) f .destroySingletons) s fun _ t =>
      s.AccountsFor f t ∧ ∀ n, t.singleton? f n = none := by
    unfold callFactory
    rw [yields_bind]
    exact yields_destroyAll_accounted (coversOperations_accounting.collaborators ha) ha.toKeep hf
  exact yields_true_iff.1 hall _ _ h

/-- **When all singletons are destroyed, none is dropped but one that came in the meantime**, whatever the
destroy callbacks ask for.

All that is in the cache at the beginning leaves it and is destroyed afterwards, and the cache is empty in
the end. What is in the cache at any moment in between is destroyed after it has left, too, unless it
came after the beginning and is still there when a destruction of all singletons ends that was under way
then: what is left at its end is dropped. -/
theorem seenOff_or_dropped {depth : Nat} {answer : Answer} (hf : f < s.factories.length)
    (h : callFactory env (reentry env depth) f .destroySingletons s = some (answer, t)) :
    ∃ new, t.record = new ++ s.record ∧ Chronicle f (s.singleton? f) new (t.singleton? f) ∧
      (∀ n, t.singleton? f n = none) ∧ (∀ n i, s.singleton? f n = some i → SeenOff f n i new) ∧
      ∀ before after c n i, new = after ++ before → Chronicle f (s.singleton? f) before c → c n = some i →
        SeenOff f n i after ∨
          (.cached f n i ∈ before ∨ .registered f n i ∈ before) ∧ Dropped f n i after := by
  obtain ⟨⟨-, new, hr, haccounts⟩, hnone⟩ := accountsFor_destroySingletons hf h
  have moments (before after c n i) (he : new = after ++ before)
      (hc : Chronicle f (s.singleton? f) before c) (hi : c n = some i) : SeenOff f n i after ∨
        (.cached f n i ∈ before ∨ .registered f n i ∈ before) ∧ Dropped f n i after := by
    subst he
    exact haccounts.seenOff_or hc hi (hnone n)
  refine ⟨new, hr, haccounts.chronicle, hnone, fun n i hi => ?_, moments⟩
  exact (moments [] new _ n i (List.append_nil new).symm .start hi).resolve_right (by simp)

/-- Collaborators that follow written instructions, where a text asks for a new singleton to be registered
under this name. -/
def bequeathing : Collaborators :=
  Scripted.collaborators (fun k => ⟨k.label, none⟩) fun
    | .text name => some ("register", .on "main" (.registerSingleton name (.fresh {})))
    | _ => none

theorem destroySingletons_bequeathing : ∃ answer t i,
    callFactory bequeathing (reentry bequeathing 2) 0 .destroySingletons (.parting [.text "late"]) =
      some (answer, t) ∧ .registered 0 "late" i ∈ t.record ∧
        ∀ n j failure, .destroyed n j failure ∈ t.record → n = "a" := by
  have hfacts : (callFactory bequeathing (reentry bequeathing 2) 0 .destroySingletons
      (.parting [.text "late"])).any (fun (_, t) =>
        t.record.any (fun o => match o with
          | .registered 0 "late" _ => true
          | _ => false) &&
        t.record.all fun o => match o with
          | .destroyed n .. => n = "a"
          | _ => true) = true := by
    decide +kernel
  obtain ⟨⟨answer, t⟩, hrun, hfacts⟩ := (Option.any_eq_true ..).1 hfacts
  simp only [Bool.and_eq_true, List.any_eq_true, List.all_eq_true] at hfacts
  obtain ⟨⟨o, ho, hregistered⟩, hdestroyed⟩ := hfacts
  split at hregistered
  · next i => exact ⟨answer, t, i, hrun, ho, fun n j failure hmem => by simpa using hdestroyed _ hmem⟩
  · cases hregistered

/-- The one that is destroyed is seen off, and the one that it had registered is dropped. -/
theorem seenOff_or_dropped_bequeathing :
    0 < (Session.parting [.text "late"]).factories.length ∧ ∃ answer t i after before,
      callFactory bequeathing (reentry bequeathing 2) 0 .destroySingletons (.parting [.text "late"]) =
        some (answer, t) ∧ SeenOff 0 "a" ⟨0, "a", .closer⟩ t.record ∧
        t.record = after ++ .registered 0 "late" i :: before ∧ Dropped 0 "late" i after := by
  have hf : 0 < (Session.parting [.text "late"]).factories.length := by decide
  obtain ⟨answer, t, i, hrun, hregistered, hdestroyed⟩ := destroySingletons_bequeathing
  obtain ⟨new, hr, hc, -, hseen, hmoments⟩ := seenOff_or_dropped hf hrun
  obtain rfl : t.record = new := hr.trans (List.append_nil new)
  obtain ⟨after, before, hsplit⟩ := List.append_of_mem hregistered
  obtain ⟨c, hbefore, -⟩ := (hsplit ▸ hc).split
  refine ⟨hf, answer, t, i, after, before, hrun, hseen "a" _ rfl, hsplit, ?_⟩
  obtain hseen | ⟨-, hdropped⟩ := hmoments _ after c "late" i hsplit hbefore hbefore.registered_cached
  · obtain ⟨late, early, failure, rfl, hmem⟩ := hseen
    exact absurd (hdestroyed "late" i failure (by simp [hsplit, hmem])) (by decide)
  · exact hdropped

/-- It is not true that what is in the cache meanwhile is destroyed or still there in the end. -/
theorem not_all_destroyed : ¬ ∀ (env : Collaborators) (s t : Session) (f : FactoryId) (depth : Nat)
    (answer : Answer) (new : List Occurrence), f < s.factories.length →
      callFactory env (reentry env depth) f .destroySingletons s = some (answer, t) →
      t.record = new ++ s.record → ∀ before after c n i, new = after ++ before →
        Chronicle f (s.singleton? f) before c → c n = some i →
          (∃ failure, .destroyed n i failure ∈ new) ∨ t.singleton? f n = some i := by
  intro claim
  have hf : 0 < (Session.parting [.text "late"]).factories.length := by decide
  obtain ⟨answer, t, i, hrun, hregistered, hdestroyed⟩ := destroySingletons_bequeathing
  obtain ⟨⟨-, new, hr, haccounts⟩, hnone⟩ := accountsFor_destroySingletons hf hrun
  obtain rfl : t.record = new := hr.trans (List.append_nil new)
  obtain ⟨after, before, hsplit⟩ := List.append_of_mem hregistered
  obtain ⟨c, hbefore, -⟩ := (hsplit ▸ haccounts.chronicle).split
  have hrecord : t.record = t.record ++ (Session.parting [.text "late"]).record := (List.append_nil _).symm
  obtain ⟨failure, hmem⟩ | hi := claim bequeathing _ t 0 2 answer t.record hf hrun hrecord _ after c "late" i hsplit
    hbefore hbefore.registered_cached
  · exact absurd (hdestroyed "late" i failure hmem) (by decide)
  · rw [hnone] at hi
    cases hi

end BeanContainer
