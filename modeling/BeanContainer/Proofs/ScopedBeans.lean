import BeanContainer.Proofs.ReadingScripts
import BeanContainer.Proofs.ScopeEnds

/-!
The beans of a scope in use. They are looked up, taken out and cleared away, by
anyone who may ask, and by their own constructors while they are made.

What a lookup answers is what is found afterwards (`ScopeHost.gives_lookup`), and
that stays until it is taken out. So a bean is the same as long as it is not
removed, and the account of the scope says that whatever is removed is destroyed,
once.
-/

namespace BeanContainer

open Session

/-- The bean of a factory that is there under a name, as a singleton or in a scope. -/
def Session.found? (s : Session) (f : FactoryId) (k : ScopeId) (n : String) : Option Instance :=
  (s.singleton? f n).or ((s.scope k).get? n)

namespace ScopeHost

variable {H : ScopeHost} {again : Reentry} {s t u : Session} {g : FactoryId} {n name label : String}
  {i : Instance} {operation : Operation}

variable (H) in
/-- The uses of a scope: to ask the factories for beans, or for whatever else leaves them alone, and to
remove beans from the scope. -/
inductive Uses : Operation → Prop
  | ask {label : String} {call : FactoryCall} : call.isReading = true →
      (∀ g, H.origin.factoryLabels.get? label = some g → g ∈ H.U) → Uses (.on label call)
  | destroy {label name : String} : (∀ g, H.origin.factoryLabels.get? label = some g → g ∈ H.U ∧
      ∀ m j, H.origin.Own g ((H.origin.factory g).canonical name) m →
        (H.origin.factory g).scopes.get? m.scope = some j → j = H.k) →
      Uses (.on label (.destroyScoped name))
  | clear {label : String} : (∀ j, H.origin.scopeLabels.get? label = some j → j = H.k) →
      Uses (.scopeClear label)

variable (H) in
/-- A factory goes by the label, and the name stands there for one of its beans in the scope. -/
structure Names (label : String) (g : FactoryId) (name n : String) : Prop where
  label : H.origin.factoryLabels.get? label = some g
  mem : g ∈ H.U
  name : (H.origin.factory g).canonical name = n
  defined : H.origin.Defines g n
  kept : ∃ m, H.origin.Own g n m ∧ m.isSingleton = false ∧ m.isPrototype = false ∧
    (H.origin.factory g).scopes.get? m.scope = some H.k

theorem Names.belongs (hn : H.Names label g name n) : H.origin.BelongsTo g n H.k :=
  hn.kept.imp fun _ h => ⟨h.1, h.2.1, h.2.2.2⟩

theorem Names.uses_get (hn : H.Names label g name n) : H.Uses (.on label (.get name)) :=
  .ask rfl fun _ hg => Option.some.inj (hn.label.symm.trans hg) ▸ hn.mem

/-! ## Lookups -/

section

variable (h : H.env.KeepMaking H.hosting H.U again)
  (hlookup : ∀ g ∈ H.U, ∀ name, Keeps H.hosting (again.lookup g name).run)
  (hn : H.Names label g name n)
include h hlookup hn

theorem gives_makeDefined (hs : H.Serves s) :
    Gives (makeDefined H.env again g n) s fun i t => (t.scope H.k).get? n = some i := by
  obtain ⟨m, hown, hsingleton, hprototype, hk⟩ := hn.kept
  have hdefinition : Gives (mergedOwn g n) s fun merged _ => merged.definition = m :=
    (gives_liftQuery.2 (covers_hosting.merged hs hn.mem)).mono fun _ _ hmerged => own_unique hmerged hown
  refine gives_makeDefined_of_kind covers_hosting hlookup hn.mem hs hdefinition fun t ht => ?_
  unfold makeOfKind
  rw [if_neg (by simp [hsingleton]), if_neg (by simp [hprototype])]
  refine (yields_createScoped h.toKeepCreation hn.mem hown hsingleton (hs.tend ht)).mono ?_
  exact fun r u hu i hi => hu.2 i hi hk

/-- **What a lookup answers is there when it is over.** -/
theorem gives_lookup (hs : H.Serves s) :
    Gives (lookup H.env again g name) s fun i t => t.found? g H.k n = some i := by
  have hdefines : s.Defines g n := by
    unfold Defines
    rw [hs.setup.definitions]
    exact hn.defined
  have hlen : g < s.factories.length := by
    by_contra hlen
    rw [Defines, factory_of_length_le (Nat.le_of_not_lt hlen)] at hdefines
    cases hdefines
  obtain ⟨ancestors, hchain⟩ := chain_eq_cons hlen
  have hcanonical : (s.factory g).canonical name = n := hs.setup.canonical ▸ hn.name
  unfold lookup
  refine gives_bind.2 (gives_get.2 ?_)
  rw [hchain]
  have hfits : (s.route (g :: ancestors) name).Fits s (g :: ancestors) := fits_route
  rcases route_cons (s := s) (f := g) ancestors name with
    ⟨i, hi, hr⟩ | ⟨-, hr⟩ | ⟨-, hr⟩ | ⟨hnone, -⟩
  · rw [hr]
    rw [hcanonical] at hi
    refine gives_bind.2 (gives_liftState.2 (gives_pure.2 ?_))
    exact Option.or_eq_some_iff.2 (.inl hi)
  · rw [hr]
    exact gives_throw
  · rw [hr] at hfits ⊢
    rw [hcanonical] at hfits ⊢
    refine gives_bind.2 (gives_liftState.2 ?_)
    have hmissed : H.Tends s (s.write (.missed g n)) := .of_making (.miss hn.mem hfits.2)
    have hmade : Keeps H.hosting (makeDefined H.env again g n).run :=
      keeps_makeDefined covers_hosting h hlookup hn.mem
    refine ((hmade _ (hs.tend hmissed)).and (gives_makeDefined h hlookup hn (hs.tend hmissed))).mono ?_
    rintro r t ⟨ht, hkept⟩ i hi
    refine Option.or_eq_some_iff.2 (.inr ⟨?_, hkept i hi⟩)
    exact ((hmissed.trans hs.linked ht).singletons g hn.mem n hn.belongs).trans hfits.2
  · exact absurd (hcanonical ▸ hdefines) hnone

end

/-! ## What is found stays -/

/-- **What is found is found until it is removed.** -/
theorem Tends.found (ht : H.Tends s t) (hn : H.Names label g name n) {new : List Occurrence}
    (htold : t.record = new ++ s.record) (hstays : ∀ j, .left H.k n j ∉ new)
    (hi : s.found? g H.k n = some i) : t.found? g H.k n = some i := by
  unfold found? at hi ⊢
  rw [ht.singletons g hn.mem n hn.belongs]
  rcases Option.or_eq_some_iff.1 hi with hcached | ⟨hnone, hkept⟩
  · exact Option.or_eq_some_iff.2 (.inl hcached)
  · refine Option.or_eq_some_iff.2 (.inr ⟨hnone, Scope.get?_eq_some_iff.2 ?_⟩)
    obtain ⟨new', told, haccount⟩ := ht.told
    obtain rfl : new = new' := List.append_cancel_right (htold.symm.trans told)
    have hbefore : (n, i) ∈ (s.scope H.k).stored ++ arrivals H.k new :=
      List.mem_append_left _ (Scope.get?_eq_some_iff.1 hkept)
    exact (List.mem_append.1 (haccount.balance.mem_iff.1 hbefore)).resolve_left
      fun hleft => hstays i (mem_departures.1 hleft)

/-! ## Operations -/

theorem yields_on {lost : Prop} {call : FactoryCall} {Q : Answer → Session → Prop} (hs : H.Serves s)
    (hlabel : H.origin.factoryLabels.get? label = some g) :
    Yields lost (performOnce H.env again (.on label call)) s Q ↔
      Yields lost (callFactory H.env again g call) s Q := by
  unfold performOnce withLabel
  rw [yields_bind, yields_get, hs.setup.factoryLabels, hlabel]

theorem keeps_on {call : FactoryCall} (h : ∀ g, H.origin.factoryLabels.get? label = some g →
    Keeps H.hosting (callFactory H.env again g call)) :
    Keeps H.hosting (performOnce H.env again (.on label call)) := by
  intro s hs
  cases hlabel : H.origin.factoryLabels.get? label with
  | some g => exact (yields_on hs hlabel).2 (h g hlabel s hs)
  | none =>
    unfold performOnce withLabel
    rw [yields_bind, yields_get, hs.setup.factoryLabels, hlabel]
    exact .refl s

theorem keeps_performOnce (h : H.env.KeepMaking H.hosting H.U again)
    (hlookup : ∀ g ∈ H.U, ∀ name, Keeps H.hosting (again.lookup g name).run) (huse : H.Uses operation) :
    Keeps H.hosting (performOnce H.env again operation) := by
  cases huse with
  | ask hcall hlabel =>
    exact keeps_on fun g hg => keeps_callFactory covers_hosting h hlookup (hlabel g hg) hcall
  | destroy hlabel =>
    refine keeps_on fun g hg => keeps_answerAct fun s hs => ?_
    obtain ⟨hmem, hscope⟩ := hlabel g hg
    exact (yields_destroyScoped hs hmem rfl hscope).of_total.mono fun _ _ ht => ht.1
  | clear hlabel =>
    intro s hs
    unfold performOnce withLabel
    rw [yields_bind, yields_get, hs.setup.scopeLabels]
    split
    · next j hj =>
      obtain rfl := hlabel j hj
      rw [yields_bind, yields_get, yields_bind]
      refine (yields_clearScope hs).of_total.mono ?_
      rintro _ t ⟨ran, -, ht⟩
      exact ht.tends
    · exact .refl s

/-- The ways back into a session lead to nothing but uses of the scope, as long as nothing else is asked
of them. -/
structure Hosts (H : ScopeHost) (again : Reentry) : Prop where
  lookup : ∀ g ∈ H.U, ∀ name, Keeps H.hosting (again.lookup g name).run
  perform : ∀ operation, H.Uses operation → Keeps H.hosting (again.perform operation)

theorem Hosts.keepMaking (ha : H.Hosts again) (hwithin : H.env.Within H.U H.U H.Uses) :
    H.env.KeepMaking H.hosting H.U again :=
  have keeps {α : Type} {script : Script α} (h : script.Within H.U H.Uses) :
      Keeps H.hosting (runScript again script) := keeps_runScript covers_hosting h ha.lookup ha.perform
  have creation : H.env.KeepCreation H.hosting H.U again :=
    { construct := fun c g hg name m => keeps (hwithin.construct c g hg name m)
      before := fun p i name => keeps (hwithin.before p i name)
      after := fun p i name => keeps (hwithin.after p i name) }
  { creation with
    ready := fun i spec => keeps (hwithin.ready i spec)
    inScope := fun _ hg _ _ hown hm _ hs =>
      (yields_createScoped creation hg hown hm hs).mono fun _ _ ht => ht.1 }

/-- **At any depth**, the ways back lead to nothing but uses of the scope. -/
theorem hosts_reentry (hwithin : H.env.Within H.U H.U H.Uses) : ∀ depth, H.Hosts (reentry H.env depth)
  | 0 => ⟨fun _ _ _ _ _ => trivial, fun _ _ _ _ => trivial⟩
  | depth + 1 => by
    have ih := hosts_reentry hwithin depth
    have hk := ih.keepMaking hwithin
    exact ⟨fun _ hg _ => keeps_lookup covers_hosting hk ih.lookup hg,
      fun _ huse => keeps_performOnce hk ih.lookup huse⟩

/-! ## Runs -/

variable (H) in
/-- The sessions that come of uses of the scope, one after another. -/
inductive Run (s : Session) : Session → Prop
  | start : Run s s
  | use {t u : Session} {operation : Operation} {answer : Answer} {depth : Nat} : Run s t →
      H.Uses operation → perform H.env depth operation t = some (answer, u) → Run s u

variable {label' name' : String} {depth depth' : Nat} {s' t' : Session} {j : Instance}

section

variable (hwithin : H.env.Within H.U H.U H.Uses)
include hwithin

theorem tends_perform {answer : Answer} (hs : H.Serves s) (huse : H.Uses operation)
    (h : perform H.env depth operation s = some (answer, t)) : H.Tends s t :=
  have ha := hosts_reentry hwithin depth
  yields_true_iff.1 (keeps_performOnce (ha.keepMaking hwithin) ha.lookup huse s hs) _ _ h

theorem Run.tends (hs : H.Serves s) (h : H.Run s t) : H.Tends s t := by
  induction h with
  | start => exact .refl s
  | use _ huse hp ih => exact ih.trans hs.linked (tends_perform hwithin (hs.tend ih) huse hp)

/-- What a factory answers when it is asked for a bean is there afterwards. -/
theorem found_of_get (hs : H.Serves s) (hn : H.Names label g name n)
    (h : perform H.env depth (.on label (.get name)) s = some (.bean i, t)) :
    t.found? g H.k n = some i := by
  have ha := hosts_reentry hwithin depth
  have hyields : Yields True (performOnce H.env (reentry H.env depth) (.on label (.get name))) s
      fun answer t => ∀ i, answer = .bean i → t.found? g H.k n = some i := by
    rw [yields_on hs hn.label]
    unfold callFactory answerAct
    dsimp only
    rw [yields_bind]
    refine Yields.mono (gives_lookup (ha.keepMaking hwithin) ha.lookup hn hs) fun r t ht => ?_
    cases r with
    | error e =>
      intro i he
      cases he
    | ok i =>
      rintro _ ⟨⟩
      exact ht i rfl
  exact yields_true_iff.1 hyields _ _ h i rfl

/-- **A bean is the same until it is removed.** -/
theorem same_of_get (hs : H.Serves s) (hn : H.Names label g name n) (hn' : H.Names label' g name' n)
    (h : perform H.env depth (.on label (.get name)) s = some (.bean i, s')) (hrun : H.Run s' t)
    (h' : perform H.env depth' (.on label' (.get name')) t = some (.bean j, t')) {new : List Occurrence}
    (htold : t'.record = new ++ s'.record) (hstays : ∀ v, .left H.k n v ∉ new) : j = i := by
  have hs' := hs.tend (tends_perform hwithin hs hn.uses_get h)
  have ht := hrun.tends hwithin hs'
  have hall : H.Tends s' t' := ht.trans hs'.linked (tends_perform hwithin (hs'.tend ht) hn'.uses_get h')
  have hfirst := hall.found hn htold hstays (found_of_get hwithin hs hn h)
  have hlast := found_of_get hwithin (hs'.tend ht) hn' h'
  exact Option.some.inj (hlast.symm.trans hfirst)

end

/-! ## Removals -/

theorem perform_destroyScoped (hs : H.Serves s) (hn : H.Names label g name n) (depth : Nat) :
    ∃ ran t, perform H.env depth (.on label (.destroyScoped name)) s =
      some ((ran.filterMap Destruction.error?).head?.elim .done .failed, t) ∧ H.Drops n ran s t := by
  obtain ⟨m, hown, hsingleton, hprototype, hk⟩ := hn.kept
  have hscope (m' j) (hm' : H.origin.Own g n m') (hj : (H.origin.factory g).scopes.get? m'.scope = some j) :
      j = H.k := by
    obtain rfl := own_unique hown hm'
    exact Option.some.inj (hj.symm.trans hk)
  have hyields : Yields False (performOnce H.env (reentry H.env depth) (.on label (.destroyScoped name))) s
      fun answer t => ∃ ran, answer = (ran.filterMap Destruction.error?).head?.elim .done .failed ∧
        H.Drops n ran s t := by
    rw [yields_on hs hn.label]
    unfold callFactory answerAct
    dsimp only
    rw [yields_bind]
    refine (yields_destroyScoped hs hn.mem hn.name hscope).mono fun r t ht => ?_
    obtain ⟨ran, hremoves, rfl⟩ := ht.2 m hown hsingleton hprototype hk
    cases hfirst : (ran.filterMap Destruction.error?).head? <;>
      exact ⟨ran, by rw [hfirst]; rfl, hremoves⟩
  obtain ⟨answer, t, h, ran, rfl, hremoves⟩ := yields_false_iff.1 hyields
  exact ⟨ran, t, h, hremoves⟩

theorem perform_scopeClear (hs : H.Serves s) (hlabel : H.origin.scopeLabels.get? label = some H.k)
    (depth : Nat) :
    ∃ ran t, perform H.env depth (.scopeClear label) s =
      some (answerFailures (ran.filterMap Destruction.error?), t) ∧ H.Clears ran s t := by
  have hyields : Yields False (performOnce H.env (reentry H.env depth) (.scopeClear label)) s
      fun answer t => ∃ ran, answer = answerFailures (ran.filterMap Destruction.error?) ∧
        H.Clears ran s t := by
    obtain ⟨w, instances, callbacks, hscope⟩ := hs.paired.written
    unfold performOnce withLabel
    rw [yields_bind, yields_get, hs.setup.scopeLabels, hlabel]
    dsimp only
    rw [yields_bind, yields_get, yields_bind]
    refine (yields_clearScope hs).mono ?_
    rintro _ t ⟨ran, rfl, hremoves⟩
    refine ⟨ran, ?_, hremoves⟩
    rw [hscope, answerCleared, List.filterMap_map]
    rfl
  obtain ⟨answer, t, h, ran, rfl, hremoves⟩ := yields_false_iff.1 hyields
  exact ⟨ran, t, h, hremoves⟩

/-! ## All together -/

/-- **The beans of a scope.** However they are asked for and removed, one by one or all at once, by anyone
and also while they are made, the instances that the scope keeps and its callbacks stay paired, and the
record accounts for what the scope keeps: whatever has to hear of its end is destroyed as often as it
leaves, and no more often than it came. A bean is the same until it is removed. To remove a bean destroys
its very instance; to clear the scope destroys all that have to hear of it, newest first, with one error for
each that fails, and leaves nothing. -/
theorem beans_of_scope {w : String} (fresh : H.origin.scope H.k = .newInMemory w)
    (hwithin : H.env.Within H.U H.U H.Uses) :
    (∀ t, H.Run H.origin t → H.Serves t) ∧
    ∀ t, H.Serves t →
      (∀ u, H.Run t u → ∃ new, u.record = new ++ t.record ∧
        ScopeAccount H.required (H.maker H.k) H.k t.record (t.scope H.k).stored (u.scope H.k).stored new ∧
        (endings new).Subperm ((t.scope H.k).stored ++ arrivals H.k new)) ∧
      (∀ label label' g name name' n, H.Names label g name n → H.Names label' g name' n →
        ∀ depth depth' i j t' u u' new,
          perform H.env depth (.on label (.get name)) t = some (.bean i, t') → H.Run t' u →
          perform H.env depth' (.on label' (.get name')) u = some (.bean j, u') →
          u'.record = new ++ t'.record → (∀ v, .left H.k n v ∉ new) → j = i) ∧
      (∀ label g name n, H.Names label g name n → ∀ depth, ∃ ran u,
        perform H.env depth (.on label (.destroyScoped name)) t =
          some ((ran.filterMap Destruction.error?).head?.elim .done .failed, u) ∧ H.Drops n ran t u) ∧
      (∀ label, H.origin.scopeLabels.get? label = some H.k → ∀ depth, ∃ ran u,
        perform H.env depth (.scopeClear label) t =
          some (answerFailures (ran.filterMap Destruction.error?), u) ∧ H.Clears ran t u) := by
  have hstart : H.Serves H.origin := ⟨.refl _, fresh ▸ Scope.paired_newInMemory⟩
  refine ⟨fun t ht => hstart.tend (ht.tends hwithin hstart), fun t ht => ⟨fun u hu => ?_, ?_, ?_, ?_⟩⟩
  · obtain ⟨new, told, haccount⟩ := (hu.tends hwithin ht).told
    refine ⟨new, told, haccount, haccount.spared.trans ?_⟩
    exact (List.sublist_append_left _ _).subperm.trans haccount.balance.symm.subperm
  · intro label label' g name name' n hn hn' depth depth' i j t' u u' new h hrun h' htold hstays
    exact same_of_get hwithin ht hn hn' h hrun h' htold hstays
  · exact fun label g name n hn depth => perform_destroyScoped ht hn depth
  · exact fun label hlabel depth => perform_scopeClear ht hlabel depth

end ScopeHost

/-- A factory with a scope of three beans. The constructor of the last looks up the one before and fails,
which in turn looks up the first; to destroy that one fails. -/
def Session.lodge : Session where
  factories := [{
    definitions := ⟨3, .ofList [
      ("bed", { scope := some "night", properties := .ofList [("$fail_destroy", .text "stuck")] }),
      ("room", { scope := some "night", properties := .ofList [("$refs", .list [.text "bed"])] }),
      ("bath", {
        scope := some "night"
        properties := .ofList [("$refs", .list [.text "room"]), ("$fail", .text "cold")] })]⟩
    scopes := .ofList [("night", 0)]
    constructor := some (.scripted "main") }]
  scopes := [.newInMemory "lodging"]
  factoryLabels := .ofList [("main", 0)]
  scopeLabels := .ofList [("lodging", 0)]

/-- The scope there, with collaborators that follow written instructions. -/
def lodging : ScopeHost where
  env := Scripted.collaborators (fun k => ⟨k.label, none⟩) fun _ => none
  U := {0}
  origin := .lodge
  k := 0
  maker _ _ := 0
  linked := by
    rintro f rfl p hp
    cases hp
  apart _ hg _ _ _ := hg.symm
  quiet := Scripted.quietEnds

/-- The errors that an answer reports. -/
def Answer.errors : Answer → List BeanError
  | failed e => [e]
  | failures es => es
  | _ => []

theorem Answer.errors_answerFailures : ∀ failures, (answerFailures failures).errors = failures
  | [] => rfl
  | _ :: _ => rfl

/-- What the failed creation of the last bean has left in the scope is destroyed when that is cleared. -/
theorem beans_of_scope_lodging :
    lodging.origin.scope lodging.k = .newInMemory "lodging" ∧
      lodging.env.Within lodging.U lodging.U lodging.Uses ∧
      ∃ failed t, perform lodging.env 3 (.on "main" (.get "bath")) lodging.origin = some (failed, t) ∧
        failed.errors.length = 1 ∧ lodging.Serves t ∧ (t.scope 0).stored.map Prod.fst = ["bed", "room"] ∧
        ∃ (ran : List Destruction) (u : Session), perform lodging.env 0 (.scopeClear "lodging") t =
            some (answerFailures (ran.filterMap Destruction.error?), u) ∧
          (ran.filterMap Destruction.error?).length = 1 ∧ ran.map Destruction.name = ["room", "bed"] ∧
          (∀ d ∈ ran, d.Ran lodging.env (lodging.processors d.name)) ∧ u.scope 0 = .newInMemory "lodging" := by
  have hwithin : lodging.env.Within lodging.U lodging.U lodging.Uses :=
    Scripted.within_collaborators fun _ _ _ h => by cases h
  have hfacts : (perform lodging.env 3 (.on "main" (.get "bath")) lodging.origin).any (fun r =>
      r.1.errors.length = 1 && (r.2.scope 0).stored.map Prod.fst = ["bed", "room"] &&
      ((r.2.scope 0).stored.filter lodging.required).map Prod.fst = ["bed", "room"] &&
      (r.2.scope 0).emptied = .newInMemory "lodging" &&
      (perform lodging.env 0 (.scopeClear "lodging") r.2).any fun q => q.1.errors.length = 1) = true := by
    decide +kernel
  obtain ⟨⟨failed, t⟩, hget, hfacts⟩ := (Option.any_eq_true ..).1 hfacts
  simp only [Bool.and_eq_true, decide_eq_true_eq] at hfacts
  obtain ⟨⟨⟨⟨hfailed, hstored⟩, hrequired⟩, hemptied⟩, hcleared⟩ := hfacts
  obtain ⟨hserves, hall⟩ := ScopeHost.beans_of_scope (H := lodging) (w := "lodging") rfl hwithin
  have ht : lodging.Serves t := hserves t (.use .start (.ask rfl fun g hg => by cases hg; rfl) hget)
  obtain ⟨ran, u, hclear, hremoves⟩ := (hall t ht).2.2.2 "lodging" rfl 0
  refine ⟨rfl, hwithin, failed, t, hget, hfailed, ht, hstored, ran, u, hclear, ?_, ?_, hremoves.real,
    hremoves.rest.trans hemptied⟩
  · rw [hclear] at hcleared
    simpa [Answer.errors_answerFailures] using hcleared
  · have hvictims := congrArg (List.map Prod.fst) hremoves.victims
    rw [List.map_map] at hvictims
    rw [show Destruction.name = Prod.fst ∘ fun d => (d.name, d.victim) from rfl, hvictims, List.map_reverse]
    exact congrArg List.reverse hrequired

end BeanContainer
