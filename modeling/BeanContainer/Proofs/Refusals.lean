import BeanContainer.Proofs.Aftermath
import BeanContainer.Proofs.Ancestry

/-!
Registrations that are refused. Whatever is wrong with one is found before the
factory changes, so a call that fails leaves the session as it was, but for lines
in the log and the instance that was to be handed over (`Refuses`). A definition is
taken up exactly if nothing is wrong with it (`define_ok_iff`), and what follows
then cannot fail.
-/

namespace BeanContainer

open Session

variable {env : Collaborators} {again : Reentry} {s t u : Session} {f : FactoryId} {name : String}
  {d : Definition} {F : Factory}

/-! ## Definitions that are taken up -/

/-- Nothing in a definition and its name is blank that must not be. An empty scope is open. -/
structure Definition.Filled (d : Definition) (name : String) : Prop where
  ownName : Text.isBlank name = false
  scope : ∀ x, d.scope = some x → x = "" ∨ Text.isBlank x = false
  parent : ∀ p, d.parent = some p → Text.isBlank p = false
  dependsOn : ∀ names, d.dependsOn = some names → ∀ x ∈ names, Text.isBlank x = false

/-- Nothing is wrong with a definition that is to be taken up under a name. -/
structure Factory.Accepts (F : Factory) (name : String) (d : Definition) : Prop where
  filled : d.Filled name
  mutable : ¬ (F.frozen = true ∧ F.settings.rejectMutationAfterFreeze = true)
  noAlias : F.aliases.isAlias name = false
  free : F.definitions.contains name = false ∨ F.settings.allowDefinitionOverriding = true

theorem DefinitionStore.insert_ok_iff {store : DefinitionStore} {allow : Bool} :
    (∃ new, store.insert name d allow = .ok new) ↔ store.contains name = false ∨ allow = true := by
  have hcontains : store.contains name = false ↔ store.get? name = none := by
    rw [← Bool.not_eq_true, Option.eq_none_iff_forall_ne_some, ← not_exists]
    exact not_congr OrderedMap.contains_iff_get?
  unfold insert
  rw [hcontains]
  cases store.get? name <;> cases allow <;> simp

namespace Factory

theorem validate_eq_ok_iff : validate name d = .ok () ↔ d.Filled name := by
  unfold validate
  split
  · next hn => exact ⟨nofun, fun h => by simp [h.ownName] at hn⟩
  · split
    · next hs =>
      obtain ⟨x, hx, hblank⟩ := (Option.any_eq_true ..).1 hs
      refine ⟨nofun, fun h => ?_⟩
      obtain rfl | hx := h.scope x hx <;> simp_all
    · split
      · next hp =>
        obtain ⟨p, hp, hblank⟩ := (Option.any_eq_true ..).1 hp
        exact ⟨nofun, fun h => by simp [h.parent p hp] at hblank⟩
      · split
        · next hd =>
          obtain ⟨names, hnames, hblank⟩ := (Option.any_eq_true ..).1 hd
          obtain ⟨x, hx, hblank⟩ := List.any_eq_true.1 hblank
          exact ⟨nofun, fun h => by simp [h.dependsOn names hnames x hx] at hblank⟩
        · next hn hs hp hd =>
          refine ⟨fun _ => ⟨by simpa using hn, fun x hx => ?_, fun p hp' => ?_, fun names hnames x hx => ?_⟩,
            fun _ => rfl⟩
          · simpa [hx, or_iff_not_imp_left] using hs
          · simpa [hp'] using hp
          · rw [← Bool.not_eq_true]
            exact fun h => hd (by simpa [hnames] using ⟨x, hx, h⟩)

theorem ensureMutable_eq_ok_iff : F.ensureMutable name = .ok () ↔
    ¬ (F.frozen = true ∧ F.settings.rejectMutationAfterFreeze = true) := by
  unfold ensureMutable
  rw [← Bool.and_eq_true]
  split
  · next h => exact ⟨nofun, fun hnot => absurd h hnot⟩
  · next h => exact ⟨fun _ => h, fun _ => rfl⟩

/-- **A definition is taken up exactly if nothing is wrong with it.** -/
theorem define_ok_iff : (∃ new, F.define name d = .ok new) ↔ F.Accepts name d := by
  have hok {α β : Type} {r : Except BeanError α} {k : α → Except BeanError β} :
      (∃ b, r >>= k = .ok b) ↔ ∃ a, r = .ok a ∧ ∃ b, k a = .ok b := by
    cases r with
    | error e => exact ⟨fun ⟨_, h⟩ => (nomatch h), fun ⟨_, h, _⟩ => (nomatch h)⟩
    | ok a => exact ⟨fun h => ⟨a, rfl, h⟩, fun ⟨_, h, hk⟩ => by cases h; exact hk⟩
  unfold define
  rw [hok]
  refine ⟨fun ⟨_, hfilled, h⟩ => ?_, fun h => ⟨(), validate_eq_ok_iff.2 h.filled, ?_⟩⟩
  · obtain ⟨_, hmutable, h⟩ := hok.1 h
    split at h
    · obtain ⟨_, h, _⟩ := hok.1 h
      cases h
    · next hno =>
      obtain ⟨_, hfree, -⟩ := hok.1 h
      exact ⟨validate_eq_ok_iff.1 hfilled, ensureMutable_eq_ok_iff.1 hmutable, by simpa using hno,
        DefinitionStore.insert_ok_iff.1 ⟨_, hfree⟩⟩
  · rw [hok]
    refine ⟨(), ensureMutable_eq_ok_iff.2 h.mutable, ?_⟩
    rw [h.noAlias]
    obtain ⟨store, hstore⟩ := DefinitionStore.insert_ok_iff.2 h.free
    exact hok.2 ⟨store, hstore, _, rfl⟩

end Factory

/-! ## Calls that fail -/

/-- Nothing happened but that lines went to the log and instances were made. -/
structure Session.Logs (s t : Session) : Prop where
  same : t = { s with record := t.record, made := t.made }
  recorded : ∃ lines : List Notice, t.record = lines.map .notice ++ s.record

namespace Session.Logs

theorem refl (s : Session) : s.Logs s := ⟨rfl, [], rfl⟩

theorem trans (h : s.Logs t) (h' : t.Logs u) : s.Logs u where
  same := by rw [h'.same, h.same]
  recorded := by
    obtain ⟨lines, e⟩ := h.recorded
    obtain ⟨lines', e'⟩ := h'.recorded
    exact ⟨lines' ++ lines, by rw [e', e, List.map_append, List.append_assoc]⟩

theorem make {spec : BeanSpec} : s.Logs (s.make name spec).2 := ⟨rfl, [], rfl⟩

theorem writeNotices : ∀ {notices : List Notice} {s : Session}, s.Logs (s.writeNotices notices)
  | [], _ => .refl _
  | n :: _, s => .trans ⟨rfl, [n], rfl⟩ (writeNotices (s := s.write (.notice n)))

end Session.Logs

/-- Something is done, or nothing happens. -/
def Refuses (m : Effect Answer) : Prop := ∀ s, Yields True m s fun a t => a = .done ∨ s.Logs t

theorem refuses_answerAct {act : Act Unit}
    (h : ∀ s, Yields True act.run s fun r t => r = .ok () ∨ s.Logs t) :
    Refuses (answerAct act fun _ => .done) := by
  intro s
  rw [yields_answerAct_iff]
  refine (h s).mono fun r t ht => ?_
  cases r with
  | ok _ => exact .inl rfl
  | error e => exact .inr (ht.resolve_left nofun)

theorem refuses_answerQuery {q : Query Unit} (h : ∀ s, Ends q s fun r t => r = .ok () ∨ s.Logs t) :
    Refuses (answerQuery q fun _ => .done) := refuses_answerAct h

theorem refuses_withLabel {label : String} {found : Option Nat} {use : Nat → Effect Answer}
    (h : ∀ n, Refuses (use n)) : Refuses (withLabel label found use) := by
  unfold withLabel
  cases found with
  | some n => exact h n
  | none => exact fun s => .inr (.refl s)

theorem refuses_withSource {source : BeanSource} {use : Instance → Effect Answer}
    (h : ∀ i, Refuses (use i)) : Refuses (withSource name source use) := by
  intro s
  unfold withSource
  rw [yields_bind, yields_modifyGet]
  have htaken : s.Logs (s.takeSource name source).2 := by
    cases source with
    | existing => exact .refl s
    | fresh => exact .make
  cases (s.takeSource name source).1 with
  | some i => exact (h i _).mono fun a t => Or.imp_right htaken.trans
  | none => exact .inr htaken

theorem ends_tryUpdate_refused {change : Factory → Except BeanError Factory} :
    Ends (tryUpdate f change) s fun r t => r = .ok () ∨ s.Logs t := by
  unfold tryUpdate
  rw [ends_bind, ends_lift, theFactory_apply]
  dsimp only
  cases change (s.factory f) with
  | error e => exact .inr (.refl s)
  | ok F => exact .inl rfl

theorem ends_tryUpdate_bind_refused {change : Factory → Except BeanError Factory} {after : Query Unit}
    (hafter : ∀ s, (after.run s).1 = .ok ()) :
    Ends (do tryUpdate f change; after) s fun r t => r = .ok () ∨ s.Logs t := by
  rw [ends_bind]
  refine ends_tryUpdate_refused.mono fun r t ht => ?_
  cases r with
  | ok _ => exact .inl (hafter t)
  | error e => exact .inr (ht.resolve_left nofun)

theorem yields_registerDefinition_accepted (h : (s.factory f).Accepts name d) :
    Yields True (registerDefinition again f name d).run s fun r _ => r = .ok () := by
  obtain ⟨F, hF⟩ := Factory.define_ok_iff.2 h
  unfold registerDefinition tryUpdate
  simp only [yields_run_bind, yields_run_liftState, theFactory_apply, yields_run_liftQuery, ends_bind,
    ends_lift, hF, ends_modify, write_apply, note_apply, yields_run_liftEffect]
  exact yields_true_iff.2 fun _ _ _ => rfl

theorem yields_registerDefinition_refused (h : ¬ (s.factory f).Accepts name d) :
    Yields False (registerDefinition again f name d).run s fun r t => (∃ e, r = .error e) ∧ t = s := by
  cases hF : (s.factory f).define name d with
  | ok F => exact absurd (Factory.define_ok_iff.1 ⟨F, hF⟩) h
  | error e => exact yields_registerDefinition_error hF ⟨⟨e, rfl⟩, rfl⟩

/-- Whether a call registers something with a factory, or takes it back. -/
def FactoryCall.isRegistration : FactoryCall → Bool
  | register .. | remove _ | registerAlias .. | removeAlias _ | registerSingleton .. | registerScope ..
  | resolveAliases _ | setParent _ => true
  | _ => false

/-- **A registration that is refused leaves no trace.** -/
theorem refuses_registration {call : FactoryCall} (h : call.isRegistration = true) :
    Refuses (callFactory env again f call) := by
  cases call <;> try cases h
  case register name d =>
    refine refuses_answerAct fun s => ?_
    by_cases hd : (s.factory f).Accepts name d
    · exact (yields_registerDefinition_accepted hd).mono fun _ _ => .inl
    · exact ((yields_registerDefinition_refused hd).mono fun _ _ ⟨_, ht⟩ => .inr (ht ▸ .refl s)).of_total
  case remove name =>
    refine refuses_answerAct fun s => ?_
    cases hF : (s.factory f).undefine name with
    | error e => exact yields_removeDefinition_error hF (.inr (.refl s))
    | ok F =>
      unfold removeDefinition tryUpdate
      simp only [yields_run_bind, yields_run_liftQuery, ends_bind, ends_lift, theFactory_apply, hF, ends_modify,
        yields_run_liftState, note_apply, yields_run_liftEffect]
      exact yields_true_iff.2 fun _ _ _ => .inl trivial
  case registerAlias name altName =>
    refine refuses_answerQuery fun s => ?_
    unfold registerAlias
    simp only [ends_bind (q := liftM (theFactory f)), ends_lift, theFactory_apply]
    simp only [ends_bind (q := modify _), ends_modify]
    exact (ends_tryUpdate_bind_refused fun _ => rfl).mono fun _ _ =>
      Or.imp_right Session.Logs.writeNotices.trans
  case removeAlias altName => exact refuses_answerQuery fun s => ends_tryUpdate_refused
  case resolveAliases resolver =>
    exact refuses_answerQuery fun s => ends_tryUpdate_bind_refused fun _ => rfl
  case registerSingleton name source =>
    exact refuses_withSource fun i => refuses_answerQuery fun s => ends_tryUpdate_bind_refused fun _ => rfl
  case registerScope name label =>
    intro s
    change Yields True (get >>= fun s => withLabel label _ _) s _
    rw [yields_bind, yields_get]
    refine refuses_withLabel (fun k => refuses_answerQuery fun s => ?_) s
    unfold registerScope
    rw [ends_bind, ends_get]
    exact ends_tryUpdate_bind_refused fun _ => rfl
  case setParent label =>
    intro s
    change Yields True (get >>= fun s => withLabel label _ _) s _
    rw [yields_bind, yields_get]
    refine refuses_withLabel (fun p => refuses_answerQuery fun s => ?_) s
    unfold Ends
    obtain ⟨e, he⟩ | ⟨-, -, he⟩ := setParent_cases (s := s) (f := f) (p := p)
    · exact he ▸ .inr (.refl s)
    · exact he ▸ .inl rfl

/-- **What is refused leaves no trace, and a definition is refused for good reason only.**

Whenever one of these calls fails, whoever the collaborators are, nothing happened but that lines went to the
log and the instance to be handed over was made. A call that registers a definition with which something is
wrong fails; one with which nothing is wrong never does, and it is done where nobody calls back while singletons
are destroyed. -/
theorem callFactory_registration (env : Collaborators) (s : Session) (f : FactoryId) :
    (∀ call : FactoryCall, call.isRegistration = true → ∀ again a t,
      callFactory env again f call s = some (a, t) → a ≠ .done → s.Logs t) ∧
    ∀ name d,
      (¬ (s.factory f).Accepts name d → ∀ again, ∃ e,
        callFactory env again f (.register name d) s = some (.failed e, s)) ∧
      ((s.factory f).Accepts name d →
        (∀ again a t, callFactory env again f (.register name d) s = some (a, t) → a = .done) ∧
        (env.QuietEnds → f < s.factories.length → ∀ edges, (s.factory f).dependencies.Mirrors edges →
          ∀ depth, (s.factory f).definitions.size + (s.factory f).dependencies.dependents.size < depth →
            ∃ t, callFactory env (reentry env depth) f (.register name d) s = some (.done, t))) := by
  have hdone (name : String) (d : Definition) (hd : (s.factory f).Accepts name d) (again : Reentry) (a : Answer)
      (t : Session) (hrun : callFactory env again f (.register name d) s = some (a, t)) : a = .done := by
    have hends : Yields True (callFactory env again f (.register name d)) s fun a _ => a = .done := by
      change Yields True (answerAct _ _) s _
      rw [yields_answerAct_iff]
      refine (yields_registerDefinition_accepted hd).mono fun r _ hr => ?_
      rw [hr]
    exact yields_true_iff.1 hends a t hrun
  refine ⟨fun call hcall again a t hrun hne => ?_,
    fun name d => ⟨fun hd again => ?_, fun hd => ⟨hdone name d hd, ?_⟩⟩⟩
  · exact (yields_true_iff.1 (refuses_registration hcall s) a t hrun).resolve_left hne
  · have hends : Yields False (callFactory env again f (.register name d)) s
        fun a t => (∃ e, a = .failed e) ∧ t = s := by
      change Yields False (answerAct _ _) s _
      rw [yields_answerAct_iff]
      refine (yields_registerDefinition_refused hd).mono ?_
      rintro _ t ⟨⟨e, rfl⟩, rfl⟩
      exact ⟨⟨e, rfl⟩, rfl⟩
    obtain ⟨_, _, hrun, ⟨e, rfl⟩, rfl⟩ := yields_false_iff.1 hends
    exact ⟨e, hrun⟩
  · intro quiet hf edges mirrors depth hdepth
    have hends : Yields False (callFactory env (reentry env depth) f (.redefine name (some d))) s _ :=
      yields_redefine quiet hf mirrors hdepth
    obtain ⟨a, t, hrun, -⟩ := yields_false_iff.1 hends
    obtain rfl := hdone name d hd _ a t hrun
    exact ⟨t, hrun⟩

/-- A factory with a definition that has an alias, which has an alias itself. -/
def Session.byNickname : Session where
  factories :=
    [{ definitions := ⟨1, .ofList [("bean", {})]⟩
       aliases := { toMap := .ofList [("inner", "bean"), ("outer", "inner")] } }]

/-- Where one alias stands for another one, that one cannot be made to stand for the first; this leaves a line
in the log. A name cannot be that of a definition, either, if it is an alias; others can. -/
theorem callFactory_registration_byNickname :
    let env := Scripted.collaborators (fun k => ⟨k.label, none⟩) fun _ => none
    let s := Session.byNickname
    (∃ e t, callFactory env (reentry env 2) 0 (.registerAlias "outer" "inner") s = some (.failed e, t) ∧
      t.record.length = 1 ∧ s.Logs t) ∧
    (∃ e, callFactory env (reentry env 2) 0 (.register "inner" {}) s = some (.failed e, s)) ∧
    ∃ t, callFactory env (reentry env 2) 0 (.register "bean" {}) s = some (.done, t) := by
  intro env s
  obtain ⟨leaves, registers⟩ := callFactory_registration env s 0
  have taken : ¬ (s.factory 0).Accepts "inner" {} := fun h => absurd h.noAlias (by decide)
  have filled : Definition.Filled {} "bean" := ⟨by decide +kernel, by simp, by simp, by simp⟩
  have free : (s.factory 0).Accepts "bean" {} := ⟨filled, by decide, by decide, .inr rfl⟩
  refine ⟨?_, (registers "inner" {}).1 taken _, ((registers "bean" {}).2 free).2 Scripted.quietEnds (by decide)
    [] .empty 2 (by decide)⟩
  have hrun : (callFactory env (reentry env 2) 0 (.registerAlias "outer" "inner") s).any
      (fun r => r.1 matches .failed _ && r.2.record.length = 1) = true := by
    decide +kernel
  obtain ⟨⟨answer, t⟩, hcall, hfacts⟩ := (Option.any_eq_true ..).1 hrun
  simp only [Bool.and_eq_true, decide_eq_true_eq] at hfacts
  cases answer with
  | failed e =>
    exact ⟨e, t, hcall, hfacts.2, leaves (.registerAlias "outer" "inner") rfl _ _ t hcall fun h => by cases h⟩
  | _ => cases hfacts.1

end BeanContainer
