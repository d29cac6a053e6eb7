import BeanContainer.Proofs.NamesApart

/-!
Frozen factories that reject changes. No definition of such a factory is taken
up or dropped, so nothing is reset there, and the merges that are cached stay
(`Factory.StepWithin.holds`). Whatever is asked of the session from then on, by whom
it may be, the factory stays frozen with the definitions that it has, as long as
it takes over nobody's configuration (`sealed_for_good`).
-/

namespace BeanContainer

open Relation Session

/-- A factory that is frozen and rejects changes of its definitions. -/
structure Factory.Sealed (F : Factory) : Prop where
  frozen : F.frozen = true
  rejects : F.settings.rejectMutationAfterFreeze = true

variable {F F' : Factory} {name n : String} {s t u : Session} {f : FactoryId} {p : FactoryCall → Bool}

/-! ## Changes that are refused -/

namespace Factory.Sealed

theorem ensureMutable (h : F.Sealed) : F.ensureMutable name = .error (.illegalState (.frozen name)) := by
  rw [Factory.ensureMutable, h.frozen, h.rejects]
  rfl

/-- A definition that would be taken up by a factory that is not frozen is refused as such. -/
theorem define_eq (h : F.Sealed) {d : Definition} :
    F.define name d = Factory.validate name d >>= fun _ => .error (.illegalState (.frozen name)) := by
  rw [Factory.define, h.ensureMutable]
  rfl

theorem undefine_eq (h : F.Sealed) : F.undefine name = .error (.illegalState (.frozen name)) := by
  rw [Factory.undefine, h.ensureMutable]
  rfl

theorem define_eq_error (h : F.Sealed) (name : String) (d : Definition) : ∃ e, F.define name d = .error e ∧
    (Factory.validate name d = .ok () → e = .illegalState (.frozen name)) := by
  rw [h.define_eq]
  cases hv : Factory.validate name d with
  | error e => exact ⟨e, rfl, nofun⟩
  | ok _ => exact ⟨_, rfl, fun _ => rfl⟩

end Factory.Sealed

variable {env : Collaborators} {again : Reentry}

theorem callFactory_register_sealed (h : (s.factory f).Sealed) (d : Definition) :
    ∃ e, callFactory env again f (.register name d) s = some (.failed e, s) ∧
      (Factory.validate name d = .ok () → e = .illegalState (.frozen name)) := by
  obtain ⟨e, he, hfrozen⟩ := h.define_eq_error name d
  have hfails : Yields False (callFactory env again f (.register name d)) s
      fun answer t => answer = .failed e ∧ t = s := by
    unfold callFactory answerAct
    rw [yields_bind]
    exact yields_registerDefinition_error he ⟨rfl, rfl⟩
  obtain ⟨_, _, hrun, rfl, rfl⟩ := yields_false_iff.1 hfails
  exact ⟨e, hrun, hfrozen⟩

theorem callFactory_remove_sealed (h : (s.factory f).Sealed) :
    callFactory env again f (.remove name) s = some (.failed (.illegalState (.frozen name)), s) := by
  have hfails : Yields False (callFactory env again f (.remove name)) s
      fun answer t => answer = .failed (.illegalState (.frozen name)) ∧ t = s := by
    unfold callFactory answerAct
    rw [yields_bind]
    exact yields_removeDefinition_error h.undefine_eq ⟨rfl, rfl⟩
  obtain ⟨_, _, hrun, rfl, rfl⟩ := yields_false_iff.1 hfails
  exact hrun

/-! ## What stays -/

/-- Whether a call leaves the settings of its factory alone, other than those that it is about. -/
def FactoryCall.keepsSettings : FactoryCall → Bool
  | copyConfiguration _ => false
  | _ => true

/-- Whether a call lets the merges that its factory has cached stand, and what its names stand for. -/
def FactoryCall.keepsMerges : FactoryCall → Bool
  | copyConfiguration _ | resolveAliases _ | clearCache | cacheMetadata false => false
  | _ => true

theorem FactoryCall.keepsSettings_of_keepsMerges {call : FactoryCall} (h : call.keepsMerges = true) :
    call.keepsSettings = true := by
  cases call <;> first | rfl | cases h

theorem Factory.StepWithin.sealed (hp : ∀ call, p call = true → call.keepsSettings = true)
    (hstep : F.StepWithin p False F') (h : F.Sealed) : F'.Sealed ∧ F'.definitions = F.definitions := by
  have same (frozen : F'.frozen = F.frozen)
      (settings : F'.settings.rejectMutationAfterFreeze = F.settings.rejectMutationAfterFreeze)
      (definitions : F'.definitions = F.definitions) : F'.Sealed ∧ F'.definitions = F.definitions :=
    ⟨⟨frozen.trans h.frozen, settings.trans h.rejects⟩, definitions⟩
  cases hstep with
  | core hcore =>
    exact same (congrArg Factory.frozen hcore :)
      (congrArg (fun F => F.settings.rejectMutationAfterFreeze) hcore :)
      (congrArg Factory.definitions hcore :)
  | keepMerge => exact same rfl rfl rfl
  | redefine hR => exact hR.elim
  | takeOver hcall => cases hp _ hcall
  | does hcall hd =>
    cases hd with
    | registerAlias hd | loadAlias hd =>
      obtain ⟨_, rfl⟩ := registerAlias_spec hd
      exact same rfl rfl rfl
    | removeAlias hd =>
      obtain ⟨_, rfl⟩ := removeAlias_spec hd
      exact same rfl rfl rfl
    | resolveAliases hd =>
      obtain ⟨_, rfl⟩ := resolveAliases_spec hd
      exact same rfl rfl rfl
    | freeze => exact ⟨⟨rfl, h.rejects⟩, rfl⟩
    | cacheMetadata | clearCache | setInCreation | configure => exact same rfl rfl rfl

/-- A factory caches merges, and defines a name that is no alias. -/
structure Factory.Holds (F : Factory) (n : String) : Prop where
  caches : F.settings.cacheMetadata = true
  defines : F.definitions.contains n = true
  noAlias : F.aliases.isAlias n = false

theorem Factory.StepWithin.holds (hp : ∀ call, p call = true → call.keepsMerges = true)
    (hstep : F.StepWithin p False F') (h : F.Holds n) :
    F'.Holds n ∧ ∀ ref, F.merged.get? n = some ref → F'.merged.get? n = some ref := by
  have same (caches : F'.settings.cacheMetadata = F.settings.cacheMetadata)
      (definitions : F'.definitions = F.definitions) (aliases : F'.aliases = F.aliases)
      (merged : ∀ ref, F.merged.get? n = some ref → F'.merged.get? n = some ref) :
      F'.Holds n ∧ ∀ ref, F.merged.get? n = some ref → F'.merged.get? n = some ref :=
    ⟨⟨caches.trans h.caches, definitions ▸ h.defines, aliases ▸ h.noAlias⟩, merged⟩
  -- Aliases of the name itself are not registered, as it is that of a definition.
  have aliased {aliases : AliasMap} (hfew : ∀ x, aliases.StandsFor n x → F.aliases.StandsFor n x) :
      Factory.Holds { F with aliases } n :=
    ⟨h.caches, h.defines, AliasMap.not_isAlias_iff.2 fun x hx =>
      AliasMap.not_isAlias_iff.1 h.noAlias x (hfew x hx)⟩
  have registered {name altName : String} (hd : F.registerAlias name altName = .ok F') :
      F'.Holds n ∧ ∀ ref, F.merged.get? n = some ref → F'.merged.get? n = some ref := by
    obtain ⟨hfree, aliases, hr, rfl⟩ := registerAlias_eq_ok hd
    refine ⟨aliased fun x hx => ?_, fun _ hm => hm⟩
    obtain rfl | rfl | ⟨hne, -, rfl⟩ := AliasMap.register_cases hr
    · exact hx
    · exact (AliasMap.standsFor_erase.1 hx).2
    · obtain ⟨rfl, -⟩ | ⟨-, hold⟩ := AliasMap.standsFor_insert.1 hx
      · exact absurd ((hfree hne).symm.trans h.defines) Bool.false_ne_true
      · exact hold
  cases hstep with
  | core hcore =>
    have hmerged : F'.merged = F.merged := (congrArg Factory.merged hcore :)
    exact same (congrArg (fun F => F.settings.cacheMetadata) hcore :)
      (congrArg Factory.definitions hcore :) (congrArg Factory.aliases hcore :) fun _ hm => hmerged ▸ hm
  | @keepMerge name _ _ hnone =>
    refine same rfl rfl rfl fun ref hm => ?_
    refine (OrderedMap.get?_insert_of_ne ?_).trans hm
    rintro rfl
    cases hnone.symm.trans hm
  | redefine hR => exact hR.elim
  | takeOver hcall => cases hp _ hcall
  | does hcall hd =>
    cases hd with
    | registerAlias hd | loadAlias hd => exact registered hd
    | removeAlias hd =>
      obtain rfl := removeAlias_eq_ok hd
      exact ⟨aliased fun _ hx => (AliasMap.standsFor_erase.1 hx).2, fun _ hm => hm⟩
    | resolveAliases | clearCache => cases hp _ hcall
    | @cacheMetadata value =>
      cases value with
      | true => exact ⟨⟨rfl, h.defines, h.noAlias⟩, fun _ hm => hm⟩
      | false => cases hp _ hcall
    | freeze | setInCreation | configure => exact same rfl rfl rfl fun _ hm => hm

/-! ## Merges that are cached -/

theorem run_mergeLocal_cached {above : Option (String → Query MergedRef)} {ref : MergedRef}
    (h : (s.factory f).merged.get? n = some ref) : (mergeLocal f above n).run s = (.ok ref, s) := by
  have hline : (s.factory f).lineage n = .cached ref := by
    unfold Factory.lineage Factory.walk
    simp [h]
  unfold mergeLocal
  rw [run_bind]
  change (mergeAlong f above ((s.factory f).lineage n)).run s = _
  rw [hline]
  rfl

theorem run_mergedOwn_cached {ref : MergedRef} (h : (s.factory f).merged.get? n = some ref) :
    (mergedOwn f n).run s = (.ok ref, s) :=
  ends_mergedOwn_of_local (Q := fun r t => (r, t) = (.ok ref, s)) fun _ => run_mergeLocal_cached h

theorem cached_mergedDefinition (hf : f < s.factories.length) (h : (s.factory f).Holds n) :
    Ends (mergedDefinition f n) s fun r t => ∀ ref, r = .ok ref → (t.factory f).merged.get? n = some ref := by
  have hcanonical : (s.factory f).canonical n = n := canonical_of_not_isAlias h.noAlias
  have hown := cached_mergedOwn (n := n) hf h.caches
  unfold Ends at hown ⊢
  rwa [(reaches_of_defines hf h.defines hcanonical).merged]

theorem run_mergedDefinition_cached {ref : MergedRef} (hf : f < s.factories.length)
    (h : (s.factory f).Holds n) (hm : (s.factory f).merged.get? n = some ref) :
    (mergedDefinition f n).run s = (.ok ref, s) := by
  have hcanonical : (s.factory f).canonical n = n := canonical_of_not_isAlias h.noAlias
  rw [(reaches_of_defines hf h.defines hcanonical).merged]
  exact run_mergedOwn_cached hm

/-! ## From one session to another -/

/-- From one session to another there were any changes, except of the definitions of a factory, and by
its calls without `p`. -/
def Session.Spares (f : FactoryId) (p : FactoryCall → Bool) : Session → Session → Prop :=
  ReflTransGen (Session.ChangeWithin {g | g ≠ f} (restricting f p))

theorem Factory.Sealed.lt (h : (s.factory f).Sealed) : f < s.factories.length := by
  by_contra hlen
  rw [factory_of_length_le (Nat.le_of_not_lt hlen)] at h
  cases h.frozen

theorem Session.ChangeWithin.step_spared (h : s.ChangeWithin {g | g ≠ f} (restricting f p) t)
    (hs : (s.factory f).Sealed) : (s.factory f).StepWithin p False (t.factory f) := by
  have hstep := h.step hs.lt
  have hp : restricting f p f = p := funext fun _ => restricting_self
  have hR : (f ∈ {g | g ≠ f}) = False := eq_false fun h => h rfl
  rwa [hp, hR] at hstep

variable (hp : ∀ call, p call = true → call.keepsSettings = true)
include hp

theorem lasting_sealed : Lasting (fun s => (s.factory f).Sealed) {g | g ≠ f} (restricting f p) where
  step hs h := ((h.step_spared hs).sealed hp hs).1
  refuses {g call} hg _ _ s hs := by
    obtain rfl : g = f := of_not_not hg
    exact ⟨fun name d => (hs.define_eq_error name d).imp fun _ he => he.1, fun name => ⟨_, hs.undefine_eq⟩⟩
  fresh hs := ⟨(Nat.ne_of_gt hs.lt), fun _ => restricting_of_ne (Nat.ne_of_gt hs.lt)⟩

theorem Session.Spares.sealed (h : s.Spares f p t) (hs : (s.factory f).Sealed) :
    (t.factory f).Sealed ∧ (t.factory f).definitions = (s.factory f).definitions := by
  induction h with
  | refl => exact ⟨hs, rfl⟩
  | tail _ h ih =>
    obtain ⟨ht, hdef⟩ := (h.step_spared ih.1).sealed hp ih.1
    exact ⟨ht, hdef.trans ih.2⟩

omit hp in
theorem Session.Spares.holds (hp : ∀ call, p call = true → call.keepsMerges = true) (h : s.Spares f p t)
    (hs : (s.factory f).Sealed) (hold : (s.factory f).Holds n) :
    (t.factory f).Holds n ∧
      ∀ ref, (s.factory f).merged.get? n = some ref → (t.factory f).merged.get? n = some ref := by
  induction h with
  | refl => exact ⟨hold, fun _ hm => hm⟩
  | @tail u t hsu h ih =>
    have hu : (u.factory f).Sealed :=
      (Session.Spares.sealed (fun _ hc => FactoryCall.keepsSettings_of_keepsMerges (hp _ hc)) hsu hs).1
    obtain ⟨ht, hkept⟩ := (h.step_spared hu).holds hp ih.1
    exact ⟨ht, fun ref hm => hkept ref (ih.2 ref hm)⟩

theorem PermittedRun.spares (hs : (s.factory f).Sealed)
    (run : PermittedRun env (restricting f p) (restricting f p) s t) : s.Spares f p t :=
  (lasting_sealed hp).changes hs run

theorem spares_mergedDefinition (hs : (s.factory f).Sealed) :
    Ends (mergedDefinition f n) s fun _ t => s.Spares f p t :=
  (lasting_sealed hp).covers.making.merges hs trivial

omit hp

/-- **A frozen factory that rejects changes stays as it is.**

As long as a factory does not take over a configuration, it stays frozen whatever is asked of the
session, and has the same definitions in the same order and of the same generation. Everything that
happens in such a run spares the factory, also what collaborators do meanwhile; and whenever it is asked
to register or to remove a definition, by whom it may be, that fails and nothing happens.

A name that is that of a definition, but no alias, is always answered with the same merge once it was
answered with one, where merges are cached: as long as the aliases are not all resolved and the cached
merges are not all dropped. -/
theorem sealed_for_good (env : Collaborators) (hs : (s.factory f).Sealed) :
    (∀ v t, s.Spares f FactoryCall.keepsSettings v →
      PermittedRun env (restricting f FactoryCall.keepsSettings) (restricting f FactoryCall.keepsSettings) v t →
        s.Spares f FactoryCall.keepsSettings t) ∧
    (∀ t, s.Spares f FactoryCall.keepsSettings t →
      (t.factory f).Sealed ∧ (t.factory f).definitions = (s.factory f).definitions ∧
      ∀ again name,
        (∀ d, ∃ e, callFactory env again f (.register name d) t = some (.failed e, t) ∧
          (Factory.validate name d = .ok () → e = .illegalState (.frozen name))) ∧
        callFactory env again f (.remove name) t = some (.failed (.illegalState (.frozen name)), t)) ∧
    ((∀ v t, s.Spares f FactoryCall.keepsMerges v →
      PermittedRun env (restricting f FactoryCall.keepsMerges) (restricting f FactoryCall.keepsMerges) v t →
        s.Spares f FactoryCall.keepsMerges t) ∧
    ∀ n, (s.factory f).Holds n → ∀ t ref t', s.Spares f FactoryCall.keepsMerges t →
      (mergedDefinition f n).run t = (.ok ref, t') → t.Spares f FactoryCall.keepsMerges t' ∧
        ∀ u, t'.Spares f FactoryCall.keepsMerges u → (mergedDefinition f n).run u = (.ok ref, u)) := by
  have hsettings : ∀ call : FactoryCall, call.keepsSettings = true → call.keepsSettings = true := fun _ => id
  have hmerges : ∀ call : FactoryCall, call.keepsMerges = true → call.keepsSettings = true :=
    fun _ => FactoryCall.keepsSettings_of_keepsMerges
  refine ⟨fun v t hsv run => ?_, fun t hst => ?_, fun v t hsv run => ?_, ?_⟩
  · exact hsv.trans (run.spares hsettings (hsv.sealed hsettings hs).1)
  · obtain ⟨ht, hdef⟩ := hst.sealed hsettings hs
    exact ⟨ht, hdef, fun again name => ⟨fun d => callFactory_register_sealed ht d, callFactory_remove_sealed ht⟩⟩
  · exact hsv.trans (run.spares hmerges (hsv.sealed hmerges hs).1)
  · intro n hold t ref t' hst hasked
    have ht := (hst.sealed hmerges hs).1
    have holds_t := (hst.holds (fun _ => id) hs hold).1
    have htt' : t.Spares f FactoryCall.keepsMerges t' := by
      have h : Ends (mergedDefinition f n) t fun _ t' => t.Spares f FactoryCall.keepsMerges t' :=
        spares_mergedDefinition hmerges ht
      rwa [Ends, hasked] at h
    have hcached : (t'.factory f).merged.get? n = some ref := by
      have h := cached_mergedDefinition ht.lt holds_t
      rw [Ends, hasked] at h
      exact h ref rfl
    refine ⟨htt', fun u htu => ?_⟩
    have ht' := (htt'.sealed hmerges ht).1
    have holds_t' := (htt'.holds (fun _ => id) ht holds_t).1
    obtain ⟨holds_u, hkept⟩ := htu.holds (fun _ => id) ht' holds_t'
    exact run_mergedDefinition_cached (htu.sealed hmerges ht').1.lt holds_u (hkept ref hcached)

/-- Collaborators that follow written instructions, where a text asks for a definition to be registered
under this name, and nothing for the definition of `bean` to be removed. -/
def intruders : Collaborators :=
  Scripted.collaborators (fun k => ⟨k.label, none⟩) fun
    | .text name => some ("register", .on "main" (.register name {}))
    | .null => some ("remove", .on "main" (.remove "bean"))
    | _ => none

/-- A frozen factory with one definition, whose singleton asks for changes when it is destroyed. -/
def Session.vault : Session where
  factories :=
    [{ frozen := true
       definitions := ⟨1, .ofList [("bean", {})]⟩
       singletons := { objects := .ofList [("bean", ⟨0, "bean", .closer⟩)] }
       constructor := some .direct }]
  made := [(⟨0, "bean", .closer⟩, { destroySteps := [.text "bean", .text "other", .null] })]
  factoryLabels := .ofList [("main", 0)]

/-- The singleton is destroyed and made again, and the merge of its definition stays the same. -/
theorem sealed_for_good_vault :
    let permitted := restricting 0 FactoryCall.keepsMerges
    (Session.vault.factory 0).Sealed ∧ (Session.vault.factory 0).Holds "bean" ∧
      ∃ ref t u, (mergedDefinition 0 "bean").run .vault = (.ok ref, t) ∧
        PermittedRun intruders permitted permitted t u ∧ u.made.length = 2 ∧
        (u.factory 0).definitions = (Session.vault.factory 0).definitions ∧
        (mergedDefinition 0 "bean").run u = (.ok ref, u) := by
  intro permitted
  have hs : (Session.vault.factory 0).Sealed := ⟨rfl, rfl⟩
  have hold : (Session.vault.factory 0).Holds "bean" := ⟨rfl, by decide +kernel, rfl⟩
  have hmerges : ∀ call : FactoryCall, call.keepsMerges = true → call.keepsSettings = true :=
    fun _ => FactoryCall.keepsSettings_of_keepsMerges
  have hrun : (((mergedDefinition 0 "bean").run .vault).1.toOption.isSome &&
      (performAll intruders permitted permitted 3
        [.on "main" .destroySingletons, .on "main" (.registerAlias "bean" "other"),
          .on "main" (.get "other"), .on "main" (.register "other" {})]
        ((mergedDefinition 0 "bean").run .vault).2).any fun u => u.made.length = 2) = true := by
    decide +kernel
  obtain ⟨hmerged, hall⟩ := Bool.and_eq_true_iff.1 hrun
  obtain ⟨u, hu, hmade⟩ := (Option.any_eq_true ..).1 hall
  cases hasked : (mergedDefinition 0 "bean").run .vault with
  | mk r t =>
    rw [hasked] at hmerged hu
    cases r with
    | error e => cases hmerged
    | ok ref =>
      obtain ⟨-, -, hruns, hsame⟩ := sealed_for_good intruders hs
      obtain ⟨hvt, hagain⟩ := hsame "bean" hold .vault ref t .refl hasked
      have ht := (hvt.sealed hmerges hs).1
      have run := permittedRun_performAll hu
      have htu := run.spares hmerges ht
      exact ⟨hs, hold, ref, t, u, rfl, run, by simpa using hmade,
        (Session.Spares.sealed hmerges (hvt.trans htu) hs).2, hagain u htu⟩

/-- A name that came to be an alias of another one, although it is that of a definition, is answered with
the other one's merge until the alias is removed. -/
theorem not_same_merge_of_alias : ¬ ∀ (env : Collaborators) (s t u v : Session) (ref ref' : MergedRef),
    Run env .initial s → (s.factory 0).Sealed → (s.factory 0).settings.cacheMetadata = true →
      s.Defines 0 "bean" → (mergedDefinition 0 "bean").run s = (.ok ref, t) →
      PermittedRun env (restricting 0 FactoryCall.keepsMerges) (restricting 0 FactoryCall.keepsMerges) t u →
      (mergedDefinition 0 "bean").run u = (.ok ref', v) → ref' = ref := by
  intro claim
  let all : FactoryId → FactoryCall → Bool := fun _ _ => true
  let permitted := restricting 0 FactoryCall.keepsMerges
  have hfacts : (performAll intruders all all 1
      [.on "main" (.register "other" {}), .on "main" (.registerAlias "other" "placeholder"),
        .on "main" (.register "bean" {}),
        .on "main" (.resolveAliases fun v => some (if v = "placeholder" then "bean" else v)),
        .on "main" .freeze] .initial).any (fun s =>
      ((s.factory 0).frozen && (s.factory 0).settings.rejectMutationAfterFreeze &&
      (s.factory 0).settings.cacheMetadata && (s.factory 0).definitions.contains "bean") &&
      ((mergedDefinition 0 "bean").run s).1.toOption.any fun ref =>
        (performAll intruders permitted permitted 1 [.on "main" (.removeAlias "bean")]
          ((mergedDefinition 0 "bean").run s).2).any fun u =>
            ((mergedDefinition 0 "bean").run u).1.toOption.any fun ref' => ref' ≠ ref) = true := by
    decide +kernel
  obtain ⟨s, hs, hfacts⟩ := (Option.any_eq_true ..).1 hfacts
  obtain ⟨hstate, hmerged⟩ := Bool.and_eq_true_iff.1 hfacts
  obtain ⟨ref, href, hafter⟩ := (Option.any_eq_true ..).1 hmerged
  obtain ⟨u, hu, hlater⟩ := (Option.any_eq_true ..).1 hafter
  obtain ⟨ref', href', hne⟩ := (Option.any_eq_true ..).1 hlater
  simp only [Bool.and_eq_true, decide_eq_true_eq] at hstate hne
  obtain ⟨⟨⟨hfrozen, hrejects⟩, hcaches⟩, hdefines⟩ := hstate
  refine hne (claim intruders s _ u _ ref ref' (permittedRun_performAll hs).run ⟨hfrozen, hrejects⟩ hcaches
    hdefines (Prod.ext (eq_ok_of_toOption href) rfl) (permittedRun_performAll hu)
    (Prod.ext (eq_ok_of_toOption href') rfl))

end BeanContainer
