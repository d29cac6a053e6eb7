import BeanContainer.Proofs.Aliases
import BeanContainer.Proofs.Inheritance
import BeanContainer.Proofs.NamesApart

/-!
Dependencies that are recorded by name. Of the two names of an edge the bean's
is replaced by what it stands for, the dependent's is taken as it is. So a bean
may be given by any alias, when the edge is recorded and when it is asked
whether something depends on the bean; but an edge to an alias of the dependent is
one to a name under which there need not be a singleton, and nothing is destroyed
for it. The list of dependents is that of the name as it was given, too
(`recorded_by_name`).
-/

namespace BeanContainer

open Relation Session

variable {env : Collaborators} {again : Reentry} {s t : Session} {f : FactoryId} {b c d x y : String}

/-- A session after a dependency was recorded. -/
def Session.recording (s : Session) (f : FactoryId) (b d : String) : Session :=
  (s.addEdge f b d).writeNotices ((s.factory f).dependentNotices b d)

theorem callFactory_registerDependent :
    callFactory env again f (.registerDependent b d) s = some (.done, s.recording f b d) := rfl

theorem recording_congr (h : (s.factory f).canonical b = (s.factory f).canonical c) :
    s.recording f b d = s.recording f c d := by
  have hedge : (s.factory f).registerDependent b d = (s.factory f).registerDependent c d := by
    unfold Factory.registerDependent
    rw [h]
  have hnotices : (s.factory f).dependentNotices b d = (s.factory f).dependentNotices c d := by
    unfold Factory.dependentNotices
    rw [h]
  unfold Session.recording Session.addEdge
  rw [modifyFactory_eq_setFactory, modifyFactory_eq_setFactory, hedge, hnotices]

theorem factory_recording (hf : f < s.factories.length) :
    (s.recording f b d).factory f = (s.factory f).registerDependent b d := by
  unfold Session.recording
  rw [Remarks.writeNotices.factory, addEdge, factory_modifyFactory_self hf]

theorem edge_recording (hf : f < s.factories.length) : (s.recording f b d).edge f x y ↔
    s.edge f x y ∨ x = (s.factory f).canonical b ∧ y = d := by
  unfold Session.edge DependencyGraph.Edge
  rw [factory_recording hf]
  exact DependencyGraph.hasEdge_register

theorem mem_dependenciesOf_recording (hf : f < s.factories.length) : (s.factory f).canonical b ∈
    ((s.recording f b d).factory f).dependencies.dependenciesOf d := by
  rw [factory_recording hf]
  exact DependencyGraph.mem_edgesOf_link.2 (.inr ⟨rfl, rfl⟩)

/-- **A dependency is recorded between what the bean's name stands for and the dependent's name.**

By whichever name the bean is given, the same is recorded, and it is answered that the bean has the
dependent. But among the dependents of a name is only what was recorded for that name, so the new one is
not among those of an alias. When all singletons are destroyed next, by callbacks that do not call back,
the singleton that is cached under the dependent's name is destroyed before the one that is cached under
what the bean's name stands for, unless the former is needed by the latter in turn. -/
theorem recorded_by_name (quiet : env.QuietEnds) (hf : f < s.factories.length)
    (acyclic : (s.factory f).aliases.Acyclic) (b d : String) :
    let c := (s.factory f).canonical b
    (s.factory f).canonical c = c ∧ ∃ t,
      (∀ a, (s.factory f).canonical a = c → ∀ again,
        callFactory env again f (.registerDependent a d) s = some (.done, t) ∧
        callFactory env again f (.isDependent a d) t = some (.flag true, t)) ∧
      (∀ x y, t.edge f x y ↔ s.edge f x y ∨ x = c ∧ y = d) ∧
      (∀ a again, ∃ names, callFactory env again f (.dependents a) t = some (.names names, t) ∧
        (d ∈ names ↔ a = c ∨ s.edge f a d)) ∧
      (∀ again, ∃ names, callFactory env again f (.dependencies d) t = some (.names names, t) ∧ c ∈ names) ∧
      ∀ depth, (t.factory f).dependencies.dependents.size ≤ depth → ¬ TransGen (t.edge f) d c →
        (s.singleton? f c).isSome → (s.singleton? f d).isSome → ∃ (ran : List Destruction) (u : Session),
          callFactory env (reentry env depth) f .destroySingletons t =
            some (answerFailures (ran.filterMap Destruction.error?), u) ∧
          u.record.filter Occurrence.isDestruction =
            (ran.flatMap Destruction.occurrences).reverse ++ t.record.filter Occurrence.isDestruction ∧
          (ran.map fun x => (x.name, x.victim)).Perm (s.factory f).singletons.objects.entries ∧
          Precedes (ran.map Destruction.name) d c := by
  intro c
  have hedge (x y) : (s.recording f b d).edge f x y ↔ s.edge f x y ∨ x = c ∧ y = d := edge_recording hf
  have hnew : (s.recording f b d).edge f c d := (hedge c d).2 (.inr ⟨rfl, rfl⟩)
  have hfactory := factory_recording (b := b) (d := d) hf
  have hcanonical : ((s.recording f b d).factory f).canonical = (s.factory f).canonical := by
    rw [hfactory]
    rfl
  have hsingletons : ((s.recording f b d).factory f).singletons = (s.factory f).singletons := by
    rw [hfactory]
    rfl
  refine ⟨AliasMap.canonical_canonical acyclic b, s.recording f b d, fun a ha again => ⟨?_, ?_⟩, hedge,
    fun a again => ⟨_, rfl, ?_⟩, fun again => ⟨_, rfl, mem_dependenciesOf_recording hf⟩, ?_⟩
  · rw [callFactory_registerDependent, recording_congr ha]
  · have hdepends : ((s.recording f b d).factory f).isDependent a d = true := by
      rw [Factory.isDependent, hcanonical, ha, DependencyGraph.isDependent_iff_transGen]
      exact .single hnew
    change some (Answer.flag (((s.recording f b d).factory f).isDependent a d), _) = _
    rw [hdepends]
  · rw [DependencyGraph.mem_dependentsOf]
    exact (hedge a d).trans ⟨fun h => h.symm.imp And.left id, fun h => h.symm.imp id fun h => ⟨h, rfl⟩⟩
  · intro depth hdepth back hc hd
    have hlen : f < (s.recording f b d).factories.length := by
      rw [Session.recording, Remarks.writeNotices.factories, addEdge, length_modifyFactory]
      exact hf
    obtain ⟨ran, u, hrun, h⟩ := tornDown_callFactory quiet hlen hdepth
    refine ⟨ran, u, hrun, h.record, hsingletons ▸ h.once, h.order (.single hnew back) ?_ ?_⟩
    · rwa [Session.singleton?, hsingletons]
    · rwa [Session.singleton?, hsingletons]

/-- The bean whose destruction begins with an occurrence. -/
def Occurrence.victim? : Occurrence → Option String
  | destroying name _ => some name
  | _ => none

theorem Precedes.sublist {α : Type} {l : List α} {a b : α} (h : Precedes l a b) : [a, b].Sublist l := by
  obtain ⟨pre, mid, post, rfl⟩ := h
  simp

/-- Two singletons, each with an alias. -/
def Session.nicknamed : Session where
  factories :=
    [{ singletons := { objects := .ofList [("user", ⟨0, "user", .closer⟩), ("base", ⟨1, "base", .closer⟩)] }
       aliases := ⟨.ofList [("b", "base"), ("u", "user")]⟩ }]
  made := [(⟨0, "user", .closer⟩, {}), (⟨1, "base", .closer⟩, {})]
  factoryLabels := .ofList [("main", 0)]

theorem acyclic_nicknamed : (Session.nicknamed.factory 0).aliases.Acyclic := by
  have hbase : AliasMap.Acyclic ⟨.ofList [("b", "base")]⟩ :=
    AliasMap.acyclic_empty.register (show AliasMap.register {} "base" "b" true = .ok _ by decide +kernel)
  exact hbase.register (show AliasMap.register _ "user" "u" true = .ok _ by decide +kernel)

/-- The bean is given by its alias, the dependent by its name. -/
theorem recorded_by_name_nicknamed : quietly.QuietEnds ∧ 0 < Session.nicknamed.factories.length ∧
    (Session.nicknamed.factory 0).aliases.Acyclic ∧ ∃ t names other,
      callFactory quietly (reentry quietly 1) 0 (.registerDependent "b" "user") .nicknamed = some (.done, t) ∧
      callFactory quietly (reentry quietly 1) 0 (.dependents "base") t = some (.names names, t) ∧
      "user" ∈ names ∧ callFactory quietly (reentry quietly 1) 0 (.dependents "b") t = some (.names other, t) ∧
      "user" ∉ other ∧ ∃ (ran : List Destruction) (u : Session) (answer : Answer),
        callFactory quietly (reentry quietly 1) 0 .destroySingletons t = some (answer, u) ∧
        Precedes (ran.map Destruction.name) "user" "base" := by
  have quiet : quietly.QuietEnds := Scripted.quietEnds
  have hf : 0 < Session.nicknamed.factories.length := by decide
  have hbase : (Session.nicknamed.factory 0).canonical "b" = "base" := by decide +kernel
  have hnone (x y : String) : ¬ Session.nicknamed.edge 0 x y := DependencyGraph.not_hasEdge_empty
  obtain ⟨-, t, hsame, hedge, hdependents, -, hdestroy⟩ :=
    recorded_by_name quiet hf acyclic_nicknamed "b" "user"
  rw [hbase] at hsame hedge hdependents hdestroy
  obtain ⟨names, hnames, huser⟩ := hdependents "base" (reentry quietly 1)
  obtain ⟨other, hother, hnot⟩ := hdependents "b" (reentry quietly 1)
  have hrecorded := (hsame "b" hbase (reentry quietly 1)).1
  have hback : ¬ TransGen (t.edge 0) "user" "base" := by
    intro h
    obtain ⟨x, hx, -⟩ := TransGen.head'_iff.1 h
    exact ((hedge _ _).1 hx).elim (hnone _ _) fun h => absurd h.1 (by decide)
  have hdepth : (t.factory 0).dependencies.dependents.size ≤ 1 := by
    have ht : t = Session.nicknamed.recording 0 "b" "user" :=
      (Prod.ext_iff.1 (Option.some.inj hrecorded)).2.symm
    rw [ht]
    decide +kernel
  obtain ⟨ran, u, hrun, -, -, horder⟩ := hdestroy 1 hdepth hback (by decide +kernel) (by decide +kernel)
  refine ⟨quiet, hf, acyclic_nicknamed, t, names, other, hrecorded, hnames, huser.2 (.inl rfl), hother,
    fun h => ?_, ran, u, _, hrun, horder⟩
  exact (hnot.1 h).elim (by decide) (hnone _ _)

/-- Neither is the new dependent listed for an alias of the bean, nor is a dependent that was given by an
alias destroyed first. -/
theorem not_recorded_by_alias : ¬ ∀ (env : Collaborators) (s t u : Session) (b d : String) (i j : Instance)
    (answer : Answer) (depth : Nat), env.QuietEnds → Run env .initial s → (s.factory 0).aliases.Acyclic →
    (∀ x y, ¬ s.edge 0 x y) →
    callFactory env (reentry env depth) 0 (.registerDependent b d) s = some (.done, t) →
    callFactory env (reentry env depth) 0 .destroySingletons t = some (answer, u) →
    s.singleton? 0 ((s.factory 0).canonical b) = some i → s.singleton? 0 ((s.factory 0).canonical d) = some j →
      (∃ names, callFactory env (reentry env depth) 0 (.dependents b) t = some (.names names, t) ∧ d ∈ names) ∧
      Precedes u.record (.destroying ((s.factory 0).canonical b) i)
        (.destroying ((s.factory 0).canonical d) j) := by
  intro claim
  have hfacts : (performAll quietly (keepingAliases 0) (keepingAliases 0) 1
      [.on "main" (.registerSingleton "user" (.fresh {})), .on "main" (.registerSingleton "base" (.fresh {})),
        .on "main" (.registerAlias "base" "b"), .on "main" (.registerAlias "user" "u")] .initial).any (fun s =>
      (s.factory 0).dependencies = {} && (s.factory 0).canonical "b" = "base" &&
      (s.factory 0).canonical "u" = "user" && (s.singleton? 0 "base").isSome &&
      (s.singleton? 0 "user").isSome &&
        (callFactory quietly (reentry quietly 1) 0 .destroySingletons (s.recording 0 "b" "u")).any fun (_, v) =>
          v.record.filterMap Occurrence.victim? = ["user", "base"]) = true := by
    decide +kernel
  obtain ⟨s, hs, hfacts⟩ := (Option.any_eq_true ..).1 hfacts
  simp only [Bool.and_eq_true, decide_eq_true_eq] at hfacts
  obtain ⟨⟨⟨⟨⟨hedges, hbase⟩, huser⟩, hcachedBase⟩, hcachedUser⟩, hdestroyed⟩ := hfacts
  obtain ⟨i, hi⟩ := Option.isSome_iff_exists.1 hcachedBase
  obtain ⟨j, hj⟩ := Option.isSome_iff_exists.1 hcachedUser
  obtain ⟨⟨answer, v⟩, hv, horder⟩ := (Option.any_eq_true ..).1 hdestroyed
  have run := permittedRun_performAll hs
  have hnone (x y : String) : ¬ s.edge 0 x y := by
    rw [Session.edge, hedges]
    exact DependencyGraph.not_hasEdge_empty
  have acyclic := (run.namesApart (by decide) namesApart_new).1.acyclic
  obtain ⟨-, hprecedes⟩ := claim quietly s _ v "b" "u" i j answer 1 Scripted.quietEnds run.run acyclic hnone
    callFactory_registerDependent hv (hbase.symm ▸ hi) (huser.symm ▸ hj)
  rw [hbase, huser] at hprecedes
  have hsublist : ["base", "user"].Sublist (v.record.filterMap Occurrence.victim?) :=
    hprecedes.sublist.filterMap Occurrence.victim?
  rw [of_decide_eq_true horder] at hsublist
  exact absurd hsublist (by decide)

end BeanContainer
