import BeanContainer.Proofs.MergedCache

/-!
What a definition gets from those above it. A field that it leaves open comes
from its parent's merge, and then the value resolvers are applied to it, as they
were when the parent was merged: once for each step up the line of parents
(`Upkeep.inherited_eq`). So a definition has its parent's scope and its parent's
dependencies, provided that the resolvers leave alone what they have resolved;
the last part shows that this is not said for nothing.
-/

namespace BeanContainer

open Relation Session

/-- Whether a definition leaves its scope open. -/
def Definition.LeavesScope (d : Definition) : Prop := d.scope = none ∨ d.scope = some ""

/-- Whether a definition leaves its dependencies open. -/
def Definition.LeavesDependencies (d : Definition) : Prop := d.dependsOn = none

namespace Factory

variable {F : Factory} {up : String → MergedDefinition → Prop} {leaves : Definition → Prop}
  {n a : String} {k : Nat} {m : MergedDefinition} {α : Type}

/-! ## Settling a field -/

/-- What becomes of a scope when a merge is settled. -/
def settledScope (F : Factory) (scope : String) : String :=
  if scope = "" then "" else (resolveThrough F.resolvers scope).getD ""

/-- What becomes of dependencies when a merge is settled. -/
def settledNames (F : Factory) (names : List String) : List String :=
  names.filterMap (resolveThrough F.resolvers)

theorem settledScope_of_isEmpty (h : F.resolvers.isEmpty = true) {scope : String} :
    F.settledScope scope = scope := by
  simp only [settledScope, List.isEmpty_iff.1 h, resolveThrough, List.foldlM_nil]
  split
  · rename_i e
    exact e.symm
  · rfl

theorem settledNames_of_isEmpty (h : F.resolvers.isEmpty = true) {names : List String} :
    F.settledNames names = names := by
  rw [settledNames, List.isEmpty_iff.1 h]
  exact List.filterMap_some

/-- Settling resolves the scope and the dependencies; the type, which comes after, is no concern
of theirs. -/
theorem settle_fields : (F.settle m).scope = F.settledScope m.scope ∧
    (F.settle m).dependsOn = F.settledNames m.dependsOn := by
  unfold settle
  by_cases h : F.resolvers.isEmpty = true
  · simp only [h, if_true, settledScope_of_isEmpty h, settledNames_of_isEmpty h]
    split
    · split <;> exact ⟨rfl, rfl⟩
    · exact ⟨rfl, rfl⟩
  · simp only [h, Bool.false_eq_true, if_false]
    split
    · split <;> exact ⟨rfl, rfl⟩
    · exact ⟨rfl, rfl⟩

/-! ## Up the line of parents -/

/-- A number of steps up the local parents of a name, past definitions that leave something open. -/
inductive Inherits (F : Factory) (leaves : Definition → Prop) : String → Nat → String → Prop
  | self (n : String) : Inherits F leaves n 0 n
  | parent {n a : String} {k : Nat} {d : Definition} {q : String} :
      F.definitions.get? n = some d → leaves d → d.parent = some q → F.canonical q ≠ n →
      F.definitions.contains (F.canonical q) = true → Inherits F leaves (F.canonical q) k a →
      Inherits F leaves n (k + 1) a

theorem Inherits.contains (h : F.Inherits leaves n k a) (hn : F.definitions.contains n = true) :
    F.definitions.contains a = true := by
  induction h with
  | self => exact hn
  | parent _ _ _ _ hc _ ih => exact ih hc

theorem Merges.settled (hempty : F.merged = {}) (h : F.Merges up n m) : ∃ m', m = F.settle m' := by
  cases h with
  | cached hm => simp [hempty, MergedCache.get?] at hm
  | root | child | beyond => exact ⟨_, rfl⟩

/-- **An open field is settled anew at every step.** -/
theorem Merges.inherits {field : MergedDefinition → α} {settled : α → α} (hempty : F.merged = {})
    (hsettle : ∀ m, field (F.settle m) = settled (field m))
    (hopen : ∀ n p d, leaves d → field (.ofParent n p d) = field p)
    (hline : F.Inherits leaves n k a) (h : F.Merges up n m) :
    ∃ m', F.Merges up a m' ∧ field m = settled^[k] (field m') := by
  induction hline generalizing m with
  | self => exact ⟨m, h, rfl⟩
  | @parent n a k d q hd hleaves hq hne hc _ ih =>
    obtain ⟨p, hp, rfl⟩ := h.inv_child (by rw [hempty]; rfl) hd hq hne hc
    obtain ⟨m', hm', hfield⟩ := ih hp
    refine ⟨m', hm', ?_⟩
    rw [hsettle, hopen n p d hleaves, hfield, ← Function.iterate_succ_apply' settled]

theorem ofParent_scope {name : String} {p : MergedDefinition} {d : Definition} (h : d.LeavesScope) :
    (MergedDefinition.ofParent name p d).scope = p.scope := by
  obtain h | h := h <;> simp [MergedDefinition.ofParent, h, Option.filter]

theorem ofParent_dependsOn {name : String} {p : MergedDefinition} {d : Definition}
    (h : d.LeavesDependencies) : (MergedDefinition.ofParent name p d).dependsOn = p.dependsOn := by
  have h : d.dependsOn = none := h
  simp [MergedDefinition.ofParent, h]

theorem Inherits.blueprint (h : F.Inherits leaves n k a) : F.blueprint.Inherits leaves n k a := by
  induction h with
  | self n => exact .self n
  | parent hd hleaves hq hne hc _ ih => exact .parent hd hleaves hq hne hc ih

theorem Merges.not_circular (hempty : F.merged = {}) (h : F.Merges up n m) : ¬ F.Circular n := by
  rintro ⟨x, hnx, hxx⟩
  obtain ⟨L, hL⟩ := h.exists_line
  have hclimb : F.LocalParent = F.Climbs := by
    funext y p
    exact propext ⟨fun hp => ⟨by rw [hempty]; rfl, hp⟩, fun hp => hp.2⟩
  rw [hclimb] at hnx hxx
  exact hL.not_climbs_back x hnx hxx

end Factory

/-! ## Asking for merges -/

section

variable {B : Factory} {up : String → MergedDefinition → Prop} {stale : Prop}
  {env : Collaborators} {f : FactoryId} {s t : Session} {n x y : String} {m : MergedDefinition} {k : Nat}

/-- A factory is not asked beyond its own definitions. -/
theorem Session.denotes_chain_iff {U : Set FactoryId} (hl : s.Linked U) (hU : f ∈ U)
    (hf : f < s.factories.length)
    (hc : (s.factory f).definitions.contains ((s.factory f).canonical x) = true) :
    s.denotes (s.chain f) x m ↔ s.Own f ((s.factory f).canonical x) m := by
  obtain ⟨ancestors, hcons⟩ := chain_eq_cons hf
  rw [(chain_eq hl hU).resolve_left (by simp [hcons]), denotes]
  simp only [hc, if_true]
  exact Iff.rfl

theorem CacheFits.own_of_merges {T : Set String} (h : CacheFits B up stale T f s) (hT : B.Bounds T)
    (hn : n ∉ T) (hm : B.Merges up n m) : s.Own f n m := by
  obtain rfl := h.blueprint
  -- a cached merge that is put up with is on a circle, so it is not in the way here
  have meanwhile {n m} (hn : n ∉ T) (hm : (s.factory f).blueprint.Merges up n m)
      (h' : (s.factory f).merged.get? n = none → s.Own f n m) : s.Own f n m := by
    cases hr : (s.factory f).merged.get? n with
    | none => exact h' hr
    | some ref =>
      obtain hright | ⟨-, hcircle⟩ := h.right hn hr
      · have hup : ∀ n m m', up n m → up n m' → m = m' :=
          fun n m m' h₁ h₂ => denotes_unique _ n m m' (h.above.2 h₁) (h.above.2 h₂)
        exact hm.unique hup hright ▸ .cached hr
      · exact absurd hcircle (hm.not_circular rfl)
  induction hm with
  | cached hm => simp [Factory.blueprint, MergedCache.get?] at hm
  | root hm hd hp => exact meanwhile hn (.root hm hd hp) fun hr => .root hr hd hp
  | @child n d q m hm hd hq hne hc hp ih =>
    have hparent := hT hn ⟨d, q, hd, hq, rfl, hne, hc⟩
    exact meanwhile hn (.child hm hd hq hne hc hp) fun hr => .child hr hd hq hne hc (ih hparent)
  | beyond hm hd hq hlocal hu =>
    exact meanwhile hn (.beyond hm hd hq hlocal hu) fun hr => .beyond hr hd hq hlocal (h.above.2 hu)

/-- **A definition has its open fields from those above it**, each settled anew at every step on
the way down: the scope and the dependencies of the definition `k` steps up come out after `k` more
resolutions, and unchanged if to resolve them twice is to resolve them once. If destructions ask the
factory, a name whose parents have come to form a circle is left out. -/
theorem Upkeep.inherited_eq (reading : env.Reading) (hf : f < s.factories.length)
    (hl : s.Linked Set.univ) (hempty : (s.factory f).merged = {}) (run : Upkeep env f s t)
    (hx : (t.factory f).definitions.contains ((t.factory f).canonical x) = true)
    (hcircle : env.QuietEnds ∨ ¬ (t.factory f).Circular ((t.factory f).canonical x)) :
    Ends (mergedDefinition f x) t fun r _ => Ends (mergedDefinition f y) t fun r' _ =>
      ∀ ref, r = .ok ref → let F := t.factory f
        (F.Inherits Definition.LeavesScope (F.canonical x) k (F.canonical y) →
          ∃ above, r' = .ok above ∧
            ref.definition.scope = F.settledScope^[k] above.definition.scope ∧
            ((∀ v, F.settledScope (F.settledScope v) = F.settledScope v) →
              ref.definition.scope = above.definition.scope)) ∧
        (F.Inherits Definition.LeavesDependencies (F.canonical x) k (F.canonical y) →
          ∃ above, r' = .ok above ∧
            ref.definition.dependsOn = F.settledNames^[k] above.definition.dependsOn ∧
            ((∀ v, F.settledNames (F.settledNames v) = F.settledNames v) →
              ref.definition.dependsOn = above.definition.dependsOn)) := by
  obtain ⟨B, h⟩ := run.fits reading (Classical.em _).symm (.start hf hl hempty)
  obtain rfl := h.blueprint
  refine (ends_mergedDefinition h.linked trivial).mono fun r _ hr => ?_
  refine (ends_mergedDefinition h.linked trivial).mono fun r' _ hr' => ?_
  rintro ref rfl F
  -- what was answered is what the blueprint says
  have hown := (denotes_chain_iff h.linked trivial h.length hx).1 ((hr.2 _).2 ⟨ref, rfl, rfl⟩)
  have hmerges : F.blueprint.Merges (s.denotes (s.above f)) (F.canonical x) ref.definition := by
    obtain hm | ⟨hloud, hc⟩ := (h.own_right (.inr Factory.bounds_empty) (by simp) hown).2
    · exact hm
    · exact (hcircle.elim hloud fun hno => hno hc).elim
  -- and so it is for the name further up
  have answered {a m} (ha : F.canonical y = a) (hc : F.definitions.contains a = true)
      (hm : F.blueprint.Merges (s.denotes (s.above f)) a m) :
      ∃ above, r' = .ok above ∧ above.definition = m := by
    subst ha
    exact (hr'.2 m).1 ((denotes_chain_iff h.linked trivial h.length hc).2 (h.own_of_merges Factory.bounds_empty (by simp) hm))
  have inherited {α : Type} {leaves : Definition → Prop} {field : MergedDefinition → α} {settled : α → α}
      (hsettle : ∀ m, field (F.blueprint.settle m) = settled (field m))
      (hopen : ∀ n p d, leaves d → field (.ofParent n p d) = field p)
      (hline : F.Inherits leaves (F.canonical x) k (F.canonical y)) :
      ∃ above, r' = .ok above ∧ field ref.definition = settled^[k] (field above.definition) ∧
        ((∀ v, settled (settled v) = settled v) → field ref.definition = field above.definition) := by
    obtain ⟨m, hm, hfield⟩ := hmerges.inherits rfl hsettle hopen hline.blueprint
    obtain ⟨above, rfl, rfl⟩ := answered rfl (hline.contains hx) hm
    refine ⟨above, rfl, hfield, fun hidem => hfield.trans ?_⟩
    obtain ⟨m', hm'⟩ := hm.settled rfl
    rw [hm', hsettle]
    exact Function.iterate_fixed (hidem _) k
  exact ⟨inherited (fun _ => Factory.settle_fields.1) fun _ _ _ => Factory.ofParent_scope,
    inherited (fun _ => Factory.settle_fields.2) fun _ _ _ => Factory.ofParent_dependsOn⟩

end

/-! ## Resolving what was resolved -/

/-- Collaborators that follow written instructions, none of which is an operation. -/
def quietly : Collaborators := Scripted.collaborators (fun k => ⟨k.label, none⟩) fun _ => none

theorem reading_quietly : quietly.Reading := Scripted.reading_collaborators fun _ _ _ h => by cases h

/-- A definition and its child, in a factory whose resolver makes something else of what it has
resolved. -/
def Session.resolving : Session where
  factories :=
    [{ definitions := ⟨2, .ofList
        [("base", { scope := some "raw", dependsOn := some ["raw"] }), ("child", { parent := some "base" })]⟩
       resolvers := [Substitution.apply { exact := [("raw", some "once"), ("once", some "twice")] }] }]

/-- One step up, and one more resolution on the way down. -/
theorem inherited_eq_resolving :
    let F := Session.resolving.factory 0
    quietly.Reading ∧ quietly.QuietEnds ∧ 0 < Session.resolving.factories.length ∧
      Session.resolving.Linked Set.univ ∧ F.merged = {} ∧ Upkeep quietly 0 .resolving .resolving ∧
      F.definitions.contains (F.canonical "child") = true ∧
      F.Inherits Definition.LeavesScope (F.canonical "child") 1 (F.canonical "base") ∧
      Ends (mergedDefinition 0 "child") .resolving fun r _ =>
        Ends (mergedDefinition 0 "base") .resolving fun r' _ => ∃ ref above,
          r = .ok ref ∧ r' = .ok above ∧ ref.definition.scope = F.settledScope above.definition.scope := by
  intro F
  have quiet : quietly.QuietEnds := Scripted.quietEnds
  have hf : 0 < Session.resolving.factories.length := by decide
  have hl : Session.resolving.Linked Set.univ := by
    intro f _ p hp
    cases f <;> cases hp
  have hx : F.definitions.contains (F.canonical "child") = true := by decide +kernel
  have hline : F.Inherits Definition.LeavesScope (F.canonical "child") 1 (F.canonical "base") :=
    .parent (d := { parent := some "base" }) (q := "base") (by decide +kernel) (.inl rfl) rfl
      (by decide +kernel) (by decide +kernel) (.self _)
  refine ⟨reading_quietly, quiet, hf, hl, rfl, .start, hx, hline, ?_⟩
  have hchild : ((mergedDefinition 0 "child").run .resolving).1.toBool = true := by decide +kernel
  have h := Upkeep.inherited_eq (k := 1) (y := "base") reading_quietly hf hl rfl .start hx (.inl quiet)
  unfold Ends at h ⊢
  cases hr : ((mergedDefinition 0 "child").run .resolving).1 with
  | error e => simp [hr, Except.toBool] at hchild
  | ok ref =>
    obtain ⟨above, ha, hscope, -⟩ := (h ref hr).1 hline
    exact ⟨ref, above, rfl, ha, hscope⟩

/-- The child's scope is not that of its parent. -/
theorem not_scope_eq_resolving : ¬ ∀ (s : Session) (f : FactoryId) (c p : String) (d : Definition)
    (child parent : MergedRef), (s.factory f).merged = {} → (s.factory f).LocalParent c p →
      (s.factory f).definitions.get? c = some d → d.LeavesScope →
      ((mergedDefinition f c).run s).1 = .ok child → ((mergedDefinition f p).run s).1 = .ok parent →
      child.definition.scope = parent.definition.scope := by
  intro claim
  have hscopes : (((mergedDefinition 0 "child").run .resolving).1.toOption.any fun child =>
      ((mergedDefinition 0 "base").run .resolving).1.toOption.any fun parent =>
        child.definition.scope ≠ parent.definition.scope) = true := by decide +kernel
  obtain ⟨child, hchild, hscopes⟩ := (Option.any_eq_true ..).1 hscopes
  obtain ⟨parent, hparent, hne⟩ := (Option.any_eq_true ..).1 hscopes
  have hget : (Session.resolving.factory 0).definitions.get? "child" =
      some { parent := some "base" } := by decide +kernel
  have hlocal : (Session.resolving.factory 0).LocalParent "child" "base" :=
    ⟨_, "base", hget, rfl, by decide +kernel, by decide, by decide +kernel⟩
  have answered {r : Except BeanError MergedRef} {ref} (h : r.toOption = some ref) : r = .ok ref := by
    cases r <;> cases h
    rfl
  exact of_decide_eq_true hne (claim .resolving 0 "child" "base" _ child parent rfl hlocal hget
    (.inl rfl) (answered hchild) (answered hparent))

end BeanContainer
