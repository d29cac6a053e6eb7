import BeanContainer.Merging
import BeanContainer.Proofs.OrderedMap
import Mathlib.Logic.Relation

/-!
Lines of definitions. `Line` is the line from a name upwards without steps to
count and without names to remember. The walk finds it whenever there is one
(`lineage_eq_of_line`). Otherwise it meets a name again
(`line_of_circle?_eq_none`), because the definitions lead round in a circle
(`circular_of_circle?`). It has steps enough for both (`walk_succ`).
-/

namespace BeanContainer

open Relation

/-- Where a line has come back to one of its names, and the names up to there. -/
def Lineage.circle? : Lineage → Option (String × List String)
  | child _ _ above => above.circle?
  | cycle name path => some (name, path)
  | cached _ | root .. | beyond .. | missing _ => none

namespace Factory

variable {F : Factory} {n p x : String} {L : Lineage}

/-- A definition has another definition of the factory itself as its parent. -/
def LocalParent (F : Factory) (n p : String) : Prop :=
  ∃ d q, F.definitions.get? n = some d ∧ d.parent = some q ∧ F.canonical q = p ∧ p ≠ n ∧
    F.definitions.contains p = true

/-- The parents of a name, taken one after the other, come to a name twice. -/
def Circular (F : Factory) (n : String) : Prop :=
  ∃ x, ReflTransGen F.LocalParent n x ∧ TransGen F.LocalParent x x

theorem LocalParent.unique {q : String} (h : F.LocalParent n p) (h' : F.LocalParent n q) : p = q := by
  obtain ⟨d, a, hd, ha, rfl, -⟩ := h
  obtain ⟨d', a', hd', ha', rfl, -⟩ := h'
  cases hd.symm.trans hd'
  cases ha.symm.trans ha'
  rfl

theorem Circular.head (hp : F.LocalParent n p) (h : F.Circular p) : F.Circular n := by
  obtain ⟨x, hx, hxx⟩ := h
  exact ⟨x, .head hp hx, hxx⟩

/-- The line of definitions from a name up to where merging can start. -/
inductive Line (F : Factory) : String → Lineage → Prop
  | cached {n : String} {m : MergedRef} : F.merged.get? n = some m → Line F n (.cached m)
  | missing {n : String} : F.merged.get? n = none → F.definitions.get? n = none → Line F n (.missing n)
  | root {n : String} {d : Definition} : F.merged.get? n = none → F.definitions.get? n = some d →
      d.parent = none → Line F n (.root n d)
  | child {n : String} {d : Definition} {q : String} {L : Lineage} : F.merged.get? n = none →
      F.definitions.get? n = some d → d.parent = some q → F.canonical q ≠ n →
      F.definitions.contains (F.canonical q) = true → Line F (F.canonical q) L →
      Line F n (.child n d L)
  | beyond {n : String} {d : Definition} {q : String} : F.merged.get? n = none →
      F.definitions.get? n = some d → d.parent = some q →
      ¬ (F.canonical q ≠ n ∧ F.definitions.contains (F.canonical q) = true) →
      Line F n (.beyond n d (F.canonical q))

/-- Merging climbs from a name to its parent: there is no cached merge to stop at. -/
def Climbs (F : Factory) (n p : String) : Prop := F.merged.get? n = none ∧ F.LocalParent n p

theorem Line.circle?_eq_none (h : F.Line n L) : L.circle? = none := by
  induction h with
  | child _ _ _ _ _ _ ih => exact ih
  | _ => rfl

theorem Line.not_climbs_back (h : F.Line n L) :
    ∀ x, ReflTransGen F.Climbs n x → ¬ TransGen F.Climbs x x := by
  -- Where climbing ends there is nothing to come back from.
  have ends {n : String} (stop : ∀ p, ¬ F.Climbs n p) :
      ∀ x, ReflTransGen F.Climbs n x → ¬ TransGen F.Climbs x x := by
    intro x hx hxx
    rcases ReflTransGen.cases_head hx with rfl | ⟨p, hp, -⟩
    · obtain ⟨p, hp, -⟩ := TransGen.head'_iff.1 hxx
      exact stop p hp
    · exact stop p hp
  induction h with
  | cached hm => exact ends fun p hp => by simp [hp.1] at hm
  | missing _ hd => exact ends fun p ⟨_, d, q, hd', _⟩ => by simp [hd] at hd'
  | root _ hd hp => exact ends fun p ⟨_, d, q, hd', hq, _⟩ => by simp_all
  | beyond _ hd hq hlocal =>
    refine ends fun p ⟨_, d, q, hd', hq', he, hne, hc⟩ => hlocal ?_
    cases hd.symm.trans hd'
    cases hq.symm.trans hq'
    exact he ▸ ⟨hne, hc⟩
  | @child n d q L hm hd hq hne hc _ ih =>
    have next {p} (hp : F.Climbs n p) : p = F.canonical q :=
      hp.2.unique ⟨d, q, hd, hq, rfl, hne, hc⟩
    intro x hx hxx
    rcases ReflTransGen.cases_head hx with rfl | ⟨p, hp, hpx⟩
    · obtain ⟨p, hp, hpn⟩ := TransGen.head'_iff.1 hxx
      exact ih n (next hp ▸ hpn) hxx
    · exact ih x (next hp ▸ hpx) hxx

/-- Names of definitions that are not on a path. -/
def unmet (F : Factory) (path : List String) : List String :=
  F.definitions.definitions.keys.filter fun n => !path.contains n

theorem length_unmet_lt {path : List String} (hn : n ∈ F.definitions.definitions.keys)
    (hpath : n ∉ path) : (F.unmet (path ++ [n])).length < (F.unmet path).length := by
  have : F.unmet (path ++ [n]) = (F.unmet path).filter fun x => x ≠ n := by
    simp only [unmet, List.filter_filter]
    refine List.filter_congr fun x _ => ?_
    by_cases hx : x = n <;> simp [hx]
  rw [this]
  exact List.length_filter_lt_length_iff_exists.2 ⟨n, by simp [unmet, hn, hpath], by simp⟩

theorem length_unmet_nil_lt : (F.unmet []).length < F.definitions.size + 1 := by
  rw [unmet, DefinitionStore.size, ← OrderedMap.length_keys]
  exact Nat.lt_succ_of_le (List.length_filter_le ..)

/-- What the first step of a walk comes to; `rest` walks on from a parent. -/
inductive WalkStep (F : Factory) (rest : String → Lineage) (path : List String) (n : String) : Lineage → Prop
  | met : n ∈ path → WalkStep F rest path n (.cycle n (path ++ [n]))
  | cached {m : MergedRef} : n ∉ path → F.merged.get? n = some m → WalkStep F rest path n (.cached m)
  | missing : n ∉ path → F.merged.get? n = none → F.definitions.get? n = none →
      WalkStep F rest path n (.missing n)
  | root {d : Definition} : n ∉ path → F.merged.get? n = none → F.definitions.get? n = some d →
      d.parent = none → WalkStep F rest path n (.root n d)
  | child {d : Definition} {q : String} : n ∉ path → F.merged.get? n = none →
      F.definitions.get? n = some d → d.parent = some q → F.canonical q ≠ n →
      F.definitions.contains (F.canonical q) = true →
      WalkStep F rest path n (.child n d (rest (F.canonical q)))
  | beyond {d : Definition} {q : String} : n ∉ path → F.merged.get? n = none →
      F.definitions.get? n = some d → d.parent = some q →
      ¬ (F.canonical q ≠ n ∧ F.definitions.contains (F.canonical q) = true) →
      WalkStep F rest path n (.beyond n d (F.canonical q))

theorem walkStep_walk (F : Factory) (steps : Nat) (path : List String) (n : String) :
    F.WalkStep (F.walk steps (path ++ [n])) path n (F.walk (steps + 1) path n) := by
  rw [walk]
  split
  · rename_i hn
    exact .met (by simpa using hn)
  rename_i hn
  have hpath : n ∉ path := by simpa using hn
  cases hm : F.merged.get? n with
  | some m => exact .cached hpath hm
  | none =>
    cases hd : F.definitions.get? n with
    | none => exact .missing hpath hm hd
    | some d =>
      cases hq : d.parent with
      | none => simpa only [hq] using .root hpath hm hd hq
      | some q =>
        simp only [hq]
        split
        · rename_i hlocal
          simp only [Bool.and_eq_true, decide_eq_true_eq] at hlocal
          exact .child hpath hm hd hq hlocal.1 hlocal.2
        · rename_i hlocal
          simp only [Bool.and_eq_true, decide_eq_true_eq] at hlocal
          exact .beyond hpath hm hd hq hlocal

theorem walk_eq_of_line (h : F.Line n L) : ∀ {steps path}, (F.unmet path).length < steps →
    (∀ x, ReflTransGen F.Climbs n x → x ∉ path) → F.walk steps path n = L := by
  induction h with
  | @child n d q L hm hd hq hne hc hline ih =>
    intro steps path hroom hpath
    obtain ⟨steps, rfl⟩ := Nat.exists_eq_succ_of_ne_zero (Nat.ne_of_gt (Nat.zero_lt_of_lt hroom))
    have hn : n ∉ path := hpath n .refl
    have hclimb : F.Climbs n (F.canonical q) := ⟨hm, d, q, hd, hq, rfl, hne, hc⟩
    have hkey : n ∈ F.definitions.definitions.keys := OrderedMap.mem_keys_iff.2 ⟨d, hd⟩
    have hlt := length_unmet_lt hkey hn
    have hrest : F.walk steps (path ++ [n]) (F.canonical q) = L := by
      refine ih (by omega) fun x hx hmem => ?_
      rcases List.mem_append.1 hmem with hmem | hmem
      · exact hpath x (.head hclimb hx) hmem
      · obtain rfl := List.mem_singleton.1 hmem
        exact (Line.child hm hd hq hne hc hline).not_climbs_back x .refl (.head' hclimb hx)
    simp [walk, hn, hm, hd, hq, hne, hc, hrest]
  | @beyond n d q hm hd hq hlocal =>
    intro steps path hroom hpath
    obtain ⟨steps, rfl⟩ := Nat.exists_eq_succ_of_ne_zero (Nat.ne_of_gt (Nat.zero_lt_of_lt hroom))
    have hlocal' : ¬ (decide (F.canonical q ≠ n) && F.definitions.contains (F.canonical q)) = true := by
      simpa using hlocal
    simp only [walk, hm, hd, hq, if_neg hlocal', List.contains_eq_mem, hpath n .refl, decide_false,
      Bool.false_eq_true, if_false]
  | @cached n m hm =>
    intro steps path hroom hpath
    obtain ⟨steps, rfl⟩ := Nat.exists_eq_succ_of_ne_zero (Nat.ne_of_gt (Nat.zero_lt_of_lt hroom))
    simp [walk, hpath n .refl, hm]
  | @missing n hm hd =>
    intro steps path hroom hpath
    obtain ⟨steps, rfl⟩ := Nat.exists_eq_succ_of_ne_zero (Nat.ne_of_gt (Nat.zero_lt_of_lt hroom))
    simp [walk, hpath n .refl, hm, hd]
  | @root n d hm hd hp =>
    intro steps path hroom hpath
    obtain ⟨steps, rfl⟩ := Nat.exists_eq_succ_of_ne_zero (Nat.ne_of_gt (Nat.zero_lt_of_lt hroom))
    simp [walk, hpath n .refl, hm, hd, hp]

theorem lineage_eq_of_line (h : F.Line n L) : F.lineage n = L :=
  walk_eq_of_line h length_unmet_nil_lt (by simp)

/-- A walk takes no more steps than there are definitions it has not met. -/
theorem walk_succ : ∀ {steps path n}, (F.unmet path).length < steps →
    F.walk (steps + 1) path n = F.walk steps path n
  | 0, _, _, hroom => absurd hroom (Nat.not_lt_zero _)
  | steps + 1, path, n, hroom => by
    rw [walk, walk]
    split
    · rfl
    · rename_i hn
      cases F.merged.get? n with
      | some m => rfl
      | none =>
        cases hd : F.definitions.get? n with
        | none => rfl
        | some d =>
          have hlt := length_unmet_lt (OrderedMap.mem_keys_iff.2 ⟨d, hd⟩) (by simpa using hn)
          have hrest (p : String) : F.walk (steps + 1) (path ++ [n]) p = F.walk steps (path ++ [n]) p :=
            walk_succ (by omega)
          simp only [hrest]

/-- A walk that has the steps it may need gives up only at a name it has met. -/
theorem met_or_circular_of_walk {c : String × List String} : ∀ {steps path n},
    (F.unmet path).length < steps → (F.walk steps path n).circle? = some c →
    (∃ x ∈ path, ReflTransGen F.LocalParent n x) ∨ F.Circular n
  | 0, _, _, hroom, _ => absurd hroom (Nat.not_lt_zero _)
  | steps + 1, path, n, hroom, h => by
    have hstep := F.walkStep_walk steps path n
    generalize F.walk (steps + 1) path n = L at hstep h
    cases hstep with
    | met hn => exact .inl ⟨n, hn, .refl⟩
    | @child d q hn _ hd hq hne hc =>
      have hlt := length_unmet_lt (OrderedMap.mem_keys_iff.2 ⟨d, hd⟩) hn
      have hparent : F.LocalParent n (F.canonical q) := ⟨d, q, hd, hq, rfl, hne, hc⟩
      rcases met_or_circular_of_walk (by omega) h with ⟨x, hx, hway⟩ | hcircle
      · rcases List.mem_append.1 hx with hx | hx
        · exact .inl ⟨x, hx, .head hparent hway⟩
        · obtain rfl := List.mem_singleton.1 hx
          exact .inr ⟨x, .refl, .head' hparent hway⟩
      · exact .inr (hcircle.head hparent)
    | cached | missing | root | beyond => cases h

theorem circular_of_circle? {c : String × List String} (h : (F.lineage n).circle? = some c) :
    F.Circular n := by
  refine (met_or_circular_of_walk ?_ h).resolve_left fun ⟨x, hx, _⟩ => by cases hx
  exact length_unmet_nil_lt

theorem line_of_walk_circle?_eq_none : ∀ {steps path n}, (F.walk steps path n).circle? = none →
    F.Line n (F.walk steps path n)
  | 0, _, _, h => by simp [walk, Lineage.circle?] at h
  | steps + 1, path, n, h => by
    have hstep := F.walkStep_walk steps path n
    generalize F.walk (steps + 1) path n = L at hstep h ⊢
    cases hstep with
    | met => cases h
    | cached _ hm => exact .cached hm
    | missing _ hm hd => exact .missing hm hd
    | root _ hm hd hp => exact .root hm hd hp
    | child _ hm hd hq hne hc => exact .child hm hd hq hne hc (line_of_walk_circle?_eq_none h)
    | beyond _ hm hd hq hlocal => exact .beyond hm hd hq hlocal

theorem line_of_circle?_eq_none (h : (F.lineage n).circle? = none) : F.Line n (F.lineage n) :=
  line_of_walk_circle?_eq_none h

end Factory

end BeanContainer
