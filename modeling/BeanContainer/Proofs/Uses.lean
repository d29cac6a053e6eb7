import BeanContainer.Proofs.Needs
import Mathlib.Data.Set.Finite.Basic

/-!
What the making of a bean takes, and how deep it can lead. A bean uses what it
depends on and what its constructor looks up. It is `Makeable` if all that it
comes to use is defined and no use leads round in a circle
(`makeable_iff`).

A lookup that goes on and on sets more and more flags, or records more and more
edges. `unflagged` counts the flags that are left, and falls when a constructor
is called; `climb` bounds the dependencies that lead on from a bean, and falls
with each that is recorded and not refused (`climb_lt`).
-/

namespace BeanContainer

open Relation

namespace Session

/-- Making a bean takes another one: it depends on it, or its constructor looks it up. -/
def Uses (s : Session) (f : FactoryId) (refs : String → List String) (n y : String) : Prop :=
  s.Defines f n ∧ (s.DependsOn f n y ∨ y ∈ refs n)

/-- All that the making of a bean takes can be made. -/
inductive Makeable (s : Session) (f : FactoryId) (refs : String → List String) : String → Prop
  | intro {n : String} : s.Defines f n → (∀ y, s.Uses f refs n y → Makeable s f refs y) →
      Makeable s f refs n

variable {s : Session} {f : FactoryId} {refs : String → List String} {n c : String}

namespace Makeable

theorem defined (h : s.Makeable f refs n) : s.Defines f n := by
  cases h with
  | intro hdef _ => exact hdef

theorem uses (h : s.Makeable f refs n) (hc : s.Uses f refs n c) : s.Makeable f refs c := by
  cases h with
  | intro _ huses => exact huses c hc

theorem reaches (h : s.Makeable f refs n) (hc : ReflTransGen (s.Uses f refs) n c) :
    s.Makeable f refs c := by
  induction hc with
  | refl => exact h
  | tail _ hc ih => exact ih.uses hc

theorem not_transGen_self (h : s.Makeable f refs n) : ¬ TransGen (s.Uses f refs) n n := by
  induction h with
  | intro _ _ ih =>
    intro hcircle
    -- The circle also goes round through its second bean.
    obtain ⟨y, hy, hback⟩ := TransGen.head'_iff.1 hcircle
    exact ih y hy (.tail' hback hy)

end Makeable

/-- **A bean is makeable exactly when all that it comes to use is defined and it comes to no
circle.** -/
theorem makeable_iff : s.Makeable f refs n ↔
    (∀ y, ReflTransGen (s.Uses f refs) n y → s.Defines f y) ∧
      ∀ y, ReflTransGen (s.Uses f refs) n y → ¬ TransGen (s.Uses f refs) y y := by
  constructor
  · exact fun h => ⟨fun y hy => (h.reaches hy).defined, fun y hy => (h.reaches hy).not_transGen_self⟩
  · rintro ⟨hdef, hcircle⟩
    -- Among finitely many beans, uses without circles come to an end.
    have hfinite : Finite {y // ReflTransGen (s.Uses f refs) n y} :=
      Set.Finite.subset (List.finite_toSet (s.factory f).definitions.names) fun y hy =>
        OrderedMap.contains_iff.1 (hdef y hy)
    let r (a b : {y // ReflTransGen (s.Uses f refs) n y}) := TransGen (s.Uses f refs) b.1 a.1
    have : IsTrans _ r := ⟨fun _ _ _ hab hbc => hbc.trans hab⟩
    have : Std.Irrefl r := ⟨fun a => hcircle a.1 a.2⟩
    have key : ∀ a : {y // ReflTransGen (s.Uses f refs) n y}, s.Makeable f refs a.1 := by
      intro a
      induction a using (Finite.wellFounded_of_trans_of_irrefl r).induction with
      | h a ih =>
        exact .intro (hdef a.1 a.2) fun y hy => ih ⟨y, a.2.tail hy⟩ (.single hy)
    exact key ⟨n, .refl⟩

end Session

/-! ## How far dependencies lead -/

section

variable {V : Finset String} {E E' : String → String → Prop} {n d : String}

open Classical in
/-- The beans that need a bean, by edges, and the bean itself. -/
noncomputable def behind (V : Finset String) (E : String → String → Prop) (n : String) :
    Finset String := V.filter (ReflTransGen E n)

open Classical in
/-- A bound for the dependencies that lead on from a bean. Each is a bean that was not behind it
before; a bean may also lead to itself, once. -/
noncomputable def climb (V : Finset String) (E : String → String → Prop) (n : String) : Nat :=
  2 * (V.card - (behind V E n).card) + if E n n then 0 else 1

theorem mem_behind : d ∈ behind V E n ↔ d ∈ V ∧ ReflTransGen E n d := by
  simp [behind]

theorem climb_le : climb V E n ≤ 2 * V.card + 1 := by
  unfold climb
  split <;> omega

theorem behind_mono (h : ∀ b c, E b c → E' b c) : behind V E n ⊆ behind V E' n := by
  intro y hy
  rw [mem_behind] at hy ⊢
  exact ⟨hy.1, ReflTransGen.mono h _ _ hy.2⟩

theorem climb_mono (h : ∀ b c, E b c → E' b c) : climb V E' n ≤ climb V E n := by
  have hcard := Finset.card_le_card (behind_mono (V := V) (n := n) h)
  unfold climb
  split
  · omega
  · rename_i hself
    rw [if_neg fun he => hself (h n n he)]
    omega

/-- With a dependency that does not need the bean in turn, less is left. -/
theorem climb_lt (h : ∀ b c, E b c → E' b c) (hnew : E' d n) (hd : d ∈ V)
    (back : ¬ TransGen E n d) : climb V E' d < climb V E n := by
  by_cases hdn : d = n
  · subst hdn
    have hcard := Finset.card_le_card (behind_mono (V := V) (n := d) h)
    unfold climb
    rw [if_pos hnew, if_neg fun he => back (.single he)]
    omega
  · have hmem : d ∉ behind V E n := fun hmem =>
      (reflTransGen_iff_eq_or_transGen.1 (mem_behind.1 hmem).2).elim hdn back
    have hsub : insert d (behind V E n) ⊆ behind V E' d := by
      intro y hy
      rw [mem_behind]
      rcases Finset.mem_insert.1 hy with rfl | hy
      · exact ⟨hd, .refl⟩
      · have := mem_behind.1 (behind_mono h hy)
        exact ⟨this.1, .head hnew this.2⟩
    have hcard := Finset.card_le_card hsub
    rw [Finset.card_insert_of_notMem hmem] at hcard
    have hle : (behind V E' d).card ≤ V.card := Finset.card_le_card fun y hy => (mem_behind.1 hy).1
    unfold climb
    split <;> split <;> omega

/-! ## How many flags are left -/

variable {r r' : SingletonRegistry}

/-- The number of flags of beans that are not set. -/
def unflagged (V : Finset String) (r : SingletonRegistry) : Nat :=
  (V.filter (· ∉ r.inCreation.toList)).card + (V.filter (· ∉ r.prototypesInCreation.toList)).card

theorem unflagged_le : unflagged V r ≤ 2 * V.card := by
  have h := Finset.card_filter_le V (· ∉ r.inCreation.toList)
  have h' := Finset.card_filter_le V (· ∉ r.prototypesInCreation.toList)
  unfold unflagged
  omega

theorem card_filter_insert_lt {flags : OrderedSet String} (hn : n ∈ V) (h : n ∉ flags.toList) :
    (V.filter (· ∉ (flags.insert n).toList)).card < (V.filter (· ∉ flags.toList)).card := by
  have hsub : V.filter (· ∉ (flags.insert n).toList) ⊆ V.filter (· ∉ flags.toList) := by
    intro y hy
    simp only [Finset.mem_filter, OrderedSet.mem_insert, not_or] at hy ⊢
    exact ⟨hy.1, hy.2.1⟩
  exact Finset.card_lt_card ((Finset.ssubset_iff_of_subset hsub).2 ⟨n, by simp [hn, h], by simp⟩)

theorem unflagged_acquire {g : Guard} (hn : g.name ∈ V) (h : r.acquire g = .ok r') :
    unflagged V r' < unflagged V r := by
  rw [SingletonRegistry.acquire_eq_ok_iff] at h
  unfold unflagged
  cases g with
  | singleton name =>
    obtain ⟨hname, rfl⟩ := h
    exact Nat.add_lt_add_right (card_filter_insert_lt hn hname) _
  | prototype name =>
    obtain ⟨hname, rfl⟩ := h
    exact Nat.add_lt_add_left (card_filter_insert_lt hn hname) _

end

end BeanContainer
