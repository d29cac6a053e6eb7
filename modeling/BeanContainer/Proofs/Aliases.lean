import BeanContainer.Alias
import BeanContainer.Proofs.OrderedMap
import Mathlib.Data.Finset.Card
import Mathlib.Logic.Relation

/-!
Aliases, read as a relation. An alias stands for one name, so the names of a
map form chains; registering and removing keep them free of circles
(`Acyclic.register`, `Acyclic.remove`), also when a known alias is re-pointed.

Without circles the bounds of the searches never count: following a chain ends
at a name that is no alias (`canonical_eq_iff`), and searching backwards finds
every alias behind a name, each once (`mem_aliasesOf`, `nodup_aliasesOf`). The
argument is the same for both: one step leaves a key of the map behind, or
comes closer to the last one, and the map has no more keys than the bound says.
-/

namespace BeanContainer

open Relation

/-- What one more step adds to the ways between things: the way that takes it. -/
theorem transGen_of_added {α : Type} {r r' : α → α → Prop} {a b p f : α}
    (added : ∀ a b, r' a b → r a b ∨ a = p ∧ b = f) (h : TransGen r' a b) :
    TransGen r a b ∨ ReflTransGen r a p ∧ ReflTransGen r f b := by
  induction h with
  | single h =>
    rcases added _ _ h with h | ⟨rfl, rfl⟩
    · exact .inl (.single h)
    · exact .inr ⟨.refl, .refl⟩
  | tail _ h ih =>
    rcases ih, added _ _ h with ⟨hway | ⟨hto, hfrom⟩, h | ⟨rfl, rfl⟩⟩
    · exact .inl (hway.tail h)
    · exact .inr ⟨hway.to_reflTransGen, .refl⟩
    · exact .inr ⟨hto, hfrom.tail h⟩
    · exact .inr ⟨hto, .refl⟩

namespace AliasMap

variable {m m' : AliasMap} {a b c n x y z : String} {depth : Nat}

/-- The name an alias was registered for. -/
def StandsFor (m : AliasMap) (a n : String) : Prop := m.toMap.get? a = some n

instance : Decidable (m.StandsFor a n) := inferInstanceAs (Decidable (m.toMap.get? a = some n))

/-- No chain of aliases comes back to where it starts. -/
def Acyclic (m : AliasMap) : Prop := ∀ x, ¬ TransGen m.StandsFor x x

theorem StandsFor.unique (h : m.StandsFor a b) (h' : m.StandsFor a c) : b = c :=
  Option.some.inj (h.symm.trans h')

theorem mem_entries_iff : (a, n) ∈ m.entries ↔ m.StandsFor a n := OrderedMap.get?_eq_some_iff.symm

theorem isAlias_iff : m.isAlias a = true ↔ ∃ n, m.StandsFor a n := OrderedMap.contains_iff_get?

theorem not_isAlias_iff : m.isAlias a = false ↔ ∀ n, ¬ m.StandsFor a n := by
  rw [← Bool.not_eq_true, isAlias_iff, not_exists]

theorem isAlias_of_transGen (h : TransGen m.StandsFor a n) : m.isAlias a = true := by
  obtain ⟨b, hb, -⟩ := TransGen.head'_iff.1 h
  exact isAlias_iff.2 ⟨b, hb⟩

theorem comparable (h : ReflTransGen m.StandsFor x a) (h' : ReflTransGen m.StandsFor x b) :
    ReflTransGen m.StandsFor a b ∨ ReflTransGen m.StandsFor b a :=
  ReflTransGen.total_of_right_unique (fun _ _ _ => StandsFor.unique) h h'

theorem eq_of_reflTransGen (hy : m.isAlias y = false) (h : ReflTransGen m.StandsFor y z) :
    z = y := by
  obtain rfl | ⟨b, hb, -⟩ := ReflTransGen.cases_head h
  · rfl
  · exact absurd hb (not_isAlias_iff.1 hy b)

namespace Acyclic

theorem ne (h : m.Acyclic) (ha : m.StandsFor a n) : a ≠ n := by
  rintro rfl
  exact h a (.single ha)

theorem not_back (h : m.Acyclic) (hn : m.StandsFor a n) : ¬ ReflTransGen m.StandsFor n a :=
  fun hb => h a (TransGen.head' hn hb)

theorem mono (h : m.Acyclic) (hm : ∀ a n, m'.StandsFor a n → m.StandsFor a n) : m'.Acyclic :=
  fun x hx => h x (TransGen.mono hm x x hx)

end Acyclic

/-- No chain that leads to a name comes back to where it starts. -/
def ClearTo (m : AliasMap) (n : String) : Prop :=
  ∀ x, ReflTransGen m.StandsFor x n → ¬ TransGen m.StandsFor x x

theorem Acyclic.clearTo (h : m.Acyclic) (n : String) : m.ClearTo n := fun x _ => h x

theorem ClearTo.back (h : m.ClearTo n) (ha : m.StandsFor a n) : m.ClearTo a :=
  fun x hx => h x (hx.tail ha)

theorem transGen_self_of_reflTransGen (h : TransGen m.StandsFor x x) (hy : ReflTransGen m.StandsFor x y) :
    TransGen m.StandsFor y y := by
  induction hy with
  | refl => exact h
  | tail _ hz ih =>
    obtain ⟨b, hb, hback⟩ := TransGen.head'_iff.1 ih
    obtain rfl := hz.unique hb
    exact TransGen.tail' hback hz

/-- Whatever circles there are, none is on the way to a name that is no alias. -/
theorem clearTo_of_not_isAlias (h : m.isAlias n = false) : m.ClearTo n := by
  intro x hx hxx
  rw [isAlias_of_transGen (transGen_self_of_reflTransGen hxx hx)] at h
  cases h

/-! ## How far a search has to go -/

open Classical in
/-- The aliases with a property. -/
noncomputable def aliasesWith (m : AliasMap) (p : String → Prop) : Finset String :=
  {a ∈ m.toMap.keys.toFinset | p a}

theorem card_aliasesWith_le {p : String → Prop} : (m.aliasesWith p).card ≤ m.toMap.size := by
  classical
  rw [← OrderedMap.length_keys, ← List.toFinset_card_of_nodup m.toMap.nodup_keys]
  exact Finset.card_filter_le ..

/-- The aliases whose chain passes through a name after at least one step. -/
noncomputable def behind (m : AliasMap) (n : String) : Finset String :=
  m.aliasesWith fun a => TransGen m.StandsFor a n

/-- The aliases on the chain of a name. -/
noncomputable def ahead (m : AliasMap) (x : String) : Finset String :=
  m.aliasesWith fun a => ReflTransGen m.StandsFor x a

theorem mem_behind : a ∈ m.behind n ↔ TransGen m.StandsFor a n := by
  simp only [behind, aliasesWith, Finset.mem_filter, List.mem_toFinset, and_iff_right_iff_imp]
  exact fun h => OrderedMap.contains_iff.1 (isAlias_of_transGen h)

theorem mem_ahead : a ∈ m.ahead x ↔ m.isAlias a = true ∧ ReflTransGen m.StandsFor x a := by
  simp [ahead, aliasesWith, isAlias]

/-- A step back has one alias less behind it: the one stepped to. -/
theorem card_behind_lt (h : m.ClearTo n) (ha : m.StandsFor a n) :
    (m.behind a).card < (m.behind n).card := by
  refine Finset.card_lt_card (Finset.ssubset_iff_exists_cons_subset.2 ⟨a, ?_, ?_⟩)
  · rw [mem_behind]
    exact h a (.single ha)
  · intro b hb
    rw [mem_behind]
    obtain rfl | hb := Finset.mem_cons.1 hb
    · exact .single ha
    · exact (mem_behind.1 hb).tail ha

theorem card_ahead_lt (h : m.Acyclic) (ha : m.StandsFor a n) :
    (m.ahead n).card < (m.ahead a).card := by
  refine Finset.card_lt_card (Finset.ssubset_iff_exists_cons_subset.2 ⟨a, ?_, ?_⟩)
  · exact fun hm => h.not_back ha (mem_ahead.1 hm).2
  · intro b hb
    rw [mem_ahead]
    obtain rfl | hb := Finset.mem_cons.1 hb
    · exact ⟨isAlias_iff.2 ⟨n, ha⟩, .refl⟩
    · exact (mem_ahead.1 hb).imp id (.head ha)

theorem Acyclic.wellFounded (h : m.Acyclic) : WellFounded m.StandsFor :=
  Subrelation.wf (card_behind_lt (h.clearTo _)) (measure fun n => (m.behind n).card).wf

/-! ## The end of a chain -/

theorem reflTransGen_follow : ∀ (steps : Nat) (x : String),
    ReflTransGen m.StandsFor x (m.follow steps x)
  | 0, _ => .refl
  | steps + 1, x => by
    rw [follow]
    split
    · rename_i next hn
      exact .head hn (reflTransGen_follow steps next)
    · exact .refl

theorem isAlias_follow (h : m.Acyclic) : ∀ {steps : Nat} {x : String},
    (m.ahead x).card < steps → m.isAlias (m.follow steps x) = false
  | steps + 1, x, hx => by
    rw [follow]
    split
    · rename_i next hn
      exact isAlias_follow h (Nat.lt_of_lt_of_le (card_ahead_lt h hn) (Nat.le_of_lt_succ hx))
    · rename_i hn
      rw [not_isAlias_iff]
      intro n ha
      cases hn.symm.trans ha

theorem isAlias_canonical (h : m.Acyclic) (x : String) : m.isAlias (m.canonical x) = false :=
  isAlias_follow h (Nat.lt_succ_of_le card_aliasesWith_le)

theorem canonical_eq_iff (h : m.Acyclic) :
    m.canonical x = y ↔ ReflTransGen m.StandsFor x y ∧ m.isAlias y = false := by
  constructor
  · rintro rfl
    exact ⟨reflTransGen_follow .., isAlias_canonical h x⟩
  · rintro ⟨hx, hy⟩
    obtain hc | hc := comparable (reflTransGen_follow _ x : ReflTransGen _ x (m.canonical x)) hx
    · exact (eq_of_reflTransGen (isAlias_canonical h x) hc).symm
    · exact eq_of_reflTransGen hy hc

theorem canonical_canonical (h : m.Acyclic) (x : String) :
    m.canonical (m.canonical x) = m.canonical x :=
  (canonical_eq_iff h).2 ⟨.refl, isAlias_canonical h x⟩

/-! ## The aliases of a name -/

theorem mem_collect_succ : a ∈ collect m.entries (depth + 1) n ↔
    ∃ b, m.StandsFor b n ∧ (a = b ∨ a ∈ collect m.entries depth b) := by
  simp only [collect, List.mem_flatMap, Prod.exists, mem_entries_iff, List.mem_ite_nil_right,
    List.mem_cons]
  constructor
  · rintro ⟨b, _, hb, rfl, ha⟩
    exact ⟨b, hb, ha⟩
  · rintro ⟨b, hb, ha⟩
    exact ⟨b, n, hb, rfl, ha⟩

theorem transGen_of_mem_collect : ∀ {depth : Nat} {n : String},
    a ∈ collect m.entries depth n → TransGen m.StandsFor a n
  | depth + 1, n, ha => by
    obtain ⟨b, hb, rfl | ha⟩ := mem_collect_succ.1 ha
    · exact .single hb
    · exact (transGen_of_mem_collect ha).tail hb

theorem mem_collect : ∀ {depth : Nat} {n : String}, m.ClearTo n →
    (m.behind n).card ≤ depth → TransGen m.StandsFor a n → a ∈ collect m.entries depth n
  | 0, n, _, hn, ha => by
    have : m.behind n = ∅ := Finset.card_eq_zero.1 (Nat.le_zero.1 hn)
    exact absurd (mem_behind.2 ha) (by simp [this])
  | depth + 1, n, h, hn, ha => by
    obtain ⟨b, hab, hb⟩ := TransGen.tail'_iff.1 ha
    refine mem_collect_succ.2 ⟨b, hb, ?_⟩
    obtain rfl | hab := reflTransGen_iff_eq_or_transGen.1 hab
    · exact .inl rfl
    · have := card_behind_lt h hb
      exact .inr (mem_collect (h.back hb) (by omega) hab)

/-- More depth than there are aliases behind the name changes nothing. -/
theorem collect_succ : ∀ {depth : Nat} {n : String}, m.ClearTo n →
    (m.behind n).card ≤ depth → collect m.entries (depth + 1) n = collect m.entries depth n
  | 0, n, _, hn => by
    refine List.eq_nil_iff_forall_not_mem.2 fun a ha => ?_
    have : m.behind n = ∅ := Finset.card_eq_zero.1 (Nat.le_zero.1 hn)
    exact absurd (mem_behind.2 (transGen_of_mem_collect ha)) (by simp [this])
  | depth + 1, n, h, hn => by
    rw [collect, collect]
    refine List.flatMap_congr fun e he => ?_
    split
    · rename_i hen
      have hback : m.StandsFor e.1 n := mem_entries_iff.1 (hen ▸ he : (e.1, n) ∈ m.entries)
      have := card_behind_lt h hback
      rw [collect_succ (h.back hback) (by omega)]
    · rfl

theorem disjoint_behind (h : m.Acyclic) (ha : m.StandsFor a n) (hb : m.StandsFor b n)
    (hza : ReflTransGen m.StandsFor z a) (hzb : ReflTransGen m.StandsFor z b) : a = b := by
  have key : ∀ {a b}, m.StandsFor a n → m.StandsFor b n → ReflTransGen m.StandsFor a b → a = b := by
    intro a b ha hb hab
    obtain rfl | ⟨c, hc, hcb⟩ := ReflTransGen.cases_head hab
    · rfl
    · obtain rfl := hc.unique ha
      exact absurd hcb (h.not_back hb)
  obtain hab | hba := comparable hza hzb
  · exact key ha hb hab
  · exact (key hb ha hba).symm

theorem nodup_collect (h : m.Acyclic) : ∀ (depth : Nat) (n : String),
    (collect m.entries depth n).Nodup
  | 0, _ => List.nodup_nil
  | depth + 1, n => by
    rw [collect, List.nodup_flatMap]
    constructor
    · intro e _
      split
      · refine List.nodup_cons.2 ⟨fun he => ?_, nodup_collect h depth e.1⟩
        exact h e.1 (transGen_of_mem_collect he)
      · exact List.nodup_nil
    · -- two entries share no alias: they would be entries for one name, with something behind both
      have found : ∀ {e : String × String} {z}, z ∈ (if e.2 = n then e.1 :: collect m.entries depth e.1 else []) →
          e.2 = n ∧ ReflTransGen m.StandsFor z e.1 := by
        intro e z hz
        obtain ⟨hen, hz⟩ := List.mem_ite_nil_right.1 hz
        obtain rfl | hz := List.mem_cons.1 hz
        · exact ⟨hen, .refl⟩
        · exact ⟨hen, (transGen_of_mem_collect hz).to_reflTransGen⟩
      have hnd : m.entries.Pairwise fun e e' => e.1 ≠ e'.1 := List.pairwise_map.1 m.toMap.nodup_keys
      refine hnd.imp_of_mem fun {e e'} he he' hne z hz hz' => ?_
      obtain ⟨hen, hze⟩ := found hz
      obtain ⟨hen', hze'⟩ := found hz'
      exact hne (disjoint_behind h (mem_entries_iff.1 (hen ▸ he : (e.1, n) ∈ m.entries))
        (mem_entries_iff.1 (hen' ▸ he' : (e'.1, n) ∈ m.entries)) hze hze')

theorem nodup_aliasesOf (h : m.Acyclic) (n : String) : (m.aliasesOf n).Nodup :=
  nodup_collect h ..

theorem mem_aliasesOf (h : m.ClearTo n) : a ∈ m.aliasesOf n ↔ TransGen m.StandsFor a n :=
  ⟨transGen_of_mem_collect, mem_collect h card_aliasesWith_le⟩

/-- The aliases other than the name itself whose chain passes through it. -/
theorem mem_aliasesOf_iff (h : m.Acyclic) :
    a ∈ m.aliasesOf n ↔ m.isAlias a = true ∧ a ≠ n ∧ ReflTransGen m.StandsFor a n := by
  rw [mem_aliasesOf (h.clearTo n)]
  constructor
  · intro ha
    exact ⟨isAlias_of_transGen ha, fun e => h n (e ▸ ha), ha.to_reflTransGen⟩
  · rintro ⟨-, hne, ha⟩
    exact (reflTransGen_iff_eq_or_transGen.1 ha).resolve_left hne.symm

theorem aliasesOf_eq (h : m.ClearTo n) :
    m.aliasesOf n = m.entries.flatMap fun e => if e.2 = n then e.1 :: m.aliasesOf e.1 else [] := by
  rw [aliasesOf, ← collect_succ h card_aliasesWith_le, collect]
  rfl

/-! ## The check for circles -/

theorem reaches_iff {entries : List (String × String)} : ∀ {depth : Nat} {n : String},
    reaches entries a depth n = true ↔ a ∈ collect entries depth n
  | 0, _ => by simp [reaches, collect]
  | depth + 1, n => by
    simp only [reaches, collect, List.any_eq_true, Bool.and_eq_true, Bool.or_eq_true,
      decide_eq_true_eq, reaches_iff, List.mem_flatMap, List.mem_ite_nil_right, List.mem_cons,
      @eq_comm _ a]

theorem hasAlias_iff (h : m.ClearTo n) : m.hasAlias n a = true ↔ TransGen m.StandsFor a n := by
  rw [← mem_aliasesOf h]
  exact reaches_iff

theorem hasAlias_eq (h : m.ClearTo n) :
    m.hasAlias n a = m.entries.any fun e => e.2 = n && (e.1 = a || m.hasAlias e.1 a) := by
  rw [Bool.eq_iff_iff, hasAlias, reaches_iff, ← aliasesOf, aliasesOf_eq h]
  simp only [hasAlias, List.any_eq_true, Bool.and_eq_true, Bool.or_eq_true, decide_eq_true_eq,
    reaches_iff, List.mem_flatMap, List.mem_ite_nil_right, List.mem_cons, aliasesOf, @eq_comm _ a]

/-! ## Changing the aliases -/

theorem standsFor_erase : StandsFor ⟨m.toMap.erase a⟩ x y ↔ x ≠ a ∧ m.StandsFor x y := by
  unfold StandsFor
  rw [OrderedMap.get?_erase]
  by_cases hx : x = a <;> simp [hx]

theorem standsFor_insert :
    StandsFor ⟨m.toMap.insert a n⟩ x y ↔ x = a ∧ y = n ∨ x ≠ a ∧ m.StandsFor x y := by
  unfold StandsFor
  rw [OrderedMap.get?_insert]
  by_cases hx : x = a <;> simp [hx, eq_comm]

theorem Acyclic.erase (h : m.Acyclic) : Acyclic ⟨m.toMap.erase a⟩ :=
  h.mono fun _ _ hx => (standsFor_erase.1 hx).2

/-- An alias may take a new name if that name does not lead to it already, whatever it stood for
before: the old entry only makes the check stricter. -/
theorem Acyclic.insert (h : m.Acyclic) (hn : ¬ ReflTransGen m.StandsFor n a) :
    Acyclic ⟨m.toMap.insert a n⟩ := by
  intro x hx
  obtain hxx | ⟨hto, hfrom⟩ := transGen_of_added
    (fun _ _ hs => (standsFor_insert.1 hs).symm.imp And.right id) hx
  · exact h x hxx
  · exact hn (hfrom.trans hto)

theorem checkCircle_eq_ok_iff {u : Unit} : m.checkCircle n a = .ok u ↔ m.hasAlias a n = false := by
  unfold checkCircle
  split <;> simp_all

theorem register_cases {allowOverriding : Bool} (hm : m.register n a allowOverriding = .ok m') :
    m' = m ∨ m' = ⟨m.toMap.erase a⟩ ∨
      a ≠ n ∧ m.hasAlias a n = false ∧ m' = ⟨m.toMap.insert a n⟩ := by
  have checked (hne : a ≠ n)
      (h : (m.checkCircle n a).map (fun _ => ⟨m.toMap.insert a n⟩) = .ok m') :
      a ≠ n ∧ m.hasAlias a n = false ∧ m' = ⟨m.toMap.insert a n⟩ := by
    cases hc : m.checkCircle n a with
    | error e => simp [hc, Except.map] at h
    | ok u => exact ⟨hne, checkCircle_eq_ok_iff.1 hc, by simpa [hc, Except.map, eq_comm] using h⟩
  simp only [register, bind, Except.bind, pure, Except.pure, throw, throwThe,
    MonadExceptOf.throw] at hm
  split at hm
  · cases hm
  split at hm
  · cases hm
    exact .inr (.inl rfl)
  next hne =>
  split at hm
  · split at hm
    · cases hm
      exact .inl rfl
    split at hm
    · exact .inr (.inr (checked hne hm))
    · cases hm
  · exact .inr (.inr (checked hne hm))

/-- Registering keeps the aliases free of circles: the check has looked at a map that also held
what the alias stood for. -/
theorem Acyclic.register {allowOverriding : Bool} (h : m.Acyclic)
    (hm : m.register n a allowOverriding = .ok m') : m'.Acyclic := by
  obtain rfl | rfl | ⟨hne, hna, rfl⟩ := register_cases hm
  · exact h
  · exact h.erase
  · refine h.insert fun hn => ?_
    obtain rfl | hn := reflTransGen_iff_eq_or_transGen.1 hn
    · exact hne rfl
    · rw [(hasAlias_iff (h.clearTo a)).2 hn] at hna
      cases hna

theorem Acyclic.remove (h : m.Acyclic) (hm : m.remove a = .ok m') : m'.Acyclic := by
  unfold AliasMap.remove at hm
  split at hm
  · cases hm
    exact h.erase
  · cases hm

theorem acyclic_empty : Acyclic {} := by
  intro x hx
  obtain ⟨b, hb, -⟩ := TransGen.head'_iff.1 hx
  cases hb

/-! ## Runs -/

/-- A request to change the aliases. -/
inductive Change where
  | register (name altName : String) (allowOverriding : Bool)
  | remove (altName : String)
deriving DecidableEq, Repr

/-- The aliases after a request that is accepted. -/
def request (m : AliasMap) : Change → Except BeanError AliasMap
  | .register name altName allowOverriding => m.register name altName allowOverriding
  | .remove altName => m.remove altName

/-- The aliases after a request. One that is refused changes nothing. -/
def after (m : AliasMap) (c : Change) : AliasMap :=
  match m.request c with
  | .ok m' => m'
  | .error _ => m

theorem Acyclic.after (h : m.Acyclic) (c : Change) : (m.after c).Acyclic := by
  unfold AliasMap.after
  split
  · rename_i m' hm
    cases c with
    | register => exact h.register hm
    | remove => exact h.remove hm
  · exact h

theorem Acyclic.foldl_after (h : m.Acyclic) : ∀ changes : List Change,
    (changes.foldl AliasMap.after m).Acyclic := by
  intro changes
  induction changes generalizing m with
  | nil => exact h
  | cons c changes ih => exact ih (h.after c)

/-- What a map of aliases has to be for its queries to mean what they say. -/
structure Sound (m : AliasMap) : Prop where
  acyclic : m.Acyclic
  ne_of_mem : ∀ a n, (a, n) ∈ m.entries → a ≠ n
  /-- A search, which goes from a name to the aliases registered for it, comes to an end. -/
  wellFounded : WellFounded m.StandsFor
  hasAlias_eq : ∀ n a, m.hasAlias n a =
    m.entries.any fun e => e.2 = n && (e.1 = a || m.hasAlias e.1 a)
  aliasesOf_eq : ∀ n, m.aliasesOf n =
    m.entries.flatMap fun e => if e.2 = n then e.1 :: m.aliasesOf e.1 else []
  canonical_eq_iff : ∀ x y,
    m.canonical x = y ↔ ReflTransGen m.StandsFor x y ∧ m.isAlias y = false
  isAlias_canonical : ∀ x, m.isAlias (m.canonical x) = false
  canonical_canonical : ∀ x, m.canonical (m.canonical x) = m.canonical x
  nodup_aliasesOf : ∀ n, (m.aliasesOf n).Nodup
  mem_aliasesOf : ∀ n a,
    a ∈ m.aliasesOf n ↔ m.isAlias a = true ∧ a ≠ n ∧ ReflTransGen m.StandsFor a n

theorem Acyclic.sound (h : m.Acyclic) : m.Sound where
  acyclic := h
  ne_of_mem _ _ ha := h.ne (mem_entries_iff.1 ha)
  wellFounded := h.wellFounded
  hasAlias_eq n _ := hasAlias_eq (h.clearTo n)
  aliasesOf_eq n := aliasesOf_eq (h.clearTo n)
  canonical_eq_iff _ _ := canonical_eq_iff h
  isAlias_canonical := isAlias_canonical h
  canonical_canonical := canonical_canonical h
  nodup_aliasesOf := nodup_aliasesOf h
  mem_aliasesOf _ _ := mem_aliasesOf_iff h

/-- **Whatever is registered and removed, aliases form chains that end**: no bound of a search
ever cuts it short, a canonical name is the end of its chain, and the aliases of a name are those
whose chain passes through it, each once. -/
theorem sound_foldl_after (changes : List Change) : (changes.foldl after {}).Sound :=
  (acyclic_empty.foldl_after changes).sound

/-- Two chains through one name; re-pointing is refused where it would close one of them. -/
example : ([.register "dataSource" "ds" false, .register "ds" "db" false,
    .register "dataSource" "source" false, .register "db" "ds" true].foldl after {}).aliasesOf
      "dataSource" = ["ds", "db", "source"] := by decide

end AliasMap

end BeanContainer
