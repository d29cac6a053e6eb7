import BeanContainer.Substitution
import BeanContainer.Proofs.Aliases

/-!
Resolving all aliases. The entries are resolved one after another on a working
copy, in which an alias that moves to another place is checked for circles as
it is when it is registered. An alias that stays where it is and gets another
name is not: `not_acyclic_resolve` has one that comes to stand for its own
alias. These are the only ones, for every circle of a working copy goes through
an alias that has been re-pointed in place or is to be (`Underway.circles`); so
the outcome is free of circles exactly when none of them is led back to itself
(`sound_resolve_iff`).
-/

namespace BeanContainer.AliasMap

open Relation

variable {m m' w w' : AliasMap} {r : String → Option String} {a n x y : String}
  {earlier later : List (String × String)}

/-- What an alias and its name are resolved to: another alias with another name. -/
def Image (r : String → Option String) (a n x y : String) : Prop :=
  r a = some x ∧ r n = some y ∧ x ≠ y

/-! ## One entry -/

/-- What resolving an entry does to the working copy, when it does not fail. -/
inductive Resolves (r : String → Option String) (w : AliasMap) (a n : String) : AliasMap → Prop
  /-- The entry has no image. -/
  | dropped : (∀ x y, ¬ Image r a n x y) → Resolves r w a n ⟨w.toMap.erase a⟩
  /-- The entry is its own image. -/
  | kept : Image r a n a n → Resolves r w a n w
  /-- The alias stays and gets another name. -/
  | repointed {y : String} : Image r a n a y → y ≠ n → Resolves r w a n ⟨w.toMap.insert a y⟩
  /-- The image is an entry already. -/
  | joined {x y : String} : Image r a n x y → x ≠ a → w.StandsFor x y → Resolves r w a n ⟨w.toMap.erase a⟩
  /-- The alias makes place for another one, which leads to no circle. -/
  | moved {x y : String} : Image r a n x y → x ≠ a → w.isAlias x = false → w.hasAlias x y = false →
      Resolves r w a n ⟨(w.toMap.erase a).insert x y⟩

theorem resolves_of_resolveEntry (h : resolveEntry r w (a, n) = .ok w') : Resolves r w a n w' := by
  unfold resolveEntry at h
  simp only at h
  split at h
  · rename_i x y hx hy
    split at h
    · rename_i hxy
      cases h
      refine .dropped ?_
      rintro x' y' ⟨hx', hy', hne⟩
      refine hne ?_
      cases hx.symm.trans hx'
      cases hy.symm.trans hy'
      exact hxy
    rename_i hxy
    have image : Image r a n x y := ⟨hx, hy, hxy⟩
    split at h
    · rename_i hxa
      subst hxa
      split at h
      · rename_i hyn
        subst hyn
        cases h
        exact .kept image
      · rename_i hyn
        cases h
        exact .repointed image (Ne.symm hyn)
    rename_i hxa
    split at h
    · rename_i existing hexisting
      split at h
      · rename_i he
        subst he
        cases h
        exact .joined image hxa hexisting
      · cases h
    · rename_i hnone
      cases hc : w.checkCircle y x with
      | error e =>
        rw [hc] at h
        cases h
      | ok u =>
        rw [hc] at h
        cases h
        have hx' : w.isAlias x = false := not_isAlias_iff.2 fun z hz => by cases hnone.symm.trans hz
        exact .moved image hxa hx' (checkCircle_eq_ok_iff.1 hc)
  · rename_i hnone
    cases h
    refine .dropped ?_
    rintro x y ⟨hx, hy, -⟩
    exact hnone x y hx hy

theorem Resolves.keeps {b z : String} (h : Resolves r w a n w') (hb : b ≠ a) (hz : w.StandsFor b z) :
    w'.StandsFor b z := by
  cases h with
  | kept => exact hz
  | dropped | joined => exact standsFor_erase.2 ⟨hb, hz⟩
  | repointed => exact standsFor_insert.2 (.inr ⟨hb, hz⟩)
  | @moved x y _ _ hx _ =>
    have hbx : b ≠ x := fun e => not_isAlias_iff.1 hx z (e ▸ hz)
    exact standsFor_insert.2 (.inr ⟨hbx, standsFor_erase.2 ⟨hb, hz⟩⟩)

theorem Resolves.stays (h : Resolves r w a n w') (ha : w.StandsFor a n) (hy : Image r a n a y) :
    w'.StandsFor a y := by
  obtain ⟨hra, hrn, hne⟩ := hy
  cases h with
  | dropped hnone => exact absurd ⟨hra, hrn, hne⟩ (hnone a y)
  | kept himage =>
    cases hrn.symm.trans himage.2.1
    exact ha
  | repointed himage =>
    cases hrn.symm.trans himage.2.1
    exact standsFor_insert.2 (.inl ⟨rfl, rfl⟩)
  | joined himage hxa | moved himage hxa =>
    cases hra.symm.trans himage.1
    exact absurd rfl hxa

/-! ## All entries -/

/-- An alias that stays where it is gets another name. -/
def Repointed (m : AliasMap) (r : String → Option String) (a y : String) : Prop :=
  ∃ n, m.StandsFor a n ∧ Image r a n a y ∧ y ≠ n

/-- A step along the aliases of a working copy that does not start at a re-pointed one. -/
def Untouched (m : AliasMap) (r : String → Option String) (w : AliasMap) (x y : String) : Prop :=
  w.StandsFor x y ∧ ∀ y, ¬ m.Repointed r x y

/-- A working copy when some entries of a map are resolved and the others are to come. -/
structure Underway (m : AliasMap) (r : String → Option String) (earlier later : List (String × String))
    (w : AliasMap) : Prop where
  entries : m.entries = earlier ++ later
  pending : ∀ e ∈ later, w.StandsFor e.1 e.2
  stays : ∀ e ∈ earlier, ∀ y, Image r e.1 e.2 e.1 y → w.StandsFor e.1 y
  circles : ∀ x, ¬ TransGen (m.Untouched r w) x x

theorem Underway.start (h : m.Acyclic) : Underway m r [] m.entries m where
  entries := rfl
  pending _ he := mem_entries_iff.1 he
  stays _ he := nomatch he
  circles x hx := h x (TransGen.mono (fun _ _ => And.left) x x hx)

/-- Resolving an entry makes no circle, unless it re-points an alias. -/
theorem Resolves.untouched_circle (h : Resolves r w a n w') (ha : m.StandsFor a n)
    (hx : TransGen (m.Untouched r w') x x) : TransGen (m.Untouched r w) x x := by
  have shrunk (hsub : ∀ x y, w'.StandsFor x y → (∀ z, ¬ m.Repointed r x z) → w.StandsFor x y) :
      TransGen (m.Untouched r w) x x :=
    TransGen.mono (fun _ _ hs => ⟨hsub _ _ hs.1 hs.2, hs.2⟩) x x hx
  cases h with
  | kept => exact hx
  | dropped | joined => exact shrunk fun _ _ hs _ => (standsFor_erase.1 hs).2
  | @repointed z himage hne =>
    refine shrunk fun b c hs hb => ?_
    obtain ⟨rfl, -⟩ | ⟨-, hs⟩ := standsFor_insert.1 hs
    · exact absurd ⟨n, ha, himage, hne⟩ (hb z)
    · exact hs
  | @moved b z himage hba hb hbz =>
    -- the new entry is the one step more, and the check has found no way back
    have added : ∀ c d, m.Untouched r ⟨(w.toMap.erase a).insert b z⟩ c d →
        m.Untouched r w c d ∨ c = b ∧ d = z := by
      rintro c d ⟨hs, hc⟩
      obtain hnew | ⟨-, hs⟩ := standsFor_insert.1 hs
      · exact .inr hnew
      · exact .inl ⟨(standsFor_erase.1 hs).2, hc⟩
    obtain hxx | ⟨hto, hfrom⟩ := transGen_of_added added hx
    · exact hxx
    · have hback : ReflTransGen w.StandsFor z b :=
        ReflTransGen.mono (fun _ _ => And.left) _ _ (hfrom.trans hto)
      obtain rfl | hback := reflTransGen_iff_eq_or_transGen.1 hback
      · exact absurd rfl himage.2.2
      · rw [(hasAlias_iff (clearTo_of_not_isAlias hb)).2 hback] at hbz
        cases hbz

theorem Underway.step (h : Underway m r earlier ((a, n) :: later) w) (hs : Resolves r w a n w') :
    Underway m r (earlier ++ [(a, n)]) later w' := by
  have hmem : (a, n) ∈ m.entries := by simp [h.entries]
  have apart : ∀ e ∈ earlier ++ later, e.1 ≠ a := by
    intro e he hea
    have hnodup := m.toMap.nodup
    rw [show m.toMap.entries = earlier ++ (a, n) :: later from h.entries, List.map_append, List.map_cons,
      List.nodup_middle, ← List.map_append, List.nodup_cons] at hnodup
    exact hnodup.1 (List.mem_map.2 ⟨e, he, hea⟩)
  constructor
  · rw [h.entries, List.append_assoc, List.singleton_append]
  · intro e he
    exact hs.keeps (apart e (List.mem_append_right _ he)) (h.pending e (List.mem_cons_of_mem _ he))
  · intro e he y hy
    rcases List.mem_append.1 he with he | he
    · exact hs.keeps (apart e (List.mem_append_left _ he)) (h.stays e he y hy)
    · obtain rfl := List.mem_singleton.1 he
      exact hs.stays (h.pending _ List.mem_cons_self) hy
  · exact fun x hx => h.circles x (hs.untouched_circle (mem_entries_iff.1 hmem) hx)

theorem Underway.finish (h : Underway m r earlier later w)
    (hr : later.foldlM (resolveEntry r) w = .ok m') : Underway m r m.entries [] m' := by
  induction later generalizing earlier w with
  | nil =>
    cases hr
    have hentries := h.entries
    rw [List.append_nil] at hentries
    exact hentries ▸ h
  | cons e later ih =>
    rw [List.foldlM_cons] at hr
    cases hs : resolveEntry r w e with
    | error err =>
      rw [hs] at hr
      cases hr
    | ok w' =>
      rw [hs] at hr
      exact ih (h.step (resolves_of_resolveEntry hs)) hr

theorem underway_resolve (h : m.Acyclic) (hr : m.resolve r = .ok m') : Underway m r m.entries [] m' :=
  (Underway.start h).finish hr

/-- A way along the aliases of a working copy leaves a re-pointed one behind, or none. -/
theorem exists_repointed (hx : TransGen w.StandsFor x y) : TransGen (m.Untouched r w) x y ∨
    ∃ a z, m.Repointed r a z ∧ ReflTransGen w.StandsFor x a ∧ TransGen w.StandsFor a y := by
  have here {a b : String} (hab : w.StandsFor a b) (hby : ReflTransGen w.StandsFor b y) :
      m.Untouched r w a b ∨
        ∃ c z, m.Repointed r c z ∧ ReflTransGen w.StandsFor a c ∧ TransGen w.StandsFor c y := by
    by_cases ha : ∃ z, m.Repointed r a z
    · obtain ⟨z, hz⟩ := ha
      exact .inr ⟨a, z, hz, .refl, .head' hab hby⟩
    · exact .inl ⟨hab, not_exists.1 ha⟩
  induction hx using TransGen.head_induction_on with
  | single hay => exact (here hay .refl).imp .single id
  | head hab hby ih =>
    rcases here hab hby.to_reflTransGen, ih with ⟨hab' | hmet, hway | ⟨c, z, hz, hbc, hcy⟩⟩
    · exact .inl (.head hab' hway)
    · exact .inr ⟨c, z, hz, .head hab hbc, hcy⟩
    · exact .inr hmet
    · exact .inr hmet

/-- **Resolving keeps aliases free of circles exactly when it leads none that it re-points back to
itself.** An alias that stays with another name is not checked; every circle goes through one. -/
theorem sound_resolve_iff (h : m.Acyclic) (hr : m.resolve r = .ok m') :
    m'.Sound ↔ ∀ a y, m.Repointed r a y → ¬ ReflTransGen m'.StandsFor y a := by
  have hdone := underway_resolve h hr
  have hstays {a y} (hy : m.Repointed r a y) : m'.StandsFor a y := by
    obtain ⟨n, ha, himage, -⟩ := hy
    exact hdone.stays (a, n) (mem_entries_iff.2 ha) y himage
  constructor
  · exact fun hs a y hy hback => hs.acyclic a (.head' (hstays hy) hback)
  · intro hno
    refine Acyclic.sound fun x hx => ?_
    obtain hx | ⟨a, y, hy, hxa, hax⟩ := exists_repointed (m := m) (r := r) hx
    · exact hdone.circles x hx
    · obtain ⟨b, hb, hba⟩ := TransGen.head'_iff.1 (hax.trans_left hxa)
      obtain rfl := hb.unique (hstays hy)
      exact hno a b hy hba

/-- A placeholder, and an alias of an alias whose name is resolved to another one. -/
def placeholders : AliasMap :=
  [.register "$target" "$alias" false, .register "old" "short" false, .register "short" "shorter" false].foldl
    AliasMap.after {}

/-- What the placeholders are resolved to. -/
def filling : Substitution where
  exact := [("$target", some "repository"), ("$alias", some "repo"), ("old", some "new")]

/-- What the placeholders come to. -/
def filled : AliasMap := ⟨.ofList [("short", "new"), ("shorter", "short"), ("repo", "repository")]⟩

/-- An alias that others stand for is re-pointed, and no circle arises. -/
theorem sound_resolve_placeholders :
    placeholders.Acyclic ∧ placeholders.resolve filling.apply = .ok filled ∧
      placeholders.Repointed filling.apply "short" "new" ∧ filled.Sound := by
  have hacyclic : placeholders.Acyclic := acyclic_empty.foldl_after _
  have hresolve : placeholders.resolve filling.apply = .ok filled := by decide +kernel
  have hrepointed : placeholders.Repointed filling.apply "short" "new" :=
    ⟨"old", by decide +kernel, ⟨by decide +kernel, by decide +kernel, by decide⟩, by decide⟩
  refine ⟨hacyclic, hresolve, hrepointed, (sound_resolve_iff hacyclic hresolve).2 ?_⟩
  rintro a y ⟨n, ha, ⟨hra, hrn, -⟩, hne⟩ hback
  have hentries : placeholders.entries = [("$alias", "$target"), ("short", "old"), ("shorter", "short")] := by
    decide +kernel
  have hmem := mem_entries_iff.2 ha
  rw [hentries] at hmem
  simp only [List.mem_cons, Prod.mk.injEq, List.not_mem_nil, or_false] at hmem
  obtain ⟨rfl, rfl⟩ | ⟨rfl, rfl⟩ | ⟨rfl, rfl⟩ := hmem
  · exact absurd hra (by decide +kernel)
  · obtain rfl := Option.some.inj (hrn.symm.trans (by decide +kernel : filling.apply "old" = some "new"))
    exact absurd (eq_of_reflTransGen (by decide +kernel) hback) (by decide)
  · exact hne (Option.some.inj (hrn.symm.trans (by decide +kernel)))

/-- An alias, and another one for it. -/
def nested : AliasMap := [.register "x" "a" false, .register "a" "b" false].foldl AliasMap.after {}

/-- An alias whose name is resolved to an alias of it. The two come to stand for each other, which is not
refused, and neither has a canonical name. -/
theorem not_acyclic_resolve : ¬ ∀ (m : AliasMap) (r : String → Option String) (m' : AliasMap),
    m.Acyclic → m.resolve r = .ok m' → m'.Acyclic ∧ ∀ x, m'.isAlias (m'.canonical x) = false := by
  intro claim
  let turned : AliasMap := ⟨.ofList [("a", "b"), ("b", "a")]⟩
  have hresolve : nested.resolve (Substitution.apply { exact := [("x", some "b")] }) = .ok turned :=
    by decide +kernel
  have hend := (claim nested _ turned (acyclic_empty.foldl_after _) hresolve).2 "a"
  exact absurd hend (by decide +kernel)

end BeanContainer.AliasMap
