import BeanContainer.Proofs.AliasResolution

/-!
Which aliases there are after all of them have been resolved. Resolving an
entry takes it out of the working copy and puts its image there
(`Resolves.standsFor_iff`), so the entries of the outcome are the images of the
old ones, less those that were taken out again: an image that is itself an old
entry is not told apart from it, and goes when the turn of that entry comes
(`standsFor_image_iff`). So the order of the entries counts
(`not_standsFor_image`).
-/

namespace BeanContainer.AliasMap

variable {m m' w w' : AliasMap} {r : String → Option String} {a b k n x y z : String}
  {earlier later : List (String × String)}

theorem Image.unique {x' y' : String} (h : Image r a n x y) (h' : Image r a n x' y') : x = x' ∧ y = y' :=
  ⟨Option.some.inj (h.1.symm.trans h'.1), Option.some.inj (h.2.1.symm.trans h'.2.1)⟩

theorem Resolves.standsFor_iff (h : Resolves r w a n w') (ha : w.StandsFor a n) :
    w'.StandsFor x y ↔ Image r a n x y ∨ (x, y) ≠ (a, n) ∧ w.StandsFor x y := by
  have other (hxy : w.StandsFor x y) : x ≠ a ↔ (x, y) ≠ (a, n) := by
    constructor
    · intro hx he
      exact hx (Prod.mk.inj he).1
    · intro hne hx
      subst hx
      exact hne (by rw [hxy.unique ha])
  have image {x' y'} (h' : Image r a n x' y') : Image r a n x y ↔ x = x' ∧ y = y' := by
    constructor
    · exact fun h => h.unique h'
    · intro he
      rw [he.1, he.2]
      exact h'
  cases h with
  | dropped hnone =>
    rw [standsFor_erase]
    constructor
    · intro hx
      exact .inr ⟨(other hx.2).1 hx.1, hx.2⟩
    · intro hx
      have hx := hx.resolve_left (hnone x y)
      exact ⟨(other hx.2).2 hx.1, hx.2⟩
  | kept himage =>
    rw [image himage]
    constructor
    · intro hx
      by_cases he : (x, y) = (a, n)
      · exact .inl (Prod.mk.inj he)
      · exact .inr ⟨he, hx⟩
    · intro hx
      rcases hx with ⟨rfl, rfl⟩ | ⟨-, hx⟩
      · exact ha
      · exact hx
  | repointed himage hne =>
    rw [image himage, standsFor_insert]
    constructor
    · intro hx
      exact hx.imp id fun hx => ⟨(other hx.2).1 hx.1, hx.2⟩
    · intro hx
      exact hx.imp id fun hx => ⟨(other hx.2).2 hx.1, hx.2⟩
  | joined himage hxa hthere =>
    rw [image himage, standsFor_erase]
    constructor
    · intro hx
      exact .inr ⟨(other hx.2).1 hx.1, hx.2⟩
    · intro hx
      rcases hx with ⟨rfl, rfl⟩ | hx
      · exact ⟨hxa, hthere⟩
      · exact ⟨(other hx.2).2 hx.1, hx.2⟩
  | @moved x' y' himage hxa hnew _ =>
    have hfree (hx : w.StandsFor x y) : x ≠ x' := by
      intro he
      exact not_isAlias_iff.1 hnew y (he ▸ hx)
    rw [image himage, standsFor_insert, standsFor_erase]
    constructor
    · intro hx
      exact hx.imp id fun hx => ⟨(other hx.2.2).1 hx.2.1, hx.2.2⟩
    · intro hx
      exact hx.imp id fun hx => ⟨hfree hx.2, (other hx.2).2 hx.1, hx.2⟩

/-! ## All entries -/

/-- Some entry of a list has an image, and no entry after it is that image. -/
def Leaves (r : String → Option String) (entries : List (String × String)) (x y : String) : Prop :=
  ∃ earlier a n later, entries = earlier ++ (a, n) :: later ∧ Image r a n x y ∧ (x, y) ∉ later

theorem leaves_concat : Leaves r (earlier ++ [(a, n)]) x y ↔
    Image r a n x y ∨ (x, y) ≠ (a, n) ∧ Leaves r earlier x y := by
  constructor
  · intro h
    obtain ⟨before, b, k, after, hsplit, himage, hafter⟩ := h
    rcases List.eq_nil_or_concat after with rfl | ⟨after, last, rfl⟩
    · obtain ⟨-, he⟩ := List.append_inj' hsplit rfl
      cases he
      exact .inl himage
    · rw [List.concat_eq_append] at hsplit hafter
      obtain ⟨rfl, he⟩ := List.append_inj' (by simpa using hsplit :
        earlier ++ [(a, n)] = (before ++ (b, k) :: after) ++ [last]) rfl
      cases he
      simp only [List.mem_append, List.mem_singleton, not_or] at hafter
      exact .inr ⟨hafter.2, before, b, k, after, rfl, himage, hafter.1⟩
  · intro h
    rcases h with himage | ⟨hne, before, b, k, after, rfl, himage, hafter⟩
    · exact ⟨earlier, a, n, [], rfl, himage, by simp⟩
    · exact ⟨before, b, k, after ++ [(a, n)], by simp, himage, by simp [hafter, hne]⟩

/-- A working copy holds the entries to come, and what the resolved ones have left. -/
def Holds (r : String → Option String) (earlier later : List (String × String)) (w : AliasMap) : Prop :=
  ∀ x y, w.StandsFor x y ↔ (x, y) ∈ later ∨ Leaves r earlier x y

theorem holds_start : Holds r [] m.entries m := by
  intro x y
  simp [Leaves, mem_entries_iff]

theorem Holds.step (h : Holds r earlier ((a, n) :: later) w) (hnew : (a, n) ∉ later)
    (hs : Resolves r w a n w') : Holds r (earlier ++ [(a, n)]) later w' := by
  intro x y
  have ha : w.StandsFor a n := (h a n).2 (.inl List.mem_cons_self)
  have hne (hx : (x, y) ∈ later) : (x, y) ≠ (a, n) := fun he => hnew (he ▸ hx)
  rw [hs.standsFor_iff ha, h x y, leaves_concat, List.mem_cons]
  tauto

/-- The aliases after all have been resolved: what their entries leave. -/
theorem standsFor_resolve_iff (hr : m.resolve r = .ok m') : m'.StandsFor x y ↔ Leaves r m.entries x y := by
  have run : ∀ {later earlier : List (String × String)} {w : AliasMap}, later.Nodup →
      Holds r earlier later w → later.foldlM (resolveEntry r) w = .ok m' →
        Holds r (earlier ++ later) [] m' := by
    intro later
    induction later with
    | nil =>
      intro earlier w _ h hr
      cases hr
      simpa using h
    | cons e later ih =>
      intro earlier w hnodup h hr
      rw [List.nodup_cons] at hnodup
      rw [List.foldlM_cons] at hr
      cases hs : resolveEntry r w e with
      | error err =>
        rw [hs] at hr
        cases hr
      | ok w' =>
        rw [hs] at hr
        have hnext := ih hnodup.2 (h.step hnodup.1 (resolves_of_resolveEntry hs)) hr
        simpa using hnext
  have hdone : Holds r ([] ++ m.entries) [] m' := run m.toMap.nodup.of_map holds_start hr
  simpa using hdone x y

/-- Every entry with a given image comes before an entry that is this image. -/
def Overtaken (m : AliasMap) (r : String → Option String) (x y : String) : Prop :=
  ∀ earlier a n later, m.entries = earlier ++ (a, n) :: later → Image r a n x y → (x, y) ∈ later

theorem overtaken_iff : m.Overtaken r x y ↔ ¬ Leaves r m.entries x y := by
  simp only [Overtaken, Leaves, not_exists, not_and, not_not]

/-- An image that is an entry before it is resolved is overtaken only by that entry, which then has another
image or none. -/
theorem Overtaken.entry (h : m.Overtaken r x y) (ha : m.StandsFor a n) (himage : Image r a n x y) :
    m.StandsFor x y ∧ ¬ Image r x y x y := by
  obtain ⟨earlier, later, hsplit⟩ := List.mem_iff_append.1 (mem_entries_iff.2 ha)
  have hxy : (x, y) ∈ m.entries := by
    rw [hsplit]
    simp [h earlier a n later hsplit himage]
  refine ⟨mem_entries_iff.1 hxy, fun hself => ?_⟩
  obtain ⟨before, after, hsplit⟩ := List.mem_iff_append.1 hxy
  have hnodup : m.entries.Nodup := m.toMap.nodup.of_map
  rw [hsplit, List.nodup_middle, List.nodup_cons] at hnodup
  exact hnodup.1 (List.mem_append_right _ (h before x y after hsplit hself))

/-- **When all aliases have been resolved, the image of an entry is there exactly if it was not
overtaken**: if no old entry that is the same as this image had its turn after all those that have
it. Two entries whose images are one alias with two names are resolved only if one of the images was overtaken. -/
theorem standsFor_image_iff (hr : m.resolve r = .ok m') (ha : m.StandsFor a n) (himage : Image r a n x y) :
    (m'.StandsFor x y ↔ ¬ m.Overtaken r x y) ∧
    (m.Overtaken r x y → m.StandsFor x y ∧ ¬ Image r x y x y) ∧
    ∀ b k z, m.StandsFor b k → Image r b k x z → y ≠ z → m.Overtaken r x y ∨ m.Overtaken r x z := by
  refine ⟨?_, fun h => h.entry ha himage, fun b k z _ _ hne => ?_⟩
  · rw [overtaken_iff, not_not]
    exact standsFor_resolve_iff hr
  · by_contra hno
    simp only [not_or, overtaken_iff, not_not, ← standsFor_resolve_iff hr] at hno
    exact hne (hno.1.unique hno.2)

/-- Two aliases in a row. -/
def row : AliasMap := [.register "p" "x" false, .register "q" "y" false].foldl after {}

/-- What makes the first alias of the row what the second one was. -/
def shift : Substitution where
  exact := [("x", some "y"), ("p", some "q"), ("y", some "z"), ("q", some "w")]

/-- The image of the first alias is overtaken, that of the second is not. -/
theorem standsFor_image_row :
    row.resolve shift.apply = .ok ⟨.ofList [("z", "w")]⟩ ∧
      Image shift.apply "x" "p" "y" "q" ∧ row.Overtaken shift.apply "y" "q" ∧
      Image shift.apply "y" "q" "z" "w" ∧ ¬ row.Overtaken shift.apply "z" "w" := by
  have hresolve : row.resolve shift.apply = .ok ⟨.ofList [("z", "w")]⟩ := by decide +kernel
  have hx : Image shift.apply "x" "p" "y" "q" := ⟨by decide +kernel, by decide +kernel, by decide⟩
  have hy : Image shift.apply "y" "q" "z" "w" := ⟨by decide +kernel, by decide +kernel, by decide⟩
  refine ⟨hresolve, hx, ?_, hy, ?_⟩
  · by_contra hno
    have hthere := (standsFor_image_iff hresolve (by decide +kernel) hx).1.2 hno
    exact absurd hthere (by decide +kernel)
  · exact (standsFor_image_iff hresolve (by decide +kernel) hy).1.1 (by decide +kernel)

/-- Resolving all aliases may lose the image of one, and may take two names for one alias without
failing. Both hang on the order: the first alias becomes what the second one is before its turn, and is dropped as
known already. -/
theorem not_standsFor_image :
    (¬ ∀ (m : AliasMap) (r : String → Option String) (m' : AliasMap), m.Acyclic → m.resolve r = .ok m' →
      ∀ a n x y, m.StandsFor a n → Image r a n x y → m'.StandsFor x y) ∧
    ¬ ∀ (m : AliasMap) (r : String → Option String), m.Acyclic → (∃ a n b k x y z, m.StandsFor a n ∧
      m.StandsFor b k ∧ Image r a n x y ∧ Image r b k x z ∧ y ≠ z) → ∃ e, m.resolve r = .error e := by
  have hacyclic : row.Acyclic := acyclic_empty.foldl_after _
  constructor
  · intro claim
    have hthere := claim row shift.apply ⟨.ofList [("z", "w")]⟩ hacyclic (by decide +kernel) "x" "p" "y" "q"
      (by decide +kernel) ⟨by decide +kernel, by decide +kernel, by decide⟩
    exact absurd hthere (by decide +kernel)
  · intro claim
    let half : Substitution := { exact := [("x", some "y"), ("p", some "q"), ("q", some "w")] }
    have hresolve : row.resolve half.apply = .ok ⟨.ofList [("y", "w")]⟩ := by decide +kernel
    obtain ⟨e, he⟩ := claim row half.apply hacyclic ⟨"x", "p", "y", "q", "y", "q", "w", by decide +kernel,
      by decide +kernel, ⟨by decide +kernel, by decide +kernel, by decide⟩,
      ⟨by decide +kernel, by decide +kernel, by decide⟩, by decide⟩
    rw [hresolve] at he
    cases he

end BeanContainer.AliasMap
