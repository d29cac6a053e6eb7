import BeanContainer.Proofs.AliasImages

/-!
Resolving all aliases without a bound on the searches. The check for a circle
goes backwards from a name to the aliases registered for it, and keeps no
account of where it has been: on a map with a circle it may never answer
(`search_eq_none`), and resolving an entry may leave such a working copy
behind. It answers all the same wherever no circle leads to the name it starts
from (`search_eq`), as none does to a name that is no alias; and no check starts
from any other (`resolveEntryBy_eq`). So resolving comes to an end, with what it
comes to under the bound (`resolve_ends`).
-/

namespace BeanContainer.AliasMap

open Relation

variable {m w : AliasMap} {r : String → Option String} {a n x y : String}

/-! ## A search that answers, or never does -/

section anyM

variable {α : Type} {f : α → Option Bool} {l : List α}

theorem anyM_eq_some {p : α → Bool} (h : ∀ e ∈ l, f e = some (p e)) : l.anyM f = some (l.any p) := by
  induction l with
  | nil => rfl
  | cons e l ih =>
    rw [List.anyM, h e List.mem_cons_self, List.any_cons]
    cases p e with
    | true => rfl
    | false => exact ih fun e he => h e (List.mem_cons_of_mem _ he)

theorem of_anyM_eq_some {found : Bool} (h : l.anyM f = some found) :
    if found then ∃ e ∈ l, f e = some true else ∀ e ∈ l, f e = some false := by
  induction l with
  | nil =>
    cases h
    simp
  | cons e l ih =>
    rw [List.anyM] at h
    obtain ⟨here, he, h⟩ := Option.bind_eq_some_iff.1 h
    cases here with
    | true =>
      cases h
      exact ⟨e, List.mem_cons_self, he⟩
    | false =>
      have hrest := ih h
      cases found with
      | true =>
        obtain ⟨e', hl, he'⟩ := hrest
        exact ⟨e', List.mem_cons_of_mem _ hl, he'⟩
      | false => exact List.forall_mem_cons.2 ⟨he, hrest⟩

end anyM

/-- Whether an alias stands for a name, directly or through other aliases, searched for without a
bound: none if the search does not come to an end. -/
def search (m : AliasMap) (name altName : String) : Option Bool :=
  m.entries.anyM fun e =>
    if e.2 = name then
      if e.1 = altName then some true else m |>.search e.1 altName
    else some false
partial_fixpoint

/-- A search from a name that no circle leads to comes to an end, and the bound did not matter. -/
theorem search_eq (h : m.ClearTo n) : m.search n a = some (m.hasAlias n a) := by
  -- a step back has fewer aliases behind it
  induction hcard : (m.behind n).card using Nat.strong_induction_on generalizing n with
  | _ card ih =>
    rw [search, hasAlias_eq h]
    refine anyM_eq_some fun e he => ?_
    by_cases hen : e.2 = n
    · have hback : m.StandsFor e.1 n := mem_entries_iff.1 (hen ▸ he)
      have hrest := ih _ (hcard ▸ card_behind_lt h hback) (h.back hback) rfl
      by_cases hea : e.1 = a
      · simp [hen, hea]
      · simp [hen, hea, hrest]
    · simp [hen]

/-- What an answer says, wherever the search started. -/
theorem search_sound {found : Bool} (h : m.search n a = some found) :
    if found then TransGen m.StandsFor a n else m.ClearTo n := by
  refine search.partial_correctness m a
    (fun n found => if found then TransGen m.StandsFor a n else m.ClearTo n) ?_ n found h
  intro rest ih n found h
  cases found with
  | true =>
    obtain ⟨e, he, hfound⟩ : ∃ e ∈ m.entries, _ = some true := of_anyM_eq_some h
    split at hfound
    next hen =>
      have hback : m.StandsFor e.1 n := mem_entries_iff.1 (hen ▸ he)
      split at hfound
      next hea => exact .single (hea ▸ hback)
      next => exact (ih e.1 true hfound : TransGen m.StandsFor a e.1).tail hback
    next => cases hfound
  | false =>
    -- whatever stands for the name has been searched to the end
    have hrest {b} (hback : m.StandsFor b n) : m.ClearTo b := by
      have hb := (of_anyM_eq_some h : ∀ e ∈ m.entries, _ = some false) (b, n) (mem_entries_iff.2 hback)
      split at hb
      next =>
        split at hb
        · cases hb
        · exact ih b false hb
      next hne => exact absurd rfl hne
    intro x hx hxx
    obtain ⟨b, hxb, hback⟩ := TransGen.tail'_iff.1 (hxx.trans_left hx)
    exact hrest hback x hxb hxx

/-- A search that a circle leads to does not end without having found what it looks for. -/
theorem search_eq_none (hn : ¬ m.ClearTo n) (ha : ¬ TransGen m.StandsFor a n) : m.search n a = none := by
  cases h : m.search n a with
  | none => rfl
  | some found =>
    have hsound := search_sound h
    cases found with
    | true => exact absurd hsound ha
    | false => exact absurd hsound hn

/-! ## Resolving by a search -/

theorem run_foldlM_eq_some {α ε σ : Type} {f : σ → α → ExceptT ε Option σ} {g : σ → α → Except ε σ}
    (h : ∀ s e, (f s e).run = some (g s e)) {l : List α} {s : σ} :
    (l.foldlM f s).run = some (l.foldlM g s) := by
  induction l generalizing s with
  | nil => rfl
  | cons e l ih =>
    rw [List.foldlM_cons, List.foldlM_cons, ExceptT.run_bind, h]
    cases g s e with
    | error err => rfl
    | ok s' => exact ih

/-- Resolves one entry of the map inside a working copy, with a search for the check for circles
that may not come to an end. -/
def resolveEntryBy (search : AliasMap → String → String → Option Bool) (resolve : String → Option String)
    (working : AliasMap) (entry : String × String) : ExceptT BeanError Option AliasMap := do
  let (altName, name) := entry
  match resolve altName, resolve name with
  | some newAlias, some newName =>
    if newAlias = newName then return ⟨working.toMap.erase altName⟩
    if newAlias = altName then
      if name = newName then return working
      return ⟨working.toMap.insert altName newName⟩
    match working.toMap.get? newAlias with
    | some existing =>
      if existing = newName then return ⟨working.toMap.erase altName⟩
      throw (.illegalState (.aliasConflict newAlias altName existing newName))
    | none =>
      if ← search working newAlias newName then
        throw (.illegalState (.aliasCircle newName newAlias))
      return ⟨(working.toMap.erase altName).insert newAlias newName⟩
  | _, _ => return ⟨working.toMap.erase altName⟩

/-- Resolves every entry, with a search for the checks: none if one of them does not come to an end. -/
def resolveBy (search : AliasMap → String → String → Option Bool) (m : AliasMap)
    (resolver : String → Option String) : Option (Except BeanError AliasMap) :=
  (m.entries.foldlM (resolveEntryBy search resolver) m).run

/-- Where the search answers from a name that is no alias, an entry is resolved as it is under the bound:
only then is a check made. -/
theorem resolveEntryBy_eq {s : AliasMap → String → String → Option Bool}
    (h : ∀ (w : AliasMap) x y, w.isAlias x = false → s w x y = some (w.hasAlias x y)) (w : AliasMap)
    (e : String × String) : (resolveEntryBy s r w e).run = some (resolveEntry r w e) := by
  obtain ⟨a, n⟩ := e
  simp only [resolveEntryBy, resolveEntry]
  cases r a with
  | none => rfl
  | some x =>
    cases r n with
    | none => rfl
    | some y =>
      dsimp only
      by_cases hxy : x = y
      · rw [if_pos hxy, if_pos hxy]
        rfl
      by_cases hxa : x = a
      · rw [if_neg hxy, if_neg hxy, if_pos hxa, if_pos hxa]
        split <;> rfl
      rw [if_neg hxy, if_neg hxy, if_neg hxa, if_neg hxa]
      cases hx : w.toMap.get? x with
      | some existing =>
        dsimp only
        split <;> rfl
      | none =>
        -- the only case with a search, and it starts at a name without an entry
        have hx : w.isAlias x = false := not_isAlias_iff.2 fun z hz => by cases hx.symm.trans hz
        rw [h w x y hx, checkCircle]
        cases w.hasAlias x y <;> rfl

theorem resolveBy_eq {s : AliasMap → String → String → Option Bool}
    (h : ∀ (w : AliasMap) x y, w.isAlias x = false → s w x y = some (w.hasAlias x y)) :
    m.resolveBy s r = some (m.resolve r) :=
  run_foldlM_eq_some (resolveEntryBy_eq h)

/-- **Resolving all aliases comes to an end**, whatever circles a working copy has: without a bound on the
searches it has the same outcome. A search may come to whatever it likes from a name that is an alias, for none is
made there, and from a name that is no alias it ends. Every entry of the outcome is the image of an old one. -/
theorem resolve_ends (m : AliasMap) (r : String → Option String) :
    m.resolveBy search r = some (m.resolve r) ∧
    (∀ s, (∀ (w : AliasMap) x y, w.isAlias x = false → s w x y = w.search x y) →
      m.resolveBy s r = m.resolveBy search r) ∧
    (∀ (w : AliasMap) x y, w.isAlias x = false → w.search x y = some (w.hasAlias x y)) ∧
    ∀ m', m.resolve r = .ok m' → ∀ x y, (x, y) ∈ m'.entries → ∃ a n, (a, n) ∈ m.entries ∧ Image r a n x y := by
  have ends (w : AliasMap) (x y : String) (hx : w.isAlias x = false) : w.search x y = some (w.hasAlias x y) :=
    search_eq (clearTo_of_not_isAlias hx)
  have bounded : m.resolveBy search r = some (m.resolve r) := resolveBy_eq ends
  refine ⟨bounded, fun s hs => ?_, ends, fun m' hr x y hxy => ?_⟩
  · rw [bounded]
    exact resolveBy_eq fun w x y hx => (hs w x y hx).trans (ends w x y hx)
  · obtain ⟨earlier, a, n, later, hsplit, himage, -⟩ := (standsFor_resolve_iff hr).1 (mem_entries_iff.1 hxy)
    refine ⟨a, n, ?_, himage⟩
    rw [hsplit]
    simp

/-- An alias and another one for it, and two more apart from these. -/
def tangle : AliasMap :=
  [.register "x" "a" false, .register "a" "b" false, .register "p" "c" false, .register "d" "e" false].foldl after {}

/-- What leads the first alias back to itself, and makes of the third one a name with an alias. -/
def tug : Substitution where
  exact := [("x", some "b"), ("c", some "d")]

/-- The tangle when the third alias has its turn. -/
def knot : AliasMap := ⟨.ofList [("a", "b"), ("b", "a"), ("c", "p"), ("e", "d")]⟩

/-- What the tangle comes to. -/
def tied : AliasMap := ⟨.ofList [("a", "b"), ("b", "a"), ("e", "d"), ("d", "p")]⟩

/-- The third alias is checked beside a circle, around which a search would go for ever; the check has another
alias to look at and ends. Resolving would not, if it had no answer. -/
theorem resolve_ends_tangle :
    tangle.Acyclic ∧ tangle.entries = [("a", "x"), ("b", "a")] ++ ("c", "p") :: [("e", "d")] ∧
    [("a", "x"), ("b", "a")].foldlM (resolveEntry tug.apply) tangle = .ok knot ∧
    TransGen knot.StandsFor "a" "a" ∧ knot.search "a" "p" = none ∧
    Image tug.apply "c" "p" "d" "p" ∧ knot.isAlias "d" = false ∧ knot.search "d" "p" = some false ∧
    tangle.resolveBy (fun w x y => if x = "d" then none else w.search x y) tug.apply = none ∧
    tangle.resolve tug.apply = .ok tied ∧ tangle.resolveBy search tug.apply = some (.ok tied) ∧
    ∃ a n, (a, n) ∈ tangle.entries ∧ Image tug.apply a n "d" "p" := by
  have hcircle : TransGen knot.StandsFor "a" "a" :=
    .head (by decide +kernel : knot.StandsFor "a" "b") (.single (by decide +kernel))
  have hnone : knot.search "a" "p" = none := by
    refine search_eq_none (fun hclear => hclear "a" .refl hcircle) fun hp => ?_
    exact absurd (isAlias_of_transGen hp) (by decide +kernel)
  have hfree : knot.isAlias "d" = false := by decide +kernel
  have hresolve : tangle.resolve tug.apply = .ok tied := by decide +kernel
  obtain ⟨hends, -, hanswers, himages⟩ := resolve_ends tangle tug.apply
  refine ⟨acyclic_empty.foldl_after _, by decide +kernel, by decide +kernel, hcircle, hnone,
    ⟨by decide +kernel, by decide +kernel, by decide⟩, hfree, ?_, by decide +kernel, hresolve, ?_, ?_⟩
  · rw [hanswers knot "d" "p" hfree]
    decide +kernel
  · rw [hends, hresolve]
  · exact himages tied hresolve "d" "p" (by decide +kernel)

end BeanContainer.AliasMap
