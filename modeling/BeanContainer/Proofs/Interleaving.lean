import BeanContainer.Interleaving
import BeanContainer.Proofs.Factories
import BeanContainer.Proofs.Resets

/-!
What interleaved merges and replacements leave in the cache.

A replacement outdates the merges of all definitions below the replaced one and
then drops them one after the other. The invariant (`Workshop.Fits`) says of a
cached merge that it is the current one or that a replacement in progress has
yet to drop it, and of a merge in progress that it is the current one as long as
the store is at the generation it started from. So a merge that was overtaken by
a replacement is not kept, and what is kept is current
(`Workshop.current_of_finished`).

One thing the generation does not tell: whether the parent's merge, taken up
from the cache, is itself outdated. Taken up from there before it is dropped, it
gets into a merge at the new generation, which is kept and outdated for good
(`Workshop.not_current_of_finished`).
-/

namespace BeanContainer

open Relation

/-- A merge is what the definitions now come to. -/
def Factory.Current (above : String → Option MergedDefinition) (B : Factory) (n : String)
    (m : MergedDefinition) : Prop :=
  B.blueprint.Merges (fun p m => above p = some m) n m

theorem Factory.current_root {above : String → Option MergedDefinition} {F : Factory} {n : String}
    {d : Definition} (hd : F.definitions.get? n = some d) (hp : d.parent = none) :
    F.Current above n (F.settle (.ofRoot n d)) := .root rfl hd hp

/-! ## What replacements have yet to drop -/

namespace Factory

variable {B B' : Factory} {V : OrderedSet String} {a c n t : String}

/-- A definition is a child of another one, and not among the visited names. -/
def Opens (B : Factory) (V : OrderedSet String) (p c : String) : Prop :=
  B.ChildOf c p ∧ c ∉ V.toList

/-- Children lead from a name that is not visited down to another one, past visited names. -/
def Leads (B : Factory) (V : OrderedSet String) (t n : String) : Prop :=
  t ∉ V.toList ∧ ReflTransGen (B.Opens V) t n

theorem leads_of_below (h : n ∈ B.Below a) : B.Leads {} a n := by
  exact ⟨by simp, ReflTransGen.mono (fun _ _ hc => ⟨hc, by simp⟩) _ _ h⟩

theorem Leads.insert (h : B.Leads V t n) :
    n = a ∨ TransGen (B.Opens (V.insert a)) a n ∨ B.Leads (V.insert a) t n := by
  obtain ⟨ht, h⟩ := h
  induction h with
  | refl =>
    by_cases hta : t = a
    · exact .inl hta
    · exact .inr (.inr ⟨by simp [ht, hta], .refl⟩)
  | @tail x n _ hn ih =>
    by_cases hna : n = a
    · exact .inl hna
    · have hopen : B.Opens (V.insert a) x n := ⟨hn.1, by simp [hn.2, hna]⟩
      rcases ih with rfl | ih | ih
      · exact .inr (.inl (.single hopen))
      · exact .inr (.inl (ih.tail hopen))
      · exact .inr (.inr ⟨ih.1, ih.2.tail hopen⟩)

theorem exists_leads (h : TransGen (B.Opens V) a n) : ∃ c, B.ChildOf c a ∧ B.Leads V c n := by
  obtain ⟨c, hc, hcn⟩ := TransGen.head'_iff.1 h
  exact ⟨c, hc.1, hc.2, hcn⟩

theorem mem_children : c ∈ B.children a ↔ B.ChildOf c a := by
  simp only [children, List.mem_map, List.mem_filter, Bool.and_eq_true, decide_eq_true_eq,
    Prod.exists, exists_and_right, exists_eq_right, ChildOf]
  constructor
  · rintro ⟨d, hd, hne, hchild⟩
    exact ⟨d, OrderedMap.get?_eq_some_iff.2 hd, hne, hchild⟩
  · rintro ⟨d, hd, hne, hchild⟩
    exact ⟨d, OrderedMap.get?_eq_some_iff.1 hd, hne, hchild⟩

namespace DiffersAt

theorem childOf (h : DiffersAt a B B') {p : String} (hc : B.ChildOf c p) (hne : c ≠ a) :
    B'.ChildOf c p := by
  obtain ⟨d, hd, hcp, hp⟩ := hc
  obtain ⟨q, hq, rfl⟩ := isChildOf_iff.1 hp
  refine ⟨d, (h.definitions c hne).trans hd, hcp, isChildOf_iff.2 ⟨q, hq, by rw [h.canonical]⟩⟩

/-- After a change, names lead to what they led to, unless that is below the change. -/
theorem opens (h : DiffersAt a B B') {p : String} (hc : B.Opens V p c) :
    c ∈ B'.Below a ∨ B'.Opens V p c := by
  by_cases hca : c = a
  · exact .inl (hca ▸ mem_below_self)
  · exact .inr ⟨h.childOf hc.1 hca, hc.2⟩

theorem leads (h : DiffersAt a B B') (hn : ReflTransGen (B.Opens V) t n) :
    n ∈ B'.Below a ∨ ReflTransGen (B'.Opens V) t n := by
  induction hn with
  | refl => exact .inr .refl
  | tail _ hc ih =>
    rcases h.opens hc with hbelow | hopen
    · exact .inl hbelow
    · rcases ih with ih | ih
      · exact .inl (Below.child ih hopen.1)
      · exact .inr (ih.tail hopen)

theorem leads_strictly (h : DiffersAt a B B') (hn : TransGen (B.Opens V) t n) :
    n ∈ B'.Below a ∨ TransGen (B'.Opens V) t n := by
  obtain ⟨x, hx, hxn⟩ := TransGen.tail'_iff.1 hn
  rcases h.opens hxn with hbelow | hopen
  · exact .inl hbelow
  · rcases h.leads hx with hx | hx
    · exact .inl (Below.child hx hopen.1)
    · exact .inr (TransGen.tail' hx hopen)

end DiffersAt

end Factory

/-- A replacement has yet to drop the merge of a name. -/
def Replacer.Awaits (B : Factory) (r : Replacer) (n : String) : Prop :=
  match r with
  | .define _ _ => False
  | .visit names visited => ∃ t ∈ names, B.Leads visited t n
  | .descend name names visited =>
    TransGen (B.Opens visited) name n ∨ ∃ t ∈ names, B.Leads visited t n

namespace Replacer

variable {B B' F : Factory} {a n : String} {r : Replacer}

/-- After a change, what had yet to be dropped has so still, or is below the change. -/
theorem Awaits.change (h : Factory.DiffersAt a B B') (hn : r.Awaits B n) :
    n ∈ B'.Below a ∨ r.Awaits B' n := by
  have among {names : List String} {visited} (hn : ∃ t ∈ names, B.Leads visited t n) :
      n ∈ B'.Below a ∨ ∃ t ∈ names, B'.Leads visited t n := by
    obtain ⟨t, ht, hout, hn⟩ := hn
    exact (h.leads hn).imp id fun hn => ⟨t, ht, hout, hn⟩
  cases r with
  | define => exact hn.elim
  | visit names visited => exact among hn
  | descend name names visited =>
    rcases hn with hn | hn
    · exact (h.leads_strictly hn).imp id .inl
    · exact (among hn).imp id .inr

/-- What a step of a replacement does: it takes up the definition, and has yet to drop all that is
below it, or it drops a merge, if any, and nothing else that it had yet to drop. -/
theorem step_cases (F : Factory) (r : Replacer) :
    (∃ a store, (r.step F).1 = { F with definitions := store } ∧
        F.definitions.generation < store.generation ∧
        Factory.DiffersAt a F.blueprint (r.step F).1.blueprint ∧ (∀ n, ¬ r.Awaits F.blueprint n) ∧
        ∀ n ∈ (r.step F).1.blueprint.Below a, (r.step F).2.Awaits (r.step F).1.blueprint n) ∨
      (∃ cache, (r.step F).1 = { F with merged := cache } ∧
        ∀ n ref, cache.get? n = some ref → F.merged.get? n = some ref ∧
          (r.Awaits F.blueprint n → (r.step F).2.Awaits F.blueprint n)) := by
  cases r with
  | define name d =>
    cases hF : F.define name d with
    | error e =>
      have hstep : (Replacer.define name d).step F = (F, .visit [] {}) := by simp only [step, hF]
      rw [hstep]
      exact .inr ⟨F.merged, rfl, fun n ref hm => ⟨hm, False.elim⟩⟩
    | ok new =>
      have hstep : (Replacer.define name d).step F = (new, .visit [name] {}) := by simp only [step, hF]
      rw [hstep]
      obtain rfl := define_eq_ok hF
      refine .inl ⟨name, _, rfl, Nat.lt_succ_self _, ⟨rfl, rfl, ⟨rfl, rfl⟩, fun x hx => ?_⟩,
        fun n => id, fun n hn => ⟨name, by simp, Factory.leads_of_below hn⟩⟩
      exact OrderedMap.get?_insert_of_ne hx
  | visit names visited =>
    cases names with
    | nil => exact .inr ⟨F.merged, rfl, fun n ref hm => ⟨hm, id⟩⟩
    | cons name names =>
      by_cases hv : name ∈ visited.toList
      · have hstep : (Replacer.visit (name :: names) visited).step F = (F, .visit names visited) := by
          simp [step, hv]
        rw [hstep]
        refine .inr ⟨F.merged, rfl, fun n ref hm => ⟨hm, ?_⟩⟩
        rintro ⟨t, ht, hn⟩
        refine ⟨t, ?_, hn⟩
        -- the visited name leads nowhere
        exact (List.mem_cons.1 ht).resolve_left fun e => hn.1 (e ▸ hv)
      · have hstep : (Replacer.visit (name :: names) visited).step F =
            ({ F with merged := F.merged.evict name }, .descend name names (visited.insert name)) := by
          simp [step, hv]
        rw [hstep]
        refine .inr ⟨_, rfl, fun n ref hm => ?_⟩
        have hne : n ≠ name := by
          rintro rfl
          exact absurd (OrderedMap.get?_erase_self.symm.trans hm) (by simp)
        refine ⟨(OrderedMap.get?_erase_of_ne hne).symm.trans hm, ?_⟩
        rintro ⟨t, ht, hn⟩
        rcases hn.insert (a := name) with rfl | hn | hn
        · exact absurd rfl hne
        · exact .inl hn
        · refine .inr ⟨t, (List.mem_cons.1 ht).resolve_left fun e => hn.1 ?_, hn⟩
          exact e ▸ OrderedSet.mem_insert.2 (.inr rfl)
  | descend name names visited =>
    refine .inr ⟨F.merged, rfl, fun n ref hm => ⟨hm, fun hn => ?_⟩⟩
    rcases hn with hn | ⟨t, ht, hn⟩
    · obtain ⟨c, hc, hcn⟩ := Factory.exists_leads hn
      exact ⟨c, List.mem_append.2 (.inl (Factory.mem_children.2 hc)), hcn⟩
    · exact ⟨t, List.mem_append.2 (.inr ht), hn⟩

end Replacer

/-! ## What merges in progress go by -/

/-- A merge of a name as of a generation is awaited. The definitions that wait were read no later.
One that was read at the generation of the store is current, and the awaited name is its parent. -/
def Factory.Awaited (B : Factory) : String → Nat → List Awaiting → Prop
  | _, _, [] => True
  | p, g, w :: awaiting =>
    w.generation ≤ g ∧
      (w.generation = B.definitions.generation →
        B.definitions.get? w.name = some w.definition ∧ ∃ q, w.definition.parent = some q ∧
          B.canonical q = p ∧ p ≠ w.name ∧ B.definitions.contains p = true) ∧
      B.Awaited w.name w.generation awaiting

/-- A merge in progress is the current one as long as the store is at the generation it started
from. -/
def Merger.Sound (above : String → Option MergedDefinition) (B : Factory) (m : Merger) : Prop :=
  match m.stage with
  | .seek name | .read name => B.Awaited name B.definitions.generation m.awaiting
  | .offer name generation merged =>
    generation ≤ B.definitions.generation ∧
      (generation = B.definitions.generation → B.Current above name merged.definition) ∧
      B.Awaited name generation m.awaiting
  | .ended _ => True

section

variable {above : String → Option MergedDefinition} {B B' : Factory} {p : String} {g g' : Nat}
  {awaiting : List Awaiting} {b : Bench} {m : Merger} {merged : MergedRef}

theorem Factory.Awaited.later (h : B.Awaited p g awaiting) (hg : g ≤ g') : B.Awaited p g' awaiting := by
  cases awaiting with
  | nil => trivial
  | cons w awaiting => exact ⟨h.1.trans hg, h.2⟩

/-- Once the store is at another generation, nothing that waits is bound to be current. -/
theorem Factory.Awaited.overtaken (hlt : B.definitions.generation < B'.definitions.generation) :
    ∀ {awaiting p g}, B.Awaited p g awaiting → g ≤ B.definitions.generation → B'.Awaited p g awaiting
  | [], _, _, _, _ => trivial
  | w :: awaiting, p, g, ⟨hw, _, h⟩, hg => by
    have hold : w.generation ≤ B.definitions.generation := hw.trans hg
    exact ⟨hw, fun e => by omega, h.overtaken hlt hold⟩

theorem Merger.Sound.overtaken (h : m.Sound above B)
    (hlt : B.definitions.generation < B'.definitions.generation) : m.Sound above B' := by
  obtain ⟨awaiting, stage⟩ := m
  cases stage with
  | seek name | read name => exact (Factory.Awaited.overtaken hlt h le_rfl).later hlt.le
  | offer name generation merged =>
    obtain ⟨hold, -, h⟩ := h
    exact ⟨hold.trans hlt.le, fun e => by omega, h.overtaken hlt hold⟩
  | ended answer => trivial

theorem Merger.sound_deliver (h : b.factory.blueprint.Awaited p g awaiting)
    (hg : g ≤ b.factory.definitions.generation)
    (hcurrent : awaiting ≠ [] → g = b.factory.definitions.generation →
      b.factory.Current above p merged.definition) :
    (deliver b merged awaiting).1.factory = b.factory ∧
      (deliver b merged awaiting).2.Sound above b.factory.blueprint := by
  cases awaiting with
  | nil => exact ⟨rfl, trivial⟩
  | cons w awaiting =>
    obtain ⟨hw, hread, h⟩ := h
    refine ⟨rfl, hw.trans hg, fun e => ?_, h⟩
    obtain ⟨hd, q, hq, rfl, hne, hc⟩ := hread e
    have hparent := hcurrent (by simp) (le_antisymm hg (e ▸ hw))
    exact .child rfl hd hq hne hc hparent

/-- A step of a merge, if what it takes up is current, leaves nothing in the cache that is not. -/
theorem Merger.step_spec (h : m.Sound above b.factory.blueprint)
    (taken : ∀ e, m.takesUp? b.factory = some e → b.factory.Current above e.1 e.2.definition) :
    ∃ cache, (m.step above b).1.factory = { b.factory with merged := cache } ∧
      (m.step above b).2.Sound above b.factory.blueprint ∧
      ∀ n ref, cache.get? n = some ref →
        b.factory.merged.get? n = some ref ∨ b.factory.Current above n ref.definition := by
  -- what leaves the cache as it is
  have same {r : Bench × Merger}
      (hr : r.1.factory = b.factory ∧ r.2.Sound above b.factory.blueprint) :
      ∃ cache, r.1.factory = { b.factory with merged := cache } ∧
        r.2.Sound above b.factory.blueprint ∧ ∀ n ref, cache.get? n = some ref →
          b.factory.merged.get? n = some ref ∨ b.factory.Current above n ref.definition :=
    ⟨b.factory.merged, hr.1, hr.2, fun _ _ => .inl⟩
  obtain ⟨awaiting, stage⟩ := m
  cases stage with
  | ended answer => exact same ⟨rfl, trivial⟩
  | seek name =>
    unfold step
    dsimp only
    split
    · exact same ⟨rfl, trivial⟩
    · rename_i hpath
      cases hm : b.factory.merged.get? name with
      | none => exact same ⟨rfl, h⟩
      | some merged =>
        refine same (sound_deliver h le_rfl fun hne _ => taken (name, merged) ?_)
        obtain ⟨w, awaiting, rfl⟩ := List.exists_cons_of_ne_nil hne
        simp only [takesUp?, if_neg hpath, hm, Option.map_some]
  | read name =>
    unfold step
    dsimp only
    cases hd : b.factory.definitions.get? name with
    | none => exact same ⟨rfl, trivial⟩
    | some d =>
      dsimp only
      cases hp : d.parent with
      | none => exact same ⟨rfl, le_rfl, fun _ => Factory.current_root hd hp, h⟩
      | some q =>
        dsimp only
        split
        · rename_i hlocal
          simp only [Bool.and_eq_true, decide_eq_true_eq] at hlocal
          exact same ⟨rfl, le_rfl, fun _ => ⟨hd, q, hp, rfl, hlocal.1, hlocal.2⟩, h⟩
        · rename_i hlocal
          simp only [Bool.and_eq_true, decide_eq_true_eq] at hlocal
          cases ha : above (b.factory.canonical q) with
          | none => exact same ⟨rfl, trivial⟩
          | some m => exact same ⟨rfl, le_rfl, fun _ => .beyond rfl hd hp hlocal ha, h⟩
  | offer name generation merged =>
    obtain ⟨hold, hcurrent, h⟩ := h
    unfold step
    dsimp only
    split
    · rename_i hcaching
      unfold MergedCache.insertIfCurrent
      split
      · rename_i hgen
        cases hm : b.factory.merged.get? name with
        | some kept =>
          refine same (sound_deliver h hold fun hne _ => taken (name, kept) ?_)
          obtain ⟨w, awaiting, rfl⟩ := List.exists_cons_of_ne_nil hne
          simp only [takesUp?, hcaching, hgen, decide_true, Bool.and_self, if_true, hm,
            Option.map_some]
        | none =>
          let b' : Bench := { b with
            factory := { b.factory with merged := ⟨b.factory.merged.entries.insert name merged⟩ } }
          have hdeliver : (deliver b' merged awaiting).1.factory = b'.factory ∧
              (deliver b' merged awaiting).2.Sound above b'.factory.blueprint :=
            sound_deliver h hold fun _ => hcurrent
          refine ⟨_, hdeliver.1, hdeliver.2, fun n ref hn => ?_⟩
          by_cases hne : n = name
          · subst hne
            rw [MergedCache.get?, OrderedMap.get?_insert, if_pos rfl] at hn
            cases hn
            exact .inr (hcurrent hgen.symm)
          · exact .inl ((OrderedMap.get?_insert_of_ne hne).symm.trans hn)
      · exact same (sound_deliver h hold fun _ => hcurrent)
    · exact same (sound_deliver h hold fun _ => hcurrent)

end

/-! ## Turns -/

namespace Workshop

variable (above : String → Option MergedDefinition)

/-- A cached merge that is not current has yet to be dropped, and merges in progress are current as
long as nothing was replaced since they started. -/
structure Fits (W : Workshop) : Prop where
  entries : ∀ {n ref}, W.factory.merged.get? n = some ref →
    W.factory.Current above n ref.definition ∨ ∃ r ∈ W.replacers, r.Awaits W.factory.blueprint n
  mergers : ∀ m ∈ W.mergers, m.Sound above W.factory.blueprint

/-- Whatever a schedule has a merge take up from the cache, for a definition to be laid over it, is
current at that time. -/
def Careful : Workshop → List Turn → Prop
  | _, [] => True
  | W, t :: schedule =>
    (∀ e, W.takesUp? t = some e → W.factory.Current above e.1 e.2.definition) ∧
      Careful (W.turn above t) schedule

variable {above} {W : Workshop} {t : Turn} {schedule : List Turn} {i : Nat} {m : Merger} {r : Replacer}

theorem turn_merger_of_none (hi : W.mergers[i]? = none) : W.turn above (.merger i) = W := by
  simp only [turn, hi]

theorem turn_merger (hi : W.mergers[i]? = some m) : W.turn above (.merger i) =
    { W with bench := (m.step above W.bench).1, mergers := W.mergers.set i (m.step above W.bench).2 } := by
  simp only [turn, hi]

theorem turn_replacer_of_none (hi : W.replacers[i]? = none) : W.turn above (.replacer i) = W := by
  simp only [turn, hi]

theorem turn_replacer (hi : W.replacers[i]? = some r) : W.turn above (.replacer i) =
    { W with bench := { W.bench with factory := (r.step W.factory).1 },
             replacers := W.replacers.set i (r.step W.factory).2 } := by
  simp only [turn, hi]

theorem exists_awaits_set {B : Factory} {n : String} (r' : Replacer) (hi : W.replacers[i]? = some r)
    (hr : r.Awaits B n → r'.Awaits B n) (h : ∃ x ∈ W.replacers, x.Awaits B n) :
    ∃ x ∈ W.replacers.set i r', x.Awaits B n := by
  obtain ⟨x, hx, hn⟩ := h
  obtain ⟨j, hj⟩ := List.mem_iff_getElem?.1 hx
  by_cases hij : i = j
  · subst hij
    cases hi.symm.trans hj
    exact ⟨r', List.mem_set (List.getElem?_eq_some_iff.1 hi).1 r', hr hn⟩
  · exact ⟨x, List.mem_of_getElem? ((List.getElem?_set_ne hij).trans hj), hn⟩

/-- One turn keeps the invariant. -/
theorem Fits.turn (h : W.Fits above)
    (taken : ∀ e, W.takesUp? t = some e → W.factory.Current above e.1 e.2.definition) :
    (W.turn above t).Fits above := by
  cases t with
  | merge name =>
    refine ⟨h.entries, fun m hm => ?_⟩
    rcases List.mem_append.1 hm with hm | hm
    · exact h.mergers m hm
    · obtain rfl := List.mem_singleton.1 hm
      trivial
  | replace name d =>
    refine ⟨fun hm => (h.entries hm).imp id fun ⟨r, hr, hn⟩ => ⟨r, ?_, hn⟩, h.mergers⟩
    exact List.mem_append.2 (.inl hr)
  | merger i =>
    cases hi : W.mergers[i]? with
    | none => rwa [turn_merger_of_none hi]
    | some m =>
      obtain ⟨cache, hF, hsound, hcache⟩ := Merger.step_spec (h.mergers m (List.mem_of_getElem? hi))
        fun e he => taken e (by simp only [takesUp?, hi, Option.bind_some, he])
      rw [turn_merger hi]
      refine ⟨fun {n ref} hn => ?_, fun m' hm' => ?_⟩ <;> dsimp only [factory] at *
      · rw [hF] at hn ⊢
        rcases hcache n ref hn with hn | hn
        · exact h.entries hn
        · exact .inl hn
      · rw [hF]
        rcases List.mem_or_eq_of_mem_set hm' with hm' | rfl
        · exact h.mergers m' hm'
        · exact hsound
  | replacer i =>
    cases hi : W.replacers[i]? with
    | none => rwa [turn_replacer_of_none hi]
    | some r =>
      rw [turn_replacer hi]
      rcases r.step_cases W.factory with ⟨a, store, hF, hlt, hdiff, hnone, hbelow⟩ | ⟨cache, hF, hcache⟩
      · have hmem : (r.step W.factory).2 ∈ W.replacers.set i (r.step W.factory).2 :=
          List.mem_set (List.getElem?_eq_some_iff.1 hi).1 _
        refine ⟨fun {n ref} hn => ?_, fun m hm => (h.mergers m hm).overtaken (hF ▸ hlt)⟩
        dsimp only [factory] at *
        have hn : W.bench.factory.merged.get? n = some ref := by rwa [hF] at hn
        by_cases hna : n ∈ (r.step W.bench.factory).1.blueprint.Below a
        · exact .inr ⟨_, hmem, hbelow n hna⟩
        · rcases h.entries hn with hn | hn
          · exact .inl (hdiff.merges hn hna)
          · obtain ⟨x, hx, hn⟩ :=
              exists_awaits_set (r.step W.bench.factory).2 hi (fun hr => absurd hr (hnone n)) hn
            exact .inr ⟨x, hx, (hn.change hdiff).resolve_left hna⟩
      · refine ⟨fun {n ref} hn => ?_, fun m hm => ?_⟩ <;> dsimp only [factory] at *
        · rw [hF] at hn ⊢
          obtain ⟨hn, hr⟩ := hcache n ref hn
          exact (h.entries hn).imp id (exists_awaits_set _ hi hr)
        · rw [hF]
          exact h.mergers m hm

/-- **A schedule that takes up nothing outdated keeps the invariant.** -/
theorem Fits.after (h : W.Fits above) (careful : W.Careful above schedule) :
    (W.after above schedule).Fits above := by
  induction schedule generalizing W with
  | nil => exact h
  | cons t schedule ih => exact ih (h.turn careful.1) careful.2

theorem Fits.start (hm : W.mergers = [])
    (hcached : ∀ n ref, W.factory.merged.get? n = some ref → W.factory.Current above n ref.definition) :
    W.Fits above :=
  ⟨fun h => .inl (hcached _ _ h), by simp [hm]⟩

/-- **Once all replacements are finished, every cached merge is what the definitions now come to**,
however merges and replacements took turns, if no merge took up an outdated one for another
definition to be laid over it. -/
theorem current_of_finished (hm : W.mergers = [])
    (hcached : ∀ n ref, W.factory.merged.get? n = some ref → W.factory.Current above n ref.definition)
    (careful : W.Careful above schedule)
    (finished : ∀ r ∈ (W.after above schedule).replacers, r.isFinished = true) {n : String}
    {ref : MergedRef} (h : (W.after above schedule).factory.merged.get? n = some ref) :
    (W.after above schedule).factory.Current above n ref.definition := by
  refine (((Fits.start hm hcached).after careful).entries h).resolve_right ?_
  rintro ⟨r, hr, hn⟩
  have hr := finished r hr
  cases r with
  | define => exact hn
  | visit names visited =>
    cases names with
    | nil =>
      obtain ⟨t, ht, -⟩ := hn
      simp at ht
    | cons => simp [Replacer.isFinished] at hr
  | descend => simp [Replacer.isFinished] at hr

/-! ## A parent and its child -/

/-- A factory with a definition that has another one as its parent, before anything was merged. -/
def family : Workshop where
  bench.factory := { definitions := ⟨2, .ofList
    [("parent", { scope := some "one" }), ("child", { parent := some "parent" })]⟩ }

/-- The same parent, with another scope. -/
def otherParent : Definition := { scope := some "two" }

/-- Nothing is taken up from the cache in a number of turns. -/
def takesNothing : Workshop → List Turn → Bool
  | _, [] => true
  | W, t :: schedule => (W.takesUp? t).isNone && takesNothing (W.turn (fun _ => none) t) schedule

theorem careful_of_takesNothing : ∀ {schedule : List Turn} {W : Workshop},
    W.takesNothing schedule = true → W.Careful (fun _ => none) schedule
  | [], _, _ => trivial
  | t :: schedule, W, h => by
    unfold takesNothing at h
    obtain ⟨ht, h⟩ := Bool.and_eq_true_iff.1 h
    refine ⟨fun e he => ?_, careful_of_takesNothing h⟩
    simp [he] at ht

theorem Careful.append {rest : List Turn} (h : W.Careful above schedule)
    (h' : (W.after above schedule).Careful above rest) : W.Careful above (schedule ++ rest) := by
  induction schedule generalizing W with
  | nil => exact h'
  | cons t schedule ih => exact ⟨h.1, ih h.2 h'⟩

/-- A child is merged while its parent is replaced. It takes up the parent's merge before the
replacement, so its own is not kept; it is merged once more when all is over. -/
theorem current_of_finished_family :
    ∃ schedule, family.mergers = [] ∧
      (∀ n ref, family.factory.merged.get? n = some ref →
        family.factory.Current (fun _ => none) n ref.definition) ∧
      family.Careful (fun _ => none) schedule ∧
      (∀ r ∈ (family.after (fun _ => none) schedule).replacers, r.isFinished = true) ∧
      ∃ ref, (family.after (fun _ => none) schedule).factory.merged.get? "child" = some ref ∧
        ref.definition.scope = "two" ∧
        (family.after (fun _ => none) schedule).factory.Current (fun _ => none) "child"
          ref.definition := by
  let before : List Turn :=
    [.merge "parent", .merger 0, .merger 0, .merger 0, .merge "child", .merger 1, .merger 1]
  let later : List Turn :=
    [.replace "parent" otherParent, .replacer 0, .merger 1, .replacer 0, .replacer 0, .replacer 0,
      .replacer 0, .merge "child", .merger 2, .merger 2, .merger 2, .merger 2, .merger 2, .merger 2]
  have hcached : ∀ n ref, family.factory.merged.get? n = some ref →
      family.factory.Current (fun _ => none) n ref.definition := fun n ref h => by cases h
  -- the merge of the parent is taken up while it is the current one
  have taken {W : Workshop} (hd : W.factory.definitions.get? "parent" = some { scope := some "one" })
      (h : W.takesUp? (.merger 1) = some ("parent", ⟨0, W.factory.settle
        (.ofRoot "parent" { scope := some "one" })⟩)) (e : String × MergedRef)
      (he : W.takesUp? (.merger 1) = some e) :
      W.factory.Current (fun _ => none) e.1 e.2.definition := by
    cases h.symm.trans he
    exact Factory.current_root hd rfl
  have careful : family.Careful (fun _ => none) (before ++ .merger 1 :: later) :=
    .append (careful_of_takesNothing (by decide +kernel))
      ⟨taken (by decide +kernel) (by decide +kernel), careful_of_takesNothing (by decide +kernel)⟩
  have hfinished : ∀ r ∈ (family.after (fun _ => none) (before ++ .merger 1 :: later)).replacers,
      r.isFinished = true := List.all_eq_true.1 (by decide +kernel)
  have hchild : ((family.after (fun _ => none) (before ++ .merger 1 :: later)).factory.merged.get?
      "child").any (fun ref => ref.definition.scope = "two") = true := by decide +kernel
  obtain ⟨ref, href, hscope⟩ := (Option.any_eq_true ..).1 hchild
  exact ⟨_, rfl, hcached, careful, hfinished, ref, href, by simpa using hscope,
    current_of_finished rfl hcached careful hfinished href⟩

theorem eq_of_current_child {F : Factory} {m : MergedDefinition}
    (hparent : F.definitions.get? "parent" = some otherParent)
    (hchild : F.definitions.get? "child" = some { parent := some "parent" })
    (hcanonical : F.canonical "parent" = "parent") (h : F.Current (fun _ => none) "child" m) :
    m = F.settle (.ofParent "child" (F.settle (.ofRoot "parent" otherParent))
      { parent := some "parent" }) := by
  have hc : F.definitions.contains (F.canonical "parent") = true :=
    OrderedMap.contains_iff_get?.2 ⟨_, hcanonical.symm ▸ hparent⟩
  have hne : F.canonical "parent" ≠ "child" := by
    rw [hcanonical]
    decide
  obtain ⟨p, hp, rfl⟩ := h.inv_child (F := F.blueprint) rfl hchild rfl hne hc
  rw [show F.blueprint.canonical "parent" = "parent" from hcanonical] at hp
  rw [hp.inv_root (F := F.blueprint) rfl hparent rfl]
  rfl

/-- The parent's merge is taken up between the replacement and its being dropped. The child's is
then offered at the new generation, and kept. -/
theorem not_current_of_finished : ¬ ∀ (above : String → Option MergedDefinition) (W : Workshop)
    (schedule : List Turn), W.mergers = [] → W.replacers = [] →
    (∀ n ref, W.factory.merged.get? n = some ref → W.factory.Current above n ref.definition) →
    (W.after above schedule).isFinished = true → ∀ n ref,
      (W.after above schedule).factory.merged.get? n = some ref →
        (W.after above schedule).factory.Current above n ref.definition := by
  intro claim
  let schedule : List Turn :=
    [.merge "parent", .merger 0, .merger 0, .merger 0, .replace "parent" otherParent, .replacer 0,
      .merge "child", .merger 1, .merger 1, .merger 1, .replacer 0, .replacer 0, .replacer 0,
      .replacer 0, .merger 1]
  have hcurrent := claim (fun _ => none) family schedule rfl rfl (fun n ref h => by cases h)
    (by decide +kernel)
  have hfacts : (let F := (family.after (fun _ => none) schedule).factory
      F.definitions.get? "parent" = some otherParent &&
      F.definitions.get? "child" = some { parent := some "parent" } &&
      F.canonical "parent" = "parent" &&
      (F.merged.get? "child").any fun ref => ref.definition ≠
        F.settle (.ofParent "child" (F.settle (.ofRoot "parent" otherParent))
          { parent := some "parent" })) = true := by decide +kernel
  generalize (family.after (fun _ => none) schedule).factory = F at hcurrent hfacts
  simp only [Bool.and_eq_true, decide_eq_true_eq] at hfacts
  obtain ⟨⟨⟨hparent, hchild⟩, hcanonical⟩, hstale⟩ := hfacts
  obtain ⟨ref, href, hne⟩ := (Option.any_eq_true ..).1 hstale
  exact of_decide_eq_true hne
    (eq_of_current_child hparent hchild hcanonical (hcurrent "child" ref href))

end Workshop

end BeanContainer
