import BeanContainer.Proofs.OrderedMap
import BeanContainer.Proofs.Quiet
import Mathlib.Data.List.Perm.Subperm

/-!
What a scope keeps, and how the record accounts for it.

An in-memory scope has two maps, filled at different times. They are `Paired`
when the callbacks are those of the instances that have to hear of their end, in
the same order. The record tells what comes to a scope, what leaves it and what
is destroyed; a `ScopeAccount` says that these agree with what the scope kept
before and keeps after.
-/

namespace BeanContainer

open List

/-! ## Scopes -/

namespace Scope

variable {scope : Scope} {n x : String} {i : Instance} {required : String × Instance → Bool}
  {processors : String → List ProcessorId}

/-- The callbacks of an in-memory scope are those of the instances kept that have to hear of their
end, each of which destroys its own instance, and they stand in the same order. -/
def Paired (required : String × Instance → Bool) (processors : String → List ProcessorId) : Scope → Prop
  | inMemory _ instances callbacks =>
    callbacks.entries = (instances.entries.filter required).map fun e =>
      (e.1, .destroyBean e.1 e.2 (processors e.1))
  | transient _ => False

theorem paired_newInMemory {name : String} : (newInMemory name).Paired required processors := rfl

theorem get?_eq_some_iff : scope.get? n = some i ↔ (n, i) ∈ scope.stored := by
  cases scope with
  | inMemory _ instances _ => exact OrderedMap.get?_eq_some_iff
  | transient => simp [get?, stored]

/-- The scope runs the callback of every instance that has to hear of its end, and no other, newest
first. -/
theorem Paired.pending (h : scope.Paired required processors) : scope.pending =
    ((scope.stored.filter required).map fun e =>
      (e.1, ScopeCallback.destroyBean e.1 e.2 (processors e.1))).reverse := by
  cases scope with
  | inMemory => exact congrArg List.reverse h
  | transient => exact h.elim

theorem Paired.written (h : scope.Paired required processors) :
    ∃ name instances callbacks, scope = inMemory name instances callbacks := by
  cases scope with
  | inMemory name instances callbacks => exact ⟨name, instances, callbacks, rfl⟩
  | transient => exact h.elim

theorem keep_inMemory {name : String} {instances : OrderedMap String Instance}
    {callbacks : OrderedMap String ScopeCallback} (hn : instances.get? n = none) :
    (inMemory name instances callbacks).keep n i = (i, inMemory name (instances.insert n i) callbacks) := by
  simp only [keep, hn]

theorem keep_fst (hn : scope.get? n = none) : (scope.keep n i).1 = i := by
  cases scope with
  | inMemory => rw [keep_inMemory hn]
  | transient => rfl

theorem get?_keep_of_ne (hx : x ≠ n) : (scope.keep n i).2.get? x = scope.get? x := by
  cases scope with
  | inMemory _ instances _ =>
    simp only [keep]
    split
    · rfl
    · exact OrderedMap.get?_insert_of_ne hx
  | transient => rfl

theorem get?_addCallback {callback : ScopeCallback} :
    (scope.addCallback n callback).get? x = scope.get? x := by cases scope <;> rfl

theorem stored_addCallback {callback : ScopeCallback} :
    (scope.addCallback n callback).stored = scope.stored := by cases scope <;> rfl

theorem remove_fst : (scope.remove n).1 = scope.get? n := by cases scope <;> rfl

theorem stored_remove : (scope.remove n).2.stored = scope.stored.filter fun e => e.1 ≠ n := by
  cases scope <;> rfl

theorem get?_remove_eq_none (hx : scope.get? x = none) : (scope.remove n).2.get? x = none := by
  cases scope with
  | inMemory _ instances _ =>
    refine OrderedMap.get?_erase.trans ?_
    split
    · rfl
    · exact hx
  | transient => rfl

@[simp] theorem stored_emptied : scope.emptied.stored = [] := by cases scope <;> rfl

@[simp] theorem get?_emptied : scope.emptied.get? n = none := by cases scope <;> rfl

theorem Paired.emptied (h : scope.Paired required processors) :
    scope.emptied.Paired required processors := by
  cases scope with
  | inMemory => rfl
  | transient => exact h.elim

theorem perm_stored_remove (hn : scope.get? n = some i) :
    scope.stored.Perm ((n, i) :: (scope.remove n).2.stored) := by
  cases scope with
  | inMemory => exact OrderedMap.perm_entries_erase hn
  | transient => cases hn

theorem stored_remove_of_none (hn : scope.get? n = none) : (scope.remove n).2.stored = scope.stored := by
  rw [stored_remove]
  refine filter_eq_self.2 fun e he => decide_eq_true fun e' => ?_
  subst e'
  rw [get?_eq_some_iff.2 he] at hn
  cases hn

theorem Paired.remove (h : scope.Paired required processors) :
    (scope.remove n).2.Paired required processors := by
  cases scope with
  | inMemory _ instances callbacks =>
    change (callbacks.entries.filter _) = ((instances.entries.filter _).filter _).map _
    rw [show callbacks.entries = _ from h, filter_map, filter_filter, filter_filter]
    simp only [Function.comp_def, Bool.and_comm]
  | transient => exact h.elim

/-- An instance that is kept and, if need be, gets its callback comes after all others. -/
theorem Paired.keep (h : scope.Paired required processors) (hn : scope.get? n = none) :
    let kept := (scope.keep n i).2
    let called := kept.addCallback n (.destroyBean n i (processors n))
    (if required (n, i) then called else kept).Paired required processors ∧
      kept.stored = scope.stored ++ [(n, i)] ∧ kept.get? n = some i := by
  cases scope with
  | inMemory name instances callbacks =>
    have hkey : n ∉ instances.keys := OrderedMap.get?_eq_none_iff.1 hn
    have hentries : (instances.insert n i).entries = instances.entries ++ [(n, i)] :=
      OrderedMap.entries_insert_of_not_mem hkey
    have hcalls : n ∉ callbacks.keys := by
      unfold OrderedMap.keys at hkey ⊢
      rw [show callbacks.entries = _ from h, map_map]
      intro hmem
      obtain ⟨e, he, hne⟩ := mem_map.1 hmem
      exact hkey (mem_map.2 ⟨e, (mem_filter.1 he).1, hne⟩)
    rw [keep_inMemory hn]
    refine ⟨?_, hentries, OrderedMap.get?_insert.trans (if_pos rfl)⟩
    dsimp only
    split
    · next hreq =>
      change (callbacks.insert n _).entries = ((instances.insert n i).entries.filter _).map _
      rw [OrderedMap.entries_insert_of_not_mem hcalls, hentries, filter_append, map_append,
        show callbacks.entries = _ from h]
      simp [hreq]
    · next hreq =>
      change callbacks.entries = ((instances.insert n i).entries.filter _).map _
      rw [hentries, filter_append, map_append, show callbacks.entries = _ from h]
      simp [hreq]
  | transient => exact h.elim

end Scope

/-! ## Scopes of a session -/

namespace Session

variable {s : Session} {j k : ScopeId} {new : Scope} {n : String} {made : Instance}

theorem scope_setScope_self (hk : k < s.scopes.length) : (s.setScope k new).scope k = new := by
  simp [setScope, scope, hk]

theorem scope_setScope_of_ne (hj : j ≠ k) : (s.setScope k new).scope j = s.scope j := by
  simp [setScope, scope, List.getElem?_set_ne (Ne.symm hj)]

theorem proj_setScope {α : Type u} {p : Scope → α} (h : p new = p (s.scope k)) :
    p ((s.setScope k new).scope j) = p (s.scope j) := by
  by_cases hj : j = k
  · subst hj
    by_cases hlen : j < s.scopes.length
    · rw [scope_setScope_self hlen, h]
    · unfold setScope
      rw [List.set_eq_of_length_le (Nat.le_of_not_lt hlen)]
  · rw [scope_setScope_of_ne hj]

theorem scope_keepIn : (s.keepIn k n made).2.scope j =
    (s.setScope k ((s.scope k).keep n made).2).scope j := by
  unfold keepIn
  dsimp only
  split <;> rfl

theorem scope_takeFrom : (s.takeFrom k n).2.scope j =
    (s.setScope k ((s.scope k).remove n).2).scope j := by
  unfold takeFrom
  dsimp only
  split <;> rfl

theorem scope_emptyScope : (s.emptyScope k).scope j = (s.setScope k (s.scope k).emptied).scope j := by
  unfold emptyScope
  rw [foldl_write]
  rfl

end Session

/-! ## Accounts -/

namespace Occurrence

/-- What has come to a scope. -/
def keptIn? (k : ScopeId) : Occurrence → Option (String × Instance)
  | kept j n i => if j = k then some (n, i) else none
  | _ => none

/-- What has left a scope. -/
def leftFrom? (k : ScopeId) : Occurrence → Option (String × Instance)
  | left j n i => if j = k then some (n, i) else none
  | _ => none

/-- What begins to be destroyed. -/
def ending? : Occurrence → Option (String × Instance)
  | destroying n i => some (n, i)
  | _ => none

/-- Whether an occurrence matters to the account of a scope. -/
def concerns (k : ScopeId) : Occurrence → Bool
  | kept j _ _ | left j _ _ => j = k
  | destroying .. => true
  | _ => false

end Occurrence

/-- What came to a scope in a part of the record, in order. -/
def arrivals (k : ScopeId) (new : List Occurrence) : List (String × Instance) :=
  (new.filterMap (Occurrence.keptIn? k)).reverse

/-- What left a scope in a part of the record, in order. -/
def departures (k : ScopeId) (new : List Occurrence) : List (String × Instance) :=
  (new.filterMap (Occurrence.leftFrom? k)).reverse

/-- What was destroyed in a part of the record, in order. -/
def endings (new : List Occurrence) : List (String × Instance) :=
  (new.filterMap Occurrence.ending?).reverse

section

variable {k : ScopeId} {new new' : List Occurrence}

theorem arrivals_kept {n : String} {i : Instance} : arrivals k [.kept k n i] = [(n, i)] := by
  simp [arrivals, Occurrence.keptIn?]

theorem mem_departures {n : String} {i : Instance} : (n, i) ∈ departures k new ↔ .left k n i ∈ new := by
  rw [departures, mem_reverse, mem_filterMap]
  constructor
  · rintro ⟨o, ho, h⟩
    cases o <;> simp only [Occurrence.leftFrom?, reduceCtorEq, Option.ite_none_right_eq_some] at h
    obtain ⟨rfl, h⟩ := h
    cases h
    exact ho
  · exact fun h => ⟨_, h, by simp [Occurrence.leftFrom?]⟩

theorem arrivals_append : arrivals k (new' ++ new) = arrivals k new ++ arrivals k new' := by
  simp [arrivals, filterMap_append]

theorem departures_append : departures k (new' ++ new) = departures k new ++ departures k new' := by
  simp [departures, filterMap_append]

theorem endings_append : endings (new' ++ new) = endings new ++ endings new' := by
  simp [endings, filterMap_append]

theorem Occurrence.aside_of_not_concerns {o : Occurrence} (h : o.concerns k = false) :
    o.keptIn? k = none ∧ o.leftFrom? k = none ∧ o.ending? = none := by
  cases o <;> simp_all [concerns, keptIn?, leftFrom?, ending?]

theorem arrivals_eq_nil (h : ∀ o ∈ new, o.keptIn? k = none) : arrivals k new = [] :=
  reverse_eq_nil_iff.2 (filterMap_eq_nil_iff.2 h)

theorem departures_eq_nil (h : ∀ o ∈ new, o.leftFrom? k = none) : departures k new = [] :=
  reverse_eq_nil_iff.2 (filterMap_eq_nil_iff.2 h)

theorem endings_eq_nil (h : ∀ o ∈ new, o.ending? = none) : endings new = [] :=
  reverse_eq_nil_iff.2 (filterMap_eq_nil_iff.2 h)

end

/-- A part of the record, which goes on from `past`, accounts for what a scope kept before it and
keeps after it. -/
structure ScopeAccount (required : String × Instance → Bool) (maker : String → FactoryId) (k : ScopeId)
    (past : List Occurrence) (before after : List (String × Instance)) (new : List Occurrence) : Prop where
  /-- What is kept stands in the order in which it came. -/
  order : after.Sublist (before ++ arrivals k new)
  /-- Whatever was there or came has left or is there. -/
  balance : (before ++ arrivals k new).Perm (departures k new ++ after)
  /-- Whatever has to hear of its end was destroyed as often as it left. -/
  ended : ((endings new).filter required).Perm ((departures k new).filter required)
  /-- Nothing was destroyed that did not leave. -/
  spared : (endings new).Subperm (departures k new)
  /-- What came had been finished by its factory just before. -/
  finished : ∀ late n i early, new = late ++ .kept k n i :: early →
    ∃ old, early ++ past = .constructed (maker n) n i :: old

namespace ScopeAccount

variable {required : String × Instance → Bool} {maker : String → FactoryId} {k : ScopeId} {past : List Occurrence}
  {before mid after : List (String × Instance)} {new new' : List Occurrence} {n : String} {i : Instance}

theorem of_aside (h : ∀ o ∈ new, o.concerns k = false) : ScopeAccount required maker k past before before new := by
  have hkept : arrivals k new = [] := arrivals_eq_nil fun o ho => (o.aside_of_not_concerns (h o ho)).1
  have hleft : departures k new = [] := departures_eq_nil fun o ho => (o.aside_of_not_concerns (h o ho)).2.1
  have hends : endings new = [] := endings_eq_nil fun o ho => (o.aside_of_not_concerns (h o ho)).2.2
  refine { order := by rw [hkept, append_nil]
           balance := by rw [hkept, hleft, append_nil, nil_append]
           ended := by rw [hends, hleft]
           spared := by rw [hends]; exact nil_subperm
           finished := ?_ }
  rintro late n i early rfl
  have := h (.kept k n i) (by simp)
  simp [Occurrence.concerns] at this

/-- **One account continues another.** -/
theorem trans (h : ScopeAccount required maker k past before mid new)
    (h' : ScopeAccount required maker k (new ++ past) mid after new') :
    ScopeAccount required maker k past before after (new' ++ new) where
  order := by
    rw [arrivals_append, ← append_assoc]
    exact h'.order.trans (h.order.append_right _)
  balance := by
    have hfirst := h.balance.append_right (arrivals k new')
    have hnext := h'.balance.append_left (departures k new)
    rw [arrivals_append, departures_append]
    simp only [append_assoc] at hfirst hnext ⊢
    exact hfirst.trans hnext
  ended := by
    rw [endings_append, departures_append, filter_append, filter_append]
    exact h.ended.append h'.ended
  spared := by
    rw [endings_append, departures_append]
    exact h.spared.append h'.spared
  finished := by
    intro late n i early e
    obtain ⟨rest, -, hnew⟩ | ⟨rest, hnew', rfl⟩ := split_of_grown e
    · exact h.finished rest n i early hnew
    · rw [append_assoc]
      exact h'.finished late n i rest hnew'

theorem kept (h : ∃ old, past = .constructed (maker n) n i :: old) :
    ScopeAccount required maker k past before (before ++ [(n, i)]) [.kept k n i] where
  order := by rw [arrivals_kept]
  balance := by rw [arrivals_kept]; exact .refl _
  ended := .refl _
  spared := .refl _
  finished := by
    rintro late n' i' early e
    cases late with
    | nil =>
      obtain ⟨ho, rfl⟩ := List.cons.inj e
      cases ho
      exact h
    | cons => simp at e

/-- Some instances leave the scope, and some of them are destroyed. What has to hear of its end is
among them. -/
theorem left (hkept : arrivals k new = []) (hleft : (departures k new ++ after).Perm before)
    (horder : after.Sublist before)
    (hended : ((endings new).filter required).Perm ((departures k new).filter required))
    (hspared : (endings new).Subperm (departures k new)) :
    ScopeAccount required maker k past before after new where
  order := by rwa [hkept, append_nil]
  balance := by
    rw [hkept, append_nil]
    exact hleft.symm
  ended := hended
  spared := hspared
  finished := by
    rintro late n i early rfl
    rw [append_cons, arrivals_append, arrivals_append, arrivals_kept] at hkept
    simp at hkept

end ScopeAccount

end BeanContainer
