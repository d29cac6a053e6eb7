import BeanContainer.Execution

/-!
What computations over a session end with. `Yields lost m s Q` says that `m`,
started in `s`, ends with an answer and a session that satisfy `Q`; the
proposition `lost` stands for the case that calls nest too deeply for a result.
With `False` in its place the computation must end, with `True` it need not.

Every equation here is one step of a computation, so `simp` walks through a
`do` block by them.
-/

namespace BeanContainer

variable {α β : Type} {lost : Prop} {s : Session}

/-- What an effect ends with satisfies `Q`; without a result, `lost` holds. -/
def Yields (lost : Prop) (m : Effect α) (s : Session) (Q : α → Session → Prop) : Prop :=
  match m s with
  | some (a, s') => Q a s'
  | none => lost

theorem yields_false_iff {m : Effect α} {Q : α → Session → Prop} :
    Yields False m s Q ↔ ∃ a s', m s = some (a, s') ∧ Q a s' := by
  unfold Yields
  cases m s with
  | none => simp
  | some r => exact ⟨fun h => ⟨_, _, rfl, h⟩, fun ⟨a, s', e, h⟩ => by cases e; exact h⟩

theorem yields_true_iff {m : Effect α} {Q : α → Session → Prop} :
    Yields True m s Q ↔ ∀ a s', m s = some (a, s') → Q a s' := by
  unfold Yields
  cases m s with
  | none => simp
  | some r => exact ⟨fun h a s' e => by cases e; exact h, fun h => h _ _ rfl⟩

theorem run_eq_some_iff {m : Effect α} {a : α} {t : Session} :
    m s = some (a, t) ↔ Yields False m s fun b u => b = a ∧ u = t := by
  rw [yields_false_iff]
  exact ⟨fun h => ⟨a, t, h, rfl, rfl⟩, fun ⟨_, _, h, ha, ht⟩ => ha ▸ ht ▸ h⟩

theorem yields_of_run {m : Effect α} {a : α} {s' : Session} {Q : α → Session → Prop} (h : m s = some (a, s')) :
    Yields lost m s Q ↔ Q a s' := by
  unfold Yields
  rw [h]

theorem yields_none_iff {m : Effect α} : Yields True m s (fun _ _ => False) ↔ m s = none := by
  rw [yields_true_iff, Option.eq_none_iff_forall_ne_some]
  exact ⟨fun h r hr => h r.1 r.2 hr, fun h a s' hr => h (a, s') hr⟩

theorem Yields.mono {m : Effect α} {P Q : α → Session → Prop} (h : Yields lost m s P)
    (imp : ∀ a s', P a s' → Q a s') : Yields lost m s Q := by
  unfold Yields at *
  cases hm : m s with
  | none => simpa [hm] using h
  | some r => rw [hm] at h; exact imp _ _ h

/-- What certainly ends may be asked about without being sure of it. -/
theorem Yields.of_total {m : Effect α} {Q : α → Session → Prop} (h : Yields False m s Q) :
    Yields lost m s Q := by
  obtain ⟨a, s', e, h⟩ := yields_false_iff.1 h
  unfold Yields
  rwa [e]

theorem Yields.both {m : Effect α} {P Q : α → Session → Prop} (h : Yields False m s P)
    (h' : Yields True m s Q) : Yields False m s fun a s' => P a s' ∧ Q a s' := by
  obtain ⟨a, s', e, ha⟩ := yields_false_iff.1 h
  exact yields_false_iff.2 ⟨a, s', e, ha, yields_true_iff.1 h' a s' e⟩

theorem Yields.and {m : Effect α} {P Q : α → Session → Prop} (h : Yields lost m s P)
    (h' : Yields lost m s Q) : Yields lost m s fun a s' => P a s' ∧ Q a s' := by
  unfold Yields at *
  cases hm : m s with
  | none => simpa [hm] using h
  | some r =>
    rw [hm] at h h'
    exact ⟨h, h'⟩

theorem yields_congr {m : Effect α} {P Q : α → Session → Prop} (h : ∀ a s', P a s' ↔ Q a s') :
    Yields lost m s P ↔ Yields lost m s Q :=
  ⟨fun hp => hp.mono fun a s' => (h a s').1, fun hq => hq.mono fun a s' => (h a s').2⟩

/-! ## Effects -/

@[simp] theorem yields_pure {a : α} {Q : α → Session → Prop} :
    Yields lost (pure a) s Q ↔ Q a s := Iff.rfl

@[simp] theorem yields_bind {m : Effect α} {k : α → Effect β} {Q : β → Session → Prop} :
    Yields lost (m >>= k) s Q ↔ Yields lost m s fun a s' => Yields lost (k a) s' Q := by
  change (match (m s).bind fun r => k r.1 r.2 with
    | some (b, s') => Q b s'
    | none => lost) ↔ _
  unfold Yields
  cases m s <;> rfl

@[simp] theorem yields_map {m : Effect α} {g : α → β} {Q : β → Session → Prop} :
    Yields lost (g <$> m) s Q ↔ Yields lost m s fun a s' => Q (g a) s' :=
  yields_bind (k := fun a => pure (g a))

@[simp] theorem yields_get {Q : Session → Session → Prop} :
    Yields lost (get : Effect Session) s Q ↔ Q s s := Iff.rfl

@[simp] theorem yields_modify {g : Session → Session} {Q : Unit → Session → Prop} :
    Yields lost (modify g : Effect Unit) s Q ↔ Q () (g s) := Iff.rfl

@[simp] theorem yields_modifyGet {g : Session → α × Session} {Q : α → Session → Prop} :
    Yields lost (modifyGet g : Effect α) s Q ↔ Q (g s).1 (g s).2 := Iff.rfl

@[simp] theorem yields_lift {m : StateM Session α} {Q : α → Session → Prop} :
    Yields lost (liftM m : Effect α) s Q ↔ Q (m s).1 (m s).2 := Iff.rfl

/-- What every step keeps, a sequence of steps keeps. -/
theorem yields_foldlM {I : Session → Prop} {step : β → α → Effect β} {l : List α}
    (h : ∀ b, ∀ a ∈ l, ∀ s, I s → Yields lost (step b a) s fun _ t => I t) :
    ∀ {b s}, I s → Yields lost (l.foldlM step b) s fun _ t => I t := by
  induction l with
  | nil => exact fun hs => hs
  | cons a l ih =>
    intro b s hs
    rw [List.foldlM_cons, yields_bind]
    exact (h b a (by simp) s hs).mono fun b t ht => ih (fun b a ha => h b a (by simp [ha])) ht

theorem eq_ok_of_toOption {r : Except BeanError α} {a : α} (h : r.toOption = some a) : r = .ok a := by
  cases r with
  | error e => cases h
  | ok _ => exact congrArg Except.ok (Option.some.inj h)

/-! ## Queries

A query always ends, so there is nothing to lose. -/

/-- What a query ends with satisfies `Q`. -/
def Ends (q : Query α) (s : Session) (Q : Except BeanError α → Session → Prop) : Prop :=
  Q (q.run s).1 (q.run s).2

theorem Ends.mono {q : Query α} {P Q : Except BeanError α → Session → Prop} (h : Ends q s P)
    (imp : ∀ r s', P r s' → Q r s') : Ends q s Q := imp _ _ h

@[simp] theorem ends_pure {a : α} {Q : Except BeanError α → Session → Prop} :
    Ends (pure a : Query α) s Q ↔ Q (.ok a) s := Iff.rfl

@[simp] theorem ends_throw {e : BeanError} {Q : Except BeanError α → Session → Prop} :
    Ends (throw e : Query α) s Q ↔ Q (.error e) s := Iff.rfl

theorem run_bind {q : Query α} {k : α → Query β} : (q >>= k).run s = match q.run s with
    | (.ok a, s') => (k a).run s'
    | (.error e, s') => (.error e, s') := by
  change (match q.run s with
    | (r, s') => (ExceptT.bindCont k r) s') = _
  cases hq : q.run s with
  | mk r s' => cases r <;> rfl

@[simp] theorem ends_bind {q : Query α} {k : α → Query β} {Q : Except BeanError β → Session → Prop} :
    Ends (q >>= k) s Q ↔
      Ends q s fun r s' =>
        match r with
        | .ok a => Ends (k a) s' Q
        | .error e => Q (.error e) s' := by
  unfold Ends
  rw [run_bind]
  cases hq : q.run s with
  | mk r s' => cases r <;> rfl

@[simp] theorem ends_get {Q : Except BeanError Session → Session → Prop} :
    Ends (get : Query Session) s Q ↔ Q (.ok s) s := Iff.rfl

@[simp] theorem ends_modify {g : Session → Session} {Q : Except BeanError Unit → Session → Prop} :
    Ends (modify g : Query Unit) s Q ↔ Q (.ok ()) (g s) := Iff.rfl

@[simp] theorem ends_lift {m : StateM Session α} {Q : Except BeanError α → Session → Prop} :
    Ends (liftM m : Query α) s Q ↔ Q (.ok (m s).1) (m s).2 := Iff.rfl

theorem run_tryCatch {q : Query α} {handle : BeanError → Query α} :
    (tryCatch q handle : Query α).run s = match q.run s with
      | (.ok a, s') => (.ok a, s')
      | (.error e, s') => (handle e).run s' := by
  change (ExceptT.tryCatch q handle : Query α) s = _
  simp only [ExceptT.tryCatch, ExceptT.mk, bind, StateT.bind]
  rw [show q s = q.run s from rfl]
  cases hq : q.run s with
  | mk r s' => cases r <;> rfl

@[simp] theorem ends_tryCatch {q : Query α} {handle : BeanError → Query α}
    {Q : Except BeanError α → Session → Prop} :
    Ends (tryCatch q handle) s Q ↔
      Ends q s fun r s' =>
        match r with
        | .ok a => Q (.ok a) s'
        | .error e => Ends (handle e) s' Q := by
  unfold Ends
  rw [run_tryCatch]
  cases hq : q.run s with
  | mk r s' => cases r <;> rfl

/-! ## Acts -/

@[simp] theorem yields_run_pure {a : α} {Q : Except BeanError α → Session → Prop} :
    Yields lost (pure a : Act α).run s Q ↔ Q (.ok a) s := Iff.rfl

@[simp] theorem yields_run_throw {e : BeanError} {Q : Except BeanError α → Session → Prop} :
    Yields lost (throw e : Act α).run s Q ↔ Q (.error e) s := Iff.rfl

@[simp] theorem yields_run_bind {m : Act α} {k : α → Act β} {Q : Except BeanError β → Session → Prop} :
    Yields lost (m >>= k).run s Q ↔
      Yields lost m.run s fun r s' =>
        match r with
        | .ok a => Yields lost (k a).run s' Q
        | .error e => Q (.error e) s' := by
  change Yields lost (m.run >>= fun r => _) s Q ↔ _
  rw [yields_bind]
  refine iff_of_eq (congrArg (Yields lost m.run s) ?_)
  funext r s'
  cases r <;> rfl

theorem yields_answerAct_iff {act : Act α} {shown : α → Answer}
    {Q : Answer → Session → Prop} : Yields lost (answerAct act shown) s Q ↔
      Yields lost act.run s fun r t =>
        match r with
        | .ok v => Q (shown v) t
        | .error e => Q (.failed e) t := by
  unfold answerAct
  rw [yields_bind]
  refine yields_congr fun r t => ?_
  cases r <;> rfl

@[simp] theorem yields_run_get {Q : Except BeanError Session → Session → Prop} :
    Yields lost (get : Act Session).run s Q ↔ Q (.ok s) s := Iff.rfl

@[simp] theorem yields_run_modify {g : Session → Session} {Q : Except BeanError Unit → Session → Prop} :
    Yields lost (modify g : Act Unit).run s Q ↔ Q (.ok ()) (g s) := Iff.rfl

@[simp] theorem yields_run_modifyGet {g : Session → α × Session}
    {Q : Except BeanError α → Session → Prop} :
    Yields lost (modifyGet g : Act α).run s Q ↔ Q (.ok (g s).1) (g s).2 := Iff.rfl

@[simp] theorem yields_run_liftEffect {m : Effect α} {Q : Except BeanError α → Session → Prop} :
    Yields lost (liftM m : Act α).run s Q ↔ Yields lost m s fun a s' => Q (.ok a) s' := by
  change Yields lost (m >>= fun a => pure (.ok a)) s Q ↔ _
  rw [yields_bind]
  rfl

@[simp] theorem yields_run_liftState {m : StateM Session α} {Q : Except BeanError α → Session → Prop} :
    Yields lost (liftM m : Act α).run s Q ↔ Q (.ok (m s).1) (m s).2 := Iff.rfl

@[simp] theorem yields_run_liftQuery {q : Query α} {Q : Except BeanError α → Session → Prop} :
    Yields lost (liftM q : Act α).run s Q ↔ Ends q s Q := Iff.rfl

@[simp] theorem yields_run_ofResult {r : Except BeanError α} {Q : Except BeanError α → Session → Prop} :
    Yields lost (Act.ofResult r).run s Q ↔ Q r s := Iff.rfl

@[simp] theorem yields_run_attempt {a : Act α}
    {Q : Except BeanError (Except BeanError α) → Session → Prop} :
    Yields lost a.attempt.run s Q ↔ Yields lost a.run s fun r s' => Q (.ok r) s' := by
  change Yields lost (a.run >>= fun r => pure (.ok r)) s Q ↔ _
  rw [yields_bind]
  rfl

theorem yields_forM_append {step : α → Act Unit} {l l' : List α}
    {Q : Except BeanError Unit → Session → Prop} :
    Yields lost ((l ++ l').forM step).run s Q ↔ Yields lost (l.forM step).run s fun r t =>
      match r with
      | .ok _ => Yields lost (l'.forM step).run t Q
      | .error e => Q (.error e) t := by
  rw [List.forM_eq_forM, List.forM_append, yields_run_bind]
  refine yields_congr fun r t => ?_
  cases r <;> rfl

/-! ## Acts that succeed

Nothing is said of what is left when an act fails, so a failure ends a chain of acts. -/

/-- What an act gives, if it ends and succeeds, satisfies `Q`. -/
def Gives (a : Act α) (s : Session) (Q : α → Session → Prop) : Prop :=
  Yields True a.run s fun r s' => ∀ x, r = .ok x → Q x s'

theorem Gives.mono {a : Act α} {P Q : α → Session → Prop} (h : Gives a s P)
    (imp : ∀ x s', P x s' → Q x s') : Gives a s Q :=
  Yields.mono h fun _ _ hr x hx => imp _ _ (hr x hx)

theorem gives_of_forall {a : Act α} {Q : α → Session → Prop} (h : ∀ x t, Q x t) : Gives a s Q :=
  yields_true_iff.2 fun _ _ _ x _ => h x _

@[simp] theorem gives_pure {x : α} {Q : α → Session → Prop} : Gives (pure x) s Q ↔ Q x s := by
  simp [Gives]

@[simp] theorem gives_throw {e : BeanError} {Q : α → Session → Prop} : Gives (throw e) s Q := by
  simp [Gives]

@[simp] theorem gives_bind {a : Act α} {k : α → Act β} {Q : β → Session → Prop} :
    Gives (a >>= k) s Q ↔ Gives a s fun x s' => Gives (k x) s' Q := by
  unfold Gives
  rw [yields_run_bind]
  refine yields_congr fun r s' => ?_
  cases r <;> simp

@[simp] theorem gives_get {Q : Session → Session → Prop} : Gives get s Q ↔ Q s s := by simp [Gives]

@[simp] theorem gives_modify {g : Session → Session} {Q : Unit → Session → Prop} :
    Gives (modify g) s Q ↔ Q () (g s) :=
  ⟨fun h => h () rfl, fun h _ _ => h⟩

@[simp] theorem gives_modifyGet {g : Session → α × Session} {Q : α → Session → Prop} :
    Gives (modifyGet g) s Q ↔ Q (g s).1 (g s).2 := by simp [Gives]

@[simp] theorem gives_liftEffect {m : Effect α} {Q : α → Session → Prop} :
    Gives (liftM m : Act α) s Q ↔ Yields True m s Q := by simp [Gives]

@[simp] theorem gives_liftState {m : StateM Session α} {Q : α → Session → Prop} :
    Gives (liftM m : Act α) s Q ↔ Q (m s).1 (m s).2 := by simp [Gives]

@[simp] theorem gives_liftQuery {q : Query α} {Q : α → Session → Prop} :
    Gives (liftM q : Act α) s Q ↔ Ends q s fun r s' => ∀ x, r = .ok x → Q x s' := by simp [Gives]

@[simp] theorem gives_attempt {a : Act α} {Q : Except BeanError α → Session → Prop} :
    Gives a.attempt s Q ↔ Yields True a.run s Q := by simp [Gives]

theorem gives_foldlM {step : β → α → Act β} {l : List α} {I : Session → Prop}
    (h : ∀ b, ∀ a ∈ l, ∀ s, I s → Gives (step b a) s fun _ t => I t) :
    ∀ {b s}, I s → Gives (l.foldlM step b) s fun _ t => I t := by
  induction l with
  | nil => exact fun hs => gives_pure.2 hs
  | cons a l ih =>
    intro b s hs
    rw [List.foldlM_cons, gives_bind]
    exact (h b a (by simp) s hs).mono fun b t ht => ih (fun b a ha => h b a (by simp [ha])) ht

/-- What holds of the steps done so far, and is passed on by each step, holds of all of them. -/
theorem gives_forM {step : α → Act Unit} {l : List α} {I : List α → Session → Prop}
    (h : ∀ pre a post, l = pre ++ a :: post → ∀ s, I pre s → Gives (step a) s fun _ t => I (pre ++ [a]) t)
    (start : I [] s) : Gives (l.forM step) s fun _ t => I l t := by
  suffices ∀ pre post, l = pre ++ post → ∀ s, I pre s → Gives (post.forM step) s fun _ t => I l t from
    this [] l rfl s start
  intro pre post
  induction post generalizing pre with
  | nil =>
    intro e s hs
    rw [List.append_nil] at e
    exact gives_pure.2 (e ▸ hs)
  | cons a post ih =>
    intro e s hs
    refine gives_bind.2 ((h pre a post e s hs).mono fun _ t ht => ?_)
    exact ih (pre ++ [a]) (by simpa using e) t ht

end BeanContainer
