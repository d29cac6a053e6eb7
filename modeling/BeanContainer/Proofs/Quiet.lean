import BeanContainer.Proofs.Sessions
import BeanContainer.Scripted
import Mathlib.Data.Set.Defs

/-!
Collaborators that never turn to the session. All that they leave behind is
remarks in the record and new instances, so what they are asked for happens as
if the session stood still; and it does not matter which ways back they had.
-/

namespace BeanContainer

/-- Whether an occurrence is a report of a collaborator or a line of the log. -/
def Occurrence.isRemark : Occurrence → Bool
  | event _ | notice _ => true
  | _ => false

/-- Whether an occurrence is the beginning or the end of a destruction. -/
def Occurrence.isDestruction : Occurrence → Bool
  | destroying .. | destroyed .. => true
  | _ => false

theorem Occurrence.isDestruction_of_isRemark {o : Occurrence} (h : o.isRemark = true) :
    o.isDestruction = false := by
  cases o <;> first | rfl | exact absurd h Bool.false_ne_true

/-- The factory that an occurrence is about, if it is about one. -/
def Occurrence.factory? : Occurrence → Option FactoryId
  | defined f _ | aliased f _ _ | constructing f _ | constructed f _ _ | cached f _ _
  | registered f _ _ | released f _ _ | missed f _ | handedOut f _ _ | tookOver f _ _ _
  | announced f _ _ | tearingDown f | tornDown f => some f
  | _ => none

theorem Occurrence.factory?_of_isRemark {o : Occurrence} (h : o.isRemark = true) : o.factory? = none := by
  cases o <;> first | rfl | exact absurd h Bool.false_ne_true

/-- A record that has grown is split at what was told before or at what is new. -/
theorem split_of_grown {α : Type} {a : α} {new old late early : List α} (h : new ++ old = late ++ a :: early) :
    (∃ mid, late = new ++ mid ∧ old = mid ++ a :: early) ∨
      ∃ mid, new = late ++ a :: mid ∧ early = mid ++ old := by
  obtain ⟨mid, hlate, hold⟩ | ⟨mid, hnew, hmid⟩ := List.append_eq_append_iff.1 h
  · exact .inl ⟨mid, hlate, hold⟩
  · obtain ⟨rfl, hold⟩ | ⟨mid, rfl, rfl⟩ := List.cons_eq_append_iff.1 hmid
    · exact .inl ⟨[], by rw [hnew, List.append_nil, List.append_nil], hold⟩
    · exact .inr ⟨mid, hnew, rfl⟩

/-- The record has grown, by nothing that is about a factory outside `U`. -/
def Session.Tells (U : Set FactoryId) (s s' : Session) : Prop :=
  ∃ new, s'.record = new ++ s.record ∧ ∀ o ∈ new, ∀ g, o.factory? = some g → g ∈ U

namespace Session.Tells

variable {U : Set FactoryId} {s t u : Session}

theorem of_record_eq (h : t.record = s.record) : s.Tells U t := ⟨[], h, by simp⟩

theorem of_univ (new : List Occurrence) (h : t.record = new ++ s.record) : s.Tells Set.univ t :=
  ⟨new, h, fun _ _ _ _ => trivial⟩

theorem trans (h : s.Tells U t) (h' : t.Tells U u) : s.Tells U u := by
  obtain ⟨new, e, hn⟩ := h
  obtain ⟨new', e', hn'⟩ := h'
  refine ⟨new' ++ new, by rw [e', e, List.append_assoc], fun o ho => ?_⟩
  exact (List.mem_append.1 ho).elim (hn' o) (hn o)

theorem write {o : Occurrence} (ho : ∀ g, o.factory? = some g → g ∈ U) : s.Tells U (s.write o) :=
  ⟨[o], rfl, by simpa using ho⟩

end Session.Tells

namespace Session

variable {U : Set FactoryId} {s : Session} {k : ScopeId} {name : String} {made : Instance}

/-! What comes to a scope and leaves it is about no factory. -/

theorem tells_keepIn : s.Tells U (s.keepIn k name made).2 := by
  refine ⟨_, record_keepIn, fun o ho g hg => ?_⟩
  split at ho
  · obtain rfl := List.mem_singleton.1 ho
    cases hg
  · simp at ho

theorem tells_takeFrom : s.Tells U (s.takeFrom k name).2 := by
  refine ⟨_, record_takeFrom, fun o ho g hg => ?_⟩
  obtain ⟨i, -, rfl⟩ := List.mem_map.1 ho
  cases hg

theorem tells_emptyScope : s.Tells U (s.emptyScope k) := by
  refine ⟨_, record_emptyScope, fun o ho g hg => ?_⟩
  obtain ⟨e, -, rfl⟩ := List.mem_map.1 (List.mem_reverse.1 ho)
  cases hg

end Session

/-- Nothing happened from the first session to the second but remarks and the making of
instances. -/
structure Session.Remarks (s s' : Session) : Prop where
  same : s' = { s with record := s'.record, made := s'.made }
  recorded : ∃ new, s'.record = new ++ s.record ∧ ∀ o ∈ new, o.isRemark = true

namespace Session.Remarks

variable {s t u : Session}

theorem refl (s : Session) : s.Remarks s := ⟨rfl, [], by simp⟩

theorem trans (h : s.Remarks t) (h' : t.Remarks u) : s.Remarks u where
  same := by rw [h'.same, h.same]
  recorded := by
    obtain ⟨new, e, hn⟩ := h.recorded
    obtain ⟨new', e', hn'⟩ := h'.recorded
    refine ⟨new' ++ new, by rw [e', e, List.append_assoc], fun o ho => ?_⟩
    exact (List.mem_append.1 ho).elim (hn' o) (hn o)

theorem factories (h : s.Remarks t) : t.factories = s.factories := by rw [h.same]

theorem factory (h : s.Remarks t) (f : FactoryId) : t.factory f = s.factory f := by
  unfold Session.factory
  rw [h.factories]

theorem processors (h : s.Remarks t) : t.processors = s.processors := by rw [h.same]

theorem filter_record (h : s.Remarks t) {p : Occurrence → Bool}
    (hp : ∀ o, o.isRemark = true → p o = false) : t.record.filter p = s.record.filter p := by
  obtain ⟨new, e, hn⟩ := h.recorded
  have : new.filter p = [] := List.filter_eq_nil_iff.2 fun o ho => by simp [hp o (hn o ho)]
  rw [e, List.filter_append, this, List.nil_append]

theorem write {o : Occurrence} (ho : o.isRemark = true) : s.Remarks (s.write o) :=
  ⟨rfl, [o], rfl, by simpa using ho⟩

theorem make {name : String} {spec : BeanSpec} : s.Remarks (s.make name spec).2 :=
  ⟨rfl, [], by simp [Session.make]⟩

theorem tells {U : Set FactoryId} (h : s.Remarks t) : s.Tells U t := by
  obtain ⟨new, e, hn⟩ := h.recorded
  refine ⟨new, e, fun o ho g hg => ?_⟩
  rw [Occurrence.factory?_of_isRemark (hn o ho)] at hg
  cases hg

theorem writeNotices : ∀ {notices : List Notice} {s : Session}, s.Remarks (s.writeNotices notices)
  | [], _ => .refl _
  | n :: _, _ => (write (o := .notice n) rfl).trans writeNotices

end Session.Remarks

variable {α : Type} {env : Collaborators} {again again' : Reentry} {s : Session}

theorem yields_runScript_quiet {script : Script α} (h : script.Quiet) :
    ∀ s, Yields False (runScript again script) s fun _ s' => s.Remarks s' := by
  induction h with
  | done => intro s; exact .refl s
  | fail => intro s; exact .refl s
  | @emit event _ _ ih =>
    intro s
    simp only [runScript, yields_bind, yields_lift, write_apply]
    exact (ih _).mono fun _ _ h => (Session.Remarks.write (o := .event event) rfl).trans h
  | make _ ih =>
    intro s
    simp only [runScript, yields_bind, yields_modifyGet]
    exact (ih _ _).mono fun _ _ h => Session.Remarks.make.trans h

/-- Which ways back into the session a quiet script had makes no difference. -/
theorem runScript_quiet_congr {script : Script α} (h : script.Quiet) :
    runScript again script = runScript again' script := by
  induction h with
  | done => rfl
  | fail => rfl
  | emit _ ih => simp only [runScript, ih]
  | make _ ih => simp only [runScript, ih]

/-! ## Destructions -/

/-- What has a say in destructions, destroy callbacks and post-processors, never turns to the
session; it may fail. -/
structure Collaborators.QuietEnds (env : Collaborators) : Prop where
  hooks : ∀ p i name, (env.beforeDestruction p i name).Quiet
  destroy : ∀ i spec, (env.destroy i spec).Quiet

/-- No collaborator ever turns to the session. -/
structure Collaborators.Quiet (env : Collaborators) : Prop extends env.QuietEnds where
  construct : ∀ c f name m, (env.construct c f name m).Quiet
  before : ∀ p i name, (env.before p i name).Quiet
  after : ∀ p i name, (env.after p i name).Quiet
  ready : ∀ i spec, (env.ready i spec).Quiet

theorem Script.Quiet.bind {β : Type} {script : Script α} {k : α → Script β} (h : script.Quiet)
    (hk : ∀ a, (k a).Quiet) : (script >>= k).Quiet := by
  change (Script.bind script k).Quiet
  induction h with
  | done a => exact hk a
  | fail failure => exact .fail failure
  | emit _ ih => exact .emit ih
  | make _ ih => exact .make ih

theorem Scripted.quiet_runSteps {steps : List Value} : (runSteps (fun _ => none) steps).Quiet := by
  induction steps with
  | nil => exact .done ()
  | cons _ _ ih => exact (Script.Quiet.done ()).bind fun _ => ih

theorem Scripted.quiet_failWith {text : Option String} : (failWith text).Quiet := by
  cases text with
  | none => exact .done ()
  | some text => exact .fail _

theorem Scripted.quietEnds {typeOf : Kind → TypeInfo} :
    (collaborators typeOf fun _ => none).QuietEnds where
  hooks p i name := by
    unfold collaborators
    simp only
    split
    · exact (Script.Quiet.emit (.done ())).bind fun _ => quiet_runSteps.bind fun _ => quiet_failWith
    · exact .done ()
  destroy _ _ :=
    (Script.Quiet.emit (.done ())).bind fun _ => quiet_runSteps.bind fun _ => quiet_failWith

theorem Scripted.quiet_process {event : Event} {phase : String} {p : Processor}
    {rule : ProcessingRule} {i : Instance} {name : String} :
    (process (fun _ => none) event phase p rule i name).Quiet := by
  refine (Script.Quiet.emit (.done ())).bind fun _ => quiet_runSteps.bind fun _ =>
    quiet_failWith.bind fun _ => ?_
  split
  · exact .make .done
  · exact .done i

theorem Scripted.quiet {typeOf : Kind → TypeInfo}
    {construct : Constructor → FactoryId → String → MergedDefinition → Script Instance}
    (h : ∀ c f name m, (construct c f name m).Quiet) :
    { collaborators typeOf fun _ => none with construct : Collaborators }.Quiet where
  hooks := (@quietEnds typeOf).hooks
  destroy := (@quietEnds typeOf).destroy
  construct := h
  before p i name := by
    unfold collaborators
    dsimp only
    split
    · exact quiet_process
    · exact .done i
  after p i name := by
    unfold collaborators
    dsimp only
    split
    · exact quiet_process
    · exact .done i
  ready _ _ :=
    (Script.Quiet.emit (.done ())).bind fun _ => quiet_runSteps.bind fun _ => quiet_failWith

theorem yields_runHooks_quiet (quiet : env.QuietEnds) {name : String} {i : Instance}
    {processors : List ProcessorId} :
    Yields False (runHooks env again name i processors) s fun _ s' => s.Remarks s' := by
  unfold runHooks
  generalize (none : Option Failure) = first
  induction processors generalizing first s with
  | nil => exact .refl s
  | cons p ps ih =>
    simp only [List.foldlM_cons, yields_bind, yields_get]
    split
    · exact ih _
    · split
      · simp only [yields_bind]
        refine (yields_runScript_quiet (quiet.hooks _ _ _) s).mono fun r t h => ?_
        split
        · exact (ih _).mono fun _ _ h' => h.trans h'
        · simp only [yields_bind, yields_lift, note_apply]
          exact (ih _).mono fun _ _ h' => h.trans ((Session.Remarks.write rfl).trans h')
      · exact ih _

/-- The destruction of an instance ends. The record gets its beginning, remarks, and its end. -/
theorem yields_destroyInstance_quiet (quiet : env.QuietEnds) {name : String} {i : Instance}
    {processors : List ProcessorId} :
    Yields False (destroyInstance env again name i processors) s fun failure s' =>
      ∃ t, (s.write (.destroying name i)).Remarks t ∧ s' = t.write (.destroyed name i failure) := by
  unfold destroyInstance
  simp only [yields_bind, yields_lift, write_apply]
  refine (yields_runHooks_quiet quiet).mono fun hooks t h => ?_
  split
  · simp only [yields_bind, yields_lift, note_apply, yields_get]
    refine (yields_runScript_quiet (quiet.destroy _ _) _).mono fun r u h' => ?_
    have hu := h.trans ((Session.Remarks.write rfl).trans h')
    split <;> exact ⟨u, hu, rfl⟩
  · exact ⟨t, h, rfl⟩

theorem destroyInstance_quiet_congr (quiet : env.QuietEnds) {name : String} {i : Instance}
    {processors : List ProcessorId} :
    destroyInstance env again name i processors = destroyInstance env again' name i processors := by
  have hooks p i name : runScript again (env.beforeDestruction p i name) = runScript again' _ :=
    runScript_quiet_congr (quiet.hooks p i name)
  have own i spec : runScript again (env.destroy i spec) = runScript again' _ :=
    runScript_quiet_congr (quiet.destroy i spec)
  simp only [destroyInstance, runHooks, hooks, own]

end BeanContainer
