import BeanContainer.Proofs.Reading
import BeanContainer.Proofs.ReadingCalls
import BeanContainer.Proofs.Teardown

/-!
Collaborators that ask, but do not change a factory. A reading script makes no
other calls than reading ones, looks up what it likes, and uses scopes. With such
collaborators all ways back into a session only read, at any depth
(`reentry_reading`).
-/

namespace BeanContainer

open Session

/-- Whether a script performs no operations but reading ones. -/
inductive Script.Reading {α : Type} : Script α → Prop where
  | done (result : α) : Reading (done result)
  | fail (failure : Failure) : Reading (fail failure)
  | emit {event : Event} {next : Script α} : Reading next → Reading (emit event next)
  | make {name : String} {spec : BeanSpec} {next : Instance → Script α} :
      (∀ i, Reading (next i)) → Reading (make name spec next)
  | lookup {factory : FactoryId} {name : String} {next : Except BeanError Instance → Script α} :
      (∀ r, Reading (next r)) → Reading (lookup factory name next)
  | perform {operation : Operation} {next : Answer → Script α} : operation.isReading = true →
      (∀ a, Reading (next a)) → Reading (perform operation next)

/-- No collaborator does anything but reading. -/
structure Collaborators.Reading (env : Collaborators) : Prop where
  construct : ∀ c f name m, (env.construct c f name m).Reading
  before : ∀ p i name, (env.before p i name).Reading
  after : ∀ p i name, (env.after p i name).Reading
  hooks : ∀ p i name, (env.beforeDestruction p i name).Reading
  destroy : ∀ i spec, (env.destroy i spec).Reading
  ready : ∀ i spec, (env.ready i spec).Reading

variable {α β : Type} {env : Collaborators} {again : Reentry} {f : FactoryId} {name : String}

/-! ## Scripts -/

/-- The ways back into a session only read, as long as nothing else is asked of them. -/
structure Reentry.Reading (again : Reentry) : Prop where
  keep : again.Keep (reading Set.univ) Set.univ
  perform : ∀ operation : Operation, operation.isReading = true →
    Keeps (reading Set.univ) (again.perform operation)

theorem Script.reading_iff {script : Script α} :
    script.Reading ↔ script.Within Set.univ fun operation => operation.isReading = true := by
  constructor
  · intro h
    induction h with
    | done => exact .done _
    | fail => exact .fail _
    | emit _ ih => exact .emit ih
    | make _ ih => exact .make ih
    | lookup _ ih => exact .lookup trivial ih
    | perform hop _ ih => exact .perform hop ih
  · intro h
    induction h with
    | done => exact .done _
    | fail => exact .fail _
    | emit _ ih => exact .emit ih
    | make _ ih => exact .make ih
    | lookup _ _ ih => exact .lookup ih
    | perform hop _ ih => exact .perform hop ih

theorem Collaborators.reading_iff :
    env.Reading ↔ env.Within Set.univ Set.univ fun operation => operation.isReading = true where
  mp h :=
    { construct := fun c f _ name m => Script.reading_iff.1 (h.construct c f name m)
      before := fun p i name => Script.reading_iff.1 (h.before p i name)
      after := fun p i name => Script.reading_iff.1 (h.after p i name)
      hooks := fun p i name => Script.reading_iff.1 (h.hooks p i name)
      destroy := fun i spec => Script.reading_iff.1 (h.destroy i spec)
      ready := fun i spec => Script.reading_iff.1 (h.ready i spec) }
  mpr h :=
    { construct := fun c f name m => Script.reading_iff.2 (h.construct c f trivial name m)
      before := fun p i name => Script.reading_iff.2 (h.before p i name)
      after := fun p i name => Script.reading_iff.2 (h.after p i name)
      hooks := fun p i name => Script.reading_iff.2 (h.hooks p i name)
      destroy := fun i spec => Script.reading_iff.2 (h.destroy i spec)
      ready := fun i spec => Script.reading_iff.2 (h.ready i spec) }

theorem Collaborators.Reading.keep (h : env.Reading) (ha : again.Reading) :
    env.Keep (reading Set.univ) Set.univ again :=
  (Collaborators.reading_iff.1 h).keep (covers_reading Set.univ) ha.keep.lookup ha.perform

theorem coversSession_reading : (reading Set.univ).CoversSession where
  toCovers := covers_reading Set.univ
  addProcessor _ := .of_factories rfl (.of_record_eq rfl)
  addScope _ := .of_factories rfl (.of_record_eq rfl)

/-- **With collaborators that only ask, all ways back only read**, at any depth. -/
theorem reentry_reading (h : env.Reading) : ∀ depth, (reentry env depth).Reading
  | 0 => ⟨⟨fun _ _ _ _ _ => trivial, fun _ _ _ _ _ => trivial⟩, fun _ _ _ _ => trivial⟩
  | depth + 1 => by
    have ih := reentry_reading h depth
    have hk := h.keep ih
    have cover := covers_reading Set.univ
    exact ⟨⟨fun _ hf _ => keeps_lookup cover.making (hk.making cover) ih.keep.lookup hf,
      fun _ hf _ => cover.cascade hk ih.keep hf⟩,
      fun _ hop => keeps_performOnce coversSession_reading hk ih.keep hop⟩

/-! ## Written instructions -/

section

variable {V : Set FactoryId} {P : Operation → Prop}

theorem Script.Within.bind {script : Script α} {k : α → Script β} (h : script.Within V P)
    (hk : ∀ a, (k a).Within V P) : (script >>= k).Within V P := by
  change (Script.bind script k).Within V P
  induction h with
  | done a => exact hk a
  | fail failure => exact .fail failure
  | emit _ ih => exact .emit ih
  | make _ ih => exact .make ih
  | lookup hf _ ih => exact .lookup hf ih
  | perform hop _ ih => exact .perform hop ih

theorem Script.Within.forM {step : α → Script Unit} (h : ∀ a, (step a).Within V P) :
    ∀ {l : List α}, (l.forM step).Within V P
  | [] => .done ()
  | a :: _ => (h a).bind fun _ => .forM h

namespace Scripted

variable {typeOf : Kind → TypeInfo} {readStep : ReadStep}

theorem within_report {event : Event} : (report event).Within V P := .emit (.done ())

theorem within_failWith {text : Option String} : (failWith text).Within V P := by
  cases text with
  | none => exact .done ()
  | some text => exact .fail _

variable (h : ∀ v word op, readStep v = some (word, op) → P op)
include h

theorem within_runSteps {steps : List Value} : (runSteps readStep steps).Within V P := by
  refine .forM fun step => ?_
  split
  · rename_i word op hstep
    exact .perform (h _ _ _ hstep) fun _ => within_report
  · exact .done ()

theorem within_construct {label : String} {m : MergedDefinition} (hf : f ∈ V) :
    (construct readStep label f name m).Within V P := by
  refine within_report.bind fun _ => (Script.Within.forM fun n => ?_).bind fun _ =>
    (Script.Within.forM fun n => ?_).bind fun _ => (within_runSteps h).bind fun _ =>
      within_failWith.bind fun _ => .make .done
  · refine .lookup hf fun r => ?_
    split
    · exact .done ()
    · exact .fail _
  · exact .lookup hf fun _ => within_report

theorem within_process {event : Event} {phase : String} {p : Processor} {rule : ProcessingRule}
    {i : Instance} : (process readStep event phase p rule i name).Within V P := by
  refine within_report.bind fun _ => (within_runSteps h).bind fun _ => within_failWith.bind fun _ => ?_
  split
  · exact .make .done
  · exact .done i

/-- Written instructions ask for nothing but what their operations ask for, and look up beans of the
factory that they are for. -/
theorem within_collaborators : (collaborators typeOf readStep).Within V V P where
  construct c f hf name m := by
    cases c with
    | scripted label => exact within_construct h hf
    | direct => exact .make .done
  before p i name := by
    unfold collaborators
    dsimp only
    split
    · exact within_process h
    · exact .done i
  after p i name := by
    unfold collaborators
    dsimp only
    split
    · exact within_process h
    · exact .done i
  hooks p i name := by
    unfold collaborators
    dsimp only
    split
    · exact within_report.bind fun _ => (within_runSteps h).bind fun _ => within_failWith
    · exact .done ()
  destroy _ _ := within_report.bind fun _ => (within_runSteps h).bind fun _ => within_failWith
  ready _ _ := within_report.bind fun _ => (within_runSteps h).bind fun _ => within_failWith

end Scripted

end

theorem Scripted.reading_collaborators {typeOf : Kind → TypeInfo} {readStep : ReadStep}
    (h : ∀ v word op, readStep v = some (word, op) → op.isReading = true) :
    (collaborators typeOf readStep).Reading := Collaborators.reading_iff.2 (within_collaborators h)

end BeanContainer
