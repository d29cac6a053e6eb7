import BeanContainer.Script
import BeanContainer.Settings.LogFilter

/-!
Collaborators that follow written instructions.

A constructor finds its instructions among the properties of the definition,
under names that start with a dollar sign; an instance and a post-processor
carry theirs with them. All report what they do. How an operation is written is
left open: `readStep` reads it.
-/

namespace BeanContainer.Scripted

/-- Reads a written operation and the word it is reported by. -/
abbrev ReadStep := Value → Option (String × Operation)

/-- Reports something. -/
def report (event : Event) : Script Unit := .emit event (.done ())

/-- Fails with a text, if there is one. -/
def failWith (text : Option String) : Script Unit :=
  match text with
  | some text => .fail (.text text)
  | none => .done ()

/-- Performs written operations one after another, and reports each with its answer. What is
no operation is passed over. -/
def runSteps (readStep : ReadStep) (steps : List Value) : Script Unit :=
  steps.forM fun step =>
    match readStep step with
    | some (word, operation) => .perform operation fun answer => report (.nested word answer)
    | none => .done ()

/-! ## Instructions of a definition -/

/-- The texts of a list. -/
def textsOf : Value → List String
  | .list items => items.filterMap fun
    | .text s => some s
    | _ => none
  | _ => []

/-- The items of a list. -/
def itemsOf : Value → List Value
  | .list items => items
  | _ => []

/-- A text. -/
def textOf : Value → Option String
  | .text s => some s
  | _ => none

/-- The kind that a word names. -/
def kindOf (word : String) : Option Kind :=
  if word = "plain" then some .plain
  else if word = "closer" then some .closer
  else if word = "ready" then some .ready
  else if word = "full" then some .full
  else none

/-- The instruction of a definition under a name; a missing one is nothing. -/
def instruction (m : MergedDefinition) (name : String) : Value :=
  (m.properties.get? name).getD .null

/-- How an instance made after a definition behaves. -/
def specOf (m : MergedDefinition) : BeanSpec where
  kind := ((textOf (instruction m "$kind")).bind kindOf).getD .closer
  failDestroy := textOf (instruction m "$fail_destroy")
  failReady := textOf (instruction m "$fail_ready")
  destroySteps := itemsOf (instruction m "$destroy_ops")
  readySteps := itemsOf (instruction m "$ready_ops")

/-- Looks up a bean; a failure is the constructor's own. -/
def require (f : FactoryId) (name : String) : Script Unit :=
  .lookup f name fun
    | .ok _ => .done ()
    | .error e => .fail (.error e)

/-- Looks up a bean and reports what came of it. -/
def attempt (f : FactoryId) (name : String) : Script Unit :=
  .lookup f name fun result => report (.tried name result)

/-- Makes an instance as the definition instructs: first the beans it needs, then those it
would like, then its operations. -/
def construct (readStep : ReadStep) (label : String) (f : FactoryId) (name : String)
    (m : MergedDefinition) : Script Instance := do
  report (.construct label name m.scope)
  (textsOf (instruction m "$refs")).forM (require f)
  (textsOf (instruction m "$try")).forM (attempt f)
  runSteps readStep (itemsOf (instruction m "$ops"))
  failWith (textOf (instruction m "$fail"))
  .make name (specOf m) .done

/-! ## Post-processors -/

/-- Follows the rule of one phase: reports, performs the operations, then fails on some beans
and replaces others. -/
def process (readStep : ReadStep) (event : Event) (phase : String) (p : Processor)
    (rule : ProcessingRule) (i : Instance) (name : String) : Script Instance := do
  report event
  runSteps readStep rule.steps
  failWith (if rule.fail.contains name then some (p.label ++ " " ++ phase ++ " " ++ name) else none)
  if rule.replace.contains name then .make (p.label ++ ":" ++ name) rule.spec .done
  else .done i

/-- Follows the rule before a destruction. -/
def processDestruction (readStep : ReadStep) (p : Processor) (rule : DestructionRule)
    (i : Instance) (name : String) : Script Unit := do
  report (.destruction p.label name i.id)
  runSteps readStep rule.steps
  failWith (if rule.fail.contains name then some (p.label ++ " destruction " ++ name) else none)

/-- Whether a rule cares for an instance, which goes by the instance's own name. -/
def DestructionRule.caresFor (rule : DestructionRule) (i : Instance) : Bool :=
  rule.only.all fun names => names.contains i.name

/-! ## The log -/

/-- The library that reads levels as lists of directives, and starts no log where one was taken. -/
def logLibrary (taken : Session → Bool) : LogLibrary where
  readLevel level := (Settings.LogFilter.check level).mapError Settings.LogFilter.Fault.message
  start _ s := if taken s then .error "a global default trace dispatcher has already been set" else .ok ()

/-! ## All together -/

/-- The collaborators that follow written instructions, in a process that has a log already. -/
def collaborators (typeOf : Kind → TypeInfo) (readStep : ReadStep) : Collaborators where
  typeOf := typeOf
  construct
    | .scripted label, f, name, m => construct readStep label f name m
    | .direct, _, name, m => .make ("lambda:" ++ name ++ ":" ++ m.beanName) { kind := .plain } .done
  before p i name :=
    match p.before with
    | some rule => process readStep (.before p.label name i.id) "before" p rule i name
    | none => .done i
  after p i name :=
    match p.after with
    | some rule => process readStep (.after p.label name i.id) "after" p rule i name
    | none => .done i
  caresFor p := p.destruction.map fun rule => DestructionRule.caresFor rule
  beforeDestruction p i name :=
    match p.destruction with
    | some rule => processDestruction readStep p rule i name
    | none => .done ()
  destroy i spec := do
    report (.destroy i.name i.id)
    runSteps readStep spec.destroySteps
    failWith spec.failDestroy
  ready i spec := do
    report (.ready i.name i.id)
    runSteps readStep spec.readySteps
    failWith spec.failReady
  log := logLibrary fun _ => true

end BeanContainer.Scripted
