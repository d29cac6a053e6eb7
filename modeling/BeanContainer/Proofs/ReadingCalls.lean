import BeanContainer.Proofs.Ending

/-!
Calls that only ask. A reading call asks a factory for something, which may make
beans; a reading operation is such a call, or uses scopes. What it changes is
what questions and lookups change, so a manner that covers the making of beans
covers the calls, and one that covers scopes as well the operations.
-/

namespace BeanContainer

open Session

/-- Whether a call leaves the definitions of its factory alone, and whatever else it was told. -/
def FactoryCall.isReading : FactoryCall → Bool
  | state | debug | definition _ | containsDefinition _ | isNameInUse _ | merged _ | isAlias _
  | aliases _ | canonical _ | get _ | getAs .. | contains _ | containsLocal _ | isSingleton _
  | isPrototype _ | typeOf _ | singleton _ | containsSingleton _ | isInCreation _ | resolveValue _
  | hasScope _ | dependents _ | dependencies _ | isDependent .. | isTypeIgnored _
  | findResolvable _ | isCandidate .. | preInstantiate => true
  | _ => false

/-- Whether an operation is a reading call, or has nothing to do with factories. -/
def Operation.isReading : Operation → Bool
  | on _ call => call.isReading
  | newProcessor _ | newScope .. | scopeGet .. | scopeRemove .. | scopeCallback .. | scopeClear _
  | scopeInfo _ | describeBootstrap _ | bootSettings _ => true
  | newFactory .. | bootstrap .. | shutdown _ => false

variable {M : Manner} {α β : Type} {env : Collaborators} {again : Reentry} {f : FactoryId} {name : String}

/-! ## Questions -/

/-- Whatever a query does is covered. -/
def Asks (M : Manner) (q : Query α) : Prop :=
  ∀ s : Session, M.Start s → Ends q s fun _ t => M.Leads s t

theorem asks_pure {a : α} : Asks M (pure a) := fun s _ => M.refl s

theorem asks_throw {e : BeanError} : Asks M (throw e : Query α) := fun s _ => M.refl s

theorem asks_get : Asks M (get : Query Session) := fun s _ => M.refl s

theorem asks_theFactory : Asks M (liftM (theFactory f) : Query Factory) := fun s _ => M.refl s

theorem Asks.bind {q : Query α} {k : α → Query β} (h : Asks M q) (hk : ∀ a, Asks M (k a)) :
    Asks M (q >>= k) := by
  intro s hs
  rw [ends_bind]
  refine (h s hs).mono fun r t ht => ?_
  cases r with
  | ok a => exact (hk a t (M.start hs ht)).mono fun _ _ hu => M.trans hs ht hu
  | error e => exact ht

theorem Asks.tryCatch {q : Query α} {k : BeanError → Query α} (h : Asks M q) (hk : ∀ e, Asks M (k e)) :
    Asks M (tryCatch q k : Query α) := by
  intro s hs
  rw [ends_tryCatch]
  refine (h s hs).mono fun r t ht => ?_
  cases r with
  | ok a => exact ht
  | error e => exact (hk e t (M.start hs ht)).mono fun _ _ hu => M.trans hs ht hu

variable {U : Set FactoryId}

theorem asks_mergedOwn (cover : M.CoversMaking U) (hf : f ∈ U) : Asks M (mergedOwn f name) :=
  fun _ hs => cover.ownMerges hs hf

theorem asks_fromOwnDefinition (cover : M.CoversMaking U) (hf : f ∈ U) {answer : MergedDefinition → α} :
    Asks M (fromOwnDefinition f name answer) := by
  unfold fromOwnDefinition
  refine asks_theFactory.bind fun F => ?_
  split
  · exact (asks_mergedOwn cover hf).bind fun _ => asks_pure
  · exact asks_pure

theorem asks_askUpwards {own : FactoryId → String → Query (Option α)} :
    ∀ {chain : List FactoryId} {name : String}, (∀ g ∈ chain, ∀ bean, Asks M (own g bean)) →
      Asks M (askUpwards own chain name)
  | [], _, _ => asks_throw
  | f :: ancestors, name, h => by
    unfold askUpwards
    refine asks_theFactory.bind fun F => (h f (by simp) _).bind fun answer => ?_
    split
    · exact asks_pure
    · split
      · exact asks_throw
      · exact asks_askUpwards fun g hg => h g (List.mem_cons_of_mem f hg)

theorem asks_upwards (cover : M.CoversMaking U) (hf : f ∈ U)
    {own : FactoryId → String → Query (Option α)} (h : ∀ g ∈ U, ∀ bean, Asks M (own g bean)) :
    Asks M (do askUpwards own ((← get).chain f) name) := by
  intro s hs
  rw [ends_bind, ends_get]
  exact asks_askUpwards (fun g hg => h g (cover.mem_chain hs hf g hg)) s hs

theorem asks_isSingleton (cover : M.CoversMaking U) (hf : f ∈ U) : Asks M (isSingleton f name) := by
  refine asks_upwards cover hf fun g hg bean => asks_theFactory.bind fun F => ?_
  split
  · exact asks_pure
  · exact asks_fromOwnDefinition cover hg

theorem asks_isPrototype (cover : M.CoversMaking U) (hf : f ∈ U) : Asks M (isPrototype f name) := by
  refine asks_upwards cover hf fun g hg bean => (asks_fromOwnDefinition cover hg).bind fun answer => ?_
  split
  · exact asks_pure
  · refine asks_theFactory.bind fun F => ?_
    split <;> exact asks_pure

theorem asks_beanType (cover : M.CoversMaking U) (hf : f ∈ U) : Asks M (beanType env f name) := by
  refine asks_upwards cover hf fun g hg bean => asks_theFactory.bind fun F => ?_
  split
  · exact asks_pure
  · exact asks_fromOwnDefinition cover hg

theorem asks_isCandidate (cover : M.CoversMaking U) (hf : f ∈ U) {required : TypeInfo} :
    Asks M (isCandidate env f name required) := by
  intro s hs
  unfold isCandidate
  rw [ends_bind, ends_lift, theFactory_apply]
  dsimp only
  split
  · exact ((asks_mergedOwn cover hf).bind fun _ => asks_pure) s hs
  · split
    · exact M.refl s
    · split
      · next p hp =>
        have hmerges : Asks M (mergedDefinition p ((s.factory f).canonical name)) :=
          fun _ hs' => cover.merges hs' (cover.parent hs hf hp)
        exact (hmerges.bind fun _ => asks_pure) s hs
      · exact M.refl s

/-! ## Calls -/

theorem keeps_answerAct {a : Act α} {shown : α → Answer} (h : Keeps M a.run) :
    Keeps M (answerAct a shown) := by
  unfold answerAct
  refine h.bind fun r => ?_
  split <;> exact keeps_pure

theorem keeps_answerQuery {q : Query α} {shown : α → Answer} (h : Asks M q) :
    Keeps M (answerQuery q shown) := keeps_answerAct fun s hs => h s hs

theorem keeps_withLabel {label : String} {found : Option Nat} {use : Nat → Effect Answer}
    (h : ∀ n, Keeps M (use n)) : Keeps M (withLabel label found use) := by
  unfold withLabel
  split
  · exact h _
  · exact keeps_pure

theorem keeps_answerMerged (cover : M.CoversMaking U) {merged : MergedRef} :
    Keeps M (liftM (answerMerged merged) : Effect Answer) := by
  refine cover.keeps_lift fun s => ?_
  change s.MakingChange U (s.answerMerge merged.serial).2
  unfold Session.answerMerge
  split <;> exact .count

/-- A reading call of a factory in `U` changes no more than lookups there do. -/
theorem keeps_callFactory (cover : M.CoversMaking U) (h : env.KeepMaking M U again)
    (hlookup : ∀ f ∈ U, ∀ name, Keeps M (again.lookup f name).run) (hf : f ∈ U) {call : FactoryCall}
    (hcall : call.isReading = true) : Keeps M (callFactory env again f call) := by
  have shows {shown : Factory → Answer} : Keeps M (do return shown (← theFactory f) : Effect Answer) :=
    keeps_theFactory.bind fun _ => keeps_pure
  cases call <;> first | exact absurd hcall Bool.false_ne_true | (unfold callFactory; dsimp only)
  case definition name =>
    refine keeps_theFactory.bind fun F => ?_
    split <;> exact keeps_pure
  case merged name =>
    refine Keeps.bind (fun s hs => cover.merges hs hf) fun r => ?_
    split
    · exact keeps_answerMerged cover
    · exact keeps_pure
  case get name => exact keeps_answerAct (keeps_lookup cover h hlookup hf)
  case getAs name kind =>
    refine keeps_answerAct ((keeps_lookup cover h hlookup hf).run_bind fun i => ?_)
    split
    · exact keeps_run_pure
    · exact keeps_run_throw
  case contains name => exact keeps_get.bind fun _ => keeps_pure
  case isSingleton name => exact keeps_answerQuery (asks_isSingleton cover hf)
  case isPrototype name => exact keeps_answerQuery (asks_isPrototype cover hf)
  case typeOf name => exact keeps_answerQuery (asks_beanType cover hf)
  case isCandidate name type => exact keeps_answerQuery (asks_isCandidate cover hf)
  case preInstantiate => exact keeps_answerAct (keeps_preInstantiate cover h hlookup hf)
  all_goals exact shows

/-- A manner covers what happens to beans, and that scopes and post-processors are added. -/
structure Manner.CoversSession (M : Manner) : Prop extends M.Covers Set.univ where
  addProcessor : ∀ {s processor processorLabels}, M.Start s →
    M.Leads s { s with processors := s.processors ++ [processor], processorLabels }
  addScope : ∀ {s scope scopeLabels}, M.Start s →
    M.Leads s { s with scopes := s.scopes ++ [scope], scopeLabels }

theorem keeps_performOnce (cover : M.CoversSession) (h : env.Keep M Set.univ again)
    (ha : again.Keep M Set.univ) {operation : Operation} (hop : operation.isReading = true) :
    Keeps M (performOnce env again operation) := by
  have covers := cover.toCovers
  cases operation <;> first | exact absurd hop Bool.false_ne_true | unfold performOnce
  case on label call =>
    exact keeps_get.bind fun s => keeps_withLabel fun f =>
      keeps_callFactory covers.making (h.making covers) ha.lookup trivial hop
  case newProcessor => exact Keeps.bind (fun s hs => cover.addProcessor hs) fun _ => keeps_pure
  case newScope => exact Keeps.bind (fun s hs => cover.addScope hs) fun _ => keeps_pure
  case scopeGet scope name spec failure =>
    refine keeps_get.bind fun s => keeps_withLabel fun k => keeps_answerAct (keeps_getOrMake covers ?_)
    refine (covers.making.keeps_run_write (.event (.scopeMake name)) rfl nofun).run_bind fun _ => ?_
    split
    · exact keeps_run_throw
    · exact covers.making.keeps_run_lift fun s => .count
  case scopeRemove =>
    refine keeps_get.bind fun s => keeps_withLabel fun k => ?_
    exact Keeps.bind (fun s hs => cover.scope hs .take) fun _ => keeps_pure
  case scopeCallback =>
    refine keeps_get.bind fun s => keeps_withLabel fun k => ?_
    exact Keeps.bind (fun s hs => cover.scope hs .addCallback) fun _ => keeps_pure
  case scopeClear =>
    exact keeps_get.bind fun s => keeps_withLabel fun k => keeps_get.bind fun s =>
      (keeps_clearScope covers h).bind fun _ => keeps_pure
  case scopeInfo =>
    exact keeps_get.bind fun s => keeps_withLabel fun k => keeps_get.bind fun s => keeps_pure
  case describeBootstrap => exact keeps_pure
  case bootSettings =>
    refine keeps_get.bind fun s => ?_
    split <;> exact keeps_pure

end BeanContainer
