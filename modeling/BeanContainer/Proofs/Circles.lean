import BeanContainer.Proofs.Growing
import BeanContainer.Proofs.Preinstantiation
import BeanContainer.Proofs.Recording
import BeanContainer.Proofs.Resolution

/-!
Circles of dependencies. What a bean depends on is refused if it needs the bean in
turn, by recorded edges and by the name that is written there
(`ComesTo.refused`). Edges lead from what names stand for, so a circle is noticed
when it comes back to a bean by the bean's own name: a lookup ends unless
dependencies lead round by aliases alone (`Unaliased.suffices_reentry`). If they
do, it does not end (`Ring.endless`).

How deep lookups nest is measured within one factory first. A dependency by name
that is not refused leads to a bean that was not behind the one in the making;
one by an alias may lead back, but then it goes on along the aliases (`burden`).
-/

namespace BeanContainer

open Relation Session

/-! ## How far dependencies lead -/

section

variable {V : Finset String} {E E' A : String → String → Prop} {n c d : String}

open Classical in
/-- The number of beans that a relation leads to from a bean. -/
noncomputable def descent (V : Finset String) (A : String → String → Prop) (n : String) : Nat :=
  (V.filter (TransGen A n)).card

/-- A bound for the dependencies that lead on from a bean. Each leads to a bean that was not behind it,
by the edges `E`, or else it is one that an alias stands for, by `A`. -/
noncomputable def burden (V : Finset String) (E A : String → String → Prop) (n : String) : Nat :=
  climb V (TransGen E) n * (V.card + 1) + descent V A n

theorem descent_le : descent V A n ≤ V.card := by
  classical exact Finset.card_filter_le ..

theorem descent_lt (hc : c ∈ V) (h : A n c) (acyclic : ¬ TransGen A c c) : descent V A c < descent V A n := by
  classical
  refine Finset.card_lt_card (Finset.ssubset_iff_of_subset ?_ |>.2 ⟨c, ?_, ?_⟩)
  · intro x hx
    rw [Finset.mem_filter] at hx ⊢
    exact ⟨hx.1, .head h hx.2⟩
  · exact Finset.mem_filter.2 ⟨hc, .single h⟩
  · simpa using fun _ => acyclic

theorem burden_lt_bound : burden V E A n < (2 * V.card + 2) * (V.card + 1) := by
  have hclimb := Nat.mul_le_mul_right (V.card + 1) (climb_le (V := V) (E := TransGen E) (n := n))
  have hdescent := descent_le (V := V) (A := A) (n := n)
  unfold burden
  rw [Nat.succ_mul (2 * V.card + 1)]
  omega

theorem burden_mono (h : ∀ b c, E b c → E' b c) : burden V E' A n ≤ burden V E A n :=
  Nat.add_le_add_right (Nat.mul_le_mul_right _ (climb_mono fun _ _ => TransGen.mono h _ _)) _

/-- What already needs a bean has no more behind it, when the bean comes to need it, too. -/
theorem climb_le_of_back (h : ∀ b c, E b c → E' b c) (hnew : E' c n) (back : TransGen E n c) :
    climb V (TransGen E') c ≤ climb V (TransGen E) n := by
  have hback : TransGen E' n c := TransGen.mono h _ _ back
  have hsub : behind V (TransGen E) n ⊆ behind V (TransGen E') c := by
    intro x hx
    rw [mem_behind] at hx ⊢
    exact ⟨hx.1, .head (.single hnew) (ReflTransGen.mono (fun _ _ => TransGen.mono h _ _) _ _ hx.2)⟩
  have hcard := Finset.card_le_card hsub
  unfold climb
  rw [if_pos (TransGen.head hnew hback)]
  omega

/-- **A dependency that is not refused leads to a bean with a smaller burden.** -/
theorem burden_lt (h : ∀ b c, E b c → E' b c) (hnew : E' c n) (hc : c ∈ V) (back : ¬ TransGen E n d)
    (acyclic : ¬ TransGen A c c) (halias : d ≠ c → A n c) : burden V E' A c < burden V E A n := by
  have hmul {a b : Nat} (hab : a < b) : a * (V.card + 1) + (V.card + 1) ≤ b * (V.card + 1) := by
    rw [← Nat.succ_mul]
    exact Nat.mul_le_mul_right _ hab
  have hdescent := descent_le (V := V) (A := A) (n := c)
  unfold burden
  by_cases hback : TransGen E n c
  · -- The bean is behind its dependency already, so that is written as an alias.
    have hlt := descent_lt hc (halias fun e => back (e ▸ hback)) acyclic
    have hle := Nat.mul_le_mul_right (V.card + 1) (climb_le_of_back (V := V) h hnew hback)
    omega
  · have hback : ¬ TransGen (TransGen E) n c := by rwa [transGen_eq_self]
    have hlt : climb V (TransGen E') c < climb V (TransGen E) n :=
      climb_lt (fun _ _ => TransGen.mono h _ _) (.single hnew) hc hback
    have hle := hmul hlt
    omega

end

variable {α : Type} {env : Collaborators} {again : Reentry} {U : Set FactoryId} {start s t u : Session}
  {f g : FactoryId} {b d n x : String} {m : MergedDefinition} {k : Nat}

/-! ## What is done about a dependency -/

theorem addEdge_writeNotices {notices : List Notice} :
    (s.writeNotices notices).addEdge f d n = (s.addEdge f d n).writeNotices notices := by
  induction notices generalizing s with
  | nil => rfl
  | cons o notices ih => exact ih (s := s.write (.notice o))

/-- Creates some beans that a bean depends on. -/
def initializeEach (again : Reentry) (f : FactoryId) (name : String) (dependencies : List String) : Act Unit :=
  initializeDependencies again f name { (default : MergedDefinition) with dependsOn := dependencies }

/-- A dependency that needs the bean is refused. Another one is recorded and looked up, and the rest
comes after it. -/
theorem yields_initializeEach_cons {lost : Prop} {rest : List String}
    {Q : Except BeanError Unit → Session → Prop} :
    Yields lost (initializeEach again f n (d :: rest)).run s Q ↔
      if (s.factory f).isDependent n d then Q (.error (.creation n (.dependencyCycle n d))) s
      else Yields lost (again.lookup f d).run (s.recording f d n) fun r t =>
        match r with
        | .ok _ => Yields lost (initializeEach again f n rest).run t Q
        | .error e => Q (.error (.creationBy n e)) t := by
  change Yields lost (Bind.bind (α := Unit) _ fun _ => List.forM rest _ : Act Unit).run s Q ↔ _
  rw [yields_run_bind, yields_run_bind, yields_run_liftState, theFactory_apply]
  dsimp only
  by_cases h : (s.factory f).isDependent n d = true
  · rw [if_pos h, if_pos h]
    rfl
  · rw [if_neg h, if_neg h]
    simp only [yields_run_bind, yields_run_modify, yields_run_liftState, updateFactory_apply,
      yields_run_attempt]
    change Yields lost _ ((s.writeNotices _).addEdge f d n) _ ↔ _
    rw [addEdge_writeNotices]
    refine yields_congr fun r t => ?_
    cases r <;> rfl

theorem yields_initializeEach_append {lost : Prop} {after : List String}
    {Q : Except BeanError Unit → Session → Prop} : ∀ {before : List String} {s : Session},
      Yields lost (initializeEach again f n (before ++ after)).run s Q ↔
        Yields lost (initializeEach again f n before).run s fun r t =>
          match r with
          | .ok _ => Yields lost (initializeEach again f n after).run t Q
          | .error e => Q (.error e) t
  | [], _ => Iff.rfl
  | d :: before, s => by
    rw [List.cons_append, yields_initializeEach_cons, yields_initializeEach_cons]
    refine iff_of_eq (if_congr Iff.rfl rfl (propext (yields_congr fun r t => ?_)))
    cases r with
    | ok _ => exact yields_initializeEach_append
    | error e => exact Iff.rfl

theorem yields_makeDefined {lost : Prop} {Q : Except BeanError Instance → Session → Prop} :
    Yields lost (makeDefined env again f n).run s Q ↔ Ends (mergedOwn f n) s fun r t =>
      match r with
      | .error e => Q (.error e) t
      | .ok ref =>
        if ref.definition.isAbstract then Q (.error (.creation n .abstractDefinition)) t
        else Yields lost (initializeEach again f n ref.definition.dependsOn).run t fun r u =>
          match r with
          | .error e => Q (.error e) u
          | .ok _ => Yields lost (makeOfKind env again f n ref.definition).run u Q := by
  unfold makeDefined
  rw [yields_run_bind, yields_run_liftQuery]
  refine iff_of_eq (congrArg (Ends (mergedOwn f n) s) (funext fun r => funext fun t => propext ?_))
  cases r with
  | error e => exact Iff.rfl
  | ok ref =>
    dsimp only
    split
    · exact Iff.rfl
    · rw [yields_run_bind]
      refine yields_congr fun r u => ?_
      cases r <;> exact Iff.rfl

theorem yields_lookup_defined {lost : Prop} {Q : Except BeanError Instance → Session → Prop}
    (h : s.route (s.chain f) n = .defined g b) : Yields lost (lookup env again f n).run s Q ↔
      Yields lost (makeDefined env again g b).run (s.write (.missed g b)) Q := by
  unfold lookup
  rw [yields_run_bind, yields_run_get]
  dsimp only
  rw [h]
  exact Iff.rfl

/-- The merge with which the making of a bean begins. -/
def Session.begin (s : Session) (f : FactoryId) (n : String) : Except BeanError MergedRef × Session :=
  (mergedOwn f n).run (s.write (.missed f n))

theorem Session.factory_begin : (s.begin f n).2.factory g =
    { s.factory g with merged := ((s.begin f n).2.factory g).merged } :=
  (remerged_mergedOwn (s := s.write (.missed f n))).factory g

theorem Session.edge_begin : (s.begin f n).2.edge g = s.edge g := by
  unfold Session.edge
  rw [factory_begin]

theorem Session.canonical_begin : ((s.begin f n).2.factory g).canonical = (s.factory g).canonical := by
  rw [factory_begin]
  rfl

/-- A lookup comes to an entry of what a bean depends on: the bean is to be made, and what it depends on
before that entry is there or could be made. -/
structure ComesTo (again : Reentry) (s : Session) (f : FactoryId) (n : String) (g : FactoryId) (b d : String)
    (t : Session) : Prop where
  route : s.route (s.chain f) n = .defined g b
  before : ∃ ref u before after, s.begin g b = (.ok ref, u) ∧ ref.definition.isAbstract = false ∧
    ref.definition.dependsOn = before ++ d :: after ∧
    (initializeEach again g b before).run u = some (.ok (), t)

theorem ComesTo.rest (h : ComesTo again s f n g b d t) (env : Collaborators) : ∃ m after,
    ∀ (lost : Prop) (Q : Except BeanError Instance → Session → Prop),
      Yields lost (lookup env again f n).run s Q ↔
        Yields lost (initializeEach again g b (d :: after)).run t fun r u =>
          match r with
          | .error e => Q (.error e) u
          | .ok _ => Yields lost (makeOfKind env again g b m).run u Q := by
  obtain ⟨ref, u, before, after, hmerged, hconcrete, hentries, hbefore⟩ := h.before
  refine ⟨ref.definition, after, fun lost Q => ?_⟩
  rw [yields_lookup_defined h.route, yields_makeDefined, Ends, ← Session.begin, hmerged]
  dsimp only
  rw [hentries, yields_initializeEach_append, yields_of_run hbefore, hconcrete, if_neg Bool.false_ne_true]

/-- The check goes by the name that is written for the dependency. -/
theorem isDependent_iff : (s.factory f).isDependent n d = true ↔
    TransGen (s.edge f) ((s.factory f).canonical n) d :=
  DependencyGraph.isDependent_iff_transGen

/-- **A dependency that needs the bean, by recorded edges and by the name that is written for it, is
refused.** Nothing is looked up for it then. -/
theorem ComesTo.refused (h : ComesTo again s f n g b d t)
    (hneeds : TransGen (t.edge g) ((t.factory g).canonical b) d) (env : Collaborators) :
    (lookup env again f n).run s = some (.error (.creation b (.dependencyCycle b d)), t) := by
  obtain ⟨m, after, hrest⟩ := h.rest env
  have hends := (hrest False fun r u => r = .error (.creation b (.dependencyCycle b d)) ∧ u = t).2
    (yields_initializeEach_cons.2 (by rw [if_pos (isDependent_iff.2 hneeds)]; exact ⟨rfl, rfl⟩))
  obtain ⟨_, _, hrun, rfl, rfl⟩ := yields_false_iff.1 hends
  exact hrun

/-- A dependency that is not refused is recorded and looked up. The lookup of the bean fails if that fails,
and does not end if that does not end. -/
theorem ComesTo.followed (h : ComesTo again s f n g b d t)
    (hfree : ¬ TransGen (t.edge g) ((t.factory g).canonical b) d) (env : Collaborators) :
    (∀ e u, (again.lookup g d).run (t.recording g d b) = some (.error e, u) →
      (lookup env again f n).run s = some (.error (.creationBy b e), u)) ∧
    ((again.lookup g d).run (t.recording g d b) = none → (lookup env again f n).run s = none) := by
  have hdep := mt isDependent_iff.1 hfree
  obtain ⟨m, after, hrest⟩ := h.rest env
  refine ⟨fun e u hlookup => ?_, fun hlookup => ?_⟩
  · have hends := (hrest False fun r v => r = .error (.creationBy b e) ∧ v = u).2
      (yields_initializeEach_cons.2 (by rw [if_neg hdep, yields_of_run hlookup]; exact ⟨rfl, rfl⟩))
    obtain ⟨_, _, hrun, rfl, rfl⟩ := yields_false_iff.1 hends
    exact hrun
  · refine yields_none_iff.1 ((hrest True _).2 (yields_initializeEach_cons.2 ?_))
    rw [if_neg hdep, Yields, hlookup]
    trivial

/-! ## Lookups that end -/

/-- A bean depends on what an alias stands for. -/
def Session.NeedsByAlias (s : Session) (f : FactoryId) (n c : String) : Prop :=
  s.Defines f n ∧ ∃ m d, s.Own f n m ∧ d ∈ m.dependsOn ∧ (s.factory f).canonical d = c ∧ d ≠ c

/-- How deep the calls nest at most that begin with the making of a bean, within its factory. -/
noncomputable def Session.burden (start s : Session) (f : FactoryId) (n : String) : Nat :=
  BeanContainer.burden (start.beans f) (s.edge f) (start.NeedsByAlias f) n

/-- A bound for that, for a number of factories together. -/
def Session.load (s : Session) : List FactoryId → Nat
  | [] => 0
  | f :: fs => (2 * (s.factory f).definitions.size + 2) * ((s.factory f).definitions.size + 1) + s.load fs

theorem burden_lt_load : start.burden s f n < start.load [f] := by
  have hcard : (start.beans f).card ≤ (start.factory f).definitions.size :=
    (List.toFinset_card_le _).trans_eq OrderedMap.length_keys
  refine burden_lt_bound.trans_le ?_
  exact Nat.mul_le_mul (by omega) (by omega)

theorem load_append {fs gs : List FactoryId} : s.load (fs ++ gs) = s.load fs + s.load gs := by
  induction fs with
  | nil => exact (Nat.zero_add _).symm
  | cons f fs ih => rw [List.cons_append, Session.load, Session.load, ih, Nat.add_assoc]

theorem load_add_above_le {chain : List FactoryId} (hchained : start.Chained U chain) (hg : g ∈ chain) :
    start.load [g] + start.load (start.above g) ≤ start.load chain := by
  obtain ⟨pre, post, hsplit⟩ := List.append_of_mem hg
  rw [hsplit] at hchained ⊢
  have habove : start.above g = post := by rw [Session.above, hchained.chain_eq]; rfl
  rw [habove, List.append_cons, load_append, load_append]
  omega

theorem defines_of_route : ∀ {chain : List FactoryId} {n : String}, s.route chain n = .defined g b →
    g ∈ chain ∧ s.Defines g b ∧ ∃ x, (s.factory g).canonical x = b
  | [], _, h => by cases h
  | f :: ancestors, n, h => by
    rcases route_cons (s := s) (f := f) ancestors n with ⟨i, -, hr⟩ | ⟨-, hr⟩ | ⟨hdef, hr⟩ | ⟨-, hr | hr⟩
    · cases hr.symm.trans h
    · cases hr.symm.trans h
    · cases hr.symm.trans h
      exact ⟨List.mem_cons_self, hdef, n, rfl⟩
    · cases hr.symm.trans h
    · exact (defines_of_route (hr.symm.trans h)).imp (List.mem_cons_of_mem f) id

/-- Calls may nest deep enough for any lookup that this route begins. -/
def Session.Deep (start s : Session) (k : Nat) (r : Route) : Prop :=
  0 < k ∧ ∀ g b, r = .defined g b → start.burden s g b + start.load (start.above g) + 2 ≤ k

/-- A way to look up beans comes to an end, if calls may nest deep enough. -/
def Suffices (start : Session) (U : Set FactoryId) (k : Nat) (look : FactoryId → String → Act Instance) :
    Prop :=
  ∀ ⦃s f n⦄, f ∈ U → start.Grows U s → start.Deep s k (s.route (s.chain f) n) →
    Yields False (look f n).run s fun _ _ => True

theorem Session.Grows.recording (hf : f ∈ U) : s.Grows U (s.recording f d n) where
  toReads := (Reads.addEdge hf).retold Remarks.writeNotices.factories Remarks.writeNotices.tells
  edges he := by
    rw [edge, Session.recording, Remarks.writeNotices.factory]
    exact (Grows.addEdge hf).edges he

/-- Neither aliases nor dependencies that are written as aliases lead round in a circle. -/
structure Unaliased (start : Session) (U : Set FactoryId) : Prop where
  linked : start.Linked U
  aliases : ∀ g ∈ U, (start.factory g).aliases.Acyclic
  needs : ∀ g ∈ U, ∀ b, ¬ TransGen (start.NeedsByAlias g) b b

namespace Unaliased

variable (h : Unaliased start U)
include h

theorem canonical_of_route {chain : List FactoryId} (hchain : ∀ g ∈ chain, g ∈ U) (hs : start.Grows U s)
    (hr : s.route chain n = .defined g b) : (start.factory g).canonical b = b := by
  obtain ⟨hg, -, x, rfl⟩ := defines_of_route hr
  rw [hs.canonical]
  exact AliasMap.canonical_canonical (h.aliases g (hchain g hg)) x

/-- A dependency that was recorded, and not refused, begins a lookup that nests less deep. -/
theorem deep_of_recorded (hf : f ∈ U) (hdef : start.Defines f n) (hown : start.Own f n m) (hd : d ∈ m.dependsOn)
    (hs : start.Grows U s) (hfree : ¬ TransGen (s.edge f) n d) (ht : s.Grows U t)
    (hedge : t.edge f ((start.factory f).canonical d) n)
    (hk : start.burden s f n + start.load (start.above f) + 1 ≤ k) :
    start.Deep t k (t.route (t.chain f) d) := by
  have hreads := hs.toReads.trans h.linked ht.toReads
  refine ⟨by omega, fun g b hr => ?_⟩
  rw [hreads.chain] at hr
  rcases chain_eq h.linked hf with hc | hc
  · rw [hc] at hr
    cases hr
  rw [hc] at hr
  rcases route_cons (s := t) (f := f) (start.above f) d with
    ⟨i, -, hr'⟩ | ⟨-, hr'⟩ | ⟨hdef', hr'⟩ | ⟨-, hr' | hr'⟩
  · cases hr'.symm.trans hr
  · cases hr'.symm.trans hr
  · cases hr'.symm.trans hr
    rw [hreads.canonical] at hdef' ⊢
    rw [Defines, hreads.definitions] at hdef'
    have hlt : start.burden t f ((start.factory f).canonical d) < start.burden s f n :=
      burden_lt (fun _ _ => ht.edges) hedge (mem_beans.2 hdef') hfree (h.needs f hf _)
        fun hne => ⟨hdef, m, d, hown, hd, rfl, hne⟩
    omega
  · cases hr'.symm.trans hr
  · have habove := load_add_above_le (chained_above h.linked hf) (defines_of_route (hr'.symm.trans hr)).1
    have hlt : start.burden t g b < start.load [g] := burden_lt_load
    omega

theorem yields_initializeEach (look : Suffices start U k again.lookup)
    (keeps : ∀ f ∈ U, ∀ name, Keeps (growing U) (again.lookup f name).run) (hf : f ∈ U)
    (hself : (start.factory f).canonical n = n) (hdef : start.Defines f n) (hown : start.Own f n m) :
    ∀ {ds : List String} {s : Session}, (∀ d ∈ ds, d ∈ m.dependsOn) → start.Grows U s →
      start.burden s f n + start.load (start.above f) + 1 ≤ k →
        Yields False (initializeEach again f n ds).run s fun _ _ => True
  | [], _, _, _, _ => trivial
  | d :: ds, s, hds, hs, hk => by
    have hl := h.linked
    have hlen : f < s.factories.length := hs.length ▸ length_lt_of_own hown
    rw [yields_initializeEach_cons]
    split
    · trivial
    · next hdep =>
      have hfree : ¬ TransGen (s.edge f) n d := fun hback =>
        hdep (isDependent_iff.2 (by rwa [hs.canonical, hself]))
      have hst : s.Grows U (s.recording f d n) := .recording hf
      have ht := (growing U).trans hl hs hst
      have hedge : (s.recording f d n).edge f ((start.factory f).canonical d) n :=
        (edge_recording hlen).2 (.inr ⟨by rw [hs.canonical], rfl⟩)
      have hdeep := h.deep_of_recorded hf hdef hown (hds d (by simp)) hs hfree hst hedge hk
      refine ((look hf ht hdeep).both (keeps f hf d _ (ht.toReads.linked hl))).mono fun r u hu => ?_
      cases r with
      | error e => trivial
      | ok _ =>
        have hsu := (growing U).trans (hs.toReads.linked hl) hst hu.2
        have hless : start.burden u f n ≤ start.burden s f n := burden_mono fun _ _ => hsu.edges
        exact yields_initializeEach look keeps hf hself hdef hown (fun d hd => hds d (by simp [hd]))
          ((growing U).trans hl hs hsu) (by omega)

theorem yields_makeDefined (quiet : env.Quiet) (look : Suffices start U k again.lookup)
    (keeps : ∀ f ∈ U, ∀ name, Keeps (growing U) (again.lookup f name).run) (hf : f ∈ U)
    (hself : (start.factory f).canonical n = n) (hs : start.Grows U s) (hdef : s.Defines f n)
    (hk : start.burden s f n + start.load (start.above f) + 1 ≤ k) :
    Yields False (makeDefined env again f n).run s fun _ _ => True := by
  have hl := h.linked
  rw [BeanContainer.yields_makeDefined]
  refine (ends_mergedOwn (hs.toReads.linked hl) hf).mono ?_
  rintro r t ⟨hmerged, hown⟩
  cases r with
  | error e => trivial
  | ok ref =>
    dsimp only
    split
    · trivial
    · have hst : s.Grows U t := .of_merged hmerged
      have hown : start.Own f n ref.definition :=
        (hs.toReads.own_iff hl hf).1 ((hown _).2 ⟨ref, rfl, rfl⟩)
      rw [Defines, hs.definitions] at hdef
      have hless : start.burden t f n ≤ start.burden s f n := burden_mono fun _ _ => hst.edges
      refine (h.yields_initializeEach look keeps hf hself hdef hown (fun _ => id)
        ((growing U).trans hl hs hst) (by omega)).mono fun r u _ => ?_
      cases r with
      | error e => trivial
      | ok _ => exact terminates_makeOfKind quiet u

/-- **Every way to look up beans comes to an end**, if it may go deep enough. -/
theorem suffices_reentry (quiet : env.Quiet) :
    ∀ {depth : Nat}, Suffices start U depth (reentry env depth).lookup
  | 0, _, _, _, _, _, hdeep => absurd hdeep.1 (Nat.lt_irrefl 0)
  | depth + 1, s, f, n, hf, hs, hdeep => by
    have hl := h.linked
    change Yields False (lookup env (reentry env depth) f n).run s _
    have hchain : ∀ g ∈ s.chain f, g ∈ U := by
      rw [hs.chain]
      exact mem_chain_of_closed (fun f hf p hp => (hl f hf p hp).1) hf
    cases hr : s.route (s.chain f) n with
    | defined g b =>
      rw [yields_lookup_defined hr]
      obtain ⟨hg, hdef, -⟩ := defines_of_route hr
      have hst : s.Grows U (s.write (.missed g b)) :=
        .of_factories rfl (.write fun x hx => by cases hx; exact hchain g hg)
      have hk := hdeep.2 g b hr
      refine h.yields_makeDefined quiet (suffices_reentry quiet) (keeps_lookup_growing quiet) (hchain g hg)
        (h.canonical_of_route hchain hs hr) ((growing U).trans hl hs hst) hdef ?_
      have hless : start.burden (s.write (.missed g b)) g b ≤ start.burden s g b :=
        burden_mono fun _ _ => hst.edges
      omega
    | cached | busy | nowhere =>
      unfold lookup
      rw [yields_run_bind, yields_run_get]
      dsimp only
      rw [hr]
      trivial

theorem deep_get {depth : Nat} (hf : f ∈ U) (hdepth : start.load (start.chain f) ≤ depth) :
    start.Deep start (depth + 1) (start.route (start.chain f) n) := by
  refine ⟨by omega, fun g b hr => ?_⟩
  have habove := load_add_above_le (chained_chain h.linked hf) (defines_of_route hr).1
  have hlt : start.burden start g b < start.load [g] := burden_lt_load
  omega

end Unaliased

/-! ## Lookups that do not end -/

/-- Some beans of a factory, none of which is there yet. Each depends on one of them before all else, by an
alias; and no alias is recorded as dependent. -/
structure Ring (U : Set FactoryId) (f : FactoryId) (S : Set String) (s : Session) : Prop where
  linked : s.Linked U
  edges : ∀ {c d}, s.edge f c d → (s.factory f).aliases.isAlias d = false
  beans : ∀ b ∈ S, s.Defines f b ∧ (s.factory f).aliases.isAlias b = false ∧ s.singleton? f b = none ∧
    (s.factory f).singletons.isPrototypeInCreation b = false
  leads : ∀ b ∈ S, ∃ m d rest, s.Own f b m ∧ m.isAbstract = false ∧ m.dependsOn = d :: rest ∧
    (s.factory f).aliases.isAlias d = true ∧ (s.factory f).canonical d ∈ S

namespace Ring

variable {S : Set String}

/-- A ring stays one, as long as its beans are not made and nothing depends on an alias. -/
theorem reads (h : Ring U f S s) (hf : f ∈ U) (hst : s.Reads U t)
    (singletons : (t.factory f).singletons = (s.factory f).singletons)
    (edges : ∀ {c d}, t.edge f c d → s.edge f c d ∨ (s.factory f).aliases.isAlias d = false) :
    Ring U f S t := by
  refine ⟨hst.linked h.linked, fun he => ?_, fun b hb => ?_, fun b hb => ?_⟩
  · rw [hst.aliases]
    exact (edges he).elim h.edges id
  · rw [Defines, hst.definitions, hst.aliases, Session.singleton?, singletons]
    exact h.beans b hb
  · obtain ⟨m, d, rest, hown, hlead⟩ := h.leads b hb
    rw [hst.aliases, hst.canonical]
    exact ⟨m, d, rest, (hst.own_iff h.linked hf).2 hown, hlead⟩

theorem route (h : Ring U f S s) (hn : (s.factory f).canonical n ∈ S) :
    s.route (s.chain f) n = .defined f ((s.factory f).canonical n) := by
  obtain ⟨hdef, -, habsent, hidle⟩ := h.beans _ hn
  obtain ⟨m, -, -, hown, -⟩ := h.leads _ hn
  obtain ⟨ancestors, hchain⟩ := chain_eq_cons (length_lt_of_own hown)
  rw [hchain]
  rcases route_cons (s := s) (f := f) ancestors n with ⟨i, hi, -⟩ | ⟨hbusy, -⟩ | ⟨-, hr⟩ | ⟨hundef, -⟩
  · cases habsent.symm.trans hi
  · cases hidle.symm.trans hbusy
  · exact hr
  · exact absurd hdef hundef

/-- An alias that leads to a bean of the ring is not refused, and the lookup comes to the ring again. -/
theorem follow (h : Ring U f S s) (hf : f ∈ U) (hb : b ∈ S) (halias : (s.factory f).aliases.isAlias d = true) :
    (s.factory f).isDependent b d = false ∧ Ring U f S (s.recording f d b) := by
  obtain ⟨m, -, -, hown, -⟩ := h.leads b hb
  have hlen := length_lt_of_own hown
  constructor
  · rw [← Bool.not_eq_true, isDependent_iff]
    intro hback
    -- The last edge on the way would lead to the alias.
    obtain ⟨x, -, hx⟩ := TransGen.tail'_iff.1 hback
    cases halias.symm.trans (h.edges hx)
  · refine h.reads hf (Session.Grows.recording hf).toReads ?_ fun he => ?_
    · rw [factory_recording hlen]
      rfl
    · rcases (edge_recording hlen).1 he with he | ⟨-, rfl⟩
      · exact .inl he
      · exact .inr (h.beans _ hb).2.1

/-- **A circle of dependencies that are all written as aliases is never noticed.** However deep the calls
may nest, the lookup of a bean on it does not come to an end. -/
theorem endless (hf : f ∈ U) : ∀ {depth : Nat} {s : Session} {n : String}, Ring U f S s →
    (s.factory f).canonical n ∈ S → ((reentry env depth).lookup f n).run s = none
  | 0, _, _, _, _ => rfl
  | depth + 1, s, n, h, hn => by
    change (lookup env (reentry env depth) f n).run s = none
    rw [← yields_none_iff, yields_lookup_defined (h.route hn), yields_makeDefined]
    generalize (s.factory f).canonical n = b at hn
    have hwritten : Ring U f S (s.write (.missed f b)) :=
      h.reads hf (.write fun _ hx => by cases hx; exact hf) rfl .inl
    obtain ⟨m, d, rest, hown, hconcrete, hlead, halias, hd⟩ := hwritten.leads b hn
    refine (ends_mergedOwn hwritten.linked hf).mono ?_
    rintro r t ⟨hmerged, hresult⟩
    obtain ⟨ref, rfl, rfl⟩ := (hresult m).1 hown
    have hfactory := hmerged.factory f
    have ht : Ring U f S t := hwritten.reads hf hmerged.toReads (by rw [hfactory]) fun he =>
      .inl (by rwa [edge, hfactory] at he)
    rw [← hmerged.aliases] at halias
    obtain ⟨hfree, hrecorded⟩ := ht.follow hf hn halias
    rw [← hmerged.canonical, ← (Session.Grows.recording hf).canonical] at hd
    dsimp only
    rw [hconcrete, if_neg Bool.false_ne_true, hlead, yields_initializeEach_cons, hfree,
      if_neg Bool.false_ne_true, Yields, endless hf hrecorded hd]
    trivial

end Ring

/-! ## What is noticed of a circle -/

theorem callFactory_get_eq : callFactory env again f (.get n) s = ((lookup env again f n).run s).map fun r =>
    (match r.1 with | .ok i => .bean i | .error e => .failed e, r.2) := by
  change (ExceptT.run (lookup env again f n) s).bind _ = _
  cases ExceptT.run (lookup env again f n) s with
  | none => rfl
  | some r =>
    obtain ⟨r, t⟩ := r
    cases r <;> rfl

/-- **A dependency that needs the bean in turn is noticed by its name.**

When a lookup comes to an entry of what a bean depends on, it fails there, without another step, if what is
recorded says that the bean under the very name of the entry depends on the bean in the making. If that is
not recorded for this name, the dependency is recorded and looked up, whatever else the name stands for; the
lookup fails if that fails, and it does not end if that does not end. With collaborators that do not call
back every lookup ends, unless dependencies that are written as aliases lead round in a circle: calls never
nest deeper than a bound in the number of definitions. -/
theorem refused_by_name (s : Session) (f : FactoryId) (n : String) :
    (∀ again g b d t, ComesTo again s f n g b d t → ∀ env,
      (TransGen (t.edge g) ((t.factory g).canonical b) d →
        callFactory env again f (.get n) s = some (.failed (.creation b (.dependencyCycle b d)), t)) ∧
      (¬ TransGen (t.edge g) ((t.factory g).canonical b) d →
        (∀ e u, (again.lookup g d).run (t.recording g d b) = some (.error e, u) →
          callFactory env again f (.get n) s = some (.failed (.creationBy b e), u)) ∧
        ((again.lookup g d).run (t.recording g d b) = none → callFactory env again f (.get n) s = none))) ∧
    ∀ U env depth, Unaliased s U → f ∈ U → env.Quiet → s.load (s.chain f) ≤ depth →
      ∃ answer t, callFactory env (reentry env depth) f (.get n) s = some (answer, t) := by
  refine ⟨fun again g b d t h env =>
      ⟨fun hneeds => ?_, fun hfree => ⟨fun e u hlookup => ?_, fun hlookup => ?_⟩⟩,
    fun U env depth h hf quiet hdepth => ?_⟩
  · rw [callFactory_get_eq, h.refused hneeds env]
    rfl
  · rw [callFactory_get_eq, (h.followed hfree env).1 e u hlookup]
    rfl
  · rw [callFactory_get_eq, (h.followed hfree env).2 hlookup]
    rfl
  · have hends := h.suffices_reentry quiet hf ((growing U).refl s) (h.deep_get hf hdepth (n := n))
    obtain ⟨r, t, hrun, -⟩ := yields_false_iff.1 hends
    have hrun : (lookup env (reentry env depth) f n).run s = some (r, t) := hrun
    exact ⟨_, t, by rw [callFactory_get_eq, hrun]; rfl⟩

/-- A hen and an egg with what each depends on. Each has an alias. -/
def Session.henhouse (hen egg : List String) : Session where
  factories := [{
    definitions := ⟨2, .ofList [("hen", { dependsOn := some hen }), ("egg", { dependsOn := some egg })]⟩
    aliases := ⟨.ofList [("layer", "hen"), ("breakfast", "egg")]⟩
    constructor := some .direct }]

theorem acyclic_henhouse (hen egg : List String) : ((henhouse hen egg).factory 0).aliases.Acyclic := by
  have hlayer : AliasMap.Acyclic ⟨.ofList [("layer", "hen")]⟩ :=
    AliasMap.acyclic_empty.register (show AliasMap.register {} "hen" "layer" true = .ok _ by decide +kernel)
  exact hlayer.register (show AliasMap.register _ "egg" "breakfast" true =
    .ok ⟨.ofList [("layer", "hen"), ("breakfast", "egg")]⟩ by decide +kernel)

theorem linked_henhouse (hen egg : List String) : (henhouse hen egg).Linked {0} := by
  rintro f rfl p hp
  cases hp

theorem unaliased_henhouse : Unaliased (henhouse ["egg"] ["layer"]) {0} := by
  let s := henhouse ["egg"] ["layer"]
  have hmerges : ∀ n ∈ (s.factory 0).definitions.names, (s.merged? 0 n).any (fun m => m.dependsOn.all fun d =>
      (s.factory 0).canonical d = d || n = "egg" && (s.factory 0).canonical d = "hen") = true := by
    decide +kernel
  have hneeds {n c : String} : s.NeedsByAlias 0 n c → n = "egg" ∧ c = "hen" := by
    rintro ⟨hdef, m, d, hown, hd, rfl, hne⟩
    obtain ⟨m', hm', hall⟩ := (Option.any_eq_true ..).1 (hmerges n (OrderedMap.contains_iff.1 hdef))
    cases hm'.symm.trans ((merged?_eq_some_iff (linked_henhouse _ _) rfl).2 hown)
    have hd := List.all_eq_true.1 hall d hd
    simp only [Bool.or_eq_true, Bool.and_eq_true, decide_eq_true_eq] at hd
    exact hd.resolve_left (Ne.symm hne)
  refine ⟨linked_henhouse _ _, ?_, ?_⟩
  · rintro g rfl
    exact acyclic_henhouse _ _
  · rintro g rfl b hround
    obtain ⟨_, hfirst, -⟩ := TransGen.head'_iff.1 hround
    obtain ⟨_, -, hlast⟩ := TransGen.tail'_iff.1 hround
    exact absurd ((hneeds hfirst).1.symm.trans (hneeds hlast).2) (by decide)

theorem ring_henhouse : Ring {0} 0 {b | b ∈ ["hen", "egg"]} (henhouse ["breakfast"] ["layer"]) := by
  let s := henhouse ["breakfast"] ["layer"]
  have hmerged : ∀ b ∈ ["hen", "egg"], (s.merged? 0 b).any (fun m => m.isAbstract = false &&
      m.dependsOn.head?.any fun d => (s.factory 0).aliases.isAlias d &&
        ["hen", "egg"].contains ((s.factory 0).canonical d)) = true := by
    decide +kernel
  refine ⟨linked_henhouse _ _, fun he => absurd he DependencyGraph.not_hasEdge_empty, ?_, fun b hb => ?_⟩
  · show ∀ b ∈ ["hen", "egg"], _
    decide +kernel
  · obtain ⟨m, hm, hfacts⟩ := (Option.any_eq_true ..).1 (hmerged b hb)
    simp only [Bool.and_eq_true, decide_eq_true_eq, Option.any_eq_true, List.contains_iff_mem] at hfacts
    obtain ⟨hconcrete, d, hd, halias, hmem⟩ := hfacts
    obtain ⟨rest, hentries⟩ := List.head?_eq_some_iff.1 hd
    have hown := (merged?_eq_some_iff (linked_henhouse _ _) rfl).1 hm
    exact ⟨m, d, rest, hown, hconcrete, hentries, halias, hmem⟩

theorem comesTo_of_head (hroute : s.route (s.chain f) n = .defined g b) (hhead : (s.begin g b).1.toOption.any
      fun ref => ref.definition.isAbstract = false && ref.definition.dependsOn.head? = some d)
    (again : Reentry) : ComesTo again s f n g b d (s.begin g b).2 := by
  obtain ⟨ref, href, hhead⟩ := (Option.any_eq_true ..).1 hhead
  simp only [Bool.and_eq_true, decide_eq_true_eq] at hhead
  obtain ⟨after, hentries⟩ := List.head?_eq_some_iff.1 hhead.2
  refine ⟨hroute, ref, _, [], after, Prod.ext ?_ rfl, hhead.1, hentries, rfl⟩
  cases hr : (s.begin g b).1 with
  | ok made =>
    rw [hr] at href
    cases href
    rfl
  | error e =>
    rw [hr] at href
    cases href

/-- The egg depends on the hen by an alias. So the circle is noticed when it comes to the egg's own name for the
second time, and the lookup fails for that; if it is recorded that the egg depends on the hen, at once. -/
theorem refused_by_name_henhouse :
    let s := henhouse ["egg"] ["layer"]
    Unaliased s {0} ∧ makers.Quiet ∧ s.load (s.chain 0) ≤ 18 ∧
      (∃ answer t, callFactory makers (reentry makers 18) 0 (.get "hen") s = some (answer, t)) ∧
      (∃ t, ComesTo (reentry makers 1) (s.recording 0 "hen" "egg") 0 "hen" 0 "hen" "egg" t ∧
        TransGen (t.edge 0) "hen" "egg" ∧
        callFactory makers (reentry makers 1) 0 (.get "hen") (s.recording 0 "hen" "egg") =
          some (.failed (.creation "hen" (.dependencyCycle "hen" "egg")), t)) ∧
      ∃ t e u, (∀ again, ComesTo again s 0 "hen" 0 "hen" "egg" t) ∧ ¬ TransGen (t.edge 0) "hen" "egg" ∧
        ((reentry makers 3).lookup 0 "egg").run (t.recording 0 "egg" "hen") = some (.error e, u) ∧
        callFactory makers (reentry makers 3) 0 (.get "hen") s = some (.failed (.creationBy "hen" e), u) ∧
        callFactory makers (reentry makers 0) 0 (.get "hen") s = none := by
  intro s
  have hload : s.load (s.chain 0) ≤ 18 := by decide +kernel
  refine ⟨unaliased_henhouse, quiet_makers, hload,
    (refused_by_name s 0 "hen").2 {0} makers 18 unaliased_henhouse rfl quiet_makers hload, ?_, ?_⟩
  · have hcomes := comesTo_of_head (s := s.recording 0 "hen" "egg") (f := 0) (n := "hen") (g := 0) (b := "hen")
      (d := "egg") rfl (by decide +kernel) (reentry makers 1)
    have hneeds : TransGen (((s.recording 0 "hen" "egg").begin 0 "hen").2.edge 0) "hen" "egg" := by
      rw [edge_begin]
      exact .single ((edge_recording (by decide)).2 (.inr ⟨by decide +kernel, rfl⟩))
    refine ⟨_, hcomes, hneeds, ((refused_by_name _ 0 "hen").1 _ _ _ _ _ hcomes makers).1 ?_⟩
    have hname : ((s.recording 0 "hen" "egg").factory 0).canonical "hen" = "hen" := by decide +kernel
    rwa [canonical_begin, hname]
  · have hcomes := comesTo_of_head (s := s) (f := 0) (n := "hen") (g := 0) (b := "hen") (d := "egg") rfl
      (by decide +kernel)
    have hnone : ¬ TransGen ((s.begin 0 "hen").2.edge 0) "hen" "egg" := by
      rw [edge_begin]
      intro h
      obtain ⟨_, hfirst, -⟩ := TransGen.head'_iff.1 h
      exact DependencyGraph.not_hasEdge_empty hfirst
    have hname : (s.factory 0).canonical "hen" = "hen" := by decide +kernel
    have hfails : (((reentry makers 3).lookup 0 "egg").run ((s.begin 0 "hen").2.recording 0 "egg" "hen")).any
        (fun r => r.1.toOption.isNone) = true := by
      decide +kernel
    obtain ⟨⟨r, u⟩, hrun, hr⟩ := (Option.any_eq_true ..).1 hfails
    cases r with
    | ok i => cases hr
    | error e =>
      have hfollowed (again : Reentry) := ((refused_by_name s 0 "hen").1 _ _ _ _ _ (hcomes again) makers).2
        (by rwa [canonical_begin, hname])
      exact ⟨_, e, u, hcomes, hnone, hrun, (hfollowed _).1 e u hrun, (hfollowed _).2 rfl⟩

/-- A dependency that is written as an alias is not refused for what is recorded for the bean, and two beans
whose dependencies on each other are both written so are looked up without end. -/
theorem not_refused_by_alias :
    (¬ ∀ (env : Collaborators) (again : Reentry) (s t : Session) (b d : String),
      (s.factory 0).aliases.Acyclic → s.Defines 0 b → ComesTo again s 0 b 0 b d t →
      TransGen (t.edge 0) b ((t.factory 0).canonical d) →
        callFactory env again 0 (.get b) s = some (.failed (.creation b (.dependencyCycle b d)), t)) ∧
    ¬ ∀ (env : Collaborators) (s : Session) (b : String),
      (s.factory 0).aliases.Acyclic → s.Linked {0} → env.Quiet → s.Defines 0 b →
        ∃ depth answer t, callFactory env (reentry env depth) 0 (.get b) s = some (answer, t) := by
  constructor
  · intro claim
    let s := (henhouse ["breakfast"] []).recording 0 "hen" "egg"
    have hacyclic : (s.factory 0).aliases.Acyclic := by
      rw [factory_recording (by decide)]
      exact acyclic_henhouse ["breakfast"] []
    have hcomes := comesTo_of_head (s := s) (f := 0) (n := "hen") (g := 0) (b := "hen") (d := "breakfast") rfl
      (by decide +kernel) (reentry makers 1)
    have hneeds : TransGen ((s.begin 0 "hen").2.edge 0) "hen"
        (((s.begin 0 "hen").2.factory 0).canonical "breakfast") := by
      rw [edge_begin, canonical_begin, show (s.factory 0).canonical "breakfast" = "egg" by decide +kernel]
      exact .single ((edge_recording (by decide)).2 (.inr ⟨by decide +kernel, rfl⟩))
    have hrun := claim makers _ _ _ _ _ hacyclic (by decide) hcomes hneeds
    have hmade : (callFactory makers (reentry makers 1) 0 (.get "hen") s).any (·.1 matches .bean _) = true := by
      decide +kernel
    rw [hrun] at hmade
    cases hmade
  · intro claim
    let s := henhouse ["breakfast"] ["layer"]
    obtain ⟨depth, answer, t, hrun⟩ :=
      claim makers s "hen" (acyclic_henhouse _ _) (linked_henhouse _ _) quiet_makers (by decide)
    have hnone : ((reentry makers (depth + 1)).lookup 0 "hen").run s = none :=
      Ring.endless (Set.mem_singleton 0) ring_henhouse
        (show (s.factory 0).canonical "hen" ∈ ["hen", "egg"] by decide +kernel)
    rw [callFactory_get_eq, show (lookup makers (reentry makers depth) 0 "hen").run s = none from hnone] at hrun
    cases hrun

end BeanContainer
