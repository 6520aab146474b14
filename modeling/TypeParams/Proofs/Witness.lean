/-
What a session can see of witnesses.

A marker has a form, its witness, which says what the parameter may
stand for. Take a store, and one that differs from it in witnesses, and
make the same calls over both: binding arguments of concrete types,
binding the arguments of whole calls, instantiating types.

# Where the sessions are the same

If the two stores look alike in the two places where forms are looked at
before it is asked whether the type is a marker (`Graph.Discreet`), and
functions that are called have the same signature in both, then the two
sessions are the same (`session_over`): the same answers or the same
fault, the same bindings, diagnostics and events, the same types added.
Where no witness is nil or a function the condition holds by itself
(`session_over_plain`).

The proof is an equation between actions, call by call: each call
commutes with changing the store under the resolution. Along with it
goes what the calls keep (`Resolution.Above`), that parameters are bound
to concrete types and that no marker is among the parts of what was
added, or a later call could read a witness off a type that an earlier
one has made. That is why arguments must be concrete.

# Where they need not be

A parameter whose witness is nil is taken for nil where it is the second
of two members of a union, and is not bound to what it meets there
(`nil_witness_seen`). The two stores differ in that witness only, and
the arguments are concrete.
-/
import TypeParams.Proofs.Concrete
import TypeParams.Proofs.Instantiation.Over
import TypeParams.Proofs.Matching.Over

namespace TypeParams

/-- The same resolution over another store. -/
def Resolution.over (store : Store) (r : Resolution) : Resolution :=
  { r with types := r.types.over store }

namespace Resolution

open TypeParams.Graph (Adds Admits)

variable {store store' : Store} {r r' : Resolution}

/-- A resolution that compares forms and has bound parameters to concrete
types only. -/
structure Above (store : Store) (r : Resolution) : Prop where
  checker : r.checker = .structural
  types : r.types.Above store
  graph : r.types.graph.WellFormed
  bound : ∀ b ∈ r.env.entries, r.types.graph.Concrete b.bound

/-- A resolution begins with nothing bound and nothing added. -/
theorem begin_above (config : Config) (listening : Bool)
    (hg : store.graph.WellFormed) :
    (begin .structural config store listening).Above store := by
  have hgraph : (begin .structural config store listening).types.graph
      = store.graph := Layer.graph_on store
  refine ⟨rfl, ⟨rfl, ?_⟩, ?_, ?_⟩
  · rw [hgraph]
    exact .refl _ _
  · rw [hgraph]
    exact hg
  · intro b hb
    cases hb

/-- An action on the workspace, within a resolution. -/
theorem onWork_commutes {α : Type} {action : WorkM α}
    (h : Commutes (Workspace.over store') action r.workspace) :
    Commutes (Resolution.over store') (onWork action) r := by
  have hsame : action (r.over store').workspace = _ := h
  unfold Commutes onWork
  rw [hsame]
  cases action r.workspace <;> rfl

-- ============================================================= arguments

/-- A matched argument of a concrete type. -/
theorem Above.matchArgument (hr : r.Above store) {declared actual : TypeId}
    {span : Span} (hactual : r.types.graph.Concrete actual)
    (h : matchArgument declared actual span r = .ok () r') :
    r'.Above store ∧ r.types.graph.Extends r'.types.graph := by
  obtain ⟨hwithin, hext⟩ :=
    matchArgument_within hr.graph hr.bound hactual h
  obtain ⟨s, hrun, rfl⟩ := matchArgument_eq_ok.mp h
  have hkeeps := Matching.Matches.keeps ⟨_, hrun⟩
  refine ⟨⟨hr.checker, ⟨hkeeps.base.trans hr.types.base, ?_⟩, ?_, ?_⟩, hext⟩
  · exact hr.types.adds.trans hwithin.adds
      (fun _ hid hlt => hid.keyless_of_extends hr.types.adds.nodes hlt)
      fun _ hid => hid.1
  · exact hwithin.adds.wellFormed hr.graph.closed.closedOn_concrete
      hr.graph
  · intro b hb
    exact hwithin.adds.concrete hr.graph.closed (hwithin.bound b hb)

/-- An argument of a concrete type is matched alike over both stores. -/
theorem matchArgument_commutes (hstore : store.Veils store')
    (hr : r.Above store) {actual : TypeId}
    (hactual : r.types.graph.Concrete actual) (declared : TypeId)
    (span : Span) :
    Commutes (Resolution.over store')
      (matchArgument declared actual span) r := by
  have hstart : r.matching.AboveStore store r.types.graph :=
    ⟨hr.types.base, hr.types.adds, hr.graph,
      ⟨.refl _ _, fun b hb => .inl (hr.bound b hb)⟩⟩
  have hchecker : (⟨r.checker, r.config, span⟩ :
      Matching.Context).checker = .structural := hr.checker
  have hrun : Matching.matchTypes
      ⟨(r.over store').checker, (r.over store').config, span⟩
      (r.over store').config.maxDepth declared actual .covariant
      (r.over store').matching = _ :=
    Matching.matchTypes_commutes hstore hchecker r.config.maxDepth hstart
      declared (.inl hactual) .covariant
  unfold Commutes
  rw [matchArgument_eq, matchArgument_eq, hrun]
  cases Matching.matchTypes ⟨r.checker, r.config, span⟩
    r.config.maxDepth declared actual .covariant r.matching <;> rfl

/-- A bound argument of a concrete type. -/
theorem Above.bindArgument (hr : r.Above store) {declared actual : TypeId}
    {span : Span} (hactual : r.types.graph.Concrete actual)
    (h : bindArgument declared actual span r = .ok () r') :
    r'.Above store ∧ r.types.graph.Extends r'.types.graph := by
  rcases bindArgument_eq_ok.mp h with ⟨-, rfl⟩ | ⟨-, hmatch⟩
  · exact ⟨hr, .refl _⟩
  · exact hr.matchArgument hactual hmatch

/-- An argument of a concrete type is bound alike. -/
theorem bindArgument_commutes (hstore : store.Veils store')
    (hr : r.Above store) {actual : TypeId}
    (hactual : r.types.graph.Concrete actual) (declared : TypeId)
    (span : Span) :
    Commutes (Resolution.over store')
      (bindArgument declared actual span) r := by
  refine .bind (onWork_commutes (WorkM.containsMarker_commutes hstore
    hr.types declared)) fun b r₁ hscan => ?_
  obtain ⟨work, hinspect, rfl⟩ := onWork_run.mp hscan
  obtain ⟨-, rfl⟩ := WorkM.inspect_run.mp hinspect
  cases b with
  | false => exact .pure _
  | true => exact matchArgument_commutes hstore hr hactual declared span

-- =========================================================== whole calls

/-- A type has the same signature over the other store if it has in the
stores. -/
theorem Above.signature?_eq (hstore : store.Veils store')
    (hr : r.Above store) {id : TypeId}
    (hid : store'.graph.signature? id = store.graph.signature? id) :
    (r.types.over store').graph.signature? id
      = r.types.graph.signature? id := by
  by_cases hlt : id.index < store.graph.size
  · have hlt' : id.index < store'.graph.size := by
      rw [hstore.veils.size_eq]
      exact hlt
    rw [hr.types.adds.nodes.signature?_eq hlt,
      (Layer.Above.extends_over r.types store').signature?_eq hlt', hid]
  · have hveils := hr.types.veils hstore
    unfold Graph.signature?
    cases hn : r.types.graph.node? id with
    | none => rw [hveils.node?_eq_none hn]
    | some node =>
        have hadded := hr.types.adds.added id node (Nat.le_of_not_lt hlt) hn
        rw [hveils.node?_of_keyless
          ⟨node, hn, Node.markerKey?_of_unmarked hadded.1⟩, hn]

/-- What is answered about a type that has a signature or none. -/
def signatureAnswer (id : TypeId) :
    Option Signature → WorkM (Except Error Signature)
  | some signature => return .ok signature
  | none => return .error (.notFunction (← WorkM.inspect (·.render id)))

/-- A call on a type with a node is answered by its form. -/
theorem signature_of_node {id : TypeId} {node : Node}
    (hn : r.types.graph.node? id = some node) :
    signature id r
      = onWork (signatureAnswer id node.kind.signature?) r := by
  have hread : WorkM.node id r.workspace = .ok node r.workspace :=
    WorkM.node_run.mpr ⟨hn, rfl⟩
  unfold signature onWork
  rw [bind_of_run hread]
  cases node.kind <;> rfl

/-- A call on an id without a node ends in a fault. -/
theorem signature_of_missing {id : TypeId}
    (hn : r.types.graph.node? id = none) :
    signature id r = .error (.missing id r.types.graph.size) r := by
  unfold signature onWork
  rw [bind_of_fault (WorkM.node_fault hn)]
  rfl

/-- A call on a type that has the same signature over both stores. -/
theorem signature_commutes (hstore : store.Veils store')
    (hr : r.Above store) {id : TypeId}
    (hid : store'.graph.signature? id = store.graph.signature? id) :
    Commutes (Resolution.over store') (signature id) r := by
  have hveils := hr.types.veils hstore
  have hsame := hr.signature?_eq hstore hid
  cases hn : r.types.graph.node? id with
  | none =>
      have hsize : (r.over store').types.graph.size = r.types.graph.size :=
        hveils.size_eq
      unfold Commutes
      rw [signature_of_missing hn,
        signature_of_missing (r := r.over store') (hveils.node?_eq_none hn),
        hsize]
      rfl
  | some node =>
      obtain ⟨node', hn', -⟩ := hveils.node? hn
      unfold Graph.signature? at hsame
      rw [hn, hn'] at hsame
      unfold Commutes
      rw [signature_of_node hn,
        signature_of_node (r := r.over store') hn',
        show node'.kind.signature? = node.kind.signature? from hsame]
      refine onWork_commutes ?_
      cases node.kind.signature? with
      | some signature => exact .pure _
      | none =>
          exact .bind (WorkM.inspect_commutes (hr.types.render_eq hstore id))
            fun _ _ _ => .pure _

/-- Concrete arguments are to be bound. -/
structure Awaits (store : Store) (pairs : List (TypeId × TypeId))
    (r : Resolution) : Prop where
  above : r.Above store
  concrete : ∀ pair ∈ pairs, r.types.graph.Concrete pair.2

/-- The arguments of a call are concrete, or no type. -/
theorem Above.awaits (hr : r.Above store) {args : List TypeId}
    (hargs : ∀ a ∈ args, r.types.graph.Concrete a)
    (signature : Signature) :
    Awaits store (signature.argumentPairs args) r where
  above := hr
  concrete pair hpair := by
    rcases snd_argumentPairs signature args pair hpair with hmem | hnone
    · exact hargs _ hmem
    · rw [hnone]
      exact hr.graph.builtin_concrete rfl

/-- Binding one of several concrete arguments keeps all of them
concrete. -/
theorem Awaits.turn {span : Span} {pairs : List (TypeId × TypeId)}
    {pair : TypeId × TypeId} (hpair : pair ∈ pairs)
    (hr : Awaits store pairs r)
    (h : Resolution.bindArgument pair.1 pair.2 span r = .ok () r') :
    Awaits store pairs r' := by
  obtain ⟨hr', hext⟩ := hr.above.bindArgument (hr.concrete pair hpair) h
  exact ⟨hr', fun p hp =>
    (hr.concrete p hp).extends hr.above.graph.closed hext⟩

/-- Arguments are bound alike, one by one: the ones that are left stay
concrete as types are added. -/
theorem bindArguments_commutes (hstore : store.Veils store')
    (hr : r.Above store) {args : List TypeId}
    (hargs : ∀ a ∈ args, r.types.graph.Concrete a) (id : TypeId)
    (signature : Signature) (span : Span) :
    Commutes (Resolution.over store')
      (bindArguments id signature args span) r := by
  have hstart := hr.awaits hargs signature
  refine .bind (.forM (I := Awaits store (signature.argumentPairs args))
    ?_ ?_ hstart) fun _ r₁ hloop => ?_
  · exact fun pair hpair r hr => bindArgument_commutes hstore hr.above
      (hr.concrete pair hpair) pair.1 span
  · exact fun pair hpair _ _ => Awaits.turn hpair
  have hr₁ := (forM_run.mp hloop).keeps
    (fun pair hpair _ _ => Awaits.turn hpair) hstart
  by_cases hignored : 0 < signature.ignoredCount args
  · simp only [if_pos hignored]
    refine .bind (onWork_commutes (WorkM.tell_commutes ?_))
      fun _ _ _ => .pure _
    have hrender := hr₁.above.types.render_eq hstore id
    exact congrArg (· >>= _) hrender
  · simp only [if_neg hignored]
    exact .pure _

/-- A whole call is bound alike. -/
theorem bindCall_commutes (hstore : store.Veils store')
    (hr : r.Above store) {args : List TypeId}
    (hargs : ∀ a ∈ args, r.types.graph.Concrete a) {id : TypeId}
    (hid : store'.graph.signature? id = store.graph.signature? id)
    (span : Span) :
    Commutes (Resolution.over store') (bindCall id args span) r := by
  rw [bindCall_eq]
  refine (signature_commutes hstore hr hid).bind fun found r₁ hfound => ?_
  cases signature_run hfound
  cases found with
  | error error => exact .pure _
  | ok signature =>
      exact bindArguments_commutes hstore hr hargs id signature span

/-- A bound call. -/
theorem Above.bindCall (hr : r.Above store) {id : TypeId}
    {args : List TypeId} {span : Span} {result : Except Error Unit}
    (hargs : ∀ a ∈ args, r.types.graph.Concrete a)
    (h : bindCall id args span r = .ok result r') : r'.Above store := by
  rcases bindCall_run h with
    rfl | ⟨signature, r₁, work, -, hsweep, htell, rfl⟩
  · exact hr
  · obtain ⟨hr₁, -⟩ := hsweep.keeps
      (fun pair hpair _ _ => Awaits.turn hpair)
      (hr.awaits hargs signature)
    obtain ⟨-, events, rfl⟩ := htell
    exact ⟨hr₁.checker, hr₁.types, hr₁.graph, hr₁.bound⟩

-- ========================================================= instantiation

/-- An instantiation begins above the store. -/
theorem Above.instantiation (hr : r.Above store) :
    r.instantiation.AboveStore store r.types where
  above := hr.types
  closed := hr.graph.closed
  tidy := r.instantiation_tidy
  owes := ⟨rfl, .refl _⟩
  slots := by
    intro f hf
    cases hf
  adds := .refl _ _

/-- Parameters stand for concrete types, which are no markers. -/
theorem Above.keyless (hr : r.Above store) (span : Span) :
    (⟨r.env, r.config, span⟩ : Instantiation.Context).Keyless
      r.types.graph where
  bound key b hb := by
    obtain ⟨binding, hfind, rfl⟩ := Option.map_eq_some_iff.mp hb
    exact (hr.bound binding (List.mem_of_find?_eq_some hfind)).keyless
  noType := (hr.graph.builtin_concrete rfl).keyless

/-- An instantiated type. -/
theorem Above.instantiate (hr : r.Above store) {declared id : TypeId}
    {span : Span} (h : instantiate declared span r = .ok id r') :
    r'.Above store := by
  have hd := instantiate_lt h
  have hbound : ∀ key b, r.env.lookup? key = some b →
      b.index < r.types.graph.size :=
    fun key b hb => ((hr.keyless span).bound key b hb).lt
  have hadds := (instantiate_adds hr.graph hbound h).1
  obtain ⟨s, hrun, rfl⟩ := instantiate_run h
  have hs := hr.instantiation.resolved (hr.keyless span) hd hrun
  refine ⟨hr.checker, hs.types, ?_, ?_⟩
  · exact hadds.wellFormed hr.graph.closed.closedOn hr.graph
  · intro b hb
    exact (hr.bound b hb).extends hr.graph.closed hadds.nodes

/-- A type is instantiated alike. -/
theorem instantiate_commutes (hstore : store.Veils store')
    (hr : r.Above store) (declared : TypeId) (span : Span) :
    Commutes (Resolution.over store') (instantiate declared span) r := by
  have hd : ∀ node, r.instantiation.graph.node? declared = some node →
      declared.index < r.types.graph.size :=
    fun _ hn => Graph.index_lt_of_node? hn
  have hrun : Instantiation.resolve
      ⟨(r.over store').env, (r.over store').config, span⟩
      (r.over store').config.maxDepth declared
      (r.over store').instantiation = _ :=
    Instantiation.resolve_commutes hstore (hr.keyless span)
      r.config.maxDepth hr.instantiation hd
  unfold Commutes
  rw [instantiate_eq, instantiate_eq, hrun]
  cases Instantiation.resolve ⟨r.env, r.config, span⟩
    r.config.maxDepth declared r.instantiation <;> rfl

/-- So is the signature of a function. -/
theorem instantiateSignature_commutes (hstore : store.Veils store')
    (hr : r.Above store) {id : TypeId}
    (hid : store'.graph.signature? id = store.graph.signature? id) :
    Commutes (Resolution.over store') (instantiateSignature id) r := by
  refine (signature_commutes hstore hr hid).bind fun found r₁ hfound => ?_
  cases signature_run hfound
  cases found with
  | error error => exact .pure _
  | ok signature =>
      exact (instantiate_commutes hstore hr id .null).bind
        fun _ _ _ => .pure _

theorem Above.instantiateSignature (hr : r.Above store) {id : TypeId}
    {result : Except Error TypeId}
    (h : instantiateSignature id r = .ok result r') : r'.Above store := by
  obtain ⟨found, r₁, hfound, hrest⟩ := bind_run.mp h
  cases signature_run hfound
  cases found with
  | error error =>
      cases hrest
      exact hr
  | ok signature =>
      obtain ⟨y, r₁, hinst, hrest⟩ := bind_run.mp hrest
      cases hrest
      exact hr.instantiate hinst

-- ============================================================== sessions

/-- The type that a call takes for a function, if it does. -/
def Call.function? : Call → Option TypeId
  | .bindCall id _ _ | .instantiateSignature id => some id
  | .bindArgument _ _ _ | .instantiate _ _ => none

/-- No call is given an argument of a type with a marker. -/
def Concretely : List Call → Resolution → Prop
  | [], _ => True
  | call :: calls, r =>
      (∀ a ∈ call.actuals, r.types.graph.containsMarker a = .ok false) ∧
        match call.ask r with
        | .ok _ r' => Concretely calls r'
        | .error _ _ => True

instance Concretely.decidable :
    (calls : List Call) → (r : Resolution) → Decidable (Concretely calls r)
  | [], _ => .isTrue trivial
  | call :: calls, r =>
      have : Decidable (match call.ask r with
          | .ok _ r' => Concretely calls r'
          | .error _ _ => True) :=
        match call.ask r with
        | .ok _ r' => Concretely.decidable calls r'
        | .error _ _ => .isTrue trivial
      inferInstanceAs (Decidable (_ ∧ _))

/-- A call does the same over the other store. -/
theorem Call.ask_commutes (hstore : store.Veils store')
    (hr : r.Above store) {call : Call}
    (hactuals : ∀ a ∈ call.actuals, r.types.graph.Concrete a)
    (hfunction : ∀ id ∈ call.function?,
      store'.graph.signature? id = store.graph.signature? id) :
    Commutes (Resolution.over store') call.ask r := by
  cases call with
  | bindArgument declared actual span =>
      have hactual := hactuals actual List.mem_cons_self
      exact (bindArgument_commutes hstore hr hactual declared span).bind
        fun _ _ _ => .pure _
  | bindCall id args span =>
      have hid := hfunction id rfl
      exact (bindCall_commutes hstore hr hactuals hid span).bind
        fun _ _ _ => .pure _
  | instantiate declared span =>
      exact (instantiate_commutes hstore hr declared span).bind
        fun _ _ _ => .pure _
  | instantiateSignature id =>
      have hid := hfunction id rfl
      exact (instantiateSignature_commutes hstore hr hid).bind
        fun _ _ _ => .pure _

/-- Whatever is called with concrete arguments. -/
theorem Above.ask (hr : r.Above store) {call : Call}
    {reply : Except Error (Option TypeId)}
    (hactuals : ∀ a ∈ call.actuals, r.types.graph.Concrete a)
    (h : call.ask r = .ok reply r') : r'.Above store := by
  cases call with
  | bindArgument declared actual span =>
      obtain ⟨_, r₁, hrun, hdone⟩ := bind_run.mp h
      cases hdone
      exact (hr.bindArgument (hactuals actual List.mem_cons_self) hrun).1
  | bindCall id args span =>
      obtain ⟨result, r₁, hrun, hdone⟩ := bind_run.mp h
      cases hdone
      exact hr.bindCall hactuals hrun
  | instantiate declared span =>
      obtain ⟨id, r₁, hrun, hdone⟩ := bind_run.mp h
      cases hdone
      exact hr.instantiate hrun
  | instantiateSignature id =>
      obtain ⟨result, r₁, hrun, hdone⟩ := bind_run.mp h
      cases hdone
      exact hr.instantiateSignature hrun

/-- Calls one after the other do the same over the other store. -/
theorem calls_commute (hstore : store.Veils store') {calls : List Call}
    (hr : r.Above store) (hcalls : Concretely calls r)
    (hfunction : ∀ call ∈ calls, ∀ id ∈ call.function?,
      store'.graph.signature? id = store.graph.signature? id) :
    Commutes (Resolution.over store') (calls.mapM Call.ask) r := by
  induction calls generalizing r with
  | nil => exact .pure _
  | cons call calls ih =>
      rw [List.forall_mem_cons] at hfunction
      have hactuals : ∀ a ∈ call.actuals, r.types.graph.Concrete a :=
        fun a ha => .of_containsMarker (hcalls.1 a ha)
      rw [List.mapM_cons]
      refine (Call.ask_commutes hstore hr hactuals hfunction.1).bind
        fun reply r' hask => ?_
      have hrest := hcalls.2
      rw [hask] at hrest
      refine (ih (hr.ask hactuals hask) hrest hfunction.2).bind
        fun _ _ _ => ?_
      exact .pure _

/-- Sessions over stores that differ in witnesses are the same, if the
witnesses are not among those that are looked at: every call gives back
the same, or the session ends in the same fault, and what is left behind
differs in the store below only. The bindings, the diagnostics, the
events and the types that were added are the same. -/
theorem session_over (config : Config) (listening : Bool)
    {store store' : Store} (hg : store.graph.WellFormed)
    (hveils : store.graph.Veils store'.graph)
    (hdiscreet : store.graph.Discreet store'.graph) {calls : List Call}
    (hcalls : Concretely calls (begin .structural config store listening))
    (hfunction : ∀ call ∈ calls, ∀ id ∈ call.function?,
      store'.graph.signature? id = store.graph.signature? id) :
    calls.mapM Call.ask (begin .structural config store' listening)
      = mapState (Resolution.over store')
          (calls.mapM Call.ask
            (begin .structural config store listening)) := by
  have hstore : store.Veils store' := ⟨hg.closed, hveils, hdiscreet⟩
  have hstart := begin_above config listening hg
  exact calls_commute hstore hstart hcalls hfunction

/-- A parameter with some witness (21), it or nil (22), an array of it
(23), a function of both (24), and types of arguments for it (25,
26). -/
def padded (witness : Kind) : Store where
  graph := ⟨Graph.builtin.nodes ++ #[
    .marker "T" ⟨1⟩ witness,
    .anonymous (.union [⟨21⟩, .nil]),
    .anonymous (.array ⟨21⟩),
    .anonymous (.function { params := [⟨22⟩, ⟨23⟩], result := ⟨23⟩ }),
    .anonymous (.union [.int, .nil]),
    .anonymous (.tuple [.int, .string] none)]⟩

/-- A call with an integer or nil and a tuple; then the array of the
parameter, and the function, are instantiated. -/
def paddedCalls : List Call :=
  [.bindCall ⟨24⟩ [⟨25⟩, ⟨26⟩] .null, .instantiate ⟨23⟩ .null,
    .instantiateSignature ⟨24⟩]

/-- Whether the witness is nil or anydata, the session binds the
parameter, reports that the arguments do not agree, and gives back the
same types. -/
theorem padded_session_over :
    (padded (.leaf .nil)).graph.WellFormed ∧
    (padded (.leaf .nil)).graph.Veils (padded (.leaf .anydata)).graph ∧
    ∃ replies r,
      paddedCalls.mapM Call.ask
        (begin .structural .default (padded (.leaf .nil)) true)
        = .ok replies r ∧
      r.env.entries ≠ [] ∧ r.diagnostics ≠ [] ∧ r.types.fresh ≠ #[] ∧
      paddedCalls.mapM Call.ask
        (begin .structural .default (padded (.leaf .anydata)) true)
        = .ok replies (r.over (padded (.leaf .anydata))) := by
  have hg : (padded (.leaf .nil)).graph.WellFormed := by decide
  have hveils : (padded (.leaf .nil)).graph.Veils
      (padded (.leaf .anydata)).graph := by decide
  have hdiscreet : (padded (.leaf .nil)).graph.Discreet
      (padded (.leaf .anydata)).graph := by decide +kernel
  have hcalls : Concretely paddedCalls
      (begin .structural .default (padded (.leaf .nil)) true) := by
    decide +kernel
  have hfunction : ∀ call ∈ paddedCalls, ∀ id ∈ call.function?,
      (padded (.leaf .anydata)).graph.signature? id
        = (padded (.leaf .nil)).graph.signature? id := by decide +kernel
  have hdecided : (match paddedCalls.mapM Call.ask
      (begin .structural .default (padded (.leaf .nil)) true) with
    | .ok _ r => decide (r.env.entries ≠ [] ∧ r.diagnostics ≠ [] ∧
        r.types.fresh ≠ #[])
    | .error _ _ => false) = true := by decide +kernel
  have hsame := session_over .default true hg hveils hdiscreet hcalls
    hfunction
  cases hrun : paddedCalls.mapM Call.ask
      (begin .structural .default (padded (.leaf .nil)) true) with
  | error fault r =>
      rw [hrun] at hdecided
      cases hdecided
  | ok replies r =>
      rw [hrun] at hdecided hsame
      obtain ⟨henv, hdiags, hfresh⟩ := of_decide_eq_true hdecided
      exact ⟨hg, hveils, replies, r, rfl, henv, hdiags, hfresh, hsame⟩

/-- Witnesses that are neither nil nor functions are never seen. -/
theorem session_over_plain (config : Config) (listening : Bool)
    {store store' : Store} (hg : store.graph.WellFormed)
    (hveils : store.graph.Veils store'.graph)
    (hplain : store.graph.PlainWitnesses)
    (hplain' : store'.graph.PlainWitnesses) {calls : List Call}
    (hcalls :
      Concretely calls (begin .structural config store listening)) :
    calls.mapM Call.ask (begin .structural config store' listening)
      = mapState (Resolution.over store')
          (calls.mapM Call.ask
            (begin .structural config store listening)) := by
  have hdiscreet := hveils.discreet hplain hplain'
  refine calls_commute ⟨hg.closed, hveils, hdiscreet⟩
    (begin_above config listening hg) hcalls ?_
  exact fun _ _ id _ => hveils.signature?_eq hplain hplain' id

/-- A parameter with some witness (21), nil or the parameter (22), and
an integer or nil (23). -/
def fallback (witness : Kind) : Store where
  graph := ⟨Graph.builtin.nodes ++ #[
    .marker "T" ⟨1⟩ witness,
    .anonymous (.union [.nil, ⟨21⟩]),
    .anonymous (.union [.int, .nil])]⟩

/-- What the parameter is bound to by an argument that is an integer or
nil. -/
def fallbackBindings (witness : Kind) : List Binding :=
  match bindArgument ⟨22⟩ ⟨23⟩ .null
      (begin .structural .default (fallback witness) false) with
  | .ok () r => r.env.entries
  | .error _ _ => []

/-- The stores differ in one witness, and the argument is concrete. But a
parameter that has nil for a witness is taken for nil, and is bound to
nothing. -/
theorem nil_witness_seen :
    (fallback (.leaf .anydata)).graph.WellFormed ∧
    (fallback (.leaf .nil)).graph.WellFormed ∧
    (fallback (.leaf .anydata)).graph.Veils
      (fallback (.leaf .nil)).graph ∧
    Concretely [.bindArgument ⟨22⟩ ⟨23⟩ .null]
      (begin .structural .default (fallback (.leaf .anydata)) false) ∧
    fallbackBindings (.leaf .anydata)
      = [⟨⟨⟨1⟩, "T"⟩, ⟨21⟩, .int⟩] ∧
    fallbackBindings (.leaf .nil) = [] := by
  refine ⟨by decide, by decide, by decide, ?_, ?_, ?_⟩
  · decide +kernel
  · decide +kernel
  · decide +kernel

end Resolution

end TypeParams
