/-
Resolving a call never leaves a parameter behind.

As long as every argument of a resolution is of a concrete type, one
that no marker can be reached from, parameters are bound to concrete
types only, and what a declared type is instantiated to is concrete
(`run_concrete`).

# The invariant

The invariant is `Resolution.Concrete`. Besides the bound types it
speaks of the graph, which has to stay closed for the walks to come and
has to have names for all its markers: a marker without a name is known
by nothing and would be left standing. Each call keeps it. For arguments
the reason is that matching draws on the actual type only; for
instantiation, that everything it adds is no marker.

# The result of an instantiation

The result of an instantiation is concrete if no type was left as it is
at the last level, and the graph stays in order even then. So the two
halves are stated apart: the invariant is kept by every call, and what a
call gives back is concrete if no warning about the depth was added in
between (`Resolution.WithinLimit`), which can be read off the log.

Nothing is asked of declared types. They may mention parameters that
were never bound, and these are replaced by the missing type, which is
concrete as well.
-/
import TypeParams.Proofs.Instantiation.Additions
import TypeParams.Proofs.Matching.Additions

namespace TypeParams

namespace Graph

variable {g g' : Graph} {id : TypeId}

/-- The type is there and no marker can be reached from it. -/
def Concrete (g : Graph) (id : TypeId) : Prop :=
  id.index < g.size ∧ g.MarkerFree id

/-- A type in which the search finds no marker is concrete. -/
theorem Concrete.of_containsMarker (h : g.containsMarker id = .ok false) :
    g.Concrete id := by
  refine ⟨?_, markerFree_of_containsMarker h⟩
  cases hn : g.node? id with
  | none =>
      unfold containsMarker at h
      rw [containsMarkerFrom] at h
      split at h
      next => cases h
      next hn' =>
        rw [hn] at hn'
        cases hn'
  | some node => exact index_lt_of_node? hn

/-- In a concrete type of a closed graph it finds none. -/
theorem Concrete.containsMarker (h : g.Concrete id) (hg : g.Closed) :
    g.containsMarker id = .ok false :=
  (containsMarker_eq_false_iff hg.closedOn h.1).mpr h.2

/-- The concrete types of a closed graph are a closed set. -/
theorem Closed.closedOn_concrete (hg : g.Closed) :
    g.ClosedOn g.Concrete := by
  intro a ha
  obtain ⟨node, hn, hc⟩ := hg.closedOn a ha.1
  exact ⟨node, hn, fun c hmem => ⟨hc c hmem, ha.2.child hn hmem⟩⟩

/-- A concrete type stays concrete as the graph grows. -/
theorem Concrete.extends (h : g.Concrete id) (hg : g.Closed)
    (hgg' : g.Extends g') : g'.Concrete id :=
  ⟨hgg'.lt h.1, h.2.extends hg.closedOn hgg' h.1⟩

/-- The builtin types are concrete. -/
theorem WellFormed.builtin_concrete (hg : g.WellFormed)
    (h : id.isBuiltin = true) : g.Concrete id :=
  ⟨hg.builtin_lt h, hg.builtin_markerFree h⟩

/-- What is made of concrete types is concrete. -/
theorem Adds.concrete (hg : g.Closed) (h : Adds g g.Concrete g')
    (hid : Admits g g.Concrete g' id) : g'.Concrete id :=
  ⟨(h.closedOn hg.closedOn_concrete).lt hid,
    h.markerFree hg.closedOn_concrete (fun _ ha => ha.2) hid⟩

end Graph

namespace Resolution

open TypeParams.Graph (Adds Admits)

variable {r r' : Resolution}

/-- The graph is in order, and parameters are bound to concrete
types. -/
structure Concrete (r : Resolution) : Prop where
  graph : r.types.graph.WellFormed
  named : r.types.graph.MarkersNamed
  bound : ∀ b ∈ r.env.entries, r.types.graph.Concrete b.bound

/-- What a parameter is bound to is concrete. -/
theorem Concrete.lookup? (h : r.Concrete) {key : MarkerKey} {b : TypeId}
    (hb : r.env.lookup? key = some b) : r.types.graph.Concrete b := by
  obtain ⟨binding, hfind, rfl⟩ := Option.map_eq_some_iff.mp hb
  exact h.bound binding (List.mem_of_find?_eq_some hfind)

-- ============================================================= arguments

/-- Matching an argument of a concrete type makes use of concrete types
only. -/
theorem matchArgument_within (hg : r.types.graph.WellFormed)
    (hbound : ∀ b ∈ r.env.entries, r.types.graph.Concrete b.bound)
    {declared actual : TypeId} {span : Span}
    (hactual : r.types.graph.Concrete actual)
    (h : matchArgument declared actual span r = .ok () r') :
    r'.matching.Within r.types.graph r.types.graph.Concrete ∧
      r.types.graph.Extends r'.types.graph := by
  obtain ⟨s, hrun, rfl⟩ := matchArgument_eq_ok.mp h
  have hstart : r.matching.Within r.types.graph r.types.graph.Concrete :=
    ⟨.refl _ _, fun b hb => .inl (hbound b hb)⟩
  obtain ⟨hwithin, hext⟩ := Matching.Matches.stays
    hg.closed.closedOn_concrete (fun id hid => hg.builtin_concrete hid)
    ⟨_, hrun⟩ hstart (.inl hactual)
  exact ⟨⟨hwithin.adds, hwithin.bound⟩, hext⟩

/-- A matched argument of a concrete type keeps the invariant. -/
theorem Concrete.matchArgument (hr : r.Concrete)
    {declared actual : TypeId} {span : Span}
    (hactual : r.types.graph.Concrete actual)
    (h : matchArgument declared actual span r = .ok () r') :
    r'.Concrete ∧ r.types.graph.Extends r'.types.graph := by
  obtain ⟨hwithin, hext⟩ :=
    matchArgument_within hr.graph hr.bound hactual h
  refine ⟨⟨?_, ?_, ?_⟩, hext⟩
  · exact hwithin.adds.wellFormed hr.graph.closed.closedOn_concrete
      hr.graph
  · exact hwithin.adds.markersNamed hr.named
  · intro b hb
    exact hwithin.adds.concrete hr.graph.closed (hwithin.bound b hb)

/-- So does a bound one. -/
theorem Concrete.bindArgument (hr : r.Concrete)
    {declared actual : TypeId} {span : Span}
    (hactual : r.types.graph.Concrete actual)
    (h : bindArgument declared actual span r = .ok () r') :
    r'.Concrete ∧ r.types.graph.Extends r'.types.graph := by
  rcases bindArgument_eq_ok.mp h with ⟨-, rfl⟩ | ⟨-, hmatch⟩
  · exact ⟨hr, .refl _⟩
  · exact hr.matchArgument hactual hmatch

/-- The arguments of a call, one after the other. -/
theorem Concrete.bindArguments {span : Span}
    {pairs : List (TypeId × TypeId)}
    (h : Sweeps (fun pair r r' =>
      Resolution.bindArgument pair.1 pair.2 span r = .ok () r') pairs r r')
    (hr : r.Concrete)
    (hactual : ∀ pair ∈ pairs, r.types.graph.Concrete pair.2) :
    r'.Concrete := by
  induction h with
  | nil => exact hr
  | cons hturn _ ih =>
      rw [List.forall_mem_cons] at hactual
      obtain ⟨hr₁, hext⟩ := hr.bindArgument hactual.1 hturn
      refine ih hr₁ fun pair hpair => ?_
      exact (hactual.2 pair hpair).extends hr.graph.closed hext

/-- Each parameter meets an argument, or no type. -/
theorem snd_argumentPairs (signature : Signature) (args : List TypeId) :
    ∀ pair ∈ signature.argumentPairs args,
      pair.2 ∈ args ∨ pair.2 = .noType := by
  intro pair hpair
  unfold Signature.argumentPairs at hpair
  rcases List.mem_append.mp hpair with hpair | hpair
  · rcases List.mem_append.mp hpair with hpair | hpair
    · exact .inl (List.of_mem_zip hpair).2
    · obtain ⟨param, -, rfl⟩ := List.mem_map.mp hpair
      exact .inr rfl
  · obtain ⟨rest, -, hpair⟩ := List.mem_flatMap.mp hpair
    obtain ⟨arg, harg, rfl⟩ := List.mem_map.mp hpair
    exact .inl (List.mem_of_mem_drop harg)

/-- So does a call with concrete arguments. -/
theorem Concrete.bindCall (hr : r.Concrete) {id : TypeId}
    {args : List TypeId} {span : Span} {result : Except Error Unit}
    (hargs : ∀ a ∈ args, r.types.graph.Concrete a)
    (h : bindCall id args span r = .ok result r') : r'.Concrete := by
  rcases bindCall_run h with
    rfl | ⟨signature, r₁, work, -, hsweep, htell, rfl⟩
  · exact hr
  · have hr₁ : r₁.Concrete := by
      refine .bindArguments hsweep hr fun pair hpair => ?_
      rcases snd_argumentPairs signature args pair hpair with hmem | hnone
      · exact hargs _ hmem
      · rw [hnone]
        exact hr.graph.builtin_concrete rfl
    obtain ⟨-, events, rfl⟩ := htell
    exact ⟨hr₁.graph, hr₁.named, hr₁.bound⟩

-- ========================================================= instantiation

/-- What an instantiation adds is made of types of any set that has the
bound types and those that stand for themselves. -/
theorem instantiate_builds (hg : r.types.graph.Closed)
    {T : TypeId → Prop}
    (hbound : ∀ key b, r.env.lookup? key = some b → T b)
    (hnone : T .noType)
    (hself : ∀ d node, r.types.graph.node? d = some node →
      node.markerKey? = none →
      Instantiation.StandsForItself r.types.graph d node → T d)
    {declared id : TypeId} (hd : declared.index < r.types.graph.size)
    {span : Span} (h : instantiate declared span r = .ok id r')
    (hleft : r.WithinLimit r' ∨ ∀ a node,
      r.types.graph.node? a = some node → node.markerKey? = none → T a) :
    Adds r.types.graph T r'.types.graph ∧
      Admits r.types.graph T r'.types.graph id := by
  obtain ⟨s, hrun, rfl⟩ := instantiate_run h
  have htidy := r.instantiation_tidy
  refine hrun.builds hg hbound hnone hself htidy ?_ (.refl _ _) hd ?_
  · intro f hf
    cases hf
  · exact hleft.imp_left fun hlimit =>
      hlimit.limitReported (hrun.grows htidy).records

/-- An instantiation over types that are there adds types made of them,
even where types were left as they are at the last level. -/
theorem instantiate_adds (hg : r.types.graph.WellFormed)
    (hbound : ∀ key b, r.env.lookup? key = some b →
      b.index < r.types.graph.size) {declared id : TypeId} {span : Span}
    (h : instantiate declared span r = .ok id r') :
    Adds r.types.graph (·.index < r.types.graph.size) r'.types.graph ∧
      Admits r.types.graph (·.index < r.types.graph.size)
        r'.types.graph id :=
  instantiate_builds hg.closed hbound (hg.builtin_lt rfl)
    (fun _ _ hn _ _ => Graph.index_lt_of_node? hn)
    (instantiate_lt h) h (.inr fun _ _ hn _ => Graph.index_lt_of_node? hn)

/-- Instantiating any type keeps the invariant. -/
theorem Concrete.instantiate (hr : r.Concrete) {declared id : TypeId}
    {span : Span} (h : instantiate declared span r = .ok id r') :
    r'.Concrete := by
  have hg := hr.graph.closed
  obtain ⟨hadds, -⟩ :=
    instantiate_adds hr.graph (fun _ _ hb => (hr.lookup? hb).1) h
  obtain ⟨henv, hext⟩ := instantiate_grows h
  refine ⟨?_, ?_, ?_⟩
  · exact hadds.wellFormed hg.closedOn hr.graph
  · exact hadds.markersNamed hr.named
  · rw [henv]
    exact fun b hb => (hr.bound b hb).extends hg hext

/-- A type that stands for itself and is no marker is concrete. -/
theorem Concrete.standsForItself (hr : r.Concrete) {d : TypeId}
    {node : Node} (hn : r.types.graph.node? d = some node)
    (hkey : node.markerKey? = none)
    (hself : Instantiation.StandsForItself r.types.graph d node) :
    r.types.graph.Concrete d := by
  rcases hself with hleaf | ⟨rfl, -⟩ | ⟨-, hfree⟩
  · have hunmarked : node.isMarker = false :=
      Node.unmarked_of_named hkey
        (hr.named node (Graph.mem_nodes_of_node? hn))
    refine ⟨Graph.index_lt_of_node? hn, .of_children hn hunmarked ?_⟩
    intro c hc
    rw [Kind.children_of_isLeaf hleaf] at hc
    cases hc
  · exact hr.graph.builtin_concrete rfl
  · exact ⟨Graph.index_lt_of_node? hn, hfree⟩

/-- Within the limit, what a type is instantiated to is concrete. -/
theorem Concrete.instantiated (hr : r.Concrete) {declared id : TypeId}
    {span : Span} (h : Resolution.instantiate declared span r = .ok id r')
    (hlimit : r.WithinLimit r') : r'.types.graph.Concrete id := by
  have hg := hr.graph.closed
  obtain ⟨hadds, hid⟩ := instantiate_builds hg
    (T := r.types.graph.Concrete) (fun _ _ hb => hr.lookup? hb)
    (hr.graph.builtin_concrete rfl)
    (fun _ _ hn hkey hself => hr.standsForItself hn hkey hself)
    (instantiate_lt h) h (.inl hlimit)
  exact hadds.concrete hg hid

/-- So does instantiating a signature. -/
theorem Concrete.instantiateSignature (hr : r.Concrete) {id : TypeId}
    {result : Except Error TypeId}
    (h : instantiateSignature id r = .ok result r') : r'.Concrete := by
  obtain ⟨found, r₁, hfound, hrest⟩ := bind_run.mp h
  cases signature_run hfound
  cases found with
  | error error =>
      cases hrest
      exact hr
  | ok signature =>
      obtain ⟨y, r₁, hinst, hrest⟩ := bind_run.mp hrest
      cases hrest
      exact hr.instantiate hinst

-- ================================================================== runs

/-- The types of the arguments that a call is given. -/
def Call.actuals : Call → List TypeId
  | .bindArgument _ actual _ => [actual]
  | .bindCall _ args _ => args
  | .instantiate _ _ | .instantiateSignature _ => []

/-- Calls one after the other, none of which is given a type with a
marker. -/
inductive ConcreteRun (start : Resolution) : Resolution → Prop where
  | refl : ConcreteRun start start
  | call {r r' : Resolution} (call : Call) : ConcreteRun start r →
      (∀ a ∈ call.actuals, r.types.graph.containsMarker a = .ok false) →
      call.perform r = .ok () r' → ConcreteRun start r'

/-- Every call keeps the invariant. -/
theorem Concrete.call (hr : r.Concrete) {call : Call}
    (hactuals : ∀ a ∈ call.actuals, r.types.graph.Concrete a)
    (h : call.perform r = .ok () r') : r'.Concrete := by
  cases call with
  | bindArgument declared actual span =>
      exact (hr.bindArgument (hactuals actual List.mem_cons_self) h).1
  | bindCall id args span =>
      obtain ⟨result, r₁, hrun, hdone⟩ := bind_run.mp h
      cases hdone
      exact hr.bindCall hactuals hrun
  | instantiate declared span =>
      obtain ⟨id, r₁, hrun, hdone⟩ := bind_run.mp h
      cases hdone
      exact hr.instantiate hrun
  | instantiateSignature id =>
      obtain ⟨result, r₁, hrun, hdone⟩ := bind_run.mp h
      cases hdone
      exact hr.instantiateSignature hrun

/-- Whatever is called keeps the invariant. -/
theorem Concrete.run {start : Resolution} (hstart : start.Concrete)
    (h : ConcreteRun start r) : r.Concrete := by
  induction h with
  | refl => exact hstart
  | call call _ hactuals hperform ih =>
      exact ih.call (fun a ha => .of_containsMarker (hactuals a ha))
        hperform

/-- A resolution begins with nothing bound. -/
theorem begin_concrete (checker : Checker) (config : Config)
    {store : Store} (listening : Bool) (hg : store.graph.WellFormed)
    (hnamed : store.graph.MarkersNamed) :
    (begin checker config store listening).Concrete := by
  have hgraph : (begin checker config store listening).types.graph
      = store.graph := Layer.graph_on store
  refine ⟨?_, ?_, ?_⟩
  · rw [hgraph]
    exact hg
  · rw [hgraph]
    exact hnamed
  · intro b hb
    cases hb

/-- Resolving a call leaves no parameter behind. Over types all markers
of which have names, and however often arguments of concrete types were
bound and types instantiated: no parameter is bound to a type with a
marker, and every declared type can be instantiated, within the limit to
a type without markers. -/
theorem run_concrete (checker : Checker) (config : Config) (store : Store)
    (listening : Bool) (hg : store.graph.WellFormed)
    (hnamed : store.graph.MarkersNamed) {r : Resolution}
    (hrun : ConcreteRun (begin checker config store listening) r) :
    (∀ b ∈ r.env.entries,
      r.types.graph.containsMarker b.bound = .ok false) ∧
    ∀ d span, d.index < r.types.graph.size →
      ∃ id r', instantiate d span r = .ok id r' ∧
        (r.WithinLimit r' →
          r'.types.graph.containsMarker id = .ok false) := by
  have hr : r.Concrete :=
    (begin_concrete checker config listening hg hnamed).run hrun
  refine ⟨fun b hb => (hr.bound b hb).containsMarker hr.graph.closed, ?_⟩
  intro d span hd
  obtain ⟨id, r', hinst⟩ :=
    instantiate_succeeds hr.graph.closed.closedOn hd span
  refine ⟨id, r', hinst, fun hlimit => ?_⟩
  exact (hr.instantiated hinst hlimit).containsMarker
    (hr.instantiate hinst).graph.closed

/-- A parameter (21), an array of it (22), a chain of records of its type
(23, 24), a function from the array to the chain (25), and a pair that
is no array (26). -/
def paged : Store where
  graph := ⟨Graph.builtin.nodes ++ #[
    .marker "T" ⟨1⟩ (.leaf .anydata),
    .anonymous (.array ⟨21⟩),
    .named "Page" ⟨1⟩ (.record {
      fields := [{ name := "items", type := ⟨22⟩ },
        { name := "next", type := ⟨24⟩ }]
      isSealed := true }),
    .anonymous (.union [⟨23⟩, .nil]),
    .anonymous (.function { params := [⟨22⟩], result := ⟨23⟩ }),
    .anonymous (.tuple [.int, .string] none)]⟩

/-- The pair makes the parameter a new union, and with that the function
type is instantiated to one without markers. -/
theorem paged_concrete :
    paged.graph.WellFormed ∧ paged.graph.MarkersNamed ∧
      ∃ r, ConcreteRun (begin .structural .default paged false) r ∧
        r.env.entries ≠ [] ∧
        (∀ b ∈ r.env.entries,
          r.types.graph.containsMarker b.bound = .ok false) ∧
        ∃ id r', instantiate ⟨25⟩ .null r = .ok id r' ∧
          r.WithinLimit r' ∧
          r'.types.graph.containsMarker id = .ok false := by
  have hg : paged.graph.WellFormed := by decide
  have hnamed : paged.graph.MarkersNamed := by decide
  have hdecided :
      (match (Call.bindCall ⟨25⟩ [⟨26⟩] .null).perform
          (begin .structural .default paged false) with
      | .ok _ r => decide (r.env.entries ≠ [] ∧ 25 < r.types.graph.size) &&
          match instantiate ⟨25⟩ .null r with
          | .ok _ r' => decide (r.WithinLimit r')
          | .error _ _ => false
      | .error _ _ => false) = true := by decide +kernel
  cases hperform : (Call.bindCall ⟨25⟩ [⟨26⟩] .null).perform
      (begin .structural .default paged false) with
  | error fault r =>
      rw [hperform] at hdecided
      cases hdecided
  | ok u r =>
      rw [hperform] at hdecided
      obtain ⟨hr, hinst⟩ := Bool.and_eq_true_iff.mp hdecided
      obtain ⟨henv, hd⟩ := of_decide_eq_true hr
      have hconcrete : (begin .structural .default paged
          false).types.graph.containsMarker ⟨26⟩ = .ok false := by
        decide +kernel
      have hrun : ConcreteRun (begin .structural .default paged false) r :=
        .call _ .refl (by simpa [Call.actuals] using hconcrete) hperform
      obtain ⟨hbound, hall⟩ :=
        run_concrete .structural .default paged false hg hnamed hrun
      obtain ⟨id, r', hrun', hid⟩ := hall ⟨25⟩ .null hd
      rw [hrun'] at hinst
      have hlimit : r.WithinLimit r' := of_decide_eq_true hinst
      exact ⟨hg, hnamed, r, hrun, henv, hbound, id, r', hrun', hlimit,
        hid hlimit⟩

end Resolution

end TypeParams
