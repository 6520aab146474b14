/-
What a resolution makes can be added to its store for good.

# The invariant

A resolution stands on a store that does not change, its graph is
closed, and no id is reserved (`Resolution.InOrder`). Each call keeps all
this, if it is about types that are there: a match draws on types that
are there and adds types made of them, and an instantiation defines every
id that it hands out (`Instantiation.State.Owes`). Defining such an id
never fails, so the alarm about a cycle that could not be closed is never
told.

# Calls that come to an end

No call about types that are there looks up an id without a node. One
fault is left, that of a union among its own members, and only binding
arguments may end in it (`InOrder.call`). If there is no such union in
the store then there is none later, since neither a match
(`Graph.Stacks`) nor an instantiation (`instantiate_unlooped`) adds one,
and so every call has a result.

# Committing

Since no id is left without its node, nothing is left to do when the
resolution is finished: its nodes are put at the end of the store, where
each has the id it had before.
-/
import TypeParams.Proofs.Bindings
import TypeParams.Proofs.Concrete
import TypeParams.Proofs.Instantiation.Loops
import TypeParams.Proofs.Instantiation.Slots
import TypeParams.Proofs.Matching.Totality

namespace TypeParams

/-- Committing the nodes of a layer to the store below it shows what the
layer showed. -/
theorem Layer.commit_detach (layer : Layer) :
    ∃ commit, layer.base.commit layer.detach = .ok commit ∧
      commit.store = { layer.base with graph := layer.graph } := by
  unfold Store.commit
  rw [if_pos (show layer.detach.baseSize = layer.base.size from rfl)]
  exact ⟨_, rfl, rfl⟩

namespace Resolution

open TypeParams.Workspace (Keeps)

variable {store : Store} {r r' : Resolution}

-- =========================================================== in order

/-- The resolution stands on the store, has a graph of types with no id
reserved, binds parameters to types that are there, and has told no
alarm. -/
structure InOrder (store : Store) (r : Resolution) : Prop where
  checker : r.checker.Total
  base : r.types.base = store
  pending : r.types.pending = []
  graph : r.types.graph.WellFormed
  bound : ∀ b ∈ r.env.entries, b.bound.index < r.types.graph.size
  calm : ∀ e ∈ r.journal.events, e.level ≠ .error

theorem begin_inOrder {checker : Checker} (hchecker : checker.Total)
    (config : Config) (listening : Bool) (hg : store.graph.WellFormed) :
    (begin checker config store listening).InOrder store where
  checker := hchecker
  base := rfl
  pending := rfl
  graph := by
    show (Layer.on store).graph.WellFormed
    rw [Layer.graph_on]
    exact hg
  bound b hb := nomatch hb
  calm e he := nomatch he

/-- A walk that keeps the layer and the order of its graph keeps the
resolution in order. -/
theorem InOrder.after (hr : r.InOrder store) {work : Workspace}
    {env : Bindings} (hkeeps : r.workspace.Keeps work)
    (hgraph : work.types.graph.WellFormed)
    (hbound : ∀ b ∈ env.entries, b.bound.index < work.types.graph.size) :
    InOrder store { r.withWork work with env } where
  checker := hr.checker
  base := hkeeps.base.trans hr.base
  pending := hkeeps.pending.trans hr.pending
  graph := hgraph
  bound := hbound
  calm := by
    obtain ⟨told, hevents, hcalm⟩ := hkeeps.calm
    show ∀ e ∈ work.journal.events, e.level ≠ .error
    rw [hevents, List.forall_mem_append]
    exact ⟨hr.calm, hcalm⟩

-- ============================================================= arguments

/-- An action about arguments ends as it should: in the fault of a union
among its own members, or with everything in order and some types put on
top. -/
structure Settles {α : Type} (store : Store) (r : Resolution)
    (action : ResolveM α) : Prop where
  ends : SucceedsOr r.types.graph.Endless action r
  leaves : ∀ a r', action r = .ok a r' →
    r'.InOrder store ∧ r.types.graph.Stacks r'.types.graph

namespace Settles

variable {α β : Type}

/-- An action that gives a result and changes nothing. -/
theorem of_run (hr : r.InOrder store) {action : ResolveM α} {a : α}
    (h : action r = .ok a r) : Settles store r action := by
  refine ⟨.inl ⟨a, r, h⟩, fun b r' hrun => ?_⟩
  rw [h] at hrun
  cases hrun
  exact ⟨hr, .refl _⟩

/-- One action after another. A union that is among its own members by
the second was so before the first. -/
theorem bind (hr : r.InOrder store) {action : ResolveM α}
    {next : α → ResolveM β} (h : Settles store r action)
    (hnext : ∀ a r₁, action r = .ok a r₁ → r₁.InOrder store →
      r.types.graph.Stacks r₁.types.graph → Settles store r₁ (next a)) :
    Settles store r (action >>= next) := by
  refine ⟨h.ends.bind fun a r₁ hrun => ?_, fun b r' hrun => ?_⟩
  · obtain ⟨hr₁, hstacks⟩ := h.leaves a r₁ hrun
    exact (hnext a r₁ hrun hr₁ hstacks).ends.mono
      fun _ => hstacks.endless hr.graph.closed
  · obtain ⟨a, r₁, hfirst, hrun⟩ := bind_run.mp hrun
    obtain ⟨hr₁, hstacks⟩ := h.leaves a r₁ hfirst
    obtain ⟨hr', hstacks'⟩ :=
      (hnext a r₁ hfirst hr₁ hstacks).leaves b r' hrun
    exact ⟨hr', hstacks.trans hstacks'⟩

end Settles

/-- A type that is there is matched with another that is. -/
theorem InOrder.matchArgument (hr : r.InOrder store)
    {declared actual : TypeId}
    (hdeclared : declared.index < r.types.graph.size)
    (hactual : actual.index < r.types.graph.size) (span : Span) :
    Settles store r (matchArgument declared actual span) := by
  have hready : r.matching.Ready := ⟨hr.graph, hr.bound⟩
  refine ⟨?_, fun _ r' hrun => ?_⟩
  · have hends : SucceedsOr r.types.graph.Endless (Matching.matchTypes
        ⟨r.checker, r.config, span⟩ r.config.maxDepth declared actual
        .covariant) r.matching :=
      Matching.matchTypes_endless hr.checker _ hready hdeclared hactual _
    rcases hends with ⟨⟨⟩, s, hrun⟩ | ⟨fault, s, hrun, hfault⟩
    · exact .inl ⟨(), _, matchArgument_eq_ok.mpr ⟨s, hrun, rfl⟩⟩
    · refine .inr ⟨fault, { r.withWork s.work with env := s.env }, ?_,
        hfault⟩
      rw [matchArgument_eq, hrun]
  · obtain ⟨s, hmatch, rfl⟩ := matchArgument_eq_ok.mp hrun
    have hmatches : Matching.Matches _ _ _ _ _ s := ⟨_, hmatch⟩
    obtain ⟨hs, -⟩ := hmatches.ready hready hactual
    exact ⟨hr.after hmatches.keeps hs.graph hs.bound,
      hmatches.stacks hready hactual⟩

/-- An argument is matched if its declared type mentions a parameter. -/
theorem InOrder.bindArgument (hr : r.InOrder store)
    {declared actual : TypeId}
    (hdeclared : declared.index < r.types.graph.size)
    (hactual : actual.index < r.types.graph.size) (span : Span) :
    Settles store r (bindArgument declared actual span) := by
  obtain ⟨marked, hmarked, -⟩ :=
    Graph.containsMarker_answers hr.graph.closed.closedOn hdeclared
  have hscan : onWork (.inspect (·.containsMarker declared)) r
      = .ok marked r :=
    onWork_run.mpr ⟨_, WorkM.inspect_run.mpr ⟨hmarked, rfl⟩, rfl⟩
  refine Settles.bind hr (.of_run hr hscan) fun found r₁ hfound hr₁ _ => ?_
  rw [hscan] at hfound
  cases hfound
  cases marked with
  | false => exact .of_run hr rfl
  | true => exact hr.matchArgument hdeclared hactual span

/-- The arguments of a call, one after the other. -/
theorem InOrder.bindArguments (hr : r.InOrder store)
    {pairs : List (TypeId × TypeId)}
    (hpairs : ∀ pair ∈ pairs, pair.1.index < r.types.graph.size ∧
      pair.2.index < r.types.graph.size) (span : Span) :
    Settles store r (pairs.forM fun pair =>
      Resolution.bindArgument pair.1 pair.2 span) := by
  induction pairs generalizing r with
  | nil => exact .of_run hr rfl
  | cons pair pairs ih =>
      obtain ⟨hpair, hrest⟩ := List.forall_mem_cons.mp hpairs
      refine Settles.bind hr (hr.bindArgument hpair.1 hpair.2 span)
        fun _ r₁ _ hr₁ hstacks => ih hr₁ fun p hp => ?_
      exact ⟨hstacks.nodes.lt (hrest p hp).1,
        hstacks.nodes.lt (hrest p hp).2⟩

/-- Looking up the signature of a type that is there. -/
theorem signature_succeeds (hg : r.types.graph.Closed) {id : TypeId}
    (hid : id.index < r.types.graph.size) :
    ∃ result, signature id r = .ok result r := by
  obtain ⟨node, hn⟩ := Graph.exists_node_of_lt hid
  have hfound : Succeeds (signature id) r := by
    refine onWork_succeeds (Succeeds.bind
      ⟨node, _, WorkM.node_run.mpr ⟨hn, rfl⟩⟩ fun node' w hread => ?_)
    obtain ⟨-, rfl⟩ := WorkM.node_run.mp hread
    split
    · exact .pure _ _
    · exact (WorkM.inspect_succeeds (Graph.render_returns hg.closedOn
        hid)).bind fun _ _ _ => .pure _ _
  obtain ⟨result, r', h⟩ := hfound
  cases signature_run h
  exact ⟨result, h⟩

/-- Telling something changes no types. -/
theorem InOrder.tell (hr : r.InOrder store)
    {event : Graph → Except Fault Event} (hharmless : WorkM.Harmless event)
    (hreturns : Returns (event r.types.graph)) :
    Settles store r (onWork (.tell event)) := by
  refine ⟨.inl (onWork_succeeds (WorkM.tell_succeeds hreturns)), ?_⟩
  intro _ r' hrun
  obtain ⟨work, htell, rfl⟩ := onWork_run.mp hrun
  have htells := WorkM.tell_run hharmless htell
  have htypes : work.types = r.types := htells.types
  refine ⟨hr.after (.of_types htells.types htells.1) ?_ ?_, ?_⟩
  · rw [htypes]
    exact hr.graph
  · rw [htypes]
    exact hr.bound
  · show r.types.graph.Stacks work.types.graph
    rw [htypes]
    exact .refl _

/-- All arguments of a call are bound, and those that are left over are
told. -/
theorem InOrder.bindCall (hr : r.InOrder store) {id : TypeId}
    {args : List TypeId} (hid : id.index < r.types.graph.size)
    (hargs : ∀ a ∈ args, a.index < r.types.graph.size) (span : Span) :
    Settles store r (bindCall id args span) := by
  rw [bindCall_eq]
  obtain ⟨found, hfound⟩ := signature_succeeds hr.graph.closed hid
  refine Settles.bind hr (.of_run hr hfound) fun found' r₁ hfound' _ _ => ?_
  rw [hfound] at hfound'
  cases hfound'
  cases found with
  | error error => exact .of_run hr rfl
  | ok signature =>
      obtain ⟨node, hn, hkind⟩ := signature_kind hfound
      have hparams := hr.graph.closed.closedOn.child hid hn
      rw [hkind] at hparams
      have hpairs : ∀ pair ∈ signature.argumentPairs args,
          pair.1.index < r.types.graph.size ∧
            pair.2.index < r.types.graph.size := by
        intro pair hpair
        refine ⟨hparams _ (fst_argumentPairs _ _ pair hpair), ?_⟩
        rcases snd_argumentPairs _ _ pair hpair with hmem | hnone
        · exact hargs _ hmem
        · rw [hnone]
          exact hr.graph.builtin_lt rfl
      change Settles store r (Resolution.bindArguments id signature args span)
      unfold Resolution.bindArguments
      refine Settles.bind hr (hr.bindArguments hpairs span)
        fun _ r₁ _ hr₁ hstacks => ?_
      by_cases hignored : 0 < signature.ignoredCount args
      · rw [if_pos hignored]
        refine Settles.bind hr₁ (hr₁.tell ?_ ?_)
          fun _ r₂ _ hr₂ _ => .of_run hr₂ rfl
        · intro g e he
          obtain ⟨_, -, he⟩ := bind_eq_ok.mp he
          cases pure_eq_ok.mp he
          simp [Event.level]
        · exact (Graph.render_returns hr₁.graph.closed.closedOn
            (hstacks.nodes.lt hid)).bind fun _ _ => .pure _
      · rw [if_neg hignored]
        exact .of_run hr₁ rfl

-- ========================================================= instantiation

theorem InOrder.lookup? (hr : r.InOrder store) {key : MarkerKey}
    {b : TypeId} (hb : r.env.lookup? key = some b) :
    b.index < r.types.graph.size := by
  obtain ⟨binding, hfind, rfl⟩ := Option.map_eq_some_iff.mp hb
  exact hr.bound binding (List.mem_of_find?_eq_some hfind)

/-- What is left behind where everything stays in order and no union has
become one of its own members. -/
structure Follows (store : Store) (r r' : Resolution) : Prop where
  inOrder : r'.InOrder store
  nodes : r.types.graph.Extends r'.types.graph
  unlooped : r.types.graph.Unlooped → r'.types.graph.Unlooped

/-- Types that were put on top of others make no such union. -/
theorem Settles.follows (hr : r.InOrder store) {α : Type}
    {action : ResolveM α} (h : Settles store r action) {a : α}
    (hrun : action r = .ok a r') : Follows store r r' := by
  obtain ⟨hr', hstacks⟩ := h.leaves a r' hrun
  exact ⟨hr', hstacks.nodes, hstacks.unlooped hr.graph.closed⟩

/-- A type that is there can be instantiated. -/
theorem InOrder.instantiate (hr : r.InOrder store) {declared : TypeId}
    (hdeclared : declared.index < r.types.graph.size) (span : Span) :
    ∃ id r', instantiate declared span r = .ok id r' ∧
      Follows store r r' := by
  have hclosed := hr.graph.closed.closedOn
  obtain ⟨id, r', hinst⟩ := instantiate_succeeds hclosed hdeclared span
  obtain ⟨hadds, -⟩ :=
    instantiate_adds hr.graph (fun _ _ hb => hr.lookup? hb) hinst
  obtain ⟨henv, hext⟩ := instantiate_grows hinst
  refine ⟨id, r', hinst, ?_, hext, fun hunlooped =>
    instantiate_unlooped hr.graph (fun _ _ hb => hr.lookup? hb) hunlooped
      hinst⟩
  obtain ⟨s, hrun, rfl⟩ := instantiate_run hinst
  obtain ⟨hbase, hpending⟩ := hrun.pending_perm rfl
  have hkeeps : r.workspace.Keeps s.work := by
    refine ⟨hbase, ?_, (hrun.grows r.instantiation_tidy).records.1⟩
    have hnone : r.instantiation.work.types.pending = [] := hr.pending
    rw [hnone] at hpending
    exact hpending.eq_nil.trans hnone.symm
  refine hr.after hkeeps (hadds.wellFormed hclosed hr.graph) ?_
  exact fun b hb => hext.lt (hr.bound b hb)

theorem InOrder.instantiateSignature (hr : r.InOrder store) {id : TypeId}
    (hid : id.index < r.types.graph.size) :
    ∃ result r', instantiateSignature id r = .ok result r' ∧
      Follows store r r' := by
  unfold Resolution.instantiateSignature
  obtain ⟨found, hfound⟩ := signature_succeeds hr.graph.closed hid
  rw [bind_of_run hfound]
  cases found with
  | error error => exact ⟨_, r, rfl, hr, .refl _, fun h => h⟩
  | ok signature =>
      obtain ⟨y, r', hinst, hfollows⟩ := hr.instantiate hid .null
      exact ⟨.ok y, r', bind_run.mpr ⟨y, r', hinst, rfl⟩, hfollows⟩

-- ================================================================== runs

/-- The types that a call is about. -/
def Call.ids : Call → List TypeId
  | .bindArgument declared actual _ => [declared, actual]
  | .bindCall id args _ => id :: args
  | .instantiate declared _ => [declared]
  | .instantiateSignature id => [id]

/-- A call about types that are there has a result and leaves everything
in order, or it ends in the fault of a union among its own members. -/
theorem InOrder.call (hr : r.InOrder store) {call : Call}
    (hids : ∀ id ∈ call.ids, id.index < r.types.graph.size) :
    SucceedsOr r.types.graph.Endless call.perform r ∧
      ∀ r', call.perform r = .ok () r' → Follows store r r' := by
  cases call with
  | bindArgument declared actual span =>
      have hsettles := hr.bindArgument (hids declared (by simp [Call.ids]))
        (hids actual (by simp [Call.ids])) span
      exact ⟨hsettles.ends, fun r' => hsettles.follows hr⟩
  | bindCall id args span =>
      obtain ⟨hid, hargs⟩ := List.forall_mem_cons.mp hids
      have hsettles : Settles store r (Call.bindCall id args span).perform :=
        Settles.bind hr (hr.bindCall hid hargs span)
          fun _ r₁ _ hr₁ _ => .of_run hr₁ rfl
      exact ⟨hsettles.ends, fun r' => hsettles.follows hr⟩
  | instantiate declared span =>
      obtain ⟨y, r₁, hinst, hfollows⟩ :=
        hr.instantiate (hids _ List.mem_cons_self) span
      have hperform : (Call.instantiate declared span).perform r
          = .ok () r₁ := bind_run.mpr ⟨y, r₁, hinst, rfl⟩
      refine ⟨.inl ⟨(), r₁, hperform⟩, fun r' hrun => ?_⟩
      rw [hperform] at hrun
      cases hrun
      exact hfollows
  | instantiateSignature id =>
      obtain ⟨result, r₁, hinst, hfollows⟩ :=
        hr.instantiateSignature (hids _ List.mem_cons_self)
      have hperform : (Call.instantiateSignature id).perform r
          = .ok () r₁ := bind_run.mpr ⟨result, r₁, hinst, rfl⟩
      refine ⟨.inl ⟨(), r₁, hperform⟩, fun r' hrun => ?_⟩
      rw [hperform] at hrun
      cases hrun
      exact hfollows

/-- Calls one after the other, each about types that are there by
then. -/
inductive ValidRun (start : Resolution) : Resolution → Prop where
  | refl : ValidRun start start
  | call {r r' : Resolution} (call : Call) : ValidRun start r →
      (∀ id ∈ call.ids, id.index < r.types.graph.size) →
      call.perform r = .ok () r' → ValidRun start r'

theorem InOrder.run {start : Resolution} (hstart : start.InOrder store)
    (h : ValidRun start r) : r.InOrder store := by
  induction h with
  | refl => exact hstart
  | call call _ hids hperform ih =>
      exact ((ih.call hids).2 _ hperform).inOrder

/-- No union becomes one of its own members in a run. -/
theorem InOrder.run_unlooped {start : Resolution}
    (hstart : start.InOrder store) (hunlooped : start.types.graph.Unlooped)
    (h : ValidRun start r) : r.types.graph.Unlooped := by
  induction h with
  | refl => exact hunlooped
  | call call hrun hids hperform ih =>
      exact (((hstart.run hrun).call hids).2 _ hperform).unlooped ih

/-- The store below a resolution and the nodes that it shows stay in
order. Over a closed graph, with a checker that answers about types that
are there, and after any calls about such types: the graph is closed, no
id is reserved, and no cycle could not be closed. Every further call
about types that are there leaves the nodes as they are, adding others
behind them. It has a result if no union of the store is among its own
members, and may otherwise end in the fault of such a union, but in no
other. What a marker is bound to can be asked. And the nodes that were
made can be committed to the store: every id then has the node it has
now, and the store passes its check if it did. -/
theorem run_commits (checker : Checker) (hchecker : checker.Total)
    (config : Config) (store : Store) (listening : Bool)
    (hg : store.graph.WellFormed) {r : Resolution}
    (hrun : ValidRun (begin checker config store listening) r) :
    (r.types.graph.Closed ∧ r.types.pending = [] ∧
      ∀ id error, Event.cycleNotClosed id error ∉ r.journal.events) ∧
    (∀ call : Call, (∀ id ∈ call.ids, id.index < r.types.graph.size) →
      (store.graph.Unlooped → Succeeds call.perform r) ∧
      SucceedsOr r.types.graph.Endless call.perform r ∧
      ∀ r', call.perform r = .ok () r' →
        r.types.graph.nodes.toList <+: r'.types.graph.nodes.toList) ∧
    (∀ marker : TypeId, marker.index < r.types.graph.size →
      Returns (r.boundType? marker)) ∧
    ∃ commit, store.commit r.finish.detached = .ok commit ∧
      (∀ id, commit.store.graph.node? id = r.types.node? id) ∧
      commit.store.validate = store.validate := by
  have hstart : (begin checker config store listening).InOrder store :=
    begin_inOrder hchecker config listening hg
  have hr : r.InOrder store := hstart.run hrun
  refine ⟨⟨hr.graph.closed, hr.pending, ?_⟩, ?_, ?_, ?_⟩
  · intro id error hmem
    exact hr.calm _ hmem rfl
  · intro call hids
    obtain ⟨hends, hfollows⟩ := hr.call hids
    refine ⟨fun hunlooped => ?_, hends, fun r' hperform => ?_⟩
    · -- the graph has grown since, without such unions coming up
      have hbegun : (begin checker config store
          listening).types.graph.Unlooped := by
        rw [show (begin checker config store listening).types.graph
          = store.graph from Layer.graph_on store]
        exact hunlooped
      exact hends.succeeds (hstart.run_unlooped hbegun hrun).not_endless
    · exact Graph.extends_iff_prefix.mp (hfollows r' hperform).nodes
  · intro marker hmarker
    unfold boundType?
    rw [← Layer.node_graph]
    exact (hr.graph.closed.closedOn.node_returns hmarker).bind
      fun _ _ => .pure _
  · obtain ⟨commit, hcommit, hstore⟩ := r.types.commit_detach
    rw [hr.base] at hcommit hstore
    refine ⟨commit, hcommit, fun id => ?_, ?_⟩
    · rw [hstore, ← Layer.node?_graph]
    · rw [hstore]
      rfl

/-- A pair for an array makes the parameter a new union, and the chain of
records is rebuilt around an id that was handed out for it. Nothing is
left open, and the store with the new types is as good as before. -/
theorem paged_commits :
    paged.graph.WellFormed ∧ paged.graph.Unlooped ∧
      ∃ r, ValidRun (begin .structural .default paged true) r ∧
        Event.cycleMet ⟨23⟩ ∈ r.journal.events ∧
        r.types.graph.Closed ∧ r.types.pending = [] ∧
        (∀ id error, Event.cycleNotClosed id error ∉ r.journal.events) ∧
        ∃ commit, paged.commit r.finish.detached = .ok commit ∧
          (∀ id, commit.store.graph.node? id = r.types.node? id) ∧
          commit.store.validate = .ok () := by
  have hg : paged.graph.WellFormed := by decide
  have hunlooped : paged.graph.Unlooped := .of_order (by decide)
  have hdecided :
      (match (Call.bindCall ⟨25⟩ [⟨26⟩] .null).perform
          (begin .structural .default paged true) with
      | .ok _ r => decide (25 < r.types.graph.size) &&
          match (Call.instantiateSignature ⟨25⟩).perform r with
          | .ok _ r' => decide (Event.cycleMet ⟨23⟩ ∈ r'.journal.events)
          | .error _ _ => false
      | .error _ _ => false) = true := by decide +kernel
  cases hbind : (Call.bindCall ⟨25⟩ [⟨26⟩] .null).perform
      (begin .structural .default paged true) with
  | error fault r =>
      rw [hbind] at hdecided
      cases hdecided
  | ok u r =>
      rw [hbind] at hdecided
      obtain ⟨hlt, hdecided⟩ := Bool.and_eq_true_iff.mp hdecided
      have hfirst : ValidRun (begin .structural .default paged true) r :=
        .call _ .refl (by decide) hbind
      obtain ⟨-, hcalls, -⟩ := run_commits .structural
        Checker.structural_total .default paged true hg hfirst
      obtain ⟨⟨⟩, r', hinst⟩ := (hcalls (.instantiateSignature ⟨25⟩)
        (by simpa [Call.ids] using hlt)).1 hunlooped
      rw [hinst] at hdecided
      have hrun : ValidRun (begin .structural .default paged true) r' :=
        .call _ hfirst (by simpa [Call.ids] using hlt) hinst
      obtain ⟨⟨hclosed, hpending, hcycles⟩, -, -, hcommit⟩ :=
        run_commits .structural Checker.structural_total .default paged
          true hg hrun
      exact ⟨hg, hunlooped, r', hrun, of_decide_eq_true hdecided, hclosed, hpending,
        hcycles, hcommit⟩

end Resolution

end TypeParams
