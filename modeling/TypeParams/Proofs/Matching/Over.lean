/-
A match over another store.

A match looks at the form of a declared type only after it has asked
whether the type is a marker, with the one exception that
`Graph.Discreet` is about. Actual types and bound types are concrete, so
nothing in them depends on a witness either. So a match does the same
over a store with other witnesses (`matchTypes_commutes`): it ends in
the same way, with the same types added, the same bindings and the same
reports.

# What is known all along

`State.AboveStore` is the invariant. The layer is `Above` its store
because whatever the match adds is made of concrete types. On concrete
types the two graphs agree (`State.AboveStore.agreement`), so plans and
comparisons are the same by what was shown for graphs that agree; only
the declared side needs the argument about witnesses.

# Levels

`Oblivious` is what is said of the levels below: given a concrete type,
they do the same over the other store. The declared type may be
anything, and an id without a node ends the match in the same fault over
both stores. A level is oblivious if the levels below are, one case for
each thing that it may find.
-/
import TypeParams.Proofs.Concrete
import TypeParams.Proofs.Matching.Agreement
import TypeParams.Proofs.Matching.Totality
import TypeParams.Proofs.Over

namespace TypeParams

open TypeParams.Graph (Adds Admits)

variable {g g' : Graph} {store store' : Store}

-- ========================================================== what is seen

/-- A concrete type is no named marker. -/
theorem Graph.Concrete.keyless {id : TypeId} (h : g.Concrete id) :
    g.Keyless id := by
  obtain ⟨node, hn⟩ := Graph.exists_node_of_lt h.1
  exact ⟨node, hn, Node.markerKey?_of_unmarked (h.2 id .refl node hn)⟩

/-- A type that is concrete in a larger graph is no named marker. -/
theorem Graph.Concrete.keyless_of_extends {id : TypeId}
    (h : g'.Concrete id) (hext : g.Extends g') (hid : id.index < g.size) :
    g.Keyless id := by
  obtain ⟨node, hn, hkey⟩ := h.keyless
  rw [hext.node?_eq hid] at hn
  exact ⟨node, hn, hkey⟩

namespace Matching

variable {ctx : Context} {g₀ : Graph} {s s' : State}

/-- The same state over another store. -/
def State.over (store : Store) (s : State) : State :=
  { s with work := s.work.over store }

/-- The state of a match of concrete types that started with a graph
above the store. -/
structure State.AboveStore (store : Store) (g₀ : Graph) (s : State) :
    Prop where
  base : s.work.types.base = store
  start : Adds store.graph store.graph.Keyless g₀
  graph : g₀.WellFormed
  within : s.Within g₀ g₀.Concrete

namespace State.AboveStore

variable (h : s.AboveStore store g₀)
include h

/-- The layer of the state is above its store. -/
theorem types : s.work.types.Above store where
  base := h.base
  adds := h.start.trans h.within.adds
    (fun _ hid hlt => hid.keyless_of_extends h.start.nodes hlt)
    fun _ hid => hid.1

/-- Concrete types are the same over the other store. -/
theorem agreement (hstore : store.Veils store') :
    s.graph.Agreement (Admits g₀ g₀.Concrete s.graph)
      (s.over store').graph where
  closed := h.within.adds.closedOn h.graph.closed.closedOn_concrete
  agrees id node hid hn := by
    have hkeyless := (h.within.adds.concrete h.graph.closed hid).keyless
    exact ((h.types.veils hstore).node?_of_keyless hkeyless).trans hn
  nil := .inl (h.graph.builtin_concrete rfl)
  anydata := .inl (h.graph.builtin_concrete rfl)

/-- Types are written alike over both stores. -/
theorem render_eq (hstore : store.Veils store') (id : TypeId) :
    (s.work.types.over store').graph.render id
      = s.work.types.graph.render id :=
  h.types.render_eq hstore id

/-- Only the workspace has changed, and not its types. -/
theorem of_types {work : Workspace} (htypes : work.types = s.work.types) :
    ({ s with work } : State).AboveStore store g₀ where
  base := by
    show work.types.base = store
    rw [htypes]
    exact h.base
  start := h.start
  graph := h.graph
  within := (h.within.of_types htypes).1

/-- A match stays above the store. -/
theorem matched {expected actual : TypeId} {variance : Variance}
    (hactual : Admits g₀ g₀.Concrete s.graph actual)
    (hrun : Matches ctx expected actual variance s s') :
    s'.AboveStore store g₀ ∧ s.graph.Extends s'.graph := by
  obtain ⟨hwithin, hext⟩ := hrun.stays h.graph.closed.closedOn_concrete
    (fun _ hid => h.graph.builtin_concrete hid) h.within hactual
  exact ⟨⟨hrun.keeps.base.trans h.base, h.start, h.graph, hwithin⟩, hext⟩

/-- So does making the actual type of a pairing. -/
theorem resolve {source : Source} {made : Option TypeId}
    {work : Workspace}
    (hids : ∀ id ∈ source.ids, Admits g₀ g₀.Concrete s.graph id)
    (hrun : source.resolve s.work = .ok made work) :
    ({ s with work } : State).AboveStore store g₀ ∧
      s.graph.Extends work.types.graph ∧
      ∀ a ∈ made, Admits g₀ g₀.Concrete work.types.graph a := by
  obtain ⟨hext, hadds, hmade⟩ := Source.resolve_adds
    h.graph.closed.closedOn_concrete (h.graph.builtin_concrete rfl)
    h.within.adds hids hrun
  have hwithin : ({ s with work } : State).Within g₀ g₀.Concrete :=
    ⟨hadds, fun b hb => (h.within.bound b hb).mono hext.size_le⟩
  have hbase := (Source.resolve_keeps hrun).base.trans h.base
  exact ⟨⟨hbase, h.start, h.graph, hwithin⟩, hext, hmade⟩

end State.AboveStore

-- ============================================================== markers

/-- The markers of a type are found alike. -/
theorem keyedMarkers_eq (hg : g.Veils g') (id : TypeId) :
    keyedMarkers g' id = keyedMarkers g id := by
  have hkey : ∀ marker, (g'.node? marker).bind (·.markerKey?)
      = (g.node? marker).bind (·.markerKey?) := by
    intro marker
    cases hn : g.node? marker with
    | none => rw [hg.node?_eq_none hn]
    | some node =>
        obtain ⟨node', hn', hnode⟩ := hg.node? hn
        rw [hn']
        exact hnode.markerKey?_eq
  unfold keyedMarkers
  simp only [hg.markers_eq, hkey]

/-- An action on the workspace, within a match. -/
theorem onWork_commutes {α : Type} {action : WorkM α}
    (h : Commutes (Workspace.over store') action s.work) :
    Commutes (State.over store') (onWork action) s := by
  have hsame : action (s.over store').work = _ := h
  unfold Commutes onWork
  rw [hsame]
  cases action s.work <;> rfl

/-- What a level does with a type that was not followed before depends
on the type's witness in no way. -/
theorem meet_eq
    {descend : Option (TypeId → TypeId → Variance → MatchM Unit)}
    {expected actual : TypeId} {variance : Variance} {node node' : Node}
    (hnode : node.Veils node') :
    meet ctx descend expected actual variance node'
      = meet ctx descend expected actual variance node := by
  unfold meet
  rw [hnode.markerKey?_eq]
  cases hkey : node.markerKey? with
  | some key => rfl
  | none => rw [hnode.2 hkey]

/-- What a level does that is given a concrete type is the same over the
other store, and stays above. -/
def Oblivious (store store' : Store) (g₀ : Graph)
    (descend : TypeId → TypeId → Variance → MatchM Unit) : Prop :=
  ∀ e a v s, s.AboveStore store g₀ → Admits g₀ g₀.Concrete s.graph a →
    Commutes (State.over store') (descend e a v) s ∧
    ∀ s', descend e a v s = .ok () s' →
      s'.AboveStore store g₀ ∧ s.graph.Extends s'.graph

section Levels

variable (hstore : store.Veils store')
include hstore

/-- A parameter that cannot be inferred is reported alike. -/
theorem reportUninferred_commutes (h : s.work.types.Above store)
    (marker : TypeId) :
    Commutes (State.over store') (reportUninferred ctx marker) s := by
  refine onWork_commutes (WorkM.report_commutes ?_)
  rw [h.render_eq hstore]

variable (hchecker : ctx.checker = .structural)

include hchecker in
/-- Bound types are compared alike. -/
theorem compatible_eq (h : s.AboveStore store g₀) {key : MarkerKey}
    {bound actual : TypeId} (hbound : s.env.lookup? key = some bound)
    (hactual : Admits g₀ g₀.Concrete s.graph actual)
    (variance : Variance) :
    ctx.compatible variance bound actual (s.work.types.over store').graph
      = ctx.compatible variance bound actual s.work.types.graph := by
  have hadmits : Admits g₀ g₀.Concrete s.graph bound := by
    obtain ⟨b, hb, rfl⟩ := Option.map_eq_some_iff.mp hbound
    exact h.within.bound b (List.mem_of_find?_eq_some hb)
  unfold Context.compatible
  rw [hchecker]
  cases variance with
  | covariant => exact (h.agreement hstore).assignable_eq hactual hadmits
  | contravariant => exact (h.agreement hstore).sameType_eq hadmits hactual

include hchecker in
/-- A marker whose parameter is bound is dealt with alike. -/
theorem meetBound_commutes (h : s.AboveStore store g₀) {key : MarkerKey}
    {bound actual : TypeId} (hbound : s.env.lookup? key = some bound)
    (hactual : Admits g₀ g₀.Concrete s.graph actual) (marker : TypeId)
    (variance : Variance) :
    Commutes (State.over store')
      (meetBound ctx marker key actual variance bound) s := by
  unfold meetBound
  by_cases hne : actual ≠ .noType
  · rw [if_pos hne]
    refine .bind (onWork_commutes (WorkM.inspect_commutes
      (compatible_eq hstore hchecker h hbound hactual variance)))
      fun b s₁ htest => ?_
    obtain ⟨work, htest', rfl⟩ := onWork_run.mp htest
    obtain ⟨-, rfl⟩ := WorkM.inspect_run.mp htest'
    cases b with
    | true => exact .pure _
    | false =>
        refine .bind (onWork_commutes (WorkM.tell_commutes ?_))
          fun _ s₁ htell => ?_
        · rw [h.render_eq hstore, h.render_eq hstore]
        obtain ⟨work, htell', rfl⟩ := onWork_run.mp htell
        have h₁ := h.of_types (WorkM.tell_types htell')
        refine onWork_commutes (WorkM.report_commutes ?_)
        rw [h₁.render_eq hstore, h₁.render_eq hstore,
          h₁.render_eq hstore]
  · rw [if_neg hne]
    exact .pure _

include hchecker in
/-- So is any marker that meets a concrete type. -/
theorem bindMarker_commutes (h : s.AboveStore store g₀) {actual : TypeId}
    (hactual : Admits g₀ g₀.Concrete s.graph actual) (marker : TypeId)
    (key : MarkerKey) (variance : Variance) :
    Commutes (State.over store')
      (bindMarker ctx marker key actual variance) s := by
  refine .read ?_ rfl
  cases hlookup : s.env.lookup? key with
  | none =>
      by_cases hne : actual = .noType
      · simp only [if_pos hne]
        exact reportUninferred_commutes hstore h.types marker
      · simp only [if_neg hne]
        refine .bind (onWork_commutes (WorkM.tell_commutes ?_))
          fun _ _ _ => .update (by rfl)
        rw [h.render_eq hstore]
  | some bound =>
      exact meetBound_commutes hstore hchecker h hlookup hactual marker
        variance

/-- Markers that meet no type are reported alike. -/
theorem reportUnbound_commutes (h : s.work.types.Above store)
    (expected : TypeId) :
    Commutes (State.over store') (reportUnbound ctx expected) s := by
  rw [reportUnbound_eq]
  refine .bind (onWork_commutes (WorkM.inspect_commutes ?_))
    fun keyed s₁ hscan => ?_
  · exact keyedMarkers_eq (h.veils hstore) expected
  obtain ⟨work, hscan', rfl⟩ := onWork_run.mp hscan
  obtain ⟨-, rfl⟩ := WorkM.inspect_run.mp hscan'
  refine .read ?_ rfl
  refine .forM (I := fun s => s.work.types.Above store) ?_ ?_ h
  · exact fun keyed _ s hs =>
      reportUninferred_commutes hstore hs keyed.2
  · intro keyed _ s s' hs hreport
    obtain ⟨work, hreports, rfl⟩ := reportUninferred_run hreport
    show work.types.Above store
    rw [hreports.types]
    exact hs

-- =============================================================== plans

/-- The type of a key is made of its fields alike. -/
theorem keyOfFields_commutes {w : Workspace} (h : w.types.Above store)
    (fields : List Field) :
    Commutes (Workspace.over store') (keyOfFields fields) w := by
  unfold keyOfFields
  split
  · exact .pure _
  · exact (WorkM.alloc_commutes hstore h _).bind fun _ _ _ => .pure _

/-- So it is where the fields have to be looked up in the row first,
which is no marker. -/
theorem keyOfRow_commutes {w : Workspace} (h : w.types.Above store)
    {table : TableType} (hrow : w.types.graph.Keyless table.row) :
    Commutes (Workspace.over store') (keyOfRow table) w := by
  unfold keyOfRow
  by_cases hempty : table.keyFields.isEmpty = true
  · rw [if_pos hempty]
    exact .pure _
  · rw [if_neg hempty]
    refine (WorkM.node_commutes hstore h hrow).bind fun row w₁ hread => ?_
    obtain ⟨-, rfl⟩ := WorkM.node_run.mp hread
    split
    · split
      next fields _ => exact keyOfFields_commutes hstore h fields
      · exact .pure _
    · exact .pure _

/-- The actual type of a pairing is made alike. -/
theorem Source.resolve_commutes (h : s.AboveStore store g₀) {source : Source}
    (hids : ∀ id ∈ source.ids, Admits g₀ g₀.Concrete s.graph id) :
    Commutes (Workspace.over store') source.resolve s.work := by
  cases source with
  | given id => exact .pure _
  | unionOf ids =>
      exact (WorkM.unionOf_commutes hstore h.types ids).bind
        fun _ _ _ => .pure _
  | keyOf table =>
      rw [resolve_keyOf_eq]
      split
      · exact .pure _
      · have hrow := hids table.row List.mem_cons_self
        exact keyOfRow_commutes hstore h.types
          (h.within.adds.concrete h.graph.closed hrow).keyless

include hchecker in
/-- What is done about a declared type that is no marker is the same. -/
theorem plan_eq (h : s.AboveStore store g₀) {expected actual : TypeId}
    {node : Node} (hn : s.graph.node? expected = some node)
    (hkey : node.markerKey? = none)
    (hactual : Admits g₀ g₀.Concrete s.graph actual)
    (variance : Variance) :
    ((s.over store').graph.kind actual >>=
        plan (s.over store').graph ctx.checker ctx.config.maxDepth variance
          expected node.kind actual)
      = s.graph.kind actual >>=
        plan s.graph ctx.checker ctx.config.maxDepth variance
          expected node.kind actual := by
  have hagree := h.agreement hstore
  obtain ⟨actualNode, hactualNode, hparts⟩ := hagree.closed actual hactual
  have hactualNode' := hagree.agrees actual actualNode hactual hactualNode
  have hn' : (s.over store').graph.node? expected = some node :=
    ((h.types.veils hstore).node?_of_keyless ⟨node, hn, hkey⟩).trans hn
  rw [hchecker, Graph.kind_of_node hactualNode,
    Graph.kind_of_node hactualNode']
  refine plan_agrees hagree hparts ?_ ?_ ?_ fun _ => rfl
  · exact (h.types.discreet hstore).withoutNil?_eq hn hn' hkey
  · exact hagree.withoutNil?_eq hactualNode hactualNode' hparts
  · exact fun _ _ =>
      Graph.onlyErrorsWithin_agrees hagree.closed hagree.agrees
        (fun _ _ => .rfl) hactual

/-- A plan is followed alike, if the level below does what it does
alike. -/
theorem followPlan_commutes (h : s.AboveStore store g₀)
    {descend : TypeId → TypeId → Variance → MatchM Unit}
    (hdescend : Oblivious store store' g₀ descend)
    (expected actual : TypeId) {plan : Plan}
    (hdraws : ∀ pairings, plan = .pairs pairings →
      Draws (Admits g₀ g₀.Concrete s.graph) pairings) :
    Commutes (State.over store') (followPlan descend expected actual plan)
      s := by
  cases plan with
  | generalUnions => exact onWork_commutes (WorkM.tell_commutes rfl)
  | unpaired =>
      refine onWork_commutes (WorkM.tell_commutes ?_)
      rw [h.render_eq hstore, h.render_eq hstore]
  | pairs pairings =>
      refine .forM (I := fun s => s.AboveStore store g₀ ∧
        Draws (Admits g₀ g₀.Concrete s.graph) pairings) ?_ ?_
        ⟨h, hdraws pairings rfl⟩
      · rintro pairing hmem s ⟨hs, hdraws⟩
        refine .bind (onWork_commutes
          (Source.resolve_commutes hstore hs (hdraws pairing hmem)))
          fun made s₁ hmake => ?_
        obtain ⟨work, hresolve, rfl⟩ := onWork_run.mp hmake
        obtain ⟨hs₁, -, hmade⟩ := hs.resolve (hdraws pairing hmem) hresolve
        cases made with
        | none => exact .pure _
        | some a => exact (hdescend _ a _ _ hs₁ (hmade a rfl)).1
      · rintro pairing hmem s s' ⟨hs, hdraws⟩ hturn
        obtain ⟨made, s₁, hmake, hturn⟩ := bind_run.mp hturn
        obtain ⟨work, hresolve, rfl⟩ := onWork_run.mp hmake
        obtain ⟨hs₁, hext, hmade⟩ :=
          hs.resolve (hdraws pairing hmem) hresolve
        have hgrown : ∀ {g}, s.graph.Extends g →
            Draws (Admits g₀ g₀.Concrete g) pairings :=
          fun hext p hp id hid => (hdraws p hp id hid).mono hext.size_le
        cases made with
        | none =>
            obtain ⟨-, rfl⟩ := pure_run.mp hturn
            exact ⟨hs₁, hgrown hext⟩
        | some a =>
            obtain ⟨hs', hext'⟩ :=
              (hdescend _ a _ _ hs₁ (hmade a rfl)).2 s' hturn
            exact ⟨hs', hgrown (hext.trans hext')⟩

-- =============================================================== levels

include hchecker in
/-- Going further down does the same if the levels below do. -/
theorem goDown_commutes (h : s.AboveStore store g₀)
    {descend : Option (TypeId → TypeId → Variance → MatchM Unit)}
    (hdescend : ∀ f ∈ descend, Oblivious store store' g₀ f)
    {expected actual : TypeId} {node : Node}
    (hn : s.graph.node? expected = some node)
    (hkey : node.markerKey? = none)
    (hactual : Admits g₀ g₀.Concrete s.graph actual)
    (variance : Variance) :
    Commutes (State.over store')
      (goDown ctx descend expected actual variance node) s := by
  cases descend with
  | none =>
      exact onWork_commutes
        (WorkM.reportLimit_commutes hstore h.types _ _ _ _)
  | some f =>
      refine .bind (.update (by rfl)) fun _ s₁ hmodify => ?_
      cases modify_run.mp hmodify
      have h₁ : ({ s with visited := expected :: s.visited } :
          State).AboveStore store g₀ :=
        ⟨h.base, h.start, h.graph, ⟨h.within.adds, h.within.bound⟩⟩
      refine .bind (onWork_commutes (WorkM.inspect_commutes
        (plan_eq hstore hchecker h hn hkey hactual variance)))
        fun plan s₁ hinspect => ?_
      obtain ⟨work, hinspect', rfl⟩ := onWork_run.mp hinspect
      obtain ⟨hplan, rfl⟩ := WorkM.inspect_run.mp hinspect'
      obtain ⟨actualKind, hkind, hplan⟩ := bind_eq_ok.mp hplan
      obtain ⟨actualNode, hactualNode, rfl⟩ := Graph.kind_eq_ok.mp hkind
      refine followPlan_commutes hstore h₁ (hdescend f rfl) _ _ ?_
      rintro pairings rfl
      exact plan_draws (h.agreement hstore).closed
        (.inl (h.graph.builtin_concrete rfl))
        (.inl (h.graph.builtin_concrete rfl))
        (.inl (h.graph.builtin_concrete rfl)) hactual hactualNode hplan

include hchecker in
/-- One level does the same if the levels below do. -/
theorem matchStep_commutes (h : s.AboveStore store g₀)
    {descend : Option (TypeId → TypeId → Variance → MatchM Unit)}
    (hdescend : ∀ f ∈ descend, Oblivious store store' g₀ f)
    (expected : TypeId) {actual : TypeId}
    (hactual : Admits g₀ g₀.Concrete s.graph actual)
    (variance : Variance) :
    Commutes (State.over store')
      (matchStep ctx descend expected actual variance) s := by
  by_cases hvisited : expected ∈ s.visited
  · refine .read ?_ rfl
    rw [if_pos hvisited]
    exact onWork_commutes (WorkM.tell_commutes rfl)
  · have hveils := h.types.veils hstore
    cases hn : s.graph.node? expected with
    | none =>
        unfold Commutes
        rw [matchStep_of_missing hvisited hn,
          matchStep_of_missing (s := s.over store') hvisited
            (hveils.node?_eq_none hn)]
        have hsize : (s.over store').graph.size = s.graph.size :=
          hveils.size_eq
        rw [hsize]
        rfl
    | some node =>
        obtain ⟨node', hn', hnode⟩ := hveils.node? hn
        unfold Commutes
        rw [matchStep_of_unvisited hvisited hn,
          matchStep_of_unvisited (s := s.over store') hvisited hn',
          meet_eq hnode]
        show Commutes _ (meet ctx descend expected actual variance node) s
        unfold meet
        cases hkey : node.markerKey? with
        | some key =>
            exact bindMarker_commutes hstore hchecker h hactual _ _ _
        | none =>
            by_cases hne : actual = .noType
            · simp only [if_pos hne]
              exact reportUnbound_commutes hstore h.types _
            · simp only [if_neg hne]
              by_cases hleaf : node.kind.isLeaf = true
              · simp only [if_pos hleaf]
                exact .pure _
              · simp only [if_neg hleaf]
                exact goDown_commutes hstore hchecker h hdescend hn hkey
                  hactual variance

include hchecker in
/-- A match does the same over a store with other witnesses. -/
theorem matchTypes_commutes (depth : Nat) (h : s.AboveStore store g₀)
    (expected : TypeId) {actual : TypeId}
    (hactual : Admits g₀ g₀.Concrete s.graph actual)
    (variance : Variance) :
    Commutes (State.over store')
      (matchTypes ctx depth expected actual variance) s := by
  induction depth generalizing expected actual variance s with
  | zero =>
      refine matchStep_commutes hstore hchecker h ?_ expected hactual
        variance
      intro f hf
      cases hf
  | succ depth ih =>
      refine matchStep_commutes hstore hchecker h ?_ expected hactual
        variance
      intro f hf e a v s hs ha
      cases hf
      exact ⟨ih hs e ha v, fun s' hrun => hs.matched ha ⟨depth, hrun⟩⟩

end Levels

end Matching

end TypeParams
