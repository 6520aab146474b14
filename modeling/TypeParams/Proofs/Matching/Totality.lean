/-
How a match of types that are there can end.

# Faults that do not occur

Three things could go wrong: looking up an id without a node, putting it
into words, and a checker that does not answer. A match starts with types
of a closed graph and stays with such (`Matches.ready`): what it draws on
are parts of these, and what it adds is made of what it draws on. So
every lookup finds a node, provided that the checker answers about types
that are there (`Checker.Total`).

What is shown of plans is shown for any closed set with the builtin types
in it, as in `plan_draws`.

# The one that may

A declared error type that meets a union asks whether there are only
errors in it, and that has no answer for some unions that are among their
own members. It is the only question of its kind, so a match gives a
result or ends in that fault (`matchTypes_ends`). The union is one that
was among its own members before the match began: what a match adds is
made of types below it (`Matches.stacks`). Where there is none, there is
a result (`matchTypes_succeeds`). Nor can there be anything but a result
where no error type is declared, whatever the unions are. Both are ways
to leave no fault over, so the general statement is about any set of
declared types and any faults that it accounts for (`Accounts`).
-/
import TypeParams.Proofs.Loops
import TypeParams.Proofs.Matching.Twins

namespace TypeParams.Matching

variable {g : Graph} {P : TypeId → Prop}

-- ================================================================ sources

/-- What a type of a closed set contributes to a union can be found. -/
theorem unionParts_returns (hP : g.ClosedOn P) {id : TypeId}
    (hid : P id) : Returns (g.unionParts id) := by
  refine (hP.node_returns hid).bind fun node _ => ?_
  split
  · exact .pure _
  · exact .pure _

/-- A union can be made of types of a closed set. -/
theorem unionOf_succeeds {w : Workspace} (hP : w.types.graph.ClosedOn P)
    {ids : List TypeId} (hids : ∀ id ∈ ids, P id) :
    Succeeds (WorkM.unionOf ids) w := by
  have hmembers : Returns (w.types.graph.unionMembers ids) :=
    (Returns.mapM fun id hid => unionParts_returns hP (hids id hid)).bind
      fun _ _ => .pure _
  obtain ⟨⟨id, types⟩, hunion⟩ : Returns (w.types.unionOf ids) := by
    refine hmembers.bind fun members _ => ?_
    split
    · exact .pure _
    · exact .pure _
    · exact .pure _
  exact ⟨id, _, WorkM.unionOf_run.mpr ⟨types, hunion, rfl⟩⟩

/-- The key of a table that is known by its fields can be found, if the
row is there. -/
theorem keyOfRow_succeeds {w : Workspace} (hP : w.types.graph.ClosedOn P)
    {table : TableType} (hrow : P table.row) :
    Succeeds (keyOfRow table) w := by
  unfold keyOfRow
  by_cases hempty : table.keyFields.isEmpty = true
  · rw [if_pos hempty]
    exact .pure _ _
  · rw [if_neg hempty]
    obtain ⟨row, hn, -⟩ := hP _ hrow
    refine Succeeds.bind ⟨row, w, WorkM.node_run.mpr ⟨hn, rfl⟩⟩
      fun row w₁ _ => ?_
    split
    · split
      next fields _ =>
        unfold keyOfFields
        split
        · exact .pure _ _
        · exact Succeeds.bind ⟨_, _, rfl⟩ fun _ _ _ => .pure _ _
      · exact .pure _ _
    · exact .pure _ _

/-- The actual type of a pairing can be made from types that are
there. -/
theorem Source.resolve_succeeds {w : Workspace}
    (hP : w.types.graph.ClosedOn P) {source : Source}
    (hids : ∀ id ∈ source.ids, P id) : Succeeds source.resolve w := by
  cases source with
  | given id => exact .pure _ _
  | unionOf ids =>
      exact (unionOf_succeeds hP hids).bind fun _ _ _ => .pure _ _
  | keyOf table =>
      rw [resolve_keyOf_eq]
      split
      · exact .pure _ _
      · exact keyOfRow_succeeds hP (hids _ List.mem_cons_self)

-- ================================================================== plans

/-- What xml holds can be found, however deep it is looked for. -/
theorem xmlContent_returns (hP : g.ClosedOn P) (depth : Nat)
    {id : TypeId} (hid : P id) : Returns (xmlContent g depth id) := by
  induction depth generalizing id with
  | zero => exact (hP.kind_returns hid).bind fun _ _ => .pure _
  | succ depth ih =>
      refine (hP.kind_returns hid).bind fun kind hkind => ?_
      split
      next constraint =>
        exact ih (hP.of_kind hid hkind _ List.mem_cons_self)
      next => exact .pure _

/-- So can the types in it. -/
theorem xmlTypes_returns (hP : g.ClosedOn P) (depth : Nat) {id : TypeId}
    (hid : P id) : Returns (xmlTypes g depth id) := by
  refine (hP.kind_returns hid).bind fun kind hkind => ?_
  split
  next constraint =>
    have hpart := hP.of_kind hid hkind _ List.mem_cons_self
    exact (xmlContent_returns hP depth hpart).bind fun _ _ => .pure _
  next => exact .pure _
  next => exact .pure _

/-- A stream that meets a union has a plan: the streams among the
members are found by their forms. -/
theorem planStreamUnion_returns (hP : g.ClosedOn P) (variance : Variance)
    (constraint : TypeId) (completion : Option TypeId)
    {members : List TypeId} (hmembers : ∀ m ∈ members, P m) :
    Returns (planStreamUnion g variance constraint completion members) := by
  have hkinds : Returns (members.mapM g.kind) :=
    .mapM fun m hm => hP.kind_returns (hmembers m hm)
  refine hkinds.bind fun kinds _ => ?_
  by_cases hempty : (kinds.filterMap streamParts?).isEmpty = true
  · simp only [if_pos hempty]
    exact .pure _
  · simp only [if_neg hempty]
    exact .pure _

/-- An error type asks for the errors of a union that it meets, and for
nothing else. -/
theorem planError_returnsOr {F : Fault → Prop} (variance : Variance)
    (expected detail : TypeId) {actual : TypeId}
    (herrors : ReturnsOr F (g.onlyErrors actual)) (actualKind : Kind) :
    ReturnsOr F (planError g variance expected detail actual
      actualKind) := by
  unfold planError
  split
  · exact .inl (.pure _)
  · split
    · exact .inl (.pure _)
    · refine herrors.bind fun errors _ => ?_
      cases errors with
      | true => exact .inl (.pure _)
      | false => exact .inl (.pure _)
    · exact .inl (.pure _)

section Checked

variable {checker : Checker} (hchecker : checker.Total) (hg : g.WellFormed)

include hchecker hg

/-- Whether a type is there already can be told by a checker that
answers. -/
theorem addDistinct_returns {types : List TypeId} {id : TypeId}
    (htypes : ∀ t ∈ types, t.index < g.size) (hid : id.index < g.size) :
    Returns (addDistinct g checker types id) := by
  have hany : Returns (types.anyM fun type =>
      checker.sameType g type id) :=
    .anyM fun t ht => hchecker.sameType g hg t id (htypes t ht) hid
  refine hany.bind fun known _ => ?_
  cases known with
  | true => exact .pure _
  | false => exact .pure _

/-- Adding types one by one, each of which is there. -/
theorem foldlM_addDistinct_returns {added types : List TypeId}
    (hadded : ∀ t ∈ added, t.index < g.size)
    (htypes : ∀ t ∈ types, t.index < g.size) :
    Returns (added.foldlM (addDistinct g checker) types) := by
  refine Returns.foldlM (I := fun types => ∀ t ∈ types, t.index < g.size)
    ?_ ?_ htypes
  · intro t ht known hknown
    exact addDistinct_returns hchecker hg hknown (hadded t ht)
  · intro t ht known known' hknown hturn t' ht'
    rcases mem_addDistinct hturn t' ht' with ht' | rfl
    · exact hknown t' ht'
    · exact hadded t' ht

/-- So can whether the type of a field is covered. -/
theorem addField_returns {rest : Option TypeId} {types : List TypeId}
    {field : Field} (hrest : ∀ t ∈ rest, t.index < g.size)
    (htypes : ∀ t ∈ types, t.index < g.size)
    (hfield : field.type.index < g.size) :
    Returns (addField g checker rest types field) := by
  cases rest with
  | none => exact addDistinct_returns hchecker hg htypes hfield
  | some own =>
      have hcovered :=
        hchecker.assignable g hg _ own hfield (hrest own rfl)
      refine Returns.bind hcovered fun covered _ => ?_
      cases covered with
      | true => exact .pure _
      | false => exact addDistinct_returns hchecker hg htypes hfield

/-- A record can be seen as a map. -/
theorem mapConstraint_returns {shape : RecordType}
    (hvalues : ∀ t ∈ shape.valueTypes, t.index < g.size) :
    Returns (mapConstraint g checker shape) := by
  have hfield : ∀ f ∈ shape.fields, f.type.index < g.size :=
    fun f hf => hvalues _ (List.mem_append_left _ (List.mem_map_of_mem hf))
  have hown : ∀ t ∈ shape.restType, t.index < g.size := fun t ht =>
    hvalues t (List.mem_append_right _ (Option.mem_toList.mpr ht))
  have hclosed := hg.closed.closedOn
  have hlook : Returns (mapRest? g shape) := by
    unfold mapRest?
    cases hrest : shape.restType with
    | none => exact .pure _
    | some rest =>
        refine (hclosed.kind_returns (hown rest hrest)).bind ?_
        intro kind _
        split
        · exact .pure _
        · exact .pure _
        · exact .pure _
  rw [mapConstraint_eq]
  refine hlook.bind fun rest hmapRest => ?_
  have hrest : ∀ t ∈ rest, t.index < g.size :=
    fun t ht => hown t (mem_mapRest hmapRest t ht)
  have hkept : ∀ f ∈ shape.fields, ∀ types types' : List TypeId,
      (∀ t ∈ types, t.index < g.size) →
      addField g checker rest types f = .ok types' →
      ∀ t ∈ types', t.index < g.size := by
    intro f hf types types' htypes hturn t ht
    rcases mem_addField hturn t ht with ht | rfl
    · exact htypes t ht
    · exact hfield f hf
  have hnone : ∀ t ∈ ([] : List TypeId), t.index < g.size :=
    fun t ht => nomatch ht
  have hfields : Returns
      (shape.fields.foldlM (addField g checker rest) []) := by
    refine Returns.foldlM (fun f hf types htypes => ?_) hkept hnone
    exact addField_returns hchecker hg hrest htypes (hfield f hf)
  refine hfields.bind fun types htypes => ?_
  have hall := foldlM_invariant hkept hnone htypes
  refine (foldlM_addDistinct_returns hchecker hg ?_ hall).bind
    fun types' _ => ?_
  · exact fun t ht => hrest t (Option.mem_toList.mp ht)
  · split
    · exact .pure _
    · exact .pure _

/-- Types that are there meet according to a plan, if there is an answer
to the one question that may have none, where it is asked. -/
theorem plan_returnsOr {F : Fault → Prop} {maxDepth : Nat}
    {variance : Variance} {expected actual : TypeId} {kind : Kind}
    {actualNode : Node} (hexpected : expected.index < g.size)
    (hactual : g.node? actual = some actualNode)
    (herrors : ∀ detail, kind = .error detail →
      ReturnsOr F (g.onlyErrors actual)) :
    ReturnsOr F (plan g checker maxDepth variance expected kind actual
      actualNode.kind) := by
  have hclosed := hg.closed.closedOn
  have hlt := Graph.index_lt_of_node? hactual
  have hparts := hclosed.child hlt hactual
  generalize actualNode.kind = actualKind at hparts
  unfold plan
  split
  · exact .inl (.pure _)
  · exact .inl (.pure _)
  next element members =>
    refine .inl (Returns.bind (.mapM fun m hm => ?_) fun _ _ => .pure _)
    exact hclosed.kind_returns (hparts m hm)
  · exact .inl (.pure _)
  next constraint shape =>
    have hvalues := on_recordValues hparts (hg.builtin_lt rfl)
    exact .inl ((mapConstraint_returns hchecker hg hvalues).bind
      fun _ _ => .pure _)
  · exact .inl (.pure _)
  next constraint completion members =>
    exact .inl (planStreamUnion_returns hclosed _ _ _ hparts)
  · exact .inl (.pure _)
  · exact .inl (.pure _)
  next members actualMembers =>
    refine .inl ((Graph.withoutNil?_returns hclosed hexpected).bind
      fun inner _ => ?_)
    refine (Graph.withoutNil?_returns hclosed hlt).bind
      fun actualInner _ => ?_
    split
    · exact .pure _
    · exact .pure _
  · exact .inl (.pure _)
  · exact .inl (.pure _)
  · exact .inl (.pure _)
  · exact planError_returnsOr _ _ _ (herrors _ rfl) _
  next constraint actualConstraint =>
    exact .inl ((xmlContent_returns hclosed _
      (hparts _ List.mem_cons_self)).bind fun _ _ => .pure _)
  · exact .inl (.pure _)
  next constraint members =>
    refine .inl (Returns.bind (.mapM fun m hm => ?_) fun _ _ => .pure _)
    exact xmlTypes_returns hclosed _ (hparts m hm)
  · exact .inl (.pure _)
  · exact .inl (.pure _)

end Checked

-- ================================================================= levels

/-- A match stands over a graph of types, and what is bound is there. -/
structure State.Ready (s : State) : Prop where
  graph : s.graph.WellFormed
  bound : ∀ b ∈ s.env.entries, b.bound.index < s.graph.size

variable {ctx : Context} {s s' : State}

/-- What a parameter is bound to is there. -/
theorem State.Ready.lookup? (hs : s.Ready) {key : MarkerKey} {b : TypeId}
    (hb : s.env.lookup? key = some b) : b.index < s.graph.size := by
  obtain ⟨binding, hfind, rfl⟩ := Option.map_eq_some_iff.mp hb
  exact hs.bound binding (List.mem_of_find?_eq_some hfind)

/-- A match that is ready is within the types that are there. -/
theorem State.Ready.within (hs : s.Ready) :
    s.Within s.graph (·.index < s.graph.size) :=
  ⟨.refl _ _, fun b hb => .inl (hs.bound b hb)⟩

/-- And the other way round, over a graph of types. -/
theorem State.Within.ready {g₀ : Graph} (hg₀ : g₀.WellFormed)
    (hs : s.Within g₀ (·.index < g₀.size)) : s.Ready := by
  have hclosed := hg₀.closed.closedOn
  refine ⟨hs.adds.wellFormed hclosed hg₀, fun b hb => ?_⟩
  exact (hs.adds.closedOn hclosed).lt (hs.bound b hb)

/-- A match that meets a type that is there leaves everything in order
for the next. -/
theorem Matches.ready {expected actual : TypeId} {variance : Variance}
    (h : Matches ctx expected actual variance s s') (hs : s.Ready)
    (hactual : actual.index < s.graph.size) :
    s'.Ready ∧ s.graph.Extends s'.graph := by
  obtain ⟨hwithin, hext⟩ := h.stays hs.graph.closed.closedOn
    (fun _ hid => hs.graph.builtin_lt hid) hs.within (.inl hactual)
  exact ⟨hwithin.ready hs.graph, hext⟩

/-- So does a marker that does. -/
theorem MarkerEnding.ready {marker actual : TypeId} {key : MarkerKey}
    {variance : Variance}
    (h : MarkerEnding ctx marker key actual variance s s') (hs : s.Ready)
    (hactual : actual.index < s.graph.size) : s'.Ready :=
  (h.within hs.within (.inl hactual)).1.ready hs.graph

/-- An actual type is made by putting a node on top at most. -/
theorem Source.resolve_stacks {w w' : Workspace}
    (hg : w.types.graph.WellFormed) {source : Source}
    (hids : ∀ id ∈ source.ids, id.index < w.types.graph.size)
    {made : Option TypeId} (h : source.resolve w = .ok made w') :
    w.types.graph.Stacks w'.types.graph := by
  obtain ⟨draft, hdraft, hmake⟩ := Source.resolve_draft h
  have hon := Source.draft_on hg.closed.closedOn (hg.builtin_lt rfl) hids
    hdraft
  cases draft with
  | unknown | there =>
      cases hmake
      exact .refl _
  | new node =>
      obtain ⟨id, w₁, halloc, hmake⟩ := bind_run.mp hmake
      obtain ⟨-, rfl⟩ := WorkM.alloc_run.mp halloc
      cases hmake
      rw [Layer.graph_alloc_eq]
      exact .push hon.2

/-- Making an actual type leaves everything in order, and the type is
there. -/
theorem State.Ready.source (hs : s.Ready) {source : Source}
    (hids : ∀ id ∈ source.ids, id.index < s.graph.size)
    {made : Option TypeId} {work : Workspace}
    (h : source.resolve s.work = .ok made work) :
    ({ s with work } : State).Ready ∧
      s.graph.Stacks work.types.graph ∧
      ∀ a ∈ made, a.index < work.types.graph.size := by
  have hclosed := hs.graph.closed.closedOn
  have hadds : Graph.Adds s.graph (·.index < s.graph.size) s.graph :=
    .refl _ _
  obtain ⟨-, hadds', hmade⟩ :=
    Source.resolve_adds hclosed (hs.graph.builtin_lt rfl)
      hadds (fun id hid => .inl (hids id hid)) h
  refine ⟨State.Within.ready hs.graph ⟨hadds', fun b hb => ?_⟩,
    Source.resolve_stacks hs.graph hids h, ?_⟩
  · exact .inl (hs.bound b hb)
  · exact fun a ha => (hadds'.closedOn hclosed).lt (hmade a ha)

-- =============================================================== stacking

/-- A marker that meets a type changes neither the graph nor what was
followed. -/
theorem MarkerEnding.kept {marker actual : TypeId} {key : MarkerKey}
    {variance : Variance}
    (h : MarkerEnding ctx marker key actual variance s s') :
    s'.work.types = s.work.types ∧ s'.visited = s.visited := by
  cases h with
  | binds _ _ htell => exact ⟨htell.types, rfl⟩
  | agrees | skipped => exact ⟨rfl, rfl⟩
  | clashes _ _ _ hreport => exact ⟨hreport.types, rfl⟩
  | uninferred _ _ hreport => exact ⟨hreport.types, rfl⟩

/-- A match that starts in order and meets a type that is there puts
types on top of those that it finds. -/
def Stacking (_expected actual : TypeId) (_variance : Variance)
    (s s' : State) : Prop :=
  s.Ready → actual.index < s.graph.size → s.graph.Stacks s'.graph

theorem State.stacks_of_types (htypes : s'.work.types = s.work.types) :
    s.graph.Stacks s'.graph := by
  unfold State.graph
  rw [htypes]
  exact .refl _

/-- Pairings that draw on types that are there, one after the other. -/
theorem Stacking.pairs {pairings : List Pairing}
    (h : Sweeps (PairMeets fun e a v s s' =>
      Matches ctx e a v s s' ∧ Stacking e a v s s') pairings s s')
    (hs : s.Ready) (hdraws : Draws (·.index < s.graph.size) pairings) :
    s.graph.Stacks s'.graph := by
  induction h with
  | nil => exact .refl _
  | @cons pairing pairings s s₁ s₂ hmeets _ ih =>
      obtain ⟨hids, hdraws⟩ := List.forall_mem_cons.mp hdraws
      obtain ⟨made, work, hresolve, hpart⟩ := hmeets
      obtain ⟨hmade, hstacks, hthere⟩ := hs.source hids hresolve
      have hmet : s₁.Ready ∧ s.graph.Stacks s₁.graph := by
        cases made with
        | none =>
            cases hpart
            exact ⟨hmade, hstacks⟩
        | some actual =>
            obtain ⟨hmatch, hstacking⟩ := hpart
            have hactual := hthere actual rfl
            exact ⟨(hmatch.ready hmade hactual).1,
              hstacks.trans (hstacking hmade hactual)⟩
      refine hmet.2.trans (ih hmet.1 fun p hp id hid => ?_)
      exact hmet.2.nodes.lt (hdraws p hp id hid)

/-- Every match does. -/
theorem Matches.stacks {expected actual : TypeId} {variance : Variance}
    (h : Matches ctx expected actual variance s s') :
    Stacking expected actual variance s s' := by
  refine match_induction (motive := Stacking) ?_ h
  intro expected actual variance s s' hend hs hactual
  cases hend with
  | again _ htell => exact State.stacks_of_types htell.types
  | marker _ _ _ hmarker => exact State.stacks_of_types hmarker.kept.1
  | missing _ _ _ _ _ hreports =>
      exact State.stacks_of_types (types_of_reports hreports)
  | leaf => exact .refl _
  | stopped _ _ _ _ _ _ _ htypes => exact State.stacks_of_types htypes
  | followed _ _ _ _ _ hactualNode hplan hfollows =>
      cases hfollows with
      | generalUnions htell => exact State.stacks_of_types htell.types
      | unpaired htell => exact State.stacks_of_types htell.types
      | pairs hpairs =>
          have hs' : ({ s with visited := expected :: s.visited } :
              State).Ready := ⟨hs.graph, hs.bound⟩
          have hdraws := plan_draws hs.graph.closed.closedOn
            (hs.graph.builtin_lt rfl) (hs.graph.builtin_lt rfl)
            (hs.graph.builtin_lt rfl) hactual hactualNode hplan
          exact (Stacking.pairs hpairs hs' hdraws :)

-- ================================================================ endings

theorem mem_of_mem_firstOfEachKey {keyed : List (MarkerKey × TypeId)}
    {entry : MarkerKey × TypeId} (h : entry ∈ firstOfEachKey keyed) :
    entry ∈ keyed := by
  induction keyed with
  | nil => exact h
  | cons first rest ih =>
      rcases List.mem_cons.mp h with rfl | h
      · exact List.mem_cons_self
      · exact List.mem_cons_of_mem _ (ih (List.mem_of_mem_filter h))

/-- A marker that is there meets a type that is: what is said of them can
be written, and the checker can compare what is bound. -/
theorem State.Ready.bindMarker_succeeds (hs : s.Ready)
    (hchecker : ctx.checker.Total) {marker actual : TypeId}
    (hmarker : marker.index < s.graph.size)
    (hactual : actual.index < s.graph.size) (key : MarkerKey)
    (variance : Variance) :
    Succeeds (bindMarker ctx marker key actual variance) s := by
  have hclosed := hs.graph.closed.closedOn
  refine Matching.bindMarker_succeeds
    (Graph.render_returns hclosed hmarker)
    (Graph.render_returns hclosed hactual) fun bound hbound => ?_
  exact ⟨Graph.render_returns hclosed (hs.lookup? hbound),
    compatible_returns hchecker hs.graph _ (hs.lookup? hbound) hactual⟩

/-- That two types which are there do not go together can be told. -/
theorem State.Ready.unpaired_returns (hs : s.Ready)
    {expected actual : TypeId} (hexpected : expected.index < s.graph.size)
    (hactual : actual.index < s.graph.size) :
    Returns (do
      let text ← s.graph.render expected
      let text' ← s.graph.render actual
      return Event.unpaired text text') := by
  have hclosed := hs.graph.closed.closedOn
  exact (Graph.render_returns hclosed hexpected).bind fun _ _ =>
    (Graph.render_returns hclosed hactual).bind fun _ _ => .pure _

/-- Markers that were listed are reported. -/
theorem reportUnbound_succeeds (hs : s.Ready) {expected : TypeId}
    (hexpected : expected.index < s.graph.size) :
    Succeeds (reportUnbound ctx expected) s := by
  have hclosed := hs.graph.closed.closedOn
  obtain ⟨markers, hmarkers, hthere⟩ :=
    Graph.markers_returns hclosed hexpected
  have hkeyed : keyedMarkers s.graph expected
      = .ok (markers.filterMap fun marker =>
          ((s.graph.node? marker).bind (·.markerKey?)).map (·, marker)) :=
    bind_eq_ok.mpr ⟨markers, hmarkers, rfl⟩
  have hscan : onWork (.inspect (keyedMarkers · expected)) s = .ok _ s :=
    onWork_run.mpr ⟨s.work, WorkM.inspect_run.mpr ⟨hkeyed, rfl⟩, rfl⟩
  rw [reportUnbound_eq, Succeeds, bind_of_run hscan,
    bind_of_run (show (get : MatchM State) s = .ok s s from rfl)]
  refine Succeeds.forM (I := fun s' => s'.graph = s.graph) ?_ ?_ rfl
  · intro keyed hmem s' hgraph
    refine reportUninferred_succeeds ?_
    rw [hgraph]
    refine Graph.render_returns hclosed (hthere _ ?_)
    obtain ⟨marker, hmarker, hkey⟩ := List.mem_filterMap.mp
      (List.mem_of_mem_filter (mem_of_mem_firstOfEachKey hmem))
    obtain ⟨key, -, rfl⟩ := Option.map_eq_some_iff.mp hkey
    exact hmarker
  · intro keyed _ s₁ s₂ hgraph hturn
    obtain ⟨work, hreport, rfl⟩ := reportUninferred_run hturn
    exact (congrArg Layer.graph hreport.types).trans hgraph

/-- A set of declared types, with their parts down to parameters, and
the faults that a match of them may end in: if there is an error type
among them, those of unions among their own members. -/
structure Accounts (g₀ : Graph) (D : TypeId → Prop) (F : Fault → Prop) :
    Prop where
  there : ∀ e, D e → e.index < g₀.size
  parts : ∀ e node, D e → g₀.node? e = some node →
    node.markerKey? = none → ∀ c ∈ node.kind.children, D c
  faults : ∀ e node detail, D e → g₀.node? e = some node →
    node.markerKey? = none → node.kind = .error detail →
    ∀ fault, g₀.Endless fault → F fault

/-- Unions among their own members account for all types. -/
theorem Accounts.all {g : Graph} (hg : g.Closed) :
    Accounts g (·.index < g.size) g.Endless where
  there _ he := he
  parts _ _ he hn _ := hg.closedOn.child he hn
  faults _ _ _ _ _ _ _ _ hfault := hfault

variable {g₀ : Graph} {D : TypeId → Prop} {F : Fault → Prop}

/-- Over any graph that has grown from the given one, a level ends as it
should and leaves everything in order for the next. -/
def Carries (g₀ : Graph) (D : TypeId → Prop) (F : Fault → Prop)
    (f : TypeId → TypeId → Variance → MatchM Unit) : Prop :=
  ∀ e a v (s : State), s.Ready → g₀.Stacks s.graph → D e →
    a.index < s.graph.size →
    SucceedsOr F (f e a v) s ∧
      ∀ s', f e a v s = .ok () s' → s'.Ready ∧ s.graph.Stacks s'.graph

/-- What becomes of types that meet, given what the next level down
does. -/
theorem followPlan_ends (hs : s.Ready) (hstart : g₀.Stacks s.graph)
    {descend : TypeId → TypeId → Variance → MatchM Unit}
    {expected actual : TypeId} (hexpected : expected.index < s.graph.size)
    (hactual : actual.index < s.graph.size) {plan : Plan}
    (hplan : ∀ pairings, plan = .pairs pairings →
      (∀ p ∈ pairings, D p.expected) ∧
        Draws (·.index < s.graph.size) pairings)
    (hdescend : Carries g₀ D F descend) :
    SucceedsOr F (followPlan descend expected actual plan) s := by
  cases plan with
  | generalUnions =>
      exact .inl (onWork_succeeds (WorkM.tell_succeeds (.ok _)))
  | unpaired =>
      exact .inl (onWork_succeeds (WorkM.tell_succeeds
        (hs.unpaired_returns hexpected hactual)))
  | pairs pairings =>
      obtain ⟨hparts, hdraws⟩ := hplan pairings rfl
      -- later turns start over a larger graph
      refine SucceedsOr.forM
        (I := fun s' => s'.Ready ∧ s.graph.Stacks s'.graph) ?_ ?_
        ⟨hs, .refl _⟩
      · intro p hp s₁ hI
        obtain ⟨hs₁, hstacks⟩ := hI
        have hids : ∀ id ∈ p.source.ids, id.index < s₁.graph.size :=
          fun id hid => hstacks.nodes.lt (hdraws p hp id hid)
        refine SucceedsOr.bind (.inl (onWork_succeeds
          (Source.resolve_succeeds hs₁.graph.closed.closedOn hids)))
          fun made s₂ hmade => ?_
        obtain ⟨work, hresolve, rfl⟩ := onWork_run.mp hmade
        obtain ⟨hs₂, hstacks', hthere⟩ := hs₁.source hids hresolve
        cases made with
        | none => exact .inl (.pure _ _)
        | some a =>
            have hstacks₂ := hstart.trans (hstacks.trans hstacks')
            exact (hdescend _ a _ _ hs₂ hstacks₂ (hparts p hp)
              (hthere a rfl)).1
      · intro p hp s₁ s₂ hI hturn
        obtain ⟨hs₁, hstacks⟩ := hI
        have hids : ∀ id ∈ p.source.ids, id.index < s₁.graph.size :=
          fun id hid => hstacks.nodes.lt (hdraws p hp id hid)
        obtain ⟨made, s', hmade, hturn⟩ := bind_run.mp hturn
        obtain ⟨work, hresolve, rfl⟩ := onWork_run.mp hmade
        obtain ⟨hs', hstacks', hthere⟩ := hs₁.source hids hresolve
        have hstacks₁ := hstacks.trans hstacks'
        cases made with
        | none =>
            obtain ⟨-, rfl⟩ := pure_run.mp hturn
            exact ⟨hs', hstacks₁⟩
        | some a =>
            obtain ⟨hs₂, hstacks₂⟩ := (hdescend _ a _ _ hs'
              (hstart.trans hstacks₁) (hparts p hp) (hthere a rfl)).2 s₂
              hturn
            exact ⟨hs₂, hstacks₁.trans hstacks₂⟩

section Levels

variable (hchecker : ctx.checker.Total) (hg₀ : g₀.Closed)
  (hD : Accounts g₀ D F)
include hchecker hg₀ hD

/-- Types with parts, given what the levels below do. -/
theorem goDown_ends (hs : s.Ready) (hstart : g₀.Stacks s.graph)
    {descend : Option (TypeId → TypeId → Variance → MatchM Unit)}
    {expected actual : TypeId} {node : Node} (hexpected : D expected)
    (hn : g₀.node? expected = some node) (hkey : node.markerKey? = none)
    (hactual : actual.index < s.graph.size) (variance : Variance)
    (hdescend : ∀ f ∈ descend, Carries g₀ D F f) :
    SucceedsOr F (goDown ctx descend expected actual variance node) s := by
  have hclosed := hs.graph.closed.closedOn
  have hlt := hstart.nodes.lt (hD.there expected hexpected)
  cases descend with
  | none =>
      exact .inl (onWork_succeeds (WorkM.reportLimit_succeeds
        (Graph.render_returns hclosed hlt)))
  | some f =>
      obtain ⟨actualNode, hactualNode⟩ := Graph.exists_node_of_lt hactual
      have herrors : ∀ detail, node.kind = .error detail →
          ReturnsOr F (s.graph.onlyErrors actual) := by
        intro detail hkind
        refine (Graph.onlyErrors_returnsOr hclosed hactual).mono ?_
        intro fault hfault
        exact hD.faults expected node detail hexpected hn hkey hkind fault
          (hstart.endless hg₀ hfault)
      rcases plan_returnsOr hchecker hs.graph hlt hactualNode herrors with
        ⟨plan, hplan⟩ | ⟨fault, hplan, hfault⟩
      · unfold SucceedsOr Succeeds
        rw [goDown_of_plan hactualNode hplan]
        have hs' : ({ s with visited := expected :: s.visited } :
            State).Ready := ⟨hs.graph, hs.bound⟩
        refine followPlan_ends hs' hstart hlt hactual ?_ (hdescend f rfl)
        intro pairings hpairs
        rw [hpairs] at hplan
        refine ⟨fun p hp => ?_, ?_⟩
        · exact hD.parts expected node hexpected hn hkey _
            (plan_expected (hstart.nodes _ _ hn) hplan p hp)
        · exact plan_draws hclosed (hs.graph.builtin_lt rfl)
            (hs.graph.builtin_lt rfl) (hs.graph.builtin_lt rfl) hactual
            hactualNode hplan
      · exact .inr ⟨fault, _, goDown_of_fault hactualNode hplan, hfault⟩

/-- One level, given what the levels below do. -/
theorem matchStep_ends (hs : s.Ready) (hstart : g₀.Stacks s.graph)
    {descend : Option (TypeId → TypeId → Variance → MatchM Unit)}
    {expected actual : TypeId} (hexpected : D expected)
    (hactual : actual.index < s.graph.size) (variance : Variance)
    (hdescend : ∀ f ∈ descend, Carries g₀ D F f) :
    SucceedsOr F (matchStep ctx descend expected actual variance) s := by
  by_cases hvisited : expected ∈ s.visited
  · unfold SucceedsOr Succeeds
    rw [matchStep_of_visited hvisited]
    exact .inl (onWork_succeeds (WorkM.tell_succeeds (.ok _)))
  · have hthere := hD.there expected hexpected
    have hlt := hstart.nodes.lt hthere
    obtain ⟨node, hn⟩ := Graph.exists_node_of_lt hthere
    unfold SucceedsOr Succeeds
    rw [matchStep_of_unvisited hvisited (hstart.nodes _ _ hn)]
    change SucceedsOr F (meet ctx descend expected actual variance node) s
    unfold meet
    cases hkey : node.markerKey? with
    | some key =>
        exact .inl (hs.bindMarker_succeeds hchecker hlt hactual key variance)
    | none =>
        by_cases hmissing : actual = .noType
        · simp only [if_pos hmissing]
          exact .inl (reportUnbound_succeeds hs hlt)
        · simp only [if_neg hmissing]
          by_cases hleaf : node.kind.isLeaf = true
          · simp only [if_pos hleaf]
            exact .inl (.pure _ _)
          · simp only [if_neg hleaf]
            exact goDown_ends hchecker hg₀ hD hs hstart hexpected hn hkey
              hactual variance hdescend

/-- A match of types that are there gives a result, or it ends in a fault
that is accounted for. -/
theorem matchTypes_ends (depth : Nat) (hs : s.Ready)
    (hstart : g₀.Stacks s.graph) {expected actual : TypeId}
    (hexpected : D expected) (hactual : actual.index < s.graph.size)
    (variance : Variance) :
    SucceedsOr F (matchTypes ctx depth expected actual variance) s := by
  induction depth generalizing expected actual variance s with
  | zero =>
      refine matchStep_ends hchecker hg₀ hD hs hstart hexpected hactual
        variance ?_
      intro f hf
      cases hf
  | succ depth ih =>
      refine matchStep_ends hchecker hg₀ hD hs hstart hexpected hactual
        variance ?_
      intro f hf e a v s' hs' hstacks he ha
      cases hf
      refine ⟨ih hs' hstacks he ha v, fun s'' hrun => ?_⟩
      have hmatch : Matches ctx e a v s' s'' := ⟨depth, hrun⟩
      exact ⟨(hmatch.ready hs' ha).1, hmatch.stacks hs' ha⟩

end Levels

/-- Types that are there can be matched, unless a union is among its own
members. -/
theorem matchTypes_endless (hchecker : ctx.checker.Total) (depth : Nat)
    (hs : s.Ready) {expected actual : TypeId}
    (hexpected : expected.index < s.graph.size)
    (hactual : actual.index < s.graph.size) (variance : Variance) :
    SucceedsOr s.graph.Endless
      (matchTypes ctx depth expected actual variance) s :=
  matchTypes_ends hchecker hs.graph.closed (.all hs.graph.closed) depth hs
    (.refl _) hexpected hactual variance

/-- Where no union is, they can be matched. -/
theorem matchTypes_succeeds (hchecker : ctx.checker.Total) (depth : Nat)
    (hs : s.Ready) (hunlooped : s.graph.Unlooped)
    {expected actual : TypeId} (hexpected : expected.index < s.graph.size)
    (hactual : actual.index < s.graph.size) (variance : Variance) :
    Succeeds (matchTypes ctx depth expected actual variance) s :=
  (matchTypes_endless hchecker depth hs hexpected hactual
    variance).succeeds hunlooped.not_endless

-- ================================================================= layers

open TypeParams.Workspace (Keeps)

variable {w w' : Workspace}

/-- Reports change no types. -/
theorem keeps_reports {kind : ProblemKind} {α : Type} {as : List α}
    (h : Sweeps (fun _ w w' => Workspace.Reports w kind w') as w w') :
    Keeps w w' := by
  induction h with
  | nil => exact .refl _
  | cons hreport _ ih =>
      exact (Keeps.of_types hreport.types hreport.calm).trans ih

/-- An actual type is made by adding a node at most. -/
theorem Source.resolve_keeps {source : Source} {made : Option TypeId}
    (h : source.resolve w = .ok made w') : Keeps w w' := by
  cases source with
  | given id =>
      cases h
      exact .refl _
  | unionOf ids =>
      obtain ⟨id, w₁, hunion, h⟩ := bind_run.mp h
      cases h
      obtain ⟨types, hmade, rfl⟩ := WorkM.unionOf_run.mp hunion
      obtain ⟨members, -, ⟨-, rfl⟩ | ⟨-, rfl⟩ | ⟨-, rfl⟩⟩ :=
        Layer.unionOf_cases hmade
      · exact .refl _
      · exact .refl _
      · exact ⟨rfl, rfl, .of_eq rfl⟩
  | keyOf table =>
      cases resolve_keyOf h with
      | unknown | given | single => exact .refl _
      | several => exact ⟨rfl, rfl, .of_eq rfl⟩

/-- A marker that meets a type adds none. -/
theorem MarkerEnding.keeps {marker : TypeId} {key : MarkerKey}
    {actual : TypeId} {variance : Variance}
    (h : MarkerEnding ctx marker key actual variance s s') :
    Keeps s.work s'.work := by
  cases h with
  | binds _ _ htell => exact .of_types htell.types htell.1
  | agrees | skipped => exact .refl _
  | clashes _ _ _ hreport => exact .of_types hreport.types hreport.calm
  | uninferred _ _ hreport => exact .of_types hreport.types hreport.calm

/-- Pairings keep what the matches of their parts keep. -/
theorem keeps_pairs {pairings : List Pairing}
    (h : Sweeps (PairMeets fun e a v s s' =>
      Matches ctx e a v s s' ∧ Keeps s.work s'.work) pairings s s') :
    Keeps s.work s'.work := by
  induction h with
  | nil => exact .refl _
  | cons hmeets _ ih =>
      refine Keeps.trans ?_ ih
      obtain ⟨source, work, hresolve, hmatch⟩ := hmeets
      have hmade := Source.resolve_keeps hresolve
      cases source with
      | none =>
          cases hmatch
          exact hmade
      | some actual => exact hmade.trans hmatch.2

/-- A match reserves nothing and defines nothing. -/
theorem Matches.keeps {expected actual : TypeId} {variance : Variance}
    (h : Matches ctx expected actual variance s s') :
    Keeps s.work s'.work := by
  refine match_induction
    (motive := fun _ _ _ s s' => Keeps s.work s'.work) ?_ h
  intro expected actual variance s s' hend
  cases hend with
  | again _ htell => exact .of_types htell.types htell.1
  | marker _ _ _ hmarker => exact hmarker.keeps
  | missing _ _ _ _ _ hreports => exact keeps_reports hreports
  | leaf => exact .refl _
  | stopped _ _ _ _ _ hrecords _ htypes => exact .of_types htypes hrecords.1
  | followed _ _ _ _ _ _ _ hfollows =>
      cases hfollows with
      | generalUnions htell => exact .of_types htell.types htell.1
      | unpaired htell => exact .of_types htell.types htell.1
      | pairs hpairs => exact (keeps_pairs hpairs :)

end TypeParams.Matching
