/-
Containers of parameters are bound to the least that is enough.

An array, map or stream of parameters meets a type that it may take.
Each parameter is bound to the least type that takes what it has to take
(`Matching.matchTypes_least`). What the parts of a container have to
take is all that assignability to the container asks for
(`Kind.Fills.assignable_iff`), so the actual type is assignable to the
container of the bound types, and a container that takes the actual type
has parts that take the bound types.

# Two calls

The argument is bound first, and then the container is instantiated.
Instantiating a type of parameters makes it again over what these are
bound to (`resolve_over_markers`), which is read off the procedure here,
one level for the container and one for each parameter. That the result
is the least container above the actual type is then a statement about
assignability in the graph that both calls have led to.

# What is asked

`Receives` collects it: the parameters are free, no two of them are the
same, and no type is missing below the actual one. No error type is met
on the way, so nothing is asked of unions, which may be among their own
members (`Receives.accounts`).
-/
import TypeParams.Proofs.ArgumentOrder
import TypeParams.Proofs.Matching.Least

namespace TypeParams

-- ======================================================== instantiation

namespace Instantiation

open Matching (KnownBy)

variable {ctx : Context} {depth : Nat} {s s' : State}
variable {declared id : TypeId} {node : Node} {keys : List MarkerKey}

/-- A marker stands for what it is bound to, at whatever level. -/
theorem resolve_of_marker {key : MarkerKey}
    (hn : s.graph.node? declared = some node)
    (hkey : node.markerKey? = some key) :
    resolve ctx depth declared s
      = .ok ((ctx.env.lookup? key).getD .noType) s := by
  cases depth with
  | zero => exact resolveStep_of_marker hn hkey
  | succ depth => exact resolveStep_of_marker hn hkey

/-- Parameters stand for what they are bound to. -/
theorem threads_markers {parts ys : List TypeId}
    (hkeys : KnownBy s.graph parts keys)
    (h : Threads (fun d s y s' => resolve ctx depth d s = .ok y s') parts s
      ys s') :
    s' = s ∧ ys = keys.map fun key =>
      (ctx.env.lookup? key).getD .noType := by
  induction hkeys generalizing ys with
  | nil =>
      cases h
      exact ⟨rfl, rfl⟩
  | cons hpart _ ih =>
      obtain ⟨node, hn, hkey⟩ := hpart
      obtain _ | ⟨hstep, h⟩ := h
      rw [resolve_of_marker hn hkey] at hstep
      cases hstep
      obtain ⟨rfl, rfl⟩ := ih h
      exact ⟨rfl, rfl⟩

/-- Above the last level, a type with parts is rebuilt. -/
theorem resolveStep_rebuilds {f : TypeId → InstantiateM TypeId}
    (hn : s.graph.node? declared = some node)
    (hmarker : node.markerKey? = none)
    (hopen : ∀ frame ∈ s.frames, frame.declared ≠ declared)
    (hself : ¬ StandsForItself s.graph declared node)
    (h : resolveStep ctx (some f) declared s = .ok id s') :
    rebuild f declared node s = .ok id s' := by
  have hread : onWork (.node declared) s = .ok node s :=
    onWork_run.mpr ⟨s.work, WorkM.node_run.mpr ⟨hn, rfl⟩, rfl⟩
  have hany : ¬ s.frames.any (·.declared == declared) = true := by
    simpa using hopen
  unfold resolveStep at h
  rw [bind_of_run hread, hmarker] at h
  obtain ⟨s₁, s₂, hget, h⟩ := bind_run.mp h
  obtain ⟨rfl, rfl⟩ := get_run.mp hget
  rw [if_neg hany] at h
  obtain ⟨itself, s₁, htest, h⟩ := bind_run.mp h
  obtain ⟨work, htest', rfl⟩ := onWork_run.mp htest
  obtain ⟨rfl, hiff⟩ := standsForItself_run htest'
  rw [if_neg (mt hiff.mp hself)] at h
  exact h

/-- A type of parameters is made again over what they are bound to, and
nothing is reported. -/
theorem resolve_over_markers (hframes : s.frames = [])
    (hn : s.graph.node? declared = some node)
    (hmarker : node.markerKey? = none)
    (hself : ¬ StandsForItself s.graph declared node)
    (hunion : ∀ parts members,
      node.kind.withChildren parts ≠ .union members)
    (hkeys : KnownBy s.graph node.kind.children keys)
    (h : resolve ctx (depth + 1) declared s = .ok id s') :
    s'.work.journal = s.work.journal ∧ s.graph.Extends s'.graph ∧
      ∃ made, s'.graph.node? id = some made ∧
        made.kind = node.kind.withChildren
          (keys.map fun key => (ctx.env.lookup? key).getD .noType) := by
  have hopen : ∀ frame ∈ s.frames, frame.declared ≠ declared := by
    rw [hframes]
    exact List.forall_mem_nil _
  obtain ⟨keeps, parts, s₁, slot, s₂, -, hparts, hleave, hsettle⟩ :=
    rebuild_run (resolveStep_rebuilds hn hmarker hopen hself h)
  have hkeys' : KnownBy ({ s with
      frames := { declared } :: s.frames } : State).graph
      node.kind.children keys := hkeys
  obtain ⟨rfl, hbound⟩ := threads_markers hkeys' hparts
  cases hleave
  have hkind : (rebuiltNode node keeps parts).kind
      = node.kind.withChildren parts := by
    show rebuiltKind node.kind parts = _
    unfold rebuiltKind
    split
    next members heq => exact absurd heq (hunion parts members)
    next => rfl
  rw [← hbound]
  -- only a union could have come down to one of its parts
  rcases settle_cases none (rebuiltNode node keeps parts) with
    ⟨member, -, hone, -⟩ | ⟨-, hplaced⟩
  · rw [hkind] at hone
    exact absurd hone (hunion parts [member])
  · rw [hplaced] at hsettle
    obtain ⟨work, hplace, rfl⟩ := onWork_run.mp hsettle
    obtain ⟨rfl, rfl⟩ := WorkM.alloc_run.mp hplace
    refine ⟨rfl, ?_, rebuiltNode node keeps parts, ?_, hkind⟩
    · show s.work.types.graph.Extends
        (s.work.types.alloc (rebuiltNode node keeps parts)).2.graph
      rw [Layer.graph_alloc_eq]
      exact Graph.extends_push _ _
    · show (s.work.types.alloc
        (rebuiltNode node keeps parts)).2.graph.node? s.work.types.nextId
          = _
      rw [Layer.graph_alloc_eq, Layer.nextId_eq]
      exact Graph.node?_push_self _ _

end Instantiation

-- ============================================================ arguments

/-- A type of that form, over these parts. -/
def Graph.Formed (g : Graph) (kind : Kind) (parts : List TypeId)
    (id : TypeId) : Prop :=
  ∃ node, g.node? id = some node ∧ node.kind = kind.withChildren parts ∧
    parts.length = kind.children.length

theorem Graph.Formed.lt {g : Graph} {kind : Kind} {parts : List TypeId}
    {id : TypeId} (h : g.Formed kind parts id) : id.index < g.size := by
  obtain ⟨node, hn, -⟩ := h
  exact Graph.index_lt_of_node? hn

namespace Resolution

open Matching (KnownBy)

variable {store : Store} {r : Resolution} {declared actual : TypeId}
variable {node : Node} {keys : List MarkerKey}
variable {slots : List (List TypeId)}

/-- A container of free parameters, and a type that it may take. -/
structure Receives (r : Resolution) (declared : TypeId) (node : Node)
    (keys : List MarkerKey) (actual : TypeId)
    (slots : List (List TypeId)) : Prop where
  form : r.types.graph.node? declared = some node
  container : node.markerKey? = none
  known : KnownBy r.types.graph node.kind.children keys
  distinct : keys.Nodup
  free : ∀ key ∈ keys, r.env.lookup? key = none
  whole : r.types.graph.Whole actual
  fills : ∃ actualNode, r.types.graph.node? actual = some actualNode ∧
    node.kind.Fills r.types.graph actualNode.kind slots

namespace Receives

variable (h : r.Receives declared node keys actual slots)
include h

/-- A container of parameters mentions one. -/
theorem not_markerFree : ¬ r.types.graph.MarkerFree declared := by
  obtain ⟨actualNode, -, hfills⟩ := h.fills
  obtain ⟨part, hpart⟩ := List.exists_mem_of_ne_nil _ hfills.children_ne_nil
  obtain ⟨key, -, node', hn', hkey⟩ := exists_mem_of_forall₂ h.known hpart
  intro hfree
  have hplain := hfree.child h.form hpart part .refl node' hn'
  rw [Node.isMarker_of_markerKey? hkey] at hplain
  cases hplain

/-- So it does not stand for itself. -/
theorem not_standsForItself (g : Graph) :
    ¬ Instantiation.StandsForItself g declared node := by
  obtain ⟨actualNode, -, hfills⟩ := h.fills
  intro hself
  rcases hself with hleaf | ⟨-, detail, herror⟩ | ⟨⟨constraint, hxml⟩, -⟩
  · rw [hfills.isLeaf] at hleaf
    cases hleaf
  · rw [herror] at hfills
    cases hfills
  · rw [hxml] at hfills
    cases hfills

/-- No error type is met in matching it: the container is none, and below
it there are parameters. -/
theorem accounts : Matching.Accounts r.types.graph
    (fun e => e = declared ∨ ∃ node key, r.types.graph.node? e = some node ∧
      node.markerKey? = some key) fun _ => False where
  there := by
    rintro e (rfl | ⟨node', -, hn', -⟩)
    · exact Graph.index_lt_of_node? h.form
    · exact Graph.index_lt_of_node? hn'
  parts := by
    rintro e node' (rfl | ⟨node'', key, hn'', hkey⟩) hn hnone c hc
    · rw [h.form] at hn
      cases hn
      obtain ⟨key, -, node'', hn'', hkey⟩ := exists_mem_of_forall₂ h.known hc
      exact .inr ⟨node'', key, hn'', hkey⟩
    · rw [hn''] at hn
      cases hn
      rw [hnone] at hkey
      cases hkey
  faults := by
    rintro e node' detail (rfl | ⟨node'', key, hn'', hkey⟩) hn hnone herror
    · rw [h.form] at hn
      cases hn
      obtain ⟨actualNode, -, hfills⟩ := h.fills
      rw [herror] at hfills
      cases hfills
    · rw [hn''] at hn
      cases hn
      rw [hnone] at hkey
      cases hkey

/-- So the type can be matched, also where unions are among their own
members. -/
theorem matchArgument_succeeds (hr : r.InOrder store) (span : Span) :
    Succeeds (matchArgument declared actual span) r := by
  have hready : r.matching.Ready := ⟨hr.graph, hr.bound⟩
  have hends : SucceedsOr (fun _ => False) (Matching.matchTypes
      ⟨r.checker, r.config, span⟩ r.config.maxDepth declared actual
      .covariant) r.matching :=
    Matching.matchTypes_ends hr.checker hr.graph.closed h.accounts _ hready
      (.refl _) (.inl rfl) h.whole.lt _
  exact matchArgument_succeeds_iff.mpr (hends.succeeds fun _ hfalse => hfalse)

/-- A container of such a form takes the type if its parts take what they
have to. -/
theorem assignable_iff {g : Graph} (hext : r.types.graph.Extends g)
    {container : TypeId} {parts : List TypeId}
    (hformed : g.Formed node.kind parts container) :
    g.Assignable actual container ↔ g.Takes slots parts := by
  obtain ⟨actualNode, hactual, hfills⟩ := h.fills
  obtain ⟨made, hmade, hkind, hlength⟩ := hformed
  exact hfills.assignable_iff hext (hext _ _ hactual) rfl hmade
    (hlength.trans hfills.length) hkind

/-- The parameters are bound to the least types that are enough, and
nothing is reported. -/
theorem bindArgument (hr : r.InOrder store)
    (hchecker : r.checker = .structural) (hlevels : 1 ≤ r.config.maxDepth)
    (span : Span) :
    ∃ r' bounds, Resolution.bindArgument declared actual span r = .ok () r' ∧
      r'.InOrder store ∧ r.types.graph.Extends r'.types.graph ∧
      r'.config = r.config ∧ r'.diagnostics = r.diagnostics ∧
      List.Forall₂ (fun key u => r'.env.lookup? key = some u) keys bounds ∧
      ∀ g, g.WellFormed → r'.types.graph.Extends g →
        List.Forall₂ g.Least slots bounds := by
  have hlt := Graph.index_lt_of_node? h.form
  obtain ⟨marked, hscan, -⟩ :=
    Graph.containsMarker_answers hr.graph.closed.closedOn hlt
  have hmarked : marked = true := by
    by_contra hplain
    rw [Bool.not_eq_true] at hplain
    subst hplain
    exact h.not_markerFree (Graph.markerFree_of_containsMarker hscan)
  subst hmarked
  obtain ⟨⟨⟩, r', hmatch⟩ := h.matchArgument_succeeds hr span
  have hbind : Resolution.bindArgument declared actual span r = .ok () r' :=
    bindArgument_eq_ok.mpr (.inr ⟨hscan, hmatch⟩)
  obtain ⟨hr', hstacks⟩ :=
    (hr.bindArgument hlt h.whole.lt span).leaves () r' hbind
  have hext := hstacks.nodes
  obtain ⟨s, hrun, rfl⟩ := matchArgument_eq_ok.mp hmatch
  -- one level is enough: below it there are only parameters
  obtain ⟨depth, hdepth⟩ := Nat.exists_eq_add_of_le' hlevels
  rw [hdepth] at hrun
  obtain ⟨actualNode, hactual, hfills⟩ := h.fills
  have hready : r.matching.Ready := ⟨hr.graph, hr.bound⟩
  obtain ⟨bounds, hbounds, hlog, -, hleast⟩ :=
    Matching.matchTypes_least hchecker hready rfl h.form h.container h.known
      h.distinct h.free h.whole hactual hfills hrun
  exact ⟨_, bounds, hbind, hr', hext, rfl, congrArg Log.entries hlog,
    hbounds, hleast⟩

/-- Once the parameters are bound, the container is instantiated to one of
the bound types, and nothing is reported. -/
theorem instantiate {r' : Resolution} (hr' : r'.InOrder store)
    (hlevels : 1 ≤ r'.config.maxDepth)
    (hext : r.types.graph.Extends r'.types.graph) {bounds : List TypeId}
    (hbounds : List.Forall₂ (fun key u => r'.env.lookup? key = some u) keys
      bounds) (span : Span) :
    ∃ id r'', Resolution.instantiate declared span r' = .ok id r'' ∧
      r''.InOrder store ∧ r'.types.graph.Extends r''.types.graph ∧
      r''.diagnostics = r'.diagnostics ∧
      r''.types.graph.Formed node.kind bounds id := by
  obtain ⟨id, r'', hinst, hr'', hext', -⟩ :=
    hr'.instantiate (hext.lt (Graph.index_lt_of_node? h.form)) span
  obtain ⟨s, hresolve, rfl⟩ := instantiate_eq_ok.mp hinst
  obtain ⟨depth, hdepth⟩ := Nat.exists_eq_add_of_le' hlevels
  rw [hdepth] at hresolve
  obtain ⟨actualNode, -, hfills⟩ := h.fills
  have hform : r'.instantiation.graph.node? declared = some node :=
    hext _ _ h.form
  have hknown : KnownBy r'.instantiation.graph node.kind.children keys :=
    h.known.imp fun _ _ ⟨node, hn, hkey⟩ => ⟨node, hext _ _ hn, hkey⟩
  obtain ⟨hjournal, -, made, hmade, hkind⟩ :=
    Instantiation.resolve_over_markers rfl hform h.container
      (h.not_standsForItself _) hfills.withChildren_ne_union hknown hresolve
  have hmap : keys.map (fun key => (r'.env.lookup? key).getD .noType)
      = bounds := by
    rw [← List.forall₂_eq_eq_eq, List.forall₂_map_left_iff]
    exact hbounds.imp fun key u hu => congrArg (·.getD .noType) hu
  rw [hmap] at hkind
  refine ⟨id, _, hinst, hr'', hext', ?_, made, hmade, hkind, ?_⟩
  · exact congrArg (fun journal => journal.log.entries) hjournal
  · rw [h.known.length_eq, hbounds.length_eq]

end Receives

/-- Containers of parameters are bound to the least that is enough. After
any calls over a closed graph, with a level to go down to, let an array,
map or stream of free parameters meet a type that it may take and below
which no type is missing. Then binding the argument reports nothing and
binds the parameters, and the type is assignable to what the container is
instantiated to. In any later graph, a container of this form that takes
the type and has no type missing below its parts has parts to which the
bound types are assignable. -/
theorem bindArgument_least (config : Config) (store : Store)
    (listening : Bool) (hg : store.graph.WellFormed)
    (hrun : ValidRun (begin .structural config store listening) r)
    (hlevels : 1 ≤ r.config.maxDepth)
    (h : r.Receives declared node keys actual slots)
    (span span' : Span) :
    ∃ r' bounds id r'',
      bindArgument declared actual span r = .ok () r' ∧
      r'.diagnostics = r.diagnostics ∧
      List.Forall₂ (fun key u => r'.env.lookup? key = some u) keys bounds ∧
      instantiate declared span' r' = .ok id r'' ∧
      r''.diagnostics = r'.diagnostics ∧
      Checker.structural.assignable r''.types.graph actual id = .ok true ∧
      ∀ g, g.WellFormed → r''.types.graph.Extends g →
        ∀ container xs, g.Formed node.kind xs container →
          (∀ x ∈ xs, g.Whole x) →
          Checker.structural.assignable g actual container = .ok true →
          List.Forall₂ (fun u x =>
            Checker.structural.assignable g u x = .ok true) bounds xs := by
  have hr : r.InOrder store :=
    (begin_inOrder Checker.structural_total config listening hg).run hrun
  obtain ⟨r', bounds, hbind, hr', hext, hconfig, hsilent, hbounds, hleast⟩ :=
    h.bindArgument hr hrun.checker_eq hlevels span
  obtain ⟨id, r'', hinst, hr'', hext', hsilent', hformed⟩ :=
    h.instantiate hr' (hconfig ▸ hlevels) hext hbounds span'
  refine ⟨r', bounds, id, r'', hbind, hsilent, hbounds, hinst, hsilent', ?_,
    ?_⟩
  · have hupper : r''.types.graph.Takes slots bounds :=
      (hleast _ hr''.graph hext').imp fun _ _ hbound => hbound.upper
    rw [Checker.structural_assignable_iff hr''.graph
      ((hext.trans hext').lt h.whole.lt) hformed.lt]
    exact (h.assignable_iff (hext.trans hext') hformed).mpr hupper
  · intro g hg' hgrown container xs hcontainer hwhole htakes
    have hextends := (hext.trans hext').trans hgrown
    rw [Checker.structural_assignable_iff hg' (hextends.lt h.whole.lt)
      hcontainer.lt, h.assignable_iff hextends hcontainer] at htakes
    exact (Graph.Least.forall₂ (hleast g hg' (hext'.trans hgrown)) htakes
      hwhole).imp fun u x ⟨hu, hx, hux⟩ =>
        (Checker.structural_assignable_iff hg' hu.lt hx.lt).mpr hux

/-- Parameters for what a stream holds and for what it ends with (21, 22),
a stream of them (23), and two streams (24, 25) with their union (26). The
first says nothing of its end. -/
def twoStreams : Store where
  graph := ⟨Graph.builtin.nodes ++ #[
    .marker "T" ⟨1⟩ (.leaf .anydata),
    .marker "E" ⟨1⟩ (.leaf .anydata),
    .anonymous (.stream ⟨21⟩ (some ⟨22⟩)),
    .anonymous (.stream .int none),
    .anonymous (.stream .string (some .error)),
    .anonymous (.union [⟨24⟩, ⟨25⟩])]⟩

theorem twoStreams_receives (hg : twoStreams.graph.WellFormed) :
    (begin .structural .default twoStreams false).Receives ⟨23⟩
      (.anonymous (.stream ⟨21⟩ (some ⟨22⟩))) [⟨⟨1⟩, "T"⟩, ⟨⟨1⟩, "E"⟩] ⟨26⟩
      [[.int, .string], [.nil, .error]] := by
  have hgraph : (begin .structural .default twoStreams false).types.graph
      = twoStreams.graph := Layer.graph_on twoStreams
  refine ⟨rfl, rfl, .cons ⟨_, rfl, rfl⟩ (.cons ⟨_, rfl, rfl⟩ .nil),
    by decide, fun _ _ => rfl, ?_, _, rfl, ?_⟩
  · rw [hgraph]
    have hstream : ∀ m ∈ [TypeId.mk 24, ⟨25⟩],
        twoStreams.graph.Whole m := by
      intro m hm
      rcases List.mem_pair.mp hm with rfl | rfl
      all_goals
        apply Graph.Whole.of_children hg.closed (show _ = some _ from rfl)
        · exact Kind.noConfusion
      · intro c hc
        cases List.mem_singleton.mp hc
        exact hg.whole_builtin rfl (by decide)
      · intro c hc
        rcases List.mem_pair.mp hc with rfl | rfl
        all_goals exact hg.whole_builtin rfl (by decide)
    apply Graph.Whole.of_children hg.closed (show _ = some _ from rfl)
    · exact Kind.noConfusion
    · exact hstream
  · have hparts : List.Forall₂ (fun m parts => ∃ node,
        (begin .structural .default twoStreams false).types.graph.node? m
          = some node ∧ Matching.streamParts? node.kind = some parts)
        [⟨24⟩, ⟨25⟩] [(TypeId.int, TypeId.nil), (.string, .error)] :=
      .cons ⟨_, rfl, rfl⟩ (.cons ⟨_, rfl, rfl⟩ .nil)
    exact .streams hparts (List.cons_ne_nil _ _)

/-- A union of two streams for a stream of parameters. -/
theorem twoStreams_bindArgument_least :
    twoStreams.graph.WellFormed ∧
      ∃ r' t e id r'', bindArgument ⟨23⟩ ⟨26⟩ .null
          (begin .structural .default twoStreams false) = .ok () r' ∧
        r'.diagnostics = [] ∧ r'.env.lookup? ⟨⟨1⟩, "T"⟩ = some t ∧
        r'.env.lookup? ⟨⟨1⟩, "E"⟩ = some e ∧
        instantiate ⟨23⟩ .null r' = .ok id r'' ∧
        Checker.structural.assignable r''.types.graph ⟨26⟩ id = .ok true ∧
        ∀ g, g.WellFormed → r''.types.graph.Extends g →
          ∀ container node x y, g.node? container = some node →
            node.kind = .stream x (some y) → g.Whole x → g.Whole y →
            Checker.structural.assignable g ⟨26⟩ container = .ok true →
            Checker.structural.assignable g t x = .ok true ∧
              Checker.structural.assignable g e y = .ok true := by
  have hg : twoStreams.graph.WellFormed := by decide
  obtain ⟨r', bounds, id, r'', hbind, hsilent, hbounds, hinst, -, htakes,
    hleast⟩ := bindArgument_least .default twoStreams false hg .refl
      (by decide) (twoStreams_receives hg) .null .null
  obtain _ | ⟨ht, hbounds⟩ := hbounds
  obtain _ | ⟨he, hbounds⟩ := hbounds
  cases hbounds
  refine ⟨hg, r', _, _, id, r'', hbind, hsilent, ht, he, hinst, htakes, ?_⟩
  intro g hg' hext container node x y hn hkind hx hy hcontainer
  have hparts := hleast g hg' hext container [x, y] ⟨node, hn, hkind, rfl⟩
    (by simp [hx, hy]) hcontainer
  obtain _ | ⟨htx, hparts⟩ := hparts
  obtain _ | ⟨hey, -⟩ := hparts
  exact ⟨htx, hey⟩

end Resolution

end TypeParams
