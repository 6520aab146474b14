/-
What an argument that was left out has to say.

A missing argument binds nothing. It is reported which parameters it
might have determined: those that the declared type mentions and that
are not bound, each of them once, in the order in which they stand in
the type (`Graph.parameterTrail`). Several markers may be of the same
parameter, and a type may mention itself; neither changes what is
reported, nor does the number of levels that are followed, since no
level is gone down.

# From markers to parameters

Markers are listed by a walk (`Graph.markers_eq`), and parameters are
what markers are known by. What is left to see is that listing
parameters once, and leaving out those that are bound, can be done in
either order: the program keeps the first marker of each parameter and
then drops the ones that are bound.

# What is reported

For each of them one diagnostic is added, with the name of the parameter
in it, and nothing else about the state changes (`State.logging`). A
marker by itself is reported in another place of the program than one
inside a type; the two agree (`bindMarker_missing`), so a missing
argument has the same to say at whatever level it is found missing.
-/
import TypeParams.Proofs.Discovery
import TypeParams.Proofs.Matching.Totality
import TypeParams.Proofs.Resolution

namespace TypeParams

namespace Graph

variable {g : Graph} {P : TypeId → Prop} {id marker : TypeId}
  {node : Node} {key : MarkerKey}

/-- What the parameter is known by whose marker has that id. -/
def keyAt? (g : Graph) (id : TypeId) : Option MarkerKey :=
  (g.node? id).bind (·.markerKey?)

/-- The parameters that a type mentions, from left to right. -/
def parameterTrail (g : Graph) (id : TypeId) : List MarkerKey :=
  (g.markerTrail [] id).filterMap g.keyAt?

/-- The id is that of a marker, which is known by this. -/
theorem keyAt?_eq_some :
    g.keyAt? marker = some key ↔
      ∃ node, g.node? marker = some node ∧ node.markerKey? = some key := by
  unfold keyAt?
  rw [Option.bind_eq_some_iff]

/-- A parameter is on the trail if the type meets a marker of it. -/
theorem mem_parameterTrail (hP : g.ClosedOn P) (hid : P id) :
    key ∈ g.parameterTrail id ↔
      ∃ marker node, g.Meets id marker ∧ g.node? marker = some node ∧
        node.markerKey? = some key := by
  simp only [parameterTrail, List.mem_filterMap, keyAt?_eq_some,
    mem_markerTrail hP hid]
  constructor
  · rintro ⟨marker, ⟨hmeets, -⟩, node, hn, hkey⟩
    exact ⟨marker, node, hmeets, hn, hkey⟩
  · rintro ⟨marker, node, hmeets, hn, hkey⟩
    exact ⟨marker, ⟨hmeets, node, hn, node.isMarker_of_markerKey? hkey⟩,
      node, hn, hkey⟩

/-- A marker is written as its parameter's name. -/
theorem render_of_keyAt? (h : g.keyAt? marker = some key) :
    g.render marker = .ok key.name := by
  obtain ⟨node, hn, hkey⟩ := keyAt?_eq_some.mp h
  have hmarker := node.isMarker_of_markerKey? hkey
  unfold Node.markerKey? at hkey
  rw [if_pos hmarker] at hkey
  obtain ⟨name, hname, rfl⟩ := Option.map_eq_some_iff.mp hkey
  have hshown : node.shownName? true = some name := by
    simp [Node.shownName?, hname, hmarker]
  unfold render
  rw [renderWithin_of_node hn, hshown]

end Graph

-- ========================================================= diagnostics

/-- The diagnostic for a parameter that nothing determines. -/
def Config.uninferred (config : Config) (span : Span) (key : MarkerKey) :
    Diagnostic :=
  let diagnostic := (Problem.uninferred key.name).diagnostic span
  if config.lossy then diagnostic.softened else diagnostic

/-- The code of the diagnostic. -/
theorem Config.uninferred_code (config : Config) (span : Span)
    (key : MarkerKey) :
    (config.uninferred span key).code = some "E-TP001" := by
  unfold uninferred Diagnostic.softened Problem.diagnostic
    Diagnostic.withSpan
  grind [Problem.kind, ProblemKind.code]

namespace Matching

variable {ctx : Context} {s : State} {P : TypeId → Prop}
  {expected : TypeId} {keyed : List (MarkerKey × TypeId)}

/-- The state with more diagnostics. -/
def State.logging (s : State) (diagnostics : List Diagnostic) : State :=
  { s with
    work :=
      { s.work with
        journal :=
          { s.work.journal with
            log := ⟨s.work.journal.log.entries ++ diagnostics⟩ } } }

-- ============================================== one for each parameter

/-- Every parameter that is listed is kept where it comes first. -/
theorem map_fst_firstOfEachKey (keyed : List (MarkerKey × TypeId)) :
    (firstOfEachKey keyed).map (·.1) = (keyed.map (·.1)).eraseDups := by
  induction keyed with
  | nil => rfl
  | cons first rest ih =>
      have hrest : ((firstOfEachKey rest).filter (·.1 ≠ first.1)).map (·.1)
          = ((firstOfEachKey rest).map (·.1)).filter (· ≠ first.1) := by
        rw [List.filter_map]
        rfl
      rw [firstOfEachKey, List.map_cons, List.map_cons,
        List.eraseDups_cons, hrest, ih, eraseDups_filter]
      simp only [ne_eq, decide_not]
      rfl

/-- The parameters of the listed markers are those of the type, if
repetitions are left out. -/
theorem keyedMarkers_of_closed {g : Graph} (hP : g.ClosedOn P)
    (hexpected : P expected) :
    ∃ keyed, keyedMarkers g expected = .ok keyed ∧
      (∀ entry ∈ keyed, g.keyAt? entry.2 = some entry.1) ∧
      (keyed.map (·.1)).eraseDups
        = (g.parameterTrail expected).eraseDups := by
  have hmarkers := Graph.markers_eq hP hexpected
  refine ⟨_, bind_eq_ok.mpr ⟨_, hmarkers, rfl⟩, ?_, ?_⟩
  · intro entry hentry
    obtain ⟨marker, -, hkey⟩ := List.mem_filterMap.mp hentry
    obtain ⟨key, hat, rfl⟩ := Option.map_eq_some_iff.mp hkey
    exact hat
  · have hkeys : ∀ markers : List TypeId,
        (markers.filterMap fun marker =>
          ((g.node? marker).bind (·.markerKey?)).map (·, marker)).map (·.1)
          = markers.filterMap g.keyAt? := by
      intro markers
      rw [List.map_filterMap]
      refine List.filterMap_congr fun marker _ => ?_
      rw [Option.map_map]
      exact Option.map_id'
    rw [hkeys, eraseDups_filterMap_eraseDups]
    rfl

/-- The parameters that are reported: those of the type that are not
bound. -/
theorem map_fst_unboundMarkers {env : Bindings} {trail : List MarkerKey}
    (h : (keyed.map (·.1)).eraseDups = trail.eraseDups) :
    (unboundMarkers env keyed).map (·.1)
      = (trail.filter (!env.contains ·)).eraseDups := by
  have hfilter : (keyed.filter (!env.contains ·.1)).map (·.1)
      = (keyed.map (·.1)).filter (!env.contains ·) := by
    rw [List.filter_map]
    rfl
  change (firstOfEachKey (keyed.filter (!env.contains ·.1))).map (·.1) = _
  rw [map_fst_firstOfEachKey, hfilter, eraseDups_filter, h,
    ← eraseDups_filter]

-- ============================================================ reporting

/-- Reporting a parameter adds one diagnostic. -/
theorem reportUninferred_of_keyAt? {marker : TypeId} {key : MarkerKey}
    (h : s.graph.keyAt? marker = some key) :
    reportUninferred ctx marker s
      = .ok () (s.logging [ctx.config.uninferred ctx.span key]) := by
  have hproblem : (do return Problem.uninferred (← s.graph.render marker))
      = Except.ok (Problem.uninferred key.name) :=
    bind_eq_ok.mpr ⟨key.name, Graph.render_of_keyAt? h, rfl⟩
  apply onWork_run.mpr
  refine ⟨_, bind_run.mpr ⟨_, _, WorkM.inspect_run.mpr ⟨hproblem, rfl⟩,
    modify_run.mpr rfl⟩, rfl⟩

theorem State.logging_nil (s : State) : s.logging [] = s := by
  unfold State.logging
  rw [List.append_nil]

theorem State.logging_logging (s : State) (ds ds' : List Diagnostic) :
    (s.logging ds).logging ds' = s.logging (ds ++ ds') := by
  unfold State.logging
  rw [List.append_assoc]

/-- Markers are reported one after the other. -/
theorem reportEach_eq
    (h : ∀ entry ∈ keyed, s.graph.keyAt? entry.2 = some entry.1) :
    (keyed.forM fun (_, marker) => reportUninferred ctx marker) s
      = .ok ⟨⟩ (s.logging
          ((keyed.map (·.1)).map (ctx.config.uninferred ctx.span))) := by
  induction keyed generalizing s with
  | nil =>
      rw [List.map_nil, List.map_nil, State.logging_nil]
      rfl
  | cons entry rest ih =>
      rw [List.forall_mem_cons] at h
      have hrest := ih
        (s := s.logging [ctx.config.uninferred ctx.span entry.1]) h.2
      rw [State.logging_logging] at hrest
      exact (bind_of_run (reportUninferred_of_keyAt? h.1)).trans hrest

/-- What is reported of a type: the parameters that it mentions and that
are not bound. -/
def State.unbound (s : State) (id : TypeId) : List MarkerKey :=
  ((s.graph.parameterTrail id).filter (!s.env.contains ·)).eraseDups

/-- Reporting the parameters of a type adds one diagnostic for each that
is not bound. -/
theorem reportUnbound_of_closed (hP : s.graph.ClosedOn P)
    (hexpected : P expected) :
    reportUnbound ctx expected s
      = .ok () (s.logging ((s.unbound expected).map
          (ctx.config.uninferred ctx.span))) := by
  obtain ⟨keyed, hkeyed, hat, htrail⟩ :=
    keyedMarkers_of_closed hP hexpected
  have hscan : onWork (.inspect (keyedMarkers · expected)) s
      = .ok keyed s :=
    onWork_run.mpr ⟨s.work, WorkM.inspect_run.mpr ⟨hkeyed, rfl⟩, rfl⟩
  have hentries : ∀ entry ∈ unboundMarkers s.env keyed,
      s.graph.keyAt? entry.2 = some entry.1 := fun entry hentry =>
    hat entry (List.mem_of_mem_filter (mem_of_mem_firstOfEachKey hentry))
  rw [reportUnbound_eq, bind_of_run hscan,
    bind_of_run (show (get : MatchM State) s = .ok s s from rfl)]
  refine (reportEach_eq hentries).trans ?_
  rw [map_fst_unboundMarkers htrail]
  rfl

/-- A marker that meets a missing type is reported as it would be inside
of another type. -/
theorem bindMarker_missing {node : Node} {key : MarkerKey}
    {variance : Variance} (hn : s.graph.node? expected = some node)
    (hkey : node.markerKey? = some key) :
    bindMarker ctx expected key .noType variance s
      = .ok () (s.logging ((s.unbound expected).map
          (ctx.config.uninferred ctx.span))) := by
  have hat : s.graph.keyAt? expected = some key :=
    Graph.keyAt?_eq_some.mpr ⟨node, hn, hkey⟩
  have htrail : s.graph.parameterTrail expected = [key] := by
    unfold Graph.parameterTrail
    rw [Graph.markerTrail_of_node hn,
      if_pos (node.isMarker_of_markerKey? hkey),
      List.filterMap_cons_some hat, List.filterMap_nil]
  unfold bindMarker State.unbound
  rw [bind_of_run (show (get : MatchM State) s = .ok s s from rfl), htrail]
  cases hbound : s.env.lookup? key with
  | none =>
      have hfree : [key].filter (!s.env.contains ·) = [key] := by
        simp [Bindings.contains, hbound]
      rw [hfree, eraseDups_of_nodup (List.pairwise_singleton _ key)]
      exact reportUninferred_of_keyAt? hat
  | some bound =>
      have hfree : [key].filter (!s.env.contains ·) = [] := by
        simp [Bindings.contains, hbound]
      rw [hfree, List.eraseDups_nil, List.map_nil, State.logging_nil]
      rfl

/-- A missing type is the end of a match, at whatever level. -/
theorem matchTypes_missing {depth : Nat} {variance : Variance}
    (hP : s.graph.ClosedOn P) (hexpected : P expected)
    (hvisited : expected ∉ s.visited) :
    matchTypes ctx depth expected .noType variance s
      = .ok () (s.logging ((s.unbound expected).map
          (ctx.config.uninferred ctx.span))) := by
  obtain ⟨node, hn, -⟩ := hP expected hexpected
  obtain ⟨descend, hlevel⟩ : ∃ descend,
      matchTypes ctx depth expected .noType variance s
        = meet ctx descend expected .noType variance node s := by
    cases depth with
    | zero => exact ⟨_, matchStep_of_unvisited hvisited hn _ _⟩
    | succ depth => exact ⟨_, matchStep_of_unvisited hvisited hn _ _⟩
  rw [hlevel]
  unfold meet
  cases hkey : node.markerKey? with
  | some key => exact bindMarker_missing hn hkey
  | none => exact reportUnbound_of_closed hP hexpected

end Matching

namespace Resolution

/-- A missing argument is reported, and changes nothing else. There is
one diagnostic for each parameter that the declared type mentions, other
than inside a marker, and that is not bound, in the order in which the
parameters first stand in the type, however deep they do. -/
theorem bindArgument_missing (r : Resolution)
    (hg : r.types.graph.Closed) (declared : TypeId)
    (hdeclared : declared.index < r.types.graph.size) (span : Span) :
    ∃ keys : List MarkerKey,
      FirstOccurrences ((r.types.graph.parameterTrail declared).filter
        (!r.env.contains ·)) keys ∧
      keys.Nodup ∧
      (∀ key, key ∈ keys ↔ r.env.lookup? key = none ∧
        ∃ marker node, r.types.graph.Meets declared marker ∧
          r.types.graph.node? marker = some node ∧
          node.markerKey? = some key) ∧
      bindArgument declared .noType span r
        = .ok () { r with
            journal := { r.journal with
              log := ⟨r.journal.log.entries
                ++ keys.map (r.config.uninferred span)⟩ } } ∧
      ∀ key, (r.config.uninferred span key).code = some "E-TP001" := by
  have hfirst := firstOccurrences_eraseDups
    ((r.types.graph.parameterTrail declared).filter (!r.env.contains ·))
  have hmem : ∀ key, key ∈ r.matching.unbound declared ↔
      r.env.lookup? key = none ∧
        ∃ marker node, r.types.graph.Meets declared marker ∧
          r.types.graph.node? marker = some node ∧
          node.markerKey? = some key := by
    intro key
    refine (hfirst.mem_iff key).trans ?_
    rw [List.mem_filter, Graph.mem_parameterTrail hg.closedOn hdeclared,
      and_comm]
    simp [Bindings.contains]
  refine ⟨r.matching.unbound declared, hfirst, hfirst.nodup, hmem, ?_,
    r.config.uninferred_code span⟩
  obtain ⟨answer, hanswer, hfree⟩ :=
    Graph.containsMarker_answers hg.closedOn hdeclared
  apply bindArgument_eq_ok.mpr
  cases answer with
  | true =>
      exact .inr ⟨hanswer, matchArgument_eq_ok.mpr
        ⟨_, Matching.matchTypes_missing (s := r.matching) hg.closedOn
          hdeclared List.not_mem_nil, rfl⟩⟩
  | false =>
      -- the type is not looked at, and mentions nothing
      have hnone : r.matching.unbound declared = [] := by
        apply List.eq_nil_iff_forall_not_mem.mpr
        intro key hkey
        obtain ⟨-, marker, node, hmeets, hn, hkey⟩ := (hmem key).mp hkey
        have hmarker := node.isMarker_of_markerKey? hkey
        rw [hfree.mp rfl marker hmeets.reaches node hn] at hmarker
        cases hmarker
      refine .inl ⟨hanswer, ?_⟩
      rw [hnone, List.map_nil, List.append_nil]

/-- A list (21, 22) whose nodes hold pairs (29). There are two markers of
one parameter (23, 24) and one of another with the same name (25). The
parameter of the fourth (26) is bound, and the fifth (28) stands inside
of a marker that has no name (27). -/
def unsettled : Resolution where
  checker := .structural
  config := { maxDepth := 1 }
  types := .on { graph := ⟨Graph.builtin.nodes ++ #[
    .named "List" ⟨1⟩ (.record {
      fields := [{ name := "rest", type := ⟨22⟩ },
        { name := "index", type := ⟨26⟩ },
        { name := "values", type := ⟨29⟩ },
        { name := "first", type := ⟨24⟩ },
        { name := "part", type := ⟨27⟩ }] }),
    .anonymous (.union [.nil, ⟨21⟩]),
    .marker "T" ⟨1⟩ (.leaf .any),
    .marker "T" ⟨1⟩ (.leaf .anydata),
    .marker "T" ⟨2⟩ (.leaf .any),
    .marker "K" ⟨1⟩ (.leaf .string),
    { kind := .array ⟨28⟩, flags := { parameterized := true } },
    .marker "U" ⟨1⟩ (.leaf .any),
    .anonymous (.tuple [⟨25⟩, ⟨23⟩] (some ⟨21⟩))]⟩ }
  env := ⟨[⟨⟨⟨1⟩, "K"⟩, ⟨26⟩, .string⟩]⟩

/-- Both parameters of the one name are reported, the one of the tuple's
first member before the other. -/
theorem unsettled_bindArgument_missing :
    unsettled.types.graph.Closed ∧
    bindArgument ⟨21⟩ .noType .null unsettled
      = .ok () { unsettled with
          journal := { unsettled.journal with
            log := ⟨([⟨⟨2⟩, "T"⟩, ⟨⟨1⟩, "T"⟩] : List MarkerKey).map
              (unsettled.config.uninferred .null)⟩ } } := by
  have hg : unsettled.types.graph.Closed := by decide
  obtain ⟨keys, hfirst, -, -, hrun, -⟩ :=
    bindArgument_missing unsettled hg ⟨21⟩ (by decide) .null
  have htrail : ((unsettled.types.graph.parameterTrail ⟨21⟩).filter
      (!unsettled.env.contains ·)).eraseDups
      = [⟨⟨2⟩, "T"⟩, ⟨⟨1⟩, "T"⟩] := by
    decide +kernel
  rw [hfirst.unique (firstOccurrences_eraseDups _), htrail] at hrun
  exact ⟨hg, hrun⟩

end Resolution

end TypeParams
