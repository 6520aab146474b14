/-
What one level of a match can do.

`Ending` lists the ways in which a level can end, and `MarkerEnding`
those of a marker that meets a type. As for instantiation they are read
off the procedure once (`matchStep_ending`, `bindMarker_ending`), and
what holds of all matches is proved by `match_induction`, one case for
each way.

# Following a plan

A level that goes further down follows a plan; `Follows` says what
became of it, pairing by pairing. Each pairing makes its actual type
first, which may add to the workspace, and then goes down from there, so
the pairings are a sweep through states (`Sweeps`) and not a set of
independent matches. What the levels below did is a parameter, `part`,
of all three relations: with the procedure in its place they are what
one step does, and with `Matches` what all levels do.

# No faults

The second part says when a level does not end in a fault, step by step.
A marker causes none if the types that are put into messages can be
written and the checker answers. What a plan needs is left to the
modules that know about plans.

# Known endings

The third part goes the other way: given the node of the declared type,
and whether it was followed before, the level is a known action
(`matchStep_of_unvisited` and the like). With these a match is run
forward, where the first part takes one apart that has been run.
-/
import TypeParams.Matching
import TypeParams.Proofs.Checker
import TypeParams.Proofs.Marker
import TypeParams.Proofs.Workspace

namespace TypeParams.Matching

/-- The nodes that a match sees. -/
def State.graph (s : State) : Graph := s.work.types.graph

/-- An action on the workspace, within a match. -/
theorem onWork_run {α : Type} {action : WorkM α} {s s' : State} {a : α} :
    onWork action s = .ok a s' ↔
      ∃ work, action s.work = .ok a work ∧ s' = { s with work } := by
  unfold onWork
  cases action s.work with
  | error fault work => simp
  | ok b work => grind

/-- It causes no fault in a match if it causes none by itself. -/
theorem onWork_succeeds {α : Type} {action : WorkM α} {s : State}
    (h : Succeeds action s.work) : Succeeds (onWork action) s := by
  obtain ⟨a, work, ha⟩ := h
  exact ⟨a, _, onWork_run.mpr ⟨work, ha, rfl⟩⟩

-- ============================================================== markers

/-- What becomes of a marker that meets a type. -/
inductive MarkerEnding (ctx : Context) (marker : TypeId)
    (key : MarkerKey) (actual : TypeId) (variance : Variance)
    (s : State) : State → Prop where
  | binds {work : Workspace} (hfree : s.env.lookup? key = none)
      (hactual : actual ≠ .noType) (htell : s.work.Tells work) :
      MarkerEnding ctx marker key actual variance s
        { s with work, env := s.env.add ⟨key, marker, actual⟩ }
  | agrees {bound : TypeId} (hbound : s.env.lookup? key = some bound)
      (hactual : actual ≠ .noType)
      (hcompatible :
        ctx.compatible variance bound actual s.graph = .ok true) :
      MarkerEnding ctx marker key actual variance s s
  | clashes {bound : TypeId} {work : Workspace}
      (hbound : s.env.lookup? key = some bound)
      (hactual : actual ≠ .noType)
      (hcompatible :
        ctx.compatible variance bound actual s.graph = .ok false)
      (hreport : s.work.Reports .mismatch work) :
      MarkerEnding ctx marker key actual variance s { s with work }
  /-- A bound parameter meets a missing type. -/
  | skipped {bound : TypeId} (hbound : s.env.lookup? key = some bound)
      (hactual : actual = .noType) :
      MarkerEnding ctx marker key actual variance s s
  /-- A parameter that is not bound meets a missing type. -/
  | uninferred {work : Workspace} (hfree : s.env.lookup? key = none)
      (hactual : actual = .noType)
      (hreport : s.work.Reports .uninferred work) :
      MarkerEnding ctx marker key actual variance s { s with work }

/-- A parameter that cannot be inferred is reported, and nothing else
changes. -/
theorem reportUninferred_run {ctx : Context} {marker : TypeId}
    {s s' : State} {u : Unit}
    (h : reportUninferred ctx marker s = .ok u s') :
    ∃ work, s.work.Reports .uninferred work ∧ s' = { s with work } := by
  obtain ⟨work, hreport, rfl⟩ := onWork_run.mp h
  refine ⟨work, WorkM.report_reports ?_ hreport, rfl⟩
  intro p hp
  obtain ⟨text, -, hp⟩ := bind_eq_ok.mp hp
  cases pure_eq_ok.mp hp
  rfl

/-- What is done where the parameter is bound already. -/
def meetBound (ctx : Context) (marker : TypeId) (key : MarkerKey)
    (actual : TypeId) (variance : Variance) (bound : TypeId) :
    MatchM Unit := do
  if actual ≠ .noType then
    let compatible ←
      onWork (.inspect (ctx.compatible variance bound actual))
    if !compatible then
      onWork (.tell fun g =>
        return .rejected key (← g.render bound) (← g.render actual)
          variance)
      onWork (.report ctx.config ctx.span fun g =>
        return .mismatch (← g.render marker)
          (← g.render bound) (← g.render actual))

/-- What becomes of a marker whose parameter is bound already. -/
theorem meetBound_ending {ctx : Context} {marker : TypeId}
    {key : MarkerKey} {actual : TypeId} {variance : Variance}
    {bound : TypeId} {s s' : State} {u : Unit}
    (hbound : s.env.lookup? key = some bound)
    (h : meetBound ctx marker key actual variance bound s = .ok u s') :
    MarkerEnding ctx marker key actual variance s s' := by
  unfold meetBound at h
  by_cases hactual : actual = .noType
  · rw [if_neg (show ¬ actual ≠ .noType from fun h => h hactual)] at h
    obtain ⟨-, rfl⟩ := pure_run.mp h
    exact .skipped hbound hactual
  · rw [if_pos (show actual ≠ .noType from hactual)] at h
    obtain ⟨b, s₁, htest, h⟩ := bind_run.mp h
    obtain ⟨work, htest', rfl⟩ := onWork_run.mp htest
    obtain ⟨hcompatible, rfl⟩ := WorkM.inspect_run.mp htest'
    cases b with
    | true =>
        obtain ⟨-, rfl⟩ := pure_run.mp h
        exact .agrees hbound hactual hcompatible
    | false =>
        obtain ⟨_, s₁, htell, h⟩ := bind_run.mp h
        obtain ⟨work, htell', rfl⟩ := onWork_run.mp htell
        obtain ⟨work', hreport, rfl⟩ := onWork_run.mp h
        refine .clashes hbound hactual hcompatible
          ((WorkM.tell_run ?_ htell').reports
            (WorkM.report_reports ?_ hreport))
        · intro g e he
          obtain ⟨_, -, he⟩ := bind_eq_ok.mp he
          obtain ⟨_, -, he⟩ := bind_eq_ok.mp he
          cases pure_eq_ok.mp he
          simp [Event.level]
        intro p hp
        obtain ⟨_, -, hp⟩ := bind_eq_ok.mp hp
        obtain ⟨_, -, hp⟩ := bind_eq_ok.mp hp
        obtain ⟨_, -, hp⟩ := bind_eq_ok.mp hp
        cases pure_eq_ok.mp hp
        rfl

/-- What becomes of any marker that meets a type. -/
theorem bindMarker_ending {ctx : Context} {marker : TypeId}
    {key : MarkerKey} {actual : TypeId} {variance : Variance}
    {s s' : State} {u : Unit}
    (h : bindMarker ctx marker key actual variance s = .ok u s') :
    MarkerEnding ctx marker key actual variance s s' := by
  obtain ⟨s₁, s₂, hget, h⟩ := bind_run.mp h
  obtain ⟨rfl, rfl⟩ := get_run.mp hget
  cases hlookup : s.env.lookup? key with
  | none =>
      rw [hlookup] at h
      by_cases hactual : actual = .noType
      · rw [if_pos hactual] at h
        obtain ⟨work, hreport, rfl⟩ := reportUninferred_run h
        exact .uninferred hlookup hactual hreport
      · rw [if_neg hactual] at h
        obtain ⟨_, s₁, htell, h⟩ := bind_run.mp h
        obtain ⟨work, htell', rfl⟩ := onWork_run.mp htell
        cases modify_run.mp h
        refine .binds hlookup hactual (WorkM.tell_run ?_ htell')
        intro g e he
        obtain ⟨_, -, he⟩ := bind_eq_ok.mp he
        cases pure_eq_ok.mp he
        simp [Event.level]
  | some bound =>
      rw [hlookup] at h
      exact meetBound_ending hlookup h

/-- The markers that are reported when a type meets a missing one. -/
def unboundMarkers (env : Bindings) (keyed : List (MarkerKey × TypeId)) :
    List (MarkerKey × TypeId) :=
  firstOfEachKey (keyed.filter fun (key, _) => !env.contains key)

/-- Reporting the markers of a type, in two steps: they are listed, and
then those that are unbound are reported. -/
theorem reportUnbound_eq (ctx : Context) (expected : TypeId) :
    reportUnbound ctx expected = (do
      let keyed ← onWork (.inspect (keyedMarkers · expected))
      let env := (← get).env
      (unboundMarkers env keyed).forM fun (_, marker) =>
        reportUninferred ctx marker) := by
  unfold reportUnbound unboundMarkers
  simp only [← forIn_eq_forM, bind_pure_unit]

/-- Reporting markers changes the workspace only. -/
private theorem sweeps_reports {ctx : Context}
    {reported : List (MarkerKey × TypeId)} {s s' : State}
    (h : Sweeps (fun (keyed : MarkerKey × TypeId) s s' =>
      reportUninferred ctx keyed.2 s = .ok ⟨⟩ s') reported s s') :
    Sweeps (fun _ w w' => Workspace.Reports w .uninferred w') reported
      s.work s'.work ∧ s' = { s with work := s'.work } := by
  induction h with
  | nil => exact ⟨.nil, rfl⟩
  | cons hturn _ ih =>
      obtain ⟨work, hreport, rfl⟩ := reportUninferred_run hturn
      exact ⟨.cons hreport ih.1, ih.2⟩

/-- The markers that are unbound are reported one by one. -/
theorem reportUnbound_run {ctx : Context} {expected : TypeId}
    {s s' : State} {u : Unit}
    (h : reportUnbound ctx expected s = .ok u s') :
    ∃ keyed work, keyedMarkers s.graph expected = .ok keyed ∧
      Sweeps (fun _ w w' => Workspace.Reports w .uninferred w')
        (unboundMarkers s.env keyed) s.work work ∧
      s' = { s with work } := by
  rw [reportUnbound_eq] at h
  obtain ⟨keyed, s₁, hscan, h⟩ := bind_run.mp h
  obtain ⟨work, hscan', rfl⟩ := onWork_run.mp hscan
  obtain ⟨hkeyed, rfl⟩ := WorkM.inspect_run.mp hscan'
  obtain ⟨s₁, s₂, hget, h⟩ := bind_run.mp h
  obtain ⟨rfl, rfl⟩ := get_run.mp hget
  obtain ⟨hsweep, hs'⟩ := sweeps_reports (forM_run.mp h)
  exact ⟨keyed, s'.work, hkeyed, hsweep, hs'⟩

-- ================================================================ levels

/-- What became of one pairing; `part` says what the level below did.
There is nothing to do for a key that is not known. -/
def PairMeets (part : TypeId → TypeId → Variance → State → State → Prop)
    (pairing : Pairing) (s s' : State) : Prop :=
  ∃ source work, pairing.source.resolve s.work = .ok source work ∧
    match source with
    | none => s' = { s with work }
    | some actual =>
        part pairing.expected actual pairing.variance { s with work } s'

/-- What became of a plan. -/
inductive Follows
    (part : TypeId → TypeId → Variance → State → State → Prop) :
    Plan → State → State → Prop where
  | pairs {pairings : List Pairing} {s s' : State}
      (hpairs : Sweeps (PairMeets part) pairings s s') :
      Follows part (.pairs pairings) s s'
  | generalUnions {s : State} {work : Workspace}
      (htell : s.work.Tells work) :
      Follows part .generalUnions s { s with work }
  | unpaired {s : State} {work : Workspace} (htell : s.work.Tells work) :
      Follows part .unpaired s { s with work }

/-- The ways in which one level can end; `part` says what the levels
below did. -/
inductive Ending (ctx : Context)
    (part : TypeId → TypeId → Variance → State → State → Prop)
    (expected actual : TypeId) (variance : Variance) (s : State) :
    State → Prop where
  /-- A type that was followed before. -/
  | again {work : Workspace} (hvisited : expected ∈ s.visited)
      (htell : s.work.Tells work) :
      Ending ctx part expected actual variance s { s with work }
  | marker {node : Node} {key : MarkerKey} {s' : State}
      (hvisited : expected ∉ s.visited)
      (hnode : s.graph.node? expected = some node)
      (hkey : node.markerKey? = some key)
      (hmarker : MarkerEnding ctx expected key actual variance s s') :
      Ending ctx part expected actual variance s s'
  /-- A type that meets a missing one. -/
  | missing {node : Node} {keyed : List (MarkerKey × TypeId)}
      {work : Workspace} (hvisited : expected ∉ s.visited)
      (hnode : s.graph.node? expected = some node)
      (hkey : node.markerKey? = none) (hactual : actual = .noType)
      (hkeyed : keyedMarkers s.graph expected = .ok keyed)
      (hreports : Sweeps (fun _ w w' => Workspace.Reports w .uninferred w')
        (unboundMarkers s.env keyed) s.work work) :
      Ending ctx part expected actual variance s { s with work }
  | leaf {node : Node} (hvisited : expected ∉ s.visited)
      (hnode : s.graph.node? expected = some node)
      (hkey : node.markerKey? = none) (hactual : actual ≠ .noType)
      (hleaf : node.kind.isLeaf = true) :
      Ending ctx part expected actual variance s s
  /-- A type below the last level. -/
  | stopped {node : Node} {work : Workspace}
      (hvisited : expected ∉ s.visited)
      (hnode : s.graph.node? expected = some node)
      (hkey : node.markerKey? = none) (hactual : actual ≠ .noType)
      (hleaf : node.kind.isLeaf = false)
      (hrecords : s.work.Records work)
      (hlimit : work.limitReported = true)
      (htypes : work.types = s.work.types) :
      Ending ctx part expected actual variance s { s with work }
  | followed {node actualNode : Node} {plan : Plan} {s' : State}
      (hvisited : expected ∉ s.visited)
      (hnode : s.graph.node? expected = some node)
      (hkey : node.markerKey? = none) (hactual : actual ≠ .noType)
      (hleaf : node.kind.isLeaf = false)
      (hactualNode : s.graph.node? actual = some actualNode)
      (hplan : Matching.plan s.graph ctx.checker ctx.config.maxDepth
        variance expected node.kind actual actualNode.kind = .ok plan)
      (hfollows : Follows part plan
        { s with visited := expected :: s.visited } s') :
      Ending ctx part expected actual variance s s'

section Mono

variable {part part' : TypeId → TypeId → Variance → State → State → Prop}
variable (hpart : ∀ e a v s s', part e a v s s' → part' e a v s s')

include hpart

theorem PairMeets.mono {pairing : Pairing} {s s' : State}
    (h : PairMeets part pairing s s') : PairMeets part' pairing s s' := by
  obtain ⟨source, work, hresolve, h⟩ := h
  refine ⟨source, work, hresolve, ?_⟩
  cases source with
  | none => exact h
  | some actual => exact hpart _ _ _ _ _ h

/-- What became of a plan, in other words for the parts. -/
theorem Follows.mono {plan : Plan} {s s' : State}
    (h : Follows part plan s s') : Follows part' plan s s' := by
  cases h with
  | pairs hpairs =>
      exact .pairs (hpairs.mono fun _ _ _ hmeets => hmeets.mono hpart)
  | generalUnions htell => exact .generalUnions htell
  | unpaired htell => exact .unpaired htell

/-- How a level ended, in other words for the levels below. -/
theorem Ending.mono {ctx : Context} {expected actual : TypeId}
    {variance : Variance} {s s' : State}
    (h : Ending ctx part expected actual variance s s') :
    Ending ctx part' expected actual variance s s' := by
  cases h with
  | again hvisited htell => exact .again hvisited htell
  | marker hvisited hnode hkey hmarker =>
      exact .marker hvisited hnode hkey hmarker
  | missing hvisited hnode hkey hactual hkeyed hreports =>
      exact .missing hvisited hnode hkey hactual hkeyed hreports
  | leaf hvisited hnode hkey hactual hleaf =>
      exact .leaf hvisited hnode hkey hactual hleaf
  | stopped hvisited hnode hkey hactual hleaf hrecords hlimit htypes =>
      exact .stopped hvisited hnode hkey hactual hleaf hrecords hlimit
        htypes
  | followed hvisited hnode hkey hactual hleaf hactualNode hplan
      hfollows =>
      exact .followed hvisited hnode hkey hactual hleaf hactualNode hplan
        (hfollows.mono hpart)

end Mono

/-- What the procedure does with a plan. -/
theorem followPlan_follows
    {descend : TypeId → TypeId → Variance → MatchM Unit}
    {expected actual : TypeId} {plan : Plan} {s s' : State} {u : Unit}
    (h : followPlan descend expected actual plan s = .ok u s') :
    Follows (fun e a v s s' => descend e a v s = .ok () s') plan s s' := by
  cases plan with
  | generalUnions =>
      obtain ⟨work, htell, rfl⟩ := onWork_run.mp h
      refine .generalUnions (WorkM.tell_run ?_ htell)
      intro g e he
      cases he
      simp [Event.level]
  | unpaired =>
      obtain ⟨work, htell, rfl⟩ := onWork_run.mp h
      refine .unpaired (WorkM.tell_run ?_ htell)
      intro g e he
      obtain ⟨_, -, he⟩ := bind_eq_ok.mp he
      obtain ⟨_, -, he⟩ := bind_eq_ok.mp he
      cases pure_eq_ok.mp he
      simp [Event.level]
  | pairs pairings =>
      refine .pairs ((forM_run.mp h).mono fun pairing s s' hturn => ?_)
      obtain ⟨source, s₁, hsource, hturn⟩ := bind_run.mp hturn
      obtain ⟨work, hresolve, rfl⟩ := onWork_run.mp hsource
      refine ⟨source, work, hresolve, ?_⟩
      cases source with
      | none =>
          obtain ⟨-, rfl⟩ := pure_run.mp hturn
          rfl
      | some actual => exact hturn

/-- What a level does with a type that is neither a marker nor a
leaf. -/
def goDown (ctx : Context)
    (descend : Option (TypeId → TypeId → Variance → MatchM Unit))
    (expected actual : TypeId) (variance : Variance) (node : Node) :
    MatchM Unit :=
  match descend with
  | none =>
      onWork (.reportLimit ctx.config ctx.span .matchingStopped expected)
  | some descend => do
      modify fun s => { s with visited := expected :: s.visited }
      let plan ← onWork (.inspect fun g => do
        plan g ctx.checker ctx.config.maxDepth variance expected
          node.kind actual (← g.kind actual))
      followPlan descend expected actual plan

/-- How a level ends that is to go further down: it is the last one, or
it has followed a plan. -/
theorem goDown_ending {ctx : Context}
    {descend : Option (TypeId → TypeId → Variance → MatchM Unit)}
    {expected actual : TypeId} {variance : Variance} {node : Node}
    {s s' : State} {u : Unit} (hvisited : expected ∉ s.visited)
    (hnode : s.graph.node? expected = some node)
    (hkey : node.markerKey? = none) (hactual : actual ≠ .noType)
    (hleaf : node.kind.isLeaf = false)
    (h : goDown ctx descend expected actual variance node s = .ok u s') :
    Ending ctx (fun e a v s s' => ∃ f ∈ descend, f e a v s = .ok () s')
      expected actual variance s s' := by
  cases descend with
  | none =>
      obtain ⟨work, hlimit, rfl⟩ := onWork_run.mp h
      obtain ⟨hrecords, hflag, htypes⟩ :=
        WorkM.reportLimit_run (by simp [Event.level]) hlimit
      exact .stopped hvisited hnode hkey hactual hleaf hrecords hflag
        htypes
  | some f =>
      obtain ⟨_, s₁, hmodify, h⟩ := bind_run.mp h
      cases modify_run.mp hmodify
      obtain ⟨plan, s₁, hinspect, h⟩ := bind_run.mp h
      obtain ⟨work, hinspect', rfl⟩ := onWork_run.mp hinspect
      obtain ⟨hplan, rfl⟩ := WorkM.inspect_run.mp hinspect'
      obtain ⟨actualKind, hkind, hplan⟩ := bind_eq_ok.mp hplan
      obtain ⟨actualNode, hactualNode, rfl⟩ := Graph.kind_eq_ok.mp hkind
      refine .followed hvisited hnode hkey hactual hleaf hactualNode hplan
        ((followPlan_follows h).mono ?_)
      exact fun e a v s s' hf => ⟨f, rfl, hf⟩

/-- What one level can do, given what the levels below do. -/
theorem matchStep_ending {ctx : Context}
    {descend : Option (TypeId → TypeId → Variance → MatchM Unit)}
    {expected actual : TypeId} {variance : Variance} {s s' : State}
    {u : Unit}
    (h : matchStep ctx descend expected actual variance s = .ok u s') :
    Ending ctx (fun e a v s s' => ∃ f ∈ descend, f e a v s = .ok () s')
      expected actual variance s s' := by
  obtain ⟨s₁, s₂, hget, h⟩ := bind_run.mp h
  obtain ⟨rfl, rfl⟩ := get_run.mp hget
  by_cases hvisited : expected ∈ s.visited
  · rw [if_pos hvisited] at h
    obtain ⟨work, htell, rfl⟩ := onWork_run.mp h
    refine .again hvisited (WorkM.tell_run ?_ htell)
    intro g e he
    cases he
    simp [Event.level]
  · rw [if_neg hvisited] at h
    obtain ⟨node, s₁, hread, h⟩ := bind_run.mp h
    obtain ⟨work, hread', rfl⟩ := onWork_run.mp hread
    obtain ⟨hnode, rfl⟩ := WorkM.node_run.mp hread'
    cases hkey : node.markerKey? with
    | some key =>
        rw [hkey] at h
        exact .marker hvisited hnode hkey (bindMarker_ending h)
    | none =>
        rw [hkey] at h
        by_cases hactual : actual = .noType
        · rw [if_pos hactual] at h
          obtain ⟨keyed, work, hkeyed, hreports, rfl⟩ :=
            reportUnbound_run h
          exact .missing hvisited hnode hkey hactual hkeyed hreports
        · rw [if_neg hactual] at h
          by_cases hleaf : node.kind.isLeaf = true
          · rw [if_pos hleaf] at h
            obtain ⟨-, rfl⟩ := pure_run.mp h
            exact .leaf hvisited hnode hkey hactual hleaf
          · rw [if_neg hleaf] at h
            exact goDown_ending hvisited hnode hkey hactual
              (Bool.eq_false_iff.mpr hleaf) h

-- ============================================================ all levels

/-- Two types are matched, through however many levels. -/
def Matches (ctx : Context) (expected actual : TypeId)
    (variance : Variance) (s s' : State) : Prop :=
  ∃ depth, matchTypes ctx depth expected actual variance s = .ok () s'

/-- What holds of a level if it holds of the levels below it holds of
all matches. -/
theorem match_induction {ctx : Context}
    {motive : TypeId → TypeId → Variance → State → State → Prop}
    (level : ∀ expected actual variance s s',
      Ending ctx (fun e a v s s' =>
        Matches ctx e a v s s' ∧ motive e a v s s')
        expected actual variance s s' →
      motive expected actual variance s s')
    {expected actual : TypeId} {variance : Variance} {s s' : State}
    (h : Matches ctx expected actual variance s s') :
    motive expected actual variance s s' := by
  obtain ⟨depth, h⟩ := h
  induction depth generalizing expected actual variance s s' with
  | zero =>
      refine level _ _ _ _ _ ((matchStep_ending h).mono ?_)
      rintro e a v s s' ⟨f, hf, -⟩
      cases hf
  | succ depth ih =>
      refine level _ _ _ _ _ ((matchStep_ending h).mono ?_)
      rintro e a v s s' ⟨f, hf, hrun⟩
      cases hf
      exact ⟨⟨depth, hrun⟩, ih hrun⟩

-- ============================================================== no faults

/-- A parameter can be reported if its marker can be written. -/
theorem reportUninferred_succeeds {ctx : Context} {marker : TypeId}
    {s : State} (h : Returns (s.graph.render marker)) :
    Succeeds (reportUninferred ctx marker) s :=
  onWork_succeeds (WorkM.report_succeeds (h.bind fun _ _ => .pure _))

/-- A checker that answers can tell whether types agree. -/
theorem compatible_returns {ctx : Context} (hchecker : ctx.checker.Total)
    {g : Graph} (hg : g.WellFormed) (variance : Variance)
    {bound actual : TypeId} (hbound : bound.index < g.size)
    (hactual : actual.index < g.size) :
    Returns (ctx.compatible variance bound actual g) := by
  cases variance with
  | covariant =>
      exact hchecker.assignable g hg actual bound hactual hbound
  | contravariant =>
      exact hchecker.sameType g hg bound actual hbound hactual

/-- A marker whose parameter is bound causes no fault if the types it
puts into messages can be written, and the checker can compare them. -/
theorem meetBound_succeeds {ctx : Context} {marker : TypeId}
    {key : MarkerKey} {actual : TypeId} {variance : Variance}
    {bound : TypeId} {s : State}
    (hmarker : Returns (s.graph.render marker))
    (hactual : Returns (s.graph.render actual))
    (hbound : Returns (s.graph.render bound))
    (hcompatible :
      Returns (ctx.compatible variance bound actual s.graph)) :
    Succeeds (meetBound ctx marker key actual variance bound) s := by
  unfold meetBound
  by_cases hne : actual ≠ .noType
  · rw [if_pos hne]
    refine (onWork_succeeds (WorkM.inspect_succeeds hcompatible)).bind
      fun b s₁ htest => ?_
    obtain ⟨work, htest', rfl⟩ := onWork_run.mp htest
    obtain ⟨-, rfl⟩ := WorkM.inspect_run.mp htest'
    cases b with
    | true => exact .pure _ _
    | false =>
        refine (onWork_succeeds (WorkM.tell_succeeds
          (hbound.bind fun _ _ => hactual.bind fun _ _ => .pure _))).bind
          fun _ s₁ htell => ?_
        obtain ⟨work, htell', rfl⟩ := onWork_run.mp htell
        refine onWork_succeeds (WorkM.report_succeeds ?_)
        rw [WorkM.tell_types htell']
        exact hmarker.bind fun _ _ => hbound.bind fun _ _ =>
          hactual.bind fun _ _ => .pure _
  · rw [if_neg hne]
    exact .pure _ _

/-- A marker that meets a type causes no fault if the types that are put
into words and compared cause none. -/
theorem bindMarker_succeeds {ctx : Context} {marker : TypeId}
    {key : MarkerKey} {actual : TypeId} {variance : Variance}
    {s : State} (hmarker : Returns (s.graph.render marker))
    (hactual : Returns (s.graph.render actual))
    (hbound : ∀ b, s.env.lookup? key = some b →
      Returns (s.graph.render b) ∧
        Returns (ctx.compatible variance b actual s.graph)) :
    Succeeds (bindMarker ctx marker key actual variance) s := by
  refine Succeeds.bind ⟨s, s, rfl⟩ fun s₁ s₂ hget => ?_
  obtain ⟨rfl, rfl⟩ := get_run.mp hget
  cases hlookup : s.env.lookup? key with
  | none =>
      by_cases hne : actual = .noType
      · rw [if_pos hne]
        exact reportUninferred_succeeds hmarker
      · rw [if_neg hne]
        refine (onWork_succeeds (WorkM.tell_succeeds
          (hactual.bind fun _ _ => .pure _))).bind fun _ s₁ _ => ?_
        exact ⟨_, _, rfl⟩
  | some bound =>
      obtain ⟨hwords, hcompatible⟩ := hbound bound hlookup
      exact meetBound_succeeds hmarker hactual hwords hcompatible

-- ======================================================== known endings

/-- What a level does with a type of that node which was not followed
before. -/
def meet (ctx : Context)
    (descend : Option (TypeId → TypeId → Variance → MatchM Unit))
    (expected actual : TypeId) (variance : Variance) (node : Node) :
    MatchM Unit :=
  match node.markerKey? with
  | some key => bindMarker ctx expected key actual variance
  | none =>
      if actual = .noType then reportUnbound ctx expected
      else if node.kind.isLeaf then return
      else goDown ctx descend expected actual variance node

/-- A level at a type that was not followed before. -/
theorem matchStep_of_unvisited {ctx : Context}
    {descend : Option (TypeId → TypeId → Variance → MatchM Unit)}
    {expected : TypeId} {node : Node} {s : State}
    (hvisited : expected ∉ s.visited)
    (hn : s.graph.node? expected = some node) (actual : TypeId)
    (variance : Variance) :
    matchStep ctx descend expected actual variance s
      = meet ctx descend expected actual variance node s := by
  have hread : onWork (.node expected) s = .ok node s :=
    onWork_run.mpr ⟨s.work, WorkM.node_run.mpr ⟨hn, rfl⟩, rfl⟩
  unfold matchStep
  rw [bind_of_run (show (get : MatchM State) s = .ok s s from rfl),
    if_neg hvisited, bind_of_run hread]
  rfl

/-- A level at a type that was followed before ends at once. -/
theorem matchStep_of_visited {ctx : Context}
    {descend : Option (TypeId → TypeId → Variance → MatchM Unit)}
    {expected : TypeId} {s : State} (hvisited : expected ∈ s.visited)
    (actual : TypeId) (variance : Variance) :
    matchStep ctx descend expected actual variance s
      = onWork (.tell fun _ => .ok (.alreadyMatched expected)) s := by
  unfold matchStep
  rw [bind_of_run (show (get : MatchM State) s = .ok s s from rfl),
    if_pos hvisited]

/-- A level at an id without a node ends in a fault. -/
theorem matchStep_of_missing {ctx : Context}
    {descend : Option (TypeId → TypeId → Variance → MatchM Unit)}
    {expected : TypeId} {s : State} (hvisited : expected ∉ s.visited)
    (hn : s.graph.node? expected = none) (actual : TypeId)
    (variance : Variance) :
    matchStep ctx descend expected actual variance s
      = .error (.missing expected s.graph.size) s := by
  have hread : onWork (.node expected) s
      = .error (.missing expected s.graph.size) s := by
    unfold onWork
    rw [WorkM.node_fault hn]
    rfl
  unfold matchStep
  rw [bind_of_run (show (get : MatchM State) s = .ok s s from rfl),
    if_neg hvisited, bind_of_fault hread]

/-- A known plan is followed. -/
theorem goDown_of_plan {ctx : Context}
    {f : TypeId → TypeId → Variance → MatchM Unit}
    {expected actual : TypeId} {variance : Variance}
    {node actualNode : Node} {plan : Plan} {s : State}
    (hactual : s.graph.node? actual = some actualNode)
    (hplan : Matching.plan s.graph ctx.checker ctx.config.maxDepth
      variance expected node.kind actual actualNode.kind = .ok plan) :
    goDown ctx (some f) expected actual variance node s
      = followPlan f expected actual plan
          { s with visited := expected :: s.visited } := by
  have hkind : s.graph.kind actual = .ok actualNode.kind :=
    Graph.kind_eq_ok.mpr ⟨actualNode, hactual, rfl⟩
  have hinspect : onWork (.inspect fun g => do
      Matching.plan g ctx.checker ctx.config.maxDepth variance expected
        node.kind actual (← g.kind actual))
      { s with visited := expected :: s.visited }
      = .ok plan { s with visited := expected :: s.visited } :=
    onWork_run.mpr ⟨s.work, WorkM.inspect_run.mpr
      ⟨bind_eq_ok.mpr ⟨_, hkind, hplan⟩, rfl⟩, rfl⟩
  exact bind_of_run hinspect

/-- A plan that cannot be made ends the match. -/
theorem goDown_of_fault {ctx : Context}
    {f : TypeId → TypeId → Variance → MatchM Unit}
    {expected actual : TypeId} {variance : Variance}
    {node actualNode : Node} {fault : Fault} {s : State}
    (hactual : s.graph.node? actual = some actualNode)
    (hplan : Matching.plan s.graph ctx.checker ctx.config.maxDepth
      variance expected node.kind actual actualNode.kind = .error fault) :
    goDown ctx (some f) expected actual variance node s
      = .error fault { s with visited := expected :: s.visited } := by
  have hkind : s.graph.kind actual = .ok actualNode.kind :=
    Graph.kind_eq_ok.mpr ⟨actualNode, hactual, rfl⟩
  have hask : WorkM.inspect (fun g => do
      Matching.plan g ctx.checker ctx.config.maxDepth variance expected
        node.kind actual (← g.kind actual)) s.work
      = .error fault s.work := by
    refine WorkM.inspect_fault ?_
    change (s.graph.kind actual >>= _) = _
    rw [hkind]
    exact hplan
  have hinspect : onWork (.inspect fun g => do
      Matching.plan g ctx.checker ctx.config.maxDepth variance expected
        node.kind actual (← g.kind actual))
      { s with visited := expected :: s.visited }
      = .error fault { s with visited := expected :: s.visited } := by
    unfold onWork
    rw [hask]
  exact (bind_of_run rfl).trans (bind_of_fault hinspect)

end TypeParams.Matching
