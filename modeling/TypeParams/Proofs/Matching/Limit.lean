/-
The limit on the depth of a match.

A match with more levels does the same as one with fewer, unless the one
with fewer met its last level (`matchTypes_retraces`); and levels for
all the types with parts that the declared type is made of are enough
not to meet it. This is as for instantiation, but for xml.

# XML in XML

What an xml sequence of xml sequences holds is looked for no deeper than
the settings allow, and nothing is said where the search is cut off. So
the plans are the same only if it is not (`Graph.PeelsWithin`), at least
where the declared type has xml in it. `PlansAlike` collects what is
needed of the declared type and of the actual ones for all plans on the
way to be the same, and there are two ways to have it: there is no xml
in the declared type (`PlansAlike.of_not_holds`), or the search is
nowhere cut off (`PlansAlike.of_shallow`).

# Levels

A match may report anything on the way, so its account has all sorts of
problems in it. A level is retraced if going further down is: everything
else that a level does, it does without regard to how many levels are
left. At the last level the shorter match raises its flag, and then
nothing has to be said of the longer one.
-/
import TypeParams.Proofs.Limit
import TypeParams.Proofs.Matching.Drawn
import TypeParams.Proofs.Matching.Lockstep
import TypeParams.Proofs.Matching.Nesting

namespace TypeParams

-- ================================================================== xml

namespace Graph

variable {g g' : Graph} {P : TypeId → Prop} {id content : TypeId}
variable {depth depth' : Nat}

/-- What is inside of xml in xml, from this type on, is found in so many
steps: it is no xml itself. -/
def PeelsWithin (g : Graph) (depth : Nat) (id : TypeId) : Prop :=
  ∃ content, Matching.xmlContent g depth id = .ok content ∧
    ∀ inner, ¬ g.Holds content inner

/-- So is what any xml below a type holds. -/
def Shallow (g : Graph) (depth : Nat) (id : TypeId) : Prop :=
  ∀ x inner, g.Reaches id x → g.Holds x inner → g.PeelsWithin depth inner

/-- A type that holds nothing is no xml. -/
theorem kind_of_not_holds {node : Node} (hn : g.node? id = some node)
    (h : ∀ inner, ¬ g.Holds id inner) (inner : TypeId) :
    node.kind ≠ .xml inner :=
  fun hkind => h inner ⟨node, hn, hkind⟩

/-- Looking further than where the search ends finds the same. -/
theorem xmlContent_of_le
    (h : Matching.xmlContent g depth id = .ok content)
    (hcontent : ∀ inner, ¬ g.Holds content inner)
    (hle : depth ≤ depth') :
    Matching.xmlContent g depth' id = .ok content := by
  induction depth generalizing id depth' with
  | zero =>
      unfold Matching.xmlContent at h
      obtain ⟨kind, hkind, h⟩ := bind_eq_ok.mp h
      cases pure_eq_ok.mp h
      obtain ⟨node, hn, rfl⟩ := kind_eq_ok.mp hkind
      cases depth' with
      | zero =>
          unfold Matching.xmlContent
          rw [hkind]
          rfl
      | succ depth' =>
          unfold Matching.xmlContent
          rw [hkind]
          cases hform : node.kind with
          | xml inner => exact absurd hform (kind_of_not_holds hn hcontent _)
          | error | leaf | array | tuple | map | record | stream | table
          | function | object | typedesc | union => rfl
  | succ depth ih =>
      obtain ⟨depth', rfl⟩ : ∃ k, depth' = k + 1 :=
        ⟨depth' - 1, by omega⟩
      unfold Matching.xmlContent at h ⊢
      obtain ⟨kind, hkind, h⟩ := bind_eq_ok.mp h
      rw [hkind]
      cases kind with
      | xml inner => exact ih h (by omega)
      | error | leaf | array | tuple | map | record | stream | table
      | function | object | typedesc | union => exact h

/-- So it does where the search ends within so many steps. -/
theorem PeelsWithin.xmlContent_eq (h : g.PeelsWithin depth id)
    (hle : depth ≤ depth') :
    Matching.xmlContent g depth' id = Matching.xmlContent g depth id := by
  obtain ⟨content, hfound, hcontent⟩ := h
  rw [hfound, xmlContent_of_le hfound hcontent hle]

/-- Xml of a set on which two graphs agree holds the same in both. -/
theorem Agreement.holds (h : g.Agreement P g') {inner : TypeId}
    (hid : P id) (hholds : g'.Holds id inner) : g.Holds id inner := by
  obtain ⟨node, hn, hkind⟩ := hholds
  rw [h.agrees.node?_eq h.closed hid] at hn
  exact ⟨node, hn, hkind⟩

/-- The search ends within as many steps in a graph that agrees. -/
theorem PeelsWithin.agrees (h : g.PeelsWithin depth id)
    (hagree : g.Agreement P g') (hid : P id) : g'.PeelsWithin depth id := by
  obtain ⟨content, hfound, hcontent⟩ := h
  have hP := Matching.on_xmlContent hagree.closed hid hfound
  refine ⟨content, ?_, ?_⟩
  · rw [hagree.xmlContent_eq depth hid]
    exact hfound
  · intro inner hinner
    exact hcontent inner (hagree.holds hP hinner)

/-- The types below which no search is cut off are a closed set. -/
theorem Closed.shallow_closedOn (hg : g.Closed) (depth : Nat) :
    g.ClosedOn fun id => id.index < g.size ∧ g.Shallow depth id := by
  intro id hid
  obtain ⟨node, hn, hparts⟩ := hg.closedOn id hid.1
  refine ⟨node, hn, fun c hc => ⟨hparts c hc, ?_⟩⟩
  intro x inner hreach hholds
  have hchild : g.Reaches id c := Reaches.refl.step ⟨node, hn, hc⟩
  exact hid.2 x inner (hchild.trans hreach) hholds

/-- The only xml among the builtin types holds no xml. -/
theorem WellFormed.shallow_builtin (hg : g.WellFormed)
    (hid : id.isBuiltin = true) (depth : Nat) : g.Shallow depth id := by
  have hclosed : g.ClosedOn (·.index < Graph.builtin.size) :=
    Closed.closedOn (g := .builtin) (by decide) |>.extends
      hg.extends_builtin
  have hforms : ∀ node ∈ Graph.builtin.nodes.toList, ∀ inner,
      node.kind = .xml inner → inner = .xmlItems := by
    simp [Graph.builtin, builtinKinds, Node.anonymous]
  intro x inner hreach hholds
  have hx : x.index < Graph.builtin.size :=
    hclosed.reaches (by simpa [TypeId.isBuiltin, size_builtin] using hid)
      hreach
  obtain ⟨node, hn, hkind⟩ := hholds
  rw [hg.extends_builtin.node?_eq hx] at hn
  cases hforms node (mem_nodes_of_node? hn) inner hkind
  have hitems := hg.extends_builtin .xmlItems _ rfl
  refine ⟨.xmlItems, ?_, ?_⟩
  · cases depth <;> (unfold Matching.xmlContent; rw [kind_of_node hitems]; rfl)
  · intro inner hinner
    obtain ⟨node', hn', hkind'⟩ := hinner
    rw [hitems] at hn'
    cases hn'
    cases hkind'

end Graph

namespace Matching

variable {g : Graph} {depth depth' : Nat}

/-- The types in xml are the same with more levels, if the search for
what it holds is not cut off. -/
theorem xmlTypes_eq_of_peels {id : TypeId}
    (h : ∀ inner, g.Holds id inner → g.PeelsWithin depth inner)
    (hle : depth ≤ depth') : xmlTypes g depth' id = xmlTypes g depth id := by
  unfold xmlTypes
  cases hn : g.node? id with
  | none => rw [Graph.kind_of_none hn]; rfl
  | some node =>
      rw [Graph.kind_of_node hn]
      cases hkind : node.kind with
      | xml inner =>
          have hsame := (h inner ⟨node, hn, hkind⟩).xmlContent_eq hle
          show (xmlContent g depth' inner >>= _)
            = (xmlContent g depth inner >>= _)
          rw [hsame]
      | leaf form => cases form <;> rfl
      | error | array | tuple | map | record | stream | table
      | function | object | typedesc | union => rfl

/-- The plan for two types is the same with more levels, if xml does not
meet xml, or union, whose content is deeper than that. -/
theorem plan_eq_of_peels {checker : Checker} {variance : Variance}
    {expected actual : TypeId} {kind actualKind : Kind}
    (hxml : ∀ constraint, kind = .xml constraint →
      (∀ inner, actualKind = .xml inner → g.PeelsWithin depth inner) ∧
      ∀ members, actualKind = .union members → ∀ m ∈ members,
        ∀ inner, g.Holds m inner → g.PeelsWithin depth inner)
    (hle : depth ≤ depth') :
    plan g checker depth' variance expected kind actual actualKind
      = plan g checker depth variance expected kind actual actualKind := by
  unfold plan
  split
  any_goals rfl
  next constraint inner =>
    rw [((hxml constraint rfl).1 inner rfl).xmlContent_eq hle]
  next constraint members =>
    have hfound : members.mapM (xmlTypes g depth')
        = members.mapM (xmlTypes g depth) :=
      mapM_congr fun m hm =>
        xmlTypes_eq_of_peels ((hxml constraint rfl).2 members rfl m hm) hle
    rw [hfound]

-- ================================================================ steps

section Steps

variable {ctx : Context} {s s' : State} {w w' : Workspace}
variable {sorts : ProblemKind → Prop} {roomy : Prop}

/-- Whatever becomes of a marker is on the account. -/
theorem MarkerEnding.tallies {marker actual : TypeId} {key : MarkerKey}
    {variance : Variance} (hsorts : ∀ kind, sorts kind)
    (h : MarkerEnding ctx marker key actual variance s s') :
    s.work.Tallies sorts roomy s'.work := by
  cases h with
  | binds _ _ htell => exact htell.tallies
  | agrees | skipped => exact .refl _
  | clashes _ _ _ hreport => exact hreport.tallies (hsorts _) (by decide)
  | uninferred _ _ hreport => exact hreport.tallies (hsorts _) (by decide)

/-- So are reports along a list. -/
theorem tallies_of_reports {α : Type} {as : List α}
    (hsorts : ∀ kind, sorts kind)
    (h : Sweeps (fun _ w w' => Workspace.Reports w .uninferred w') as
      w w') : w.Tallies sorts roomy w' := by
  induction h with
  | nil => exact .refl _
  | cons hreport _ ih =>
      exact (hreport.tallies (hsorts _) (by decide)).trans ih

/-- Making an actual type reports nothing. -/
theorem Source.resolve_tallies {source : Source} {made : Option TypeId}
    (h : source.resolve w = .ok made w') : w.Tallies sorts roomy w' :=
  .of_eq (congrArg Journal.log (Source.resolve_journal h).1)
    (Source.resolve_journal h).2

end Steps

-- ============================================================ one level

/-- The same settings, but for the number of levels. -/
def Context.allowing (ctx : Context) (levels : Nat) : Context :=
  { ctx with config := { ctx.config with maxDepth := levels } }

/-- A match may report anything. -/
abbrev Retraced (roomy : Prop) (x y : MatchM Unit) (s : State) : Prop :=
  Retraces State.work (fun _ => True) roomy x y s

variable {ctx : Context} {expected actual : TypeId} {variance : Variance}
variable {node : Node} {s : State} {roomy : Prop} {levels : Nat}

/-- Following a plan, if the level below is retraced. -/
theorem followPlan_retraces
    {f f' : TypeId → TypeId → Variance → MatchM Unit} {plan : Plan}
    {I : State → Prop}
    (hturn : ∀ pairings, plan = .pairs pairings → ∀ p ∈ pairings,
      ∀ s made work, I s → p.source.resolve s.work = .ok made work →
      ∀ a ∈ made, Retraced roomy (f p.expected a p.variance)
        (f' p.expected a p.variance) { s with work })
    (hI : ∀ pairings, plan = .pairs pairings → ∀ p ∈ pairings,
      ∀ s s', I s →
      PairMeets (fun e a v s s' => f e a v s = .ok () s') p s s' → I s')
    (hs : I s) :
    Retraced roomy (followPlan f expected actual plan)
      (followPlan f' expected actual plan) s := by
  cases plan with
  | generalUnions | unpaired =>
      apply Retraces.of_eq rfl
      intro u s' hrun
      obtain ⟨work, htell, rfl⟩ := onWork_run.mp hrun
      exact WorkM.tell_tallies htell
  | pairs pairings =>
      refine Retraces.forM ?_ ?_ hs
      · intro p hp s hs
        apply Retraces.bind
        · apply Retraces.of_eq rfl
          intro made s' hrun
          obtain ⟨work, hresolve, rfl⟩ := onWork_run.mp hrun
          exact Source.resolve_tallies hresolve
        intro made s' hrun
        obtain ⟨work, hresolve, rfl⟩ := onWork_run.mp hrun
        cases made with
        | none => exact .pure _
        | some a => exact hturn _ rfl p hp s _ work hs hresolve a rfl
      · intro p hp s s' hs hrun
        apply hI _ rfl p hp s s' hs
        obtain ⟨made, s₁, hmake, hrun⟩ := bind_run.mp hrun
        obtain ⟨work, hresolve, rfl⟩ := onWork_run.mp hmake
        refine ⟨made, work, hresolve, ?_⟩
        cases made with
        | none =>
            obtain ⟨-, rfl⟩ := pure_run.mp hrun
            rfl
        | some a => exact hrun

/-- Going further down, if the plan is the same and following it is
retraced; and if there is a level below where there is room. -/
theorem goDown_retraces
    {descend descend' : Option (TypeId → TypeId → Variance → MatchM Unit)}
    (hlast : descend = none → ¬ roomy)
    (hdown : ∀ f ∈ descend, ∃ f' ∈ descend', ∀ actualNode plan,
      s.graph.node? actual = some actualNode →
      Matching.plan s.graph ctx.checker ctx.config.maxDepth variance
        expected node.kind actual actualNode.kind = .ok plan →
      Matching.plan s.graph ctx.checker levels variance expected node.kind
        actual actualNode.kind = .ok plan ∧
      Retraced roomy (followPlan f expected actual plan)
        (followPlan f' expected actual plan)
        { s with visited := expected :: s.visited }) :
    Retraced roomy (goDown ctx descend expected actual variance node)
      (goDown (ctx.allowing levels) descend' expected actual variance node)
      s := by
  cases descend with
  | none =>
      apply Retraces.of_limit
      intro u s' hrun
      obtain ⟨work, hlimit, rfl⟩ := onWork_run.mp hrun
      exact WorkM.reportLimit_tallies (by simp [Event.level]) hlimit
        trivial (hlast rfl)
  | some f =>
      obtain ⟨f', hf', hplans⟩ := hdown f rfl
      cases hf'
      intro u s' hrun
      obtain ⟨kind, plan, hkind, hplan, hfollow⟩ := goDown_run hrun
      obtain ⟨actualNode, hn, rfl⟩ := Graph.kind_eq_ok.mp hkind
      obtain ⟨hplan', hretraced⟩ := hplans actualNode plan hn hplan
      obtain ⟨htally, hsame⟩ := hretraced u s' hfollow
      refine ⟨htally, ?_⟩
      intro hunmet
      rw [goDown_of_plan hn hplan']
      exact hsame hunmet

/-- One level, if going further down is retraced. -/
theorem matchStep_retraces
    {descend descend' : Option (TypeId → TypeId → Variance → MatchM Unit)}
    (hdown : ∀ node, expected ∉ s.visited →
      s.graph.node? expected = some node → node.kind.isLeaf = false →
      Retraced roomy (goDown ctx descend expected actual variance node)
        (goDown (ctx.allowing levels) descend' expected actual variance
          node) s) :
    Retraced roomy (matchStep ctx descend expected actual variance)
      (matchStep (ctx.allowing levels) descend' expected actual variance)
      s := by
  by_cases hvisited : expected ∈ s.visited
  · apply Retraces.of_eq
    · rw [matchStep_of_visited hvisited, matchStep_of_visited hvisited]
    · intro u s' hrun
      rw [matchStep_of_visited hvisited] at hrun
      obtain ⟨work, htell, rfl⟩ := onWork_run.mp hrun
      exact WorkM.tell_tallies htell
  cases hn : s.graph.node? expected with
  | none =>
      intro u s' hrun
      rw [matchStep_of_missing hvisited hn] at hrun
      cases hrun
  | some node =>
      intro u s' hrun
      rw [matchStep_of_unvisited hvisited hn] at hrun
      rw [matchStep_of_unvisited hvisited hn]
      unfold meet at hrun ⊢
      cases hkey : node.markerKey? with
      | some key =>
          rw [hkey] at hrun
          have hending := bindMarker_ending hrun
          exact ⟨hending.tallies fun _ => trivial, fun _ => hrun⟩
      | none =>
          rw [hkey] at hrun
          by_cases hactual : actual = .noType
          · simp only [if_pos hactual] at hrun ⊢
            obtain ⟨keyed, work, -, hreports, rfl⟩ := reportUnbound_run hrun
            exact ⟨tallies_of_reports (fun _ => trivial) hreports,
              fun _ => hrun⟩
          · simp only [if_neg hactual] at hrun ⊢
            by_cases hleaf : node.kind.isLeaf = true
            · simp only [if_pos hleaf] at hrun ⊢
              obtain ⟨-, rfl⟩ := pure_run.mp hrun
              exact ⟨.refl _, fun _ => rfl⟩
            · simp only [if_neg hleaf] at hrun ⊢
              exact hdown node hvisited hn (Bool.eq_false_iff.mpr hleaf)
                u s' hrun

-- =========================================================== all levels

/-- With other settings for the depth, what the declared type is made of
is planned for alike, whatever it meets that is drawn from the set. -/
structure PlansAlike (g : Graph) (declared : TypeId) (T : TypeId → Prop)
    (ctx : Context) (levels : Nat) : Prop where
  closed : g.ClosedOn T
  builtin : ∀ id, id.isBuiltin = true → T id
  plan_eq : ∀ g' e node a actualNode variance, g.Extends g' →
    g.Reaches declared e → g.node? e = some node → g'.Drawn T a →
    g'.node? a = some actualNode →
    plan g' ctx.checker levels variance e node.kind a actualNode.kind
      = plan g' ctx.checker ctx.config.maxDepth variance e node.kind a
          actualNode.kind

namespace PlansAlike

variable {declared : TypeId}

/-- The same settings. -/
theorem refl (hg : g.WellFormed) (declared : TypeId) (ctx : Context) :
    PlansAlike g declared (·.index < g.size) ctx ctx.config.maxDepth where
  closed := hg.closed.closedOn
  builtin _ hid := hg.builtin_lt hid
  plan_eq _ _ _ _ _ _ _ _ _ _ _ := rfl

/-- More levels, where the declared type has no xml in it. -/
theorem of_not_holds (hg : g.WellFormed)
    (hxml : ∀ x inner, g.Reaches declared x → ¬ g.Holds x inner)
    (hle : ctx.config.maxDepth ≤ levels) :
    PlansAlike g declared (·.index < g.size) ctx levels where
  closed := hg.closed.closedOn
  builtin _ hid := hg.builtin_lt hid
  plan_eq g' e node a actualNode variance hext hreach hn _ _ := by
    refine plan_eq_of_peels ?_ hle
    intro constraint hkind
    exact absurd ⟨node, hn, hkind⟩ (hxml e constraint hreach)

/-- More levels, where the search for what xml holds is not cut off. -/
theorem of_shallow (hg : g.WellFormed)
    (hle : ctx.config.maxDepth ≤ levels) :
    PlansAlike g declared
      (fun id => id.index < g.size ∧ g.Shallow ctx.config.maxDepth id) ctx
      levels where
  closed := hg.closed.shallow_closedOn _
  builtin id hid := ⟨hg.builtin_lt hid, hg.shallow_builtin hid _⟩
  plan_eq g' e node a actualNode variance hext hreach hn ha hactualNode := by
    have hagree : g.Agreement (·.index < g.size) g' :=
      ⟨hg.closed.closedOn, hext.agreesOn _, hg.builtin_lt rfl,
        hg.builtin_lt rfl⟩
    have hpeels : ∀ x inner, x.index < g.size →
        g.Shallow ctx.config.maxDepth x → g'.Holds x inner →
        g'.PeelsWithin ctx.config.maxDepth inner := by
      intro x inner hx hshallow hholds
      have hholds' := hagree.holds hx hholds
      refine (hshallow x inner .refl hholds').agrees hagree ?_
      obtain ⟨xnode, hxn, hkind⟩ := hholds'
      refine hg.closed.closedOn.child hx hxn inner ?_
      rw [hkind]
      exact List.mem_cons_self
    obtain ⟨own, hown, hparts, hself⟩ :=
      ha.node ((hg.closed.shallow_closedOn _).extends hext)
    rw [hactualNode] at hown
    cases hown
    refine plan_eq_of_peels ?_ hle
    intro constraint _
    constructor
    · intro inner hkind
      have ha := hself (by rw [hkind]; rfl)
      exact hpeels a inner ha.1 ha.2 ⟨actualNode, hactualNode, hkind⟩
    · intro members hkind m hm inner hholds
      rw [hkind] at hparts
      obtain ⟨hlt, hshallow⟩ := hparts m hm
      exact hpeels m inner hlt hshallow hholds

end PlansAlike

/-- A pair is followed like any match. -/
theorem PairMeets.follows (hg : g.Closed) {declared : TypeId}
    (hdeclared : declared.index < g.size) {p : Pairing} {s' : State}
    (hs : s.Follows g declared) (hreach : g.Reaches declared p.expected)
    (h : PairMeets (fun e a v s s' =>
      matchTypes ctx depth e a v s = .ok () s') p s s') :
    s'.Follows g declared ∧ s.visited <:+ s'.visited := by
  obtain ⟨made, work, hresolve, hmeets⟩ := h
  have hgrown : ({ s with work } : State).Follows g declared :=
    hs.grow (Source.resolve_extends hresolve) rfl
  cases made with
  | none =>
      cases hmeets
      exact ⟨hgrown, List.suffix_rfl⟩
  | some a =>
      have hmatch : Matches ctx p.expected a p.variance { s with work } s' :=
        ⟨depth, hmeets⟩
      have hfollows := hmatch.follows hg hdeclared hgrown hreach
      exact hfollows

/-- A match with fewer levels is retraced by one with more, if the plans
are alike. It does not meet its last level if that leaves room for all
that it can follow. -/
theorem matchTypes_retraces {declared : TypeId} {T : TypeId → Prop}
    (hg : g.Closed) (hdeclared : declared.index < g.size)
    (halike : PlansAlike g declared T ctx levels) (hle : depth ≤ depth')
    (hs : s.Follows g declared)
    (hroom : roomy → s.Room g declared (depth + 1))
    (hreach : g.Reaches declared expected)
    (hactual : s.graph.Drawn T actual) :
    Retraced roomy (matchTypes ctx depth expected actual variance)
      (matchTypes (ctx.allowing levels) depth' expected actual variance)
      s := by
  induction depth generalizing depth' expected actual variance s with
  | zero =>
      obtain ⟨descend', hform⟩ : ∃ descend',
          matchTypes (ctx.allowing levels) depth' expected actual variance
            = matchStep (ctx.allowing levels) descend' expected actual
                variance := by
        cases depth' <;> exact ⟨_, rfl⟩
      rw [hform]
      refine matchStep_retraces fun node hvisited hn hleaf => ?_
      refine goDown_retraces ?_ (fun f hf => nomatch hf)
      intro _ hroomy
      -- with this one there would be more than there are to follow
      have hfull := (hroom hroomy).visit hg hdeclared hreach hvisited hn
        hleaf
      have hle := hfull.length_le
      have hmany := hfull.room
      omega
  | succ depth ih =>
      obtain ⟨depth', rfl⟩ : ∃ d, depth' = d + 1 :=
        ⟨depth' - 1, by omega⟩
      refine matchStep_retraces fun node hvisited hn hleaf => ?_
      have hvisit := hs.visit hg hdeclared hreach hvisited hn hleaf
      have hn₀ := hn
      rw [node?_of_reaches hg hdeclared hs.graph hreach] at hn₀
      refine goDown_retraces (fun h => nomatch h) fun f hf => ?_
      cases hf
      refine ⟨_, rfl, fun actualNode plan hactualNode hplan => ?_⟩
      refine ⟨(halike.plan_eq _ _ _ _ _ _ hs.graph hreach hn₀ hactual
        hactualNode).trans hplan, ?_⟩
      have hclosed := halike.closed.extends hs.graph
      have hpart : ∀ pairings, plan = .pairs pairings → ∀ p ∈ pairings,
          g.Reaches declared p.expected := by
        intro pairings hpairs p hp
        rw [hpairs] at hplan
        exact hreach.step ⟨node, hn₀, plan_expected hn hplan p hp⟩
      have hroom' : roomy → ({ s with visited := expected :: s.visited } :
          State).Room g declared (depth + 1) := fun hroomy =>
        (hroom hroomy).visit hg hdeclared hreach hvisited hn hleaf
      refine followPlan_retraces (I := fun s => s.Follows g declared ∧
        (roomy → s.Room g declared (depth + 1))) ?_ ?_ ⟨hvisit, hroom'⟩
      · intro pairings hpairs p hp s₁ made work hs₁ hresolve a ha
        rw [hpairs] at hplan
        have hdraws := plan_draws_drawn hclosed (halike.builtin _ rfl)
          (halike.builtin _ rfl) (halike.builtin _ rfl) hactual
          hactualNode hplan
        have hdrawn := Source.resolve_drawn
          (halike.closed.extends hs₁.1.graph) (halike.builtin _ rfl)
          (hdraws p hp) hresolve
        have hgrown : ({ s₁ with work } : State).Follows g declared :=
          hs₁.1.grow (Source.resolve_extends hresolve) rfl
        refine ih (by omega) hgrown ?_ (hpart _ hpairs p hp) (hdrawn a ha)
        intro hroomy
        exact (hs₁.2 hroomy).grow hgrown List.suffix_rfl
      · intro pairings hpairs p hp s₁ s₂ hs₁ hmeets
        obtain ⟨hfollows, hkeeps⟩ := PairMeets.follows hg hdeclared hs₁.1
          (hpart _ hpairs p hp) hmeets
        refine ⟨hfollows, fun hroomy => ?_⟩
        exact (hs₁.2 hroomy).grow hfollows hkeeps

end Matching

end TypeParams
