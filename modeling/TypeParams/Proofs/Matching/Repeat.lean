/-
A match made again.

A match that reports nothing has bound every parameter it met, or found
it bound to what it met. Made again, it takes the same way, and meets
the same types or doubles of them (`Abreast`). Every parameter is bound
by now: to the type that it met then, or to what that was compared with.
So it agrees with what it meets, nothing is bound and nothing reported
(`matchTypes_repeats`).

# Why doubles

Some actual types are made on the way: the union of the values of a
record that is matched as a map, the tuple of a table's key. A second
match makes them again, under new ids, so it cannot be said to meet the
same types. What it makes are twins of what was made before
(`Graph.Twins`), with the same form over the same parts, and the checker
does not tell a type from its twin (`compatible_again`).

# Two matches side by side

The second match starts where the first one ended. While the two are
followed side by side, the first is in a state that leads to that end
(`Onward`), and the second beyond it. `Again` puts the two together at
each moment, and `Still` says of a stretch of the second match that
nothing was bound and nothing reported. `Repeats` is the statement about
a level, for all pairs of states that are so related; a level repeats
what it did if the levels below do, and a match does by induction on its
levels.
-/
import TypeParams.Proofs.Checker
import TypeParams.Proofs.Matching.Doubles
import TypeParams.Proofs.Matching.Lockstep

namespace TypeParams.Matching

open TypeParams.Graph (Drawn Flat Twins Whole)

variable {ctx : Context} {g₀ : Graph} {s s' s'' t t' t'' done : State}
variable {expected actual : TypeId} {variance : Variance}

-- =============================================================== onward

/-- What was there, bound and reported at first is so at the end. -/
structure Onward (s done : State) : Prop where
  graph : s.graph.Extends done.graph
  env : ∃ added, done.env.entries = s.env.entries ++ added
  records : s.work.Records done.work

theorem Onward.refl (s : State) : Onward s s :=
  ⟨.refl _, ⟨[], (List.append_nil _).symm⟩, .refl _⟩

/-- One stretch of a match after another. -/
theorem Onward.trans (h : Onward s s') (h' : Onward s' s'') :
    Onward s s'' := by
  obtain ⟨added, hadded⟩ := h.env
  obtain ⟨added', hadded'⟩ := h'.env
  refine ⟨h.graph.trans h'.graph, ⟨added ++ added', ?_⟩,
    h.records.trans h'.records⟩
  rw [hadded', hadded, List.append_assoc]

/-- What was bound on the way is bound at the end. -/
theorem Onward.lookup? (h : Onward s done) {key : MarkerKey} {b : TypeId}
    (hb : s.env.lookup? key = some b) : done.env.lookup? key = some b := by
  obtain ⟨added, hadded⟩ := h.env
  exact Bindings.lookup?_of_append hadded hb

/-- Making the actual type of a pairing leads onward. -/
theorem Source.resolve_onward {source : Source} {made : Option TypeId}
    {work : Workspace} (h : source.resolve s.work = .ok made work) :
    Onward s { s with work } where
  graph := Source.resolve_extends h
  env := ⟨[], (List.append_nil _).symm⟩
  records := .of_journal (resolve_journal h).1 (resolve_journal h).2

/-- Only the workspace has changed, and not its types. -/
theorem Onward.of_types {work : Workspace}
    (htypes : work.types = s.work.types)
    (hrecords : s.work.Records work) : Onward s { s with work } := by
  refine ⟨?_, ⟨[], (List.append_nil _).symm⟩, hrecords⟩
  show s.work.types.graph.Extends work.types.graph
  rw [htypes]
  exact .refl _

/-- So does binding a parameter, in whichever way it ends. -/
theorem MarkerEnding.onward {marker : TypeId} {key : MarkerKey}
    (h : MarkerEnding ctx marker key actual variance s s') :
    Onward s s' := by
  cases h with
  | @binds work _ _ htell =>
      have htold : Onward s { s with work } :=
        .of_types htell.types htell.records
      exact ⟨htold.graph, ⟨[⟨key, marker, actual⟩], rfl⟩, htold.records⟩
  | agrees | skipped => exact .refl _
  | clashes _ _ _ hreport | uninferred _ _ hreport =>
      exact .of_types hreport.types hreport.records

/-- Reports along a list are recorded. -/
theorem records_of_reports {kind : ProblemKind} {α : Type} {as : List α}
    {w w' : Workspace}
    (h : Sweeps (fun _ w w' => Workspace.Reports w kind w') as w w') :
    w.Records w' := by
  induction h with
  | nil => exact .refl _
  | cons hreport _ ih => exact hreport.records.trans ih

/-- A pair leads onward if its part does. -/
theorem PairMeets.onward {part : TypeId → TypeId → Variance → State →
      State → Prop} (hpart : ∀ e a v s s', part e a v s s' → Onward s s')
    {pairing : Pairing} (h : PairMeets part pairing s s') :
    Onward s s' := by
  obtain ⟨made, work, hresolve, hmeets⟩ := h
  have hmade := Source.resolve_onward hresolve
  cases made with
  | none =>
      cases hmeets
      exact hmade
  | some a => exact hmade.trans (hpart _ _ _ _ _ hmeets)

/-- So do pairs, one after the other. -/
theorem onward_of_pairs {part : TypeId → TypeId → Variance → State →
      State → Prop} (hpart : ∀ e a v s s', part e a v s s' → Onward s s')
    {pairings : List Pairing}
    (h : Sweeps (PairMeets part) pairings s s') : Onward s s' := by
  induction h with
  | nil => exact .refl _
  | cons hmeets _ ih => exact (hmeets.onward hpart).trans ih

/-- Matches lead onward. -/
theorem Matches.onward (h : Matches ctx expected actual variance s s') :
    Onward s s' := by
  refine match_induction (motive := fun _ _ _ s s' => Onward s s') ?_ h
  intro expected actual variance s s' hend
  cases hend with
  | again _ htell => exact .of_types htell.types htell.records
  | marker _ _ _ hmarker => exact hmarker.onward
  | missing _ _ _ _ _ hreports =>
      exact .of_types (types_of_reports hreports)
        (records_of_reports hreports)
  | leaf => exact .refl _
  | stopped _ _ _ _ _ hrecords _ htypes =>
      exact .of_types htypes hrecords
  | followed _ _ _ _ _ _ _ hfollows =>
      have hvisited : Onward s
          { s with visited := expected :: s.visited } :=
        ⟨.refl _, ⟨[], (List.append_nil _).symm⟩, .refl _⟩
      apply hvisited.trans
      cases hfollows with
      | generalUnions htell => exact .of_types htell.types htell.records
      | unpaired htell => exact .of_types htell.types htell.records
      | pairs hpairs =>
          exact onward_of_pairs (fun _ _ _ _ _ h => h.2) hpairs

-- ================================================================ again

/-- Two matches side by side, the second of which started where the
first will end. -/
structure Again (g₀ : Graph) (done s t : State) : Prop where
  abreast : Abreast g₀ done.env t s
  graph : done.graph.Extends t.graph
  env : t.env = done.env

/-- Nothing was bound and nothing was reported. -/
structure Still (t t' : State) : Prop where
  graph : t.graph.Extends t'.graph
  env : t'.env = t.env
  log : t'.work.journal.log = t.work.journal.log
  limitReported : t'.work.limitReported = t.work.limitReported

theorem Still.refl (t : State) : Still t t := ⟨.refl _, rfl, rfl, rfl⟩

/-- Two silent stretches, one after the other. -/
theorem Still.trans (h : Still t t') (h' : Still t' t'') : Still t t'' :=
  ⟨h.graph.trans h'.graph, h'.env.trans h.env, h'.log.trans h.log,
    h'.limitReported.trans h.limitReported⟩

/-- Events do not break the silence. -/
theorem Still.of_tells {work : Workspace} (h : t.work.Tells work) :
    Still t { t with work } := by
  refine ⟨?_, rfl, h.log, h.limitReported⟩
  show t.work.types.graph.Extends work.types.graph
  rw [h.types]
  exact .refl _

/-- The next step of either match, if the second keeps still. -/
theorem Again.next (h : Again g₀ done s t)
    (habreast : Abreast g₀ done.env t' s') (hstill : Still t t') :
    Again g₀ done s' t' :=
  ⟨habreast, h.graph.trans hstill.graph, hstill.env.trans h.env⟩

/-- Making an actual type is silent, and binds nothing. -/
theorem Source.resolve_still {source : Source} {made : Option TypeId}
    {work : Workspace} (h : source.resolve t.work = .ok made work) :
    Still t { t with work } where
  graph := Source.resolve_extends h
  env := rfl
  log := congrArg Journal.log (resolve_journal h).1
  limitReported := (resolve_journal h).2

/-- Whether a type agrees with what a parameter is bound to, as the
relation has it. -/
theorem compatible_iff (hchecker : ctx.checker = .structural) {g : Graph}
    (hg : g.WellFormed) {bound a : TypeId} (hbound : bound.index < g.size)
    (ha : a.index < g.size) :
    ctx.compatible variance bound a g = .ok true ↔
      g.Assignable a bound ∧
        (variance = .contravariant → g.Assignable bound a) := by
  unfold Context.compatible
  rw [hchecker]
  cases variance with
  | covariant =>
      obtain ⟨answer, hanswer, hiff⟩ :=
        Checker.structural_answers hg ha hbound
      simp only [hanswer, Except.ok.injEq, hiff, reduceCtorEq,
        false_implies, and_true]
  | contravariant =>
      simp only [forall_const]
      rw [Checker.structural_sameType_iff hg.closed.closedOn
        (hg.builtin_lt rfl) (hg.builtin_lt rfl) hbound ha]
      exact and_comm

variable (hg₀ : g₀.WellFormed)
include hg₀

/-- A type agrees with the double that the parameter was bound to, and
with what its double agreed with. -/
theorem compatible_again (hchecker : ctx.checker = .structural)
    (hs : g₀.Flat s.graph) (ht : g₀.Flat t.graph)
    (hst : s.graph.Extends t.graph) {a b bound : TypeId}
    (hab : Twins g₀ t.graph s.graph b a)
    (hdrawn : s.graph.Drawn g₀.Whole a)
    (hbound : bound = a ∨ bound.index < s.graph.size ∧
      ctx.compatible variance bound a s.graph = .ok true) :
    ctx.compatible variance bound b t.graph = .ok true := by
  have hg := hs.wellFormed hg₀
  have hg' := ht.wellFormed hg₀
  have hdoubles : t.graph.Doubles b a :=
    (hab.mono (.refl _) hst).doubles hg₀.closed ht.nodes
      (hdrawn.extends hst)
  obtain ⟨node, hnb, hna, -⟩ := hab.node hg₀.closed ht hs
  have ha := Graph.index_lt_of_node? hna
  have hb := Graph.index_lt_of_node? hnb
  rcases hbound with rfl | ⟨hlt, hagreed⟩
  · rw [compatible_iff hchecker hg' (hst.lt ha) hb]
    exact ⟨hdoubles.assignable hg'.closed,
      fun _ => hdoubles.symm.assignable hg'.closed⟩
  · rw [compatible_iff hchecker hg hlt ha] at hagreed
    rw [compatible_iff hchecker hg' (hst.lt hlt) hb]
    have hgrown : ∀ {x y : TypeId}, x.index < s.graph.size →
        y.index < s.graph.size → s.graph.Assignable x y →
        t.graph.Assignable x y :=
      fun hx hy => .agrees hg.closed.closedOn (hg.builtin_lt rfl)
        (hg.builtin_lt rfl) (fun _ _ _ hn => hst _ _ hn) hx hy
    refine ⟨hdoubles.symm.source hg'.closed (hgrown ha hlt hagreed.1), ?_⟩
    intro hvariance
    exact hdoubles.symm.target hg'.closed
      (hgrown hlt ha (hagreed.2 hvariance))

/-- What is drawn from whole types is not missing. -/
theorem ne_noType_of_drawn (hs : g₀.Flat s.graph) {a : TypeId}
    (hdrawn : s.graph.Drawn g₀.Whole a) : a ≠ .noType := by
  rcases hdrawn with hwhole | ⟨node, hn, hgathers, -⟩
  · exact hwhole.ne_noType hg₀
  · intro heq
    subst heq
    rw [hs.nodes _ _ (hg₀.extends_builtin _ _ rfl)] at hn
    cases hn
    cases hgathers

/-- A parameter that meets a double of what it met agrees with it. -/
theorem MarkerEnding.repeats (hchecker : ctx.checker = .structural)
    (h : Again g₀ done s t) {marker a b : TypeId} {key : MarkerKey}
    (hab : Twins g₀ t.graph s.graph b a)
    (hdrawn : s.graph.Drawn g₀.Whole a)
    (hs : MarkerEnding ctx marker key a variance s s')
    (ht : MarkerEnding ctx marker key b variance t t')
    (hdone : Onward s' done) (hquiet : s.work.Quiet s'.work) :
    t' = t := by
  have hst := (hs.onward.trans hdone).graph.trans h.graph
  have hne := ne_noType_of_drawn hg₀ h.abreast.right hdrawn
  have hlook := hs.lookup? key
  rw [met, if_pos ⟨rfl, hne⟩] at hlook
  have hmet : ∃ bound, t.env.lookup? key = some bound ∧
      (bound = a ∨ bound.index < s.graph.size ∧
        ctx.compatible variance bound a s.graph = .ok true) := by
    rw [h.env]
    cases hs with
    | binds hfree =>
        rw [hfree, Option.none_or] at hlook
        exact ⟨a, hdone.lookup? hlook, .inl rfl⟩
    | agrees hfound _ hcompatible =>
        exact ⟨_, hdone.lookup? hfound,
          .inr ⟨h.abreast.readyRight.lookup? hfound, hcompatible⟩⟩
    | clashes _ _ _ hreport | uninferred _ _ hreport =>
        exact absurd hquiet hreport.not_quiet
    | skipped _ hmissing => exact absurd hmissing hne
  obtain ⟨bound, hbound, hor⟩ := hmet
  have hagrees := compatible_again hg₀ hchecker h.abreast.right
    h.abreast.left hst hab hdrawn hor
  cases ht with
  | agrees | skipped => rfl
  | binds hfree | uninferred hfree =>
      rw [hbound] at hfree
      cases hfree
  | clashes hfound _ hcompatible =>
      rw [hbound, Option.some.injEq] at hfound
      rw [← hfound, hagrees] at hcompatible
      cases hcompatible

-- =============================================================== levels

/-- What a level does with doubles of what it met, it does in silence,
if it did so before. -/
def Repeats (g₀ : Graph) (done : State)
    (descend : TypeId → TypeId → Variance → MatchM Unit) : Prop :=
  ∀ e a b v s t s' t', e.index < g₀.size → Again g₀ done s t →
    Twins g₀ t.graph s.graph b a → s.graph.Drawn g₀.Whole a →
    descend e a v s = .ok () s' → descend e b v t = .ok () t' →
    Onward s' done → s.work.Quiet s'.work → Still t t'

/-- A pair makes a double of what it made before, and its part meets
that. -/
theorem Again.pair {f : TypeId → TypeId → Variance → MatchM Unit}
    (hrun : ∀ e a v s s', f e a v s = .ok () s' → Matches ctx e a v s s')
    (habreast : KeepsAbreast g₀ done.env f) (hf : Repeats g₀ done f)
    {pairing : Pairing} (hpart : pairing.expected.index < g₀.size)
    (hids : ∀ id ∈ pairing.source.ids, g₀.Whole id)
    (h : Again g₀ done s t)
    (hs : PairMeets (fun e a v s s' => f e a v s = .ok () s') pairing s s')
    (ht : PairMeets (fun e a v s s' => f e a v s = .ok () s') pairing t t')
    (hdone : Onward s' done) (hquiet : s.work.Quiet s'.work) :
    Still t t' ∧ Again g₀ done s' t' := by
  obtain ⟨made, work, hresolve, hpair⟩ := hs
  obtain ⟨made', work', hresolve', hpair'⟩ := ht
  obtain ⟨hgrown, htwins⟩ := h.abreast.resolve hg₀
    (fun id hid => (hids id hid).lt) hresolve' hresolve
  have hstill := Source.resolve_still hresolve'
  have hmade : Again g₀ done { s with work } { t with work := work' } :=
    h.next hgrown hstill
  cases htwins with
  | none =>
      cases hpair
      cases hpair'
      exact ⟨hstill, hmade⟩
  | @some b a htwins =>
      have hdrawn := Source.resolve_drawn
        (hg₀.closed.whole_closedOn.extends h.abreast.right.nodes)
        (hg₀.whole_builtin rfl (by decide)) hids hresolve a rfl
      have hmatch := hrun _ _ _ _ _ hpair
      have hquiet' := (hquiet.split
        (Source.resolve_onward hresolve).records hmatch.onward.records).2
      have hstill' := hf _ _ _ _ _ _ _ _ hpart hmade htwins hdrawn
        hpair hpair' hdone hquiet'
      have habreast' := (habreast _ _ _ _ _ _ hpart hgrown
        htwins).abreast _ _ hpair' hpair
      exact ⟨hstill.trans hstill', hmade.next habreast' hstill'⟩

/-- Pairs that are made again, one after the other: each leaves the two
matches side by side for the next. -/
theorem Again.pairs {f : TypeId → TypeId → Variance → MatchM Unit}
    (hrun : ∀ e a v s s', f e a v s = .ok () s' → Matches ctx e a v s s')
    (habreast : KeepsAbreast g₀ done.env f) (hf : Repeats g₀ done f)
    {pairings : List Pairing}
    (hparts : ∀ p ∈ pairings, p.expected.index < g₀.size)
    (hdraws : Draws g₀.Whole pairings) (h : Again g₀ done s t)
    (hs : Sweeps (PairMeets fun e a v s s' => f e a v s = .ok () s')
      pairings s s')
    (ht : Sweeps (PairMeets fun e a v s s' => f e a v s = .ok () s')
      pairings t t')
    (hdone : Onward s' done) (hquiet : s.work.Quiet s'.work) :
    Still t t' := by
  have hmatches : ∀ e a v s s', f e a v s = .ok () s' → Onward s s' :=
    fun _ _ _ _ _ hmeets => (hrun _ _ _ _ _ hmeets).onward
  induction pairings generalizing s t with
  | nil =>
      cases ht
      exact .refl _
  | cons pairing pairings ih =>
      obtain ⟨hpart, hparts⟩ := List.forall_mem_cons.mp hparts
      obtain ⟨hids, hdraws⟩ := List.forall_mem_cons.mp hdraws
      obtain _ | ⟨hmeets, hs⟩ := hs
      obtain _ | ⟨hmeets', ht⟩ := ht
      have honward := onward_of_pairs hmatches hs
      obtain ⟨hquiet, hquiet'⟩ := hquiet.split
        (hmeets.onward hmatches).records honward.records
      obtain ⟨hstill, hnext⟩ := h.pair hg₀ hrun habreast hf hpart hids
        hmeets hmeets' (honward.trans hdone) hquiet
      exact hstill.trans (ih hparts hdraws hnext hs ht hquiet')

/-- A plan that is followed again keeps still. Pairings do if the parts
do, and the two other plans tell an event and no more. -/
theorem Again.followPlan {f : TypeId → TypeId → Variance → MatchM Unit}
    (hrun : ∀ e a v s s', f e a v s = .ok () s' → Matches ctx e a v s s')
    (habreast : KeepsAbreast g₀ done.env f) (hf : Repeats g₀ done f)
    {plan : Plan} (hpairs : ∀ pairings, plan = .pairs pairings →
      (∀ p ∈ pairings, p.expected.index < g₀.size) ∧
        Draws g₀.Whole pairings)
    (h : Again g₀ done s t) {a b : TypeId}
    (hs : followPlan f expected a plan s = .ok () s')
    (ht : followPlan f expected b plan t = .ok () t')
    (hdone : Onward s' done) (hquiet : s.work.Quiet s'.work) :
    Still t t' := by
  cases followPlan_follows ht with
  | generalUnions htell => exact .of_tells htell
  | unpaired htell => exact .of_tells htell
  | pairs hsweep' =>
      cases followPlan_follows hs with
      | pairs hsweep =>
          obtain ⟨hparts, hdraws⟩ := hpairs _ rfl
          exact h.pairs hg₀ hrun habreast hf hparts hdraws hsweep hsweep'
            hdone hquiet

/-- Going down again keeps still. The form of the declared type is the
same, and the actual types are twins, so both matches read off the same
plan. -/
theorem Again.goDown (hchecker : ctx.checker = .structural)
    {descend : Option (TypeId → TypeId → Variance → MatchM Unit)}
    (hdescend : ∀ f ∈ descend,
      (∀ e a v s s', f e a v s = .ok () s' → Matches ctx e a v s s') ∧
        KeepsAbreast g₀ done.env f ∧ Repeats g₀ done f)
    {a b : TypeId} {node : Node} (hexpected : expected.index < g₀.size)
    (hnode : g₀.node? expected = some node) (h : Again g₀ done s t)
    (hab : Twins g₀ t.graph s.graph b a)
    (hdrawn : s.graph.Drawn g₀.Whole a)
    (hs : goDown ctx descend expected a variance node s = .ok () s')
    (ht : goDown ctx descend expected b variance node t = .ok () t')
    (hdone : Onward s' done) (hquiet : s.work.Quiet s'.work) :
    Still t t' := by
  cases descend with
  | none =>
      obtain ⟨work, hlimit, rfl⟩ := onWork_run.mp hs
      have hflag := (WorkM.reportLimit_run (by simp [Event.level])
        hlimit).2.1
      -- the first match would have reported its last level
      rw [hquiet.limitReported] at hflag
      cases hflag
  | some f =>
      obtain ⟨hrun, habreast, hf⟩ := hdescend f rfl
      obtain ⟨kind, plan, hkind, hplan, ht⟩ := goDown_run ht
      obtain ⟨kind', plan', hkind', hplan', hs⟩ := goDown_run hs
      rw [hchecker] at hplan hplan'
      obtain ⟨hsame, hplans⟩ := plan_twins hg₀ h.abreast.left
        h.abreast.right hexpected hnode hab hkind ctx.config.maxDepth
        variance
      rw [hkind'] at hsame
      cases hsame
      rw [hplans, hplan] at hplan'
      cases hplan'
      rw [← hplans] at hplan
      have hentered : Again g₀ done
          { s with visited := expected :: s.visited }
          { t with visited := expected :: t.visited } :=
        ⟨h.abreast.enter expected, h.graph, h.env⟩
      have hstill : Still { t with visited := expected :: t.visited } t' := by
        refine hentered.followPlan hg₀ hrun habreast hf ?_ hs ht hdone
          hquiet
        intro pairings hpairs
        subst hpairs
        obtain ⟨actualNode, hn, rfl⟩ := Graph.kind_eq_ok.mp hkind'
        refine ⟨fun p hp => ?_, ?_⟩
        · exact hg₀.closed.closedOn.child hexpected hnode _
            (plan_expected (h.abreast.right.nodes _ _ hnode) hplan p hp)
        · exact plan_draws_drawn
            (hg₀.closed.whole_closedOn.extends h.abreast.right.nodes)
            (hg₀.whole_builtin rfl (by decide))
            (hg₀.whole_builtin rfl (by decide))
            (hg₀.whole_builtin rfl (by decide)) hdrawn hn hplan
      exact ⟨hstill.graph, hstill.env, hstill.log, hstill.limitReported⟩

/-- One level repeats what it did if the levels below do. -/
theorem Again.matchStep (hchecker : ctx.checker = .structural)
    {descend : Option (TypeId → TypeId → Variance → MatchM Unit)}
    (hdescend : ∀ f ∈ descend,
      (∀ e a v s s', f e a v s = .ok () s' → Matches ctx e a v s s') ∧
        KeepsAbreast g₀ done.env f ∧ Repeats g₀ done f) :
    Repeats g₀ done (matchStep ctx descend) := by
  intro expected a b variance s t s' t' hexpected h hab hdrawn hs ht
    hdone hquiet
  obtain ⟨node, hnode⟩ := Graph.exists_node_of_lt hexpected
  by_cases hvisited : expected ∈ t.visited
  · rw [matchStep_of_visited hvisited] at ht
    obtain ⟨work, htell, rfl⟩ := onWork_run.mp ht
    exact .of_tells (WorkM.tell_run
      (fun _ _ he => Except.ok.inj he ▸ by simp [Event.level]) htell)
  · have hvisited' : expected ∉ s.visited := by
      rw [h.abreast.visited]
      exact hvisited
    have hne := ne_noType_of_drawn hg₀ h.abreast.right hdrawn
    have hne' := mt (hab.eq_noType hg₀).mp hne
    rw [matchStep_of_unvisited hvisited'
      (h.abreast.right.nodes _ _ hnode)] at hs
    rw [matchStep_of_unvisited hvisited
      (h.abreast.left.nodes _ _ hnode)] at ht
    unfold meet at hs ht
    cases hkey : node.markerKey? with
    | some key =>
        rw [hkey] at hs ht
        cases MarkerEnding.repeats hg₀ hchecker h hab hdrawn
          (bindMarker_ending hs) (bindMarker_ending ht) hdone hquiet
        exact .refl _
    | none =>
        rw [hkey] at hs ht
        simp only [if_neg hne, if_neg hne'] at hs ht
        by_cases hleaf : node.kind.isLeaf = true
        · simp only [if_pos hleaf] at ht
          obtain ⟨-, rfl⟩ := pure_run.mp ht
          exact .refl _
        · simp only [if_neg hleaf] at hs ht
          exact h.goDown hg₀ hchecker hdescend hexpected hnode hab hdrawn
            hs ht hdone hquiet

/-- A match that was silent is silent when it is made again. -/
theorem matchTypes_repeats (hchecker : ctx.checker = .structural)
    (depth : Nat) : Repeats g₀ done (matchTypes ctx depth) := by
  induction depth with
  | zero =>
      apply Again.matchStep hg₀ hchecker
      intro f hf
      cases hf
  | succ depth ih =>
      apply Again.matchStep hg₀ hchecker
      intro f hf
      cases hf
      exact ⟨fun _ _ _ _ _ hrun => ⟨depth, hrun⟩,
        matchTypes_abreast hg₀ hchecker depth, ih⟩

end TypeParams.Matching
