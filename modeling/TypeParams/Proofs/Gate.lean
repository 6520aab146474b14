/-
The gate in front of matching.

A declared type that mentions no parameter is not matched; the gate asks
first (`Resolution.bindArgument`). Nothing would come of the match but
types that nobody asked for, and perhaps a warning that the declared
type is too deep: what a match follows of a declared type are its parts,
and bindings are made, looked up and compared for markers only.

# Blind actions

An action is `Blind` if it does the same whatever the bindings are, be
it that it ends in a fault, and leaves only idle talk behind
(`Workspace.Idled`): nodes on top of those that were there, and warnings
about the depth. A match of a type without markers is blind, level by
level (`matchTypes_blind`). So it keeps the bindings.

# Whether the match ends

It also has an end, if the checker answers and no union is among its own
members: this is known of matches that start with bindings of types that
are there, for instance with none, and the bindings do not matter.
Without the gate a call could fail to end that ends with it, where the
declared type has an error type in it and the argument a union that is
among its own members; that is the one thing that the gate changes.

# Findings

`SameFindings` says what the two have in common, with the gate and
without: the bindings, the errors, and the diagnostics with the two
codes that errors have. Warnings may differ.
-/
import TypeParams.Proofs.Concrete
import TypeParams.Proofs.Matching.Totality
import TypeParams.Proofs.Matching.Twins
import TypeParams.Proofs.Softening

namespace TypeParams

-- ============================================================= warnings

/-- A warning that a type is too deep. -/
def Diagnostic.Cautions (d : Diagnostic) : Prop :=
  d.code = some ProblemKind.tooDeep.code ∧ d.isError = false

/-- There is nothing to soften in a warning. -/
theorem Diagnostic.Cautions.softened {d : Diagnostic} (h : d.Cautions) :
    d.softened.Cautions := by
  unfold Diagnostic.softened
  rw [h.2]
  exact h

/-- The diagnostic that a type is too deep is a warning. -/
theorem Problem.diagnostic_cautions {problem : Problem}
    (h : problem.kind = .tooDeep) (span : Span) :
    (problem.diagnostic span).Cautions := by
  have hcode : (problem.diagnostic span).code
      = some ProblemKind.tooDeep.code := by
    unfold Problem.diagnostic Diagnostic.withSpan
    rw [h]
    split <;> rfl
  refine ⟨hcode, Bool.eq_false_iff.mpr fun herror => ?_⟩
  have herrorCode := (problem.diagnostic_graded span).mp herror
  rw [hcode] at herrorCode
  simp [ProblemKind.code] at herrorCode

namespace Workspace

variable {w w' w'' : Workspace}

/-- The nodes are those that were there, and perhaps more; and the log has
perhaps more warnings about the depth. -/
structure Idled (w w' : Workspace) : Prop where
  nodes : w.types.graph.Extends w'.types.graph
  log : ∃ added, w'.journal.log.entries = w.journal.log.entries ++ added ∧
    ∀ d ∈ added, d.Cautions

/-- Nothing was reported. -/
theorem Idled.of_log (hnodes : w.types.graph.Extends w'.types.graph)
    (hlog : w'.journal.log = w.journal.log) : w.Idled w' := by
  refine ⟨hnodes, [], ?_, fun d hd => nomatch hd⟩
  rw [hlog, List.append_nil]

theorem Idled.refl (w : Workspace) : w.Idled w := .of_log (.refl _) rfl

/-- Idle talk, and more of it. -/
theorem Idled.trans (h : w.Idled w') (h' : w'.Idled w'') :
    w.Idled w'' := by
  obtain ⟨added, hlog, hadded⟩ := h.log
  obtain ⟨added', hlog', hadded'⟩ := h'.log
  refine ⟨h.nodes.trans h'.nodes, added ++ added', ?_, ?_⟩
  · rw [hlog', hlog, List.append_assoc]
  · rw [List.forall_mem_append]
    exact ⟨hadded, hadded'⟩

end Workspace

namespace WorkM

variable {w w' : Workspace} {u : Unit}

/-- Events are idle talk. -/
theorem tell_idled {event : Graph → Except Fault Event}
    (h : WorkM.tell event w = .ok u w') : w.Idled w' := by
  unfold WorkM.tell at h
  split at h
  · split at h
    · cases h
      exact .of_log (.refl _) rfl
    · cases h
  · cases h
    exact .refl _

/-- So is the report that a type is too deep. -/
theorem report_idled {config : Config} {span : Span}
    {problem : Graph → Except Fault Problem}
    (hkind : ∀ p, problem w.types.graph = .ok p → p.kind = .tooDeep)
    (h : WorkM.report config span problem w = .ok u w') :
    w.Idled w' := by
  obtain ⟨p, w₁, hinspect, h⟩ := bind_run.mp h
  obtain ⟨hp, rfl⟩ := inspect_run.mp hinspect
  cases modify_run.mp h
  have hcautions := Problem.diagnostic_cautions (hkind p hp) span
  refine ⟨.refl _, [_], rfl, ?_⟩
  rw [List.forall_mem_singleton]
  split
  · exact hcautions.softened
  · exact hcautions

/-- So is running out of levels. -/
theorem reportLimit_idled {config : Config} {span : Span}
    {event : Nat → Event} {id : TypeId}
    (h : WorkM.reportLimit config span event id w = .ok u w') :
    w.Idled w' := by
  obtain ⟨w₁, w₂, hget, h⟩ := bind_run.mp h
  obtain ⟨rfl, rfl⟩ := get_run.mp hget
  split at h
  · obtain ⟨_, w₁, hmodify, h⟩ := bind_run.mp h
    cases modify_run.mp hmodify
    obtain ⟨_, w₂, htell, h⟩ := bind_run.mp h
    have hflag : w.Idled { w with limitReported := true } :=
      .of_log (.refl _) rfl
    refine (hflag.trans (tell_idled htell)).trans (report_idled ?_ h)
    intro p hp
    obtain ⟨text, -, hp⟩ := bind_eq_ok.mp hp
    cases pure_eq_ok.mp hp
    rfl
  · obtain ⟨-, rfl⟩ := pure_run.mp h
    exact .refl _

end WorkM

namespace Matching

variable {ctx : Context} {w : Workspace} {env : Bindings} {α : Type}
variable {expected actual : TypeId} {variance : Variance} {node : Node}

/-- The same state with other bindings. -/
def State.binding (env : Bindings) (s : State) : State := { s with env }

/-- The action does the same with these bindings, and adds idle talk at
most to what there was in the beginning. -/
abbrev Blind (env : Bindings) (w : Workspace) (x : MatchM α) : Prop :=
  Shadows (State.binding env) (fun s => w.Idled s.work) x x
    fun _ s => w.Idled s.work

-- ============================================================== actions

/-- An action on the workspace is blind. Something may be known of its
result. -/
theorem onWork_shadows {action : WorkM α} {R : α → Prop}
    (h : ∀ w₁ a w₂, w.Idled w₁ → action w₁ = .ok a w₂ →
      w₁.Idled w₂ ∧ R a) :
    Shadows (State.binding env) (fun s => w.Idled s.work)
      (onWork action) (onWork action)
      fun a s => R a ∧ w.Idled s.work := by
  intro s hs
  constructor
  · have hwork : (s.binding env).work = s.work := rfl
    unfold onWork
    rw [hwork]
    cases action s.work <;> rfl
  · intro a s' hrun
    obtain ⟨work, haction, rfl⟩ := onWork_run.mp hrun
    obtain ⟨hidled, ha⟩ := h s.work a work hs haction
    exact ⟨ha, hs.trans hidled⟩

/-- An action on the workspace that leaves idle talk behind is blind. -/
theorem onWork_blind {action : WorkM α}
    (h : ∀ w₁ a w₂, action w₁ = .ok a w₂ → w₁.Idled w₂) :
    Blind env w (onWork action) := by
  intro s hs
  obtain ⟨heq, hpost⟩ := onWork_shadows (R := fun _ => True)
    (fun w₁ a w₂ _ hrun => ⟨h w₁ a w₂ hrun, trivial⟩) s hs
  exact ⟨heq, fun a s' hrun => (hpost a s' hrun).2⟩

/-- Making an actual type adds a node at most. -/
theorem Source.resolve_idled {source : Source} {made : Option TypeId}
    {w w' : Workspace} (h : source.resolve w = .ok made w') : w.Idled w' :=
  .of_log (Source.resolve_extends h)
    (congrArg Journal.log (Source.resolve_journal h).1)

/-- There is nothing to report of a type without markers. -/
theorem reportUnbound_of_concrete {s : State} (hg : w.types.graph.Closed)
    (hexpected : w.types.graph.Concrete expected) (hs : w.Idled s.work) :
    reportUnbound ctx expected s = .ok () s := by
  have hmarkers : s.graph.markers expected = .ok [] :=
    Graph.markers_of_markerFree (hg.closedOn.extends hs.nodes) hexpected.1
      (hexpected.extends hg hs.nodes).2
  have hscan : onWork (.inspect (keyedMarkers · expected)) s = .ok [] s :=
    onWork_run.mpr ⟨s.work, WorkM.inspect_run.mpr
      ⟨bind_eq_ok.mpr ⟨[], hmarkers, rfl⟩, rfl⟩, rfl⟩
  rw [reportUnbound_eq, bind_of_run hscan,
    bind_of_run (show (get : MatchM State) s = .ok s s from rfl)]
  rfl

-- =============================================================== levels

/-- Following a plan, if it pairs types without markers and matching
these is blind. -/
theorem followPlan_blind
    {descend : TypeId → TypeId → Variance → MatchM Unit} {plan : Plan}
    (h : ∀ pairings, plan = .pairs pairings → ∀ p ∈ pairings,
      ∀ a, Blind env w (descend p.expected a p.variance)) :
    Blind env w (followPlan descend expected actual plan) := by
  cases plan with
  | generalUnions | unpaired =>
      exact onWork_blind fun _ _ _ hrun => WorkM.tell_idled hrun
  | pairs pairings =>
      refine .forM fun p hp => ?_
      refine .bind (onWork_blind fun _ _ _ hrun =>
        Source.resolve_idled hrun) fun made => ?_
      cases made with
      | none => exact .pure fun _ hs => hs
      | some a => exact h pairings rfl p hp a

section Levels

variable (hg : w.types.graph.Closed)
variable {descend : Option (TypeId → TypeId → Variance → MatchM Unit)}
variable (hdescend : ∀ f ∈ descend, ∀ e a v, w.types.graph.Concrete e →
  Blind env w (f e a v))

include hg hdescend

/-- Going further down: a plan pairs parts of the declared type, which
have no markers either. -/
theorem goDown_blind (hexpected : w.types.graph.Concrete expected)
    (hn : w.types.graph.node? expected = some node) :
    Blind env w (goDown ctx descend expected actual variance node) := by
  cases descend with
  | none =>
      exact onWork_blind fun _ _ _ hrun => WorkM.reportLimit_idled hrun
  | some f =>
      refine .bind (Q := fun _ s => w.Idled s.work)
        (.update fun s hs => ⟨rfl, hs⟩) fun _ => ?_
      refine .bind (onWork_shadows (R := fun plan => ∀ pairings,
        plan = .pairs pairings → Pairs node.kind.children pairings) ?_) ?_
      · intro w₁ plan w₂ hidled hrun
        obtain ⟨hplan, rfl⟩ := WorkM.inspect_run.mp hrun
        refine ⟨.refl _, ?_⟩
        rintro pairings rfl
        obtain ⟨kind, -, hplan⟩ := bind_eq_ok.mp hplan
        exact plan_expected (hidled.nodes _ _ hn) hplan
      · intro plan s hs
        refine followPlan_blind ?_ s hs.2
        intro pairings hpairs p hp a
        have hpart := hs.1 pairings hpairs p hp
        exact hdescend f rfl _ a _
          (hg.closedOn_concrete.child hexpected hn _ hpart)

/-- What a level does with a type without markers that was not followed
before. -/
theorem meet_blind (hexpected : w.types.graph.Concrete expected)
    (hn : w.types.graph.node? expected = some node) :
    Blind env w (meet ctx descend expected actual variance node) := by
  have hkey : node.markerKey? = none :=
    Node.markerKey?_of_unmarked (hexpected.2 expected .refl node hn)
  unfold meet
  rw [hkey]
  by_cases hmissing : actual = .noType
  · simp only [if_pos hmissing]
    intro s hs
    rw [reportUnbound_of_concrete hg hexpected hs,
      reportUnbound_of_concrete (s := s.binding env) hg hexpected hs]
    refine ⟨rfl, fun u s' hrun => ?_⟩
    cases hrun
    exact hs
  · simp only [if_neg hmissing]
    by_cases hleaf : node.kind.isLeaf = true
    · simp only [if_pos hleaf]
      exact .pure fun _ hs => hs
    · simp only [if_neg hleaf]
      exact goDown_blind hg hdescend hexpected hn

/-- One level, if the levels below it are blind. -/
theorem matchStep_blind (hexpected : w.types.graph.Concrete expected) :
    Blind env w (matchStep ctx descend expected actual variance) := by
  intro s hs
  by_cases hvisited : expected ∈ s.visited
  · have htell : Blind env w
        (onWork (.tell fun _ => .ok (.alreadyMatched expected))) :=
      onWork_blind fun _ _ _ hrun => WorkM.tell_idled hrun
    rw [matchStep_of_visited hvisited,
      matchStep_of_visited (s := s.binding env) hvisited]
    exact htell s hs
  · obtain ⟨node, hn⟩ := Graph.exists_node_of_lt hexpected.1
    have hn' := hs.nodes _ _ hn
    rw [matchStep_of_unvisited hvisited hn',
      matchStep_of_unvisited (s := s.binding env) hvisited hn']
    exact meet_blind hg hdescend hexpected hn s hs

end Levels

/-- A type without markers is matched in the same way whatever the
bindings are. -/
theorem matchTypes_blind (env : Bindings) (hg : w.types.graph.Closed)
    (depth : Nat) (hexpected : w.types.graph.Concrete expected) :
    Blind env w (matchTypes ctx depth expected actual variance) := by
  induction depth generalizing expected actual variance with
  | zero =>
      refine matchStep_blind hg ?_ hexpected
      intro f hf
      cases hf
  | succ depth ih =>
      refine matchStep_blind hg ?_ hexpected
      intro f hf e a v he
      cases hf
      exact ih he

variable {s s' : State}

/-- Matching a type without markers keeps the bindings, and idles. -/
theorem matchTypes_idled (hg : s.graph.Closed) {depth : Nat}
    (hexpected : s.graph.Concrete expected)
    (h : matchTypes ctx depth expected actual variance s = .ok () s') :
    s'.env = s.env ∧ s.work.Idled s'.work := by
  obtain ⟨heq, hpost⟩ := matchTypes_blind (w := s.work) s.env hg depth
    hexpected s (.refl _)
  refine ⟨?_, hpost () s' h⟩
  -- the bindings may be put in place of themselves before and after
  rw [h] at heq
  have hsame : s' = s'.binding s.env :=
    (EStateM.Result.ok.inj (h.symm.trans heq)).2
  rw [hsame]
  rfl

/-- A type without markers can be matched whatever the bindings are,
since it can be if there are none. -/
theorem matchTypes_concrete_succeeds (hg : s.graph.WellFormed)
    (hunlooped : s.graph.Unlooped) (hchecker : ctx.checker.Total)
    (depth : Nat)
    (hexpected : s.graph.Concrete expected)
    (hactual : actual.index < s.graph.size) (variance : Variance) :
    Succeeds (matchTypes ctx depth expected actual variance) s := by
  obtain ⟨u, s', hrun⟩ := matchTypes_succeeds hchecker depth
    (s := s.binding .empty) ⟨hg, fun b hb => nomatch hb⟩ hunlooped
    hexpected.1 hactual variance
  obtain ⟨heq, -⟩ := matchTypes_blind (w := s.work) s.env hg.closed depth
    hexpected (s.binding .empty) (.refl _)
  rw [hrun] at heq
  exact ⟨u, _, heq⟩

end Matching

-- ========================================================== two engines

namespace Resolution

variable {r r' : Resolution} {declared actual : TypeId} {span : Span}

/-- The same parameters are bound to the same types, and the same errors
have been reported. -/
structure SameFindings (r r' : Resolution) : Prop where
  env : r'.env = r.env
  errors : r'.diagnostics.filter (·.isError)
    = r.diagnostics.filter (·.isError)
  uninferred : r'.journal.log.withCode "E-TP001"
    = r.journal.log.withCode "E-TP001"
  mismatched : r'.journal.log.withCode "E-TP002"
    = r.journal.log.withCode "E-TP002"

theorem SameFindings.refl (r : Resolution) : r.SameFindings r :=
  ⟨rfl, rfl, rfl, rfl⟩

/-- Warnings are not among the errors. -/
theorem SameFindings.of_idled (henv : r'.env = r.env)
    (h : r.workspace.Idled r'.workspace) : r.SameFindings r' := by
  obtain ⟨added, hlog, hadded⟩ := h.log
  -- what picks no warning picks the same from both logs
  have hpick : ∀ pick : Diagnostic → Bool,
      (∀ d, d.Cautions → pick d = false) →
      r'.diagnostics.filter pick = r.diagnostics.filter pick := by
    intro pick hnone
    have hempty : added.filter pick = [] := by
      rw [List.filter_eq_nil_iff]
      intro d hd
      rw [hnone d (hadded d hd)]
      exact Bool.false_ne_true
    show r'.workspace.journal.log.entries.filter pick = _
    rw [hlog, List.filter_append, hempty, List.append_nil]
    rfl
  refine ⟨henv, hpick _ fun d hd => hd.2, hpick _ fun d hd => ?_,
    hpick _ fun d hd => ?_⟩
  · rw [hd.1]
    decide
  · rw [hd.1]
    decide

/-- A match that keeps the bindings and idles finds what there was. -/
theorem sameFindings_matchArgument (hg : r.types.graph.Closed)
    (hdeclared : r.types.graph.Concrete declared)
    (h : matchArgument declared actual span r = .ok () r') :
    r.SameFindings r' := by
  obtain ⟨s, hrun, rfl⟩ := matchArgument_eq_ok.mp h
  obtain ⟨henv, hidled⟩ :=
    Matching.matchTypes_idled (s := r.matching) hg hdeclared hrun
  exact .of_idled henv ⟨hidled.nodes, hidled.log⟩

/-- The gate in front of matching hides nothing. Over a closed graph, with
whatever checker, settings and bindings, take a declared type that
mentions no parameter. It is not matched. A match of it would come to an
end, if the checker answers and no union is among its own members, and it
would bind nothing, report nothing but a warning about the depth, and
change no node. And whatever a declared type mentions, with the gate and
without it the same is bound and the same errors are reported. -/
theorem gate_hides_nothing (r : Resolution)
    (hg : r.types.graph.WellFormed) (declared actual : TypeId)
    (hdeclared : declared.index < r.types.graph.size)
    (hactual : actual.index < r.types.graph.size) (span : Span) :
    (r.types.graph.containsMarker declared = .ok false →
      bindArgument declared actual span r = .ok () r ∧
      ∀ variance,
        (r.checker.Total → r.types.graph.Unlooped →
          Succeeds (Matching.matchTypes ⟨r.checker, r.config, span⟩
            r.config.maxDepth declared actual variance) r.matching) ∧
        ∀ s, Matching.matchTypes ⟨r.checker, r.config, span⟩
            r.config.maxDepth declared actual variance r.matching
            = .ok () s →
          s.env = r.env ∧
          (∃ added, s.work.journal.log.entries = r.diagnostics ++ added ∧
            ∀ d ∈ added, d.code = some "W-TP003" ∧ d.isError = false) ∧
          s.work.types.base = r.types.base ∧
          r.types.graph.nodes.toList <+: s.graph.nodes.toList) ∧
    (∀ r', matchArgument declared actual span r = .ok () r' →
      ∃ r₁, bindArgument declared actual span r = .ok () r₁ ∧
        r₁.SameFindings r') ∧
    (r.checker.Total → r.types.graph.Unlooped →
      ∀ r₁, bindArgument declared actual span r = .ok () r₁ →
        ∃ r', matchArgument declared actual span r = .ok () r' ∧
          r₁.SameFindings r') := by
  obtain ⟨mentions, hscan, -⟩ :=
    Graph.containsMarker_answers hg.closed.closedOn hdeclared
  cases mentions with
  | true =>
      -- the gate is open
      refine ⟨fun hnone => ?_, fun r' hmatch => ?_, fun _ _ r₁ hgated => ?_⟩
      · rw [hscan] at hnone
        cases hnone
      · exact ⟨r', bindArgument_eq_ok.mpr (.inr ⟨hscan, hmatch⟩), .refl r'⟩
      · rcases bindArgument_eq_ok.mp hgated with ⟨hnone, -⟩ | ⟨-, hmatch⟩
        · rw [hscan] at hnone
          cases hnone
        · exact ⟨r₁, hmatch, .refl r₁⟩
  | false =>
      have hconcrete := Graph.Concrete.of_containsMarker hscan
      have hgated : bindArgument declared actual span r = .ok () r :=
        bindArgument_eq_ok.mpr (.inl ⟨hscan, rfl⟩)
      have hends : r.checker.Total → r.types.graph.Unlooped →
          ∀ variance, Succeeds
            (Matching.matchTypes ⟨r.checker, r.config, span⟩
              r.config.maxDepth declared actual variance) r.matching :=
        fun hchecker hunlooped => Matching.matchTypes_concrete_succeeds
          (s := r.matching) hg hunlooped hchecker r.config.maxDepth
          hconcrete hactual
      refine ⟨fun _ => ⟨hgated, fun variance => ⟨fun hchecker hunlooped =>
        hends hchecker hunlooped variance, fun s hrun => ?_⟩⟩,
        fun r' hmatch => ?_, fun hchecker hunlooped r₁ hgated' => ?_⟩
      · obtain ⟨henv, hidled⟩ :=
          Matching.matchTypes_idled (s := r.matching) hg.closed hconcrete
            hrun
        exact ⟨henv, hidled.log, (Matching.Matches.keeps ⟨_, hrun⟩).base,
          Graph.extends_iff_prefix.mp hidled.nodes⟩
      · exact ⟨r, hgated,
          sameFindings_matchArgument hg.closed hconcrete hmatch⟩
      · cases hgated.symm.trans hgated'
        obtain ⟨⟨⟩, s, hrun⟩ := hends hchecker hunlooped .covariant
        have hmatch := matchArgument_eq_ok.mpr ⟨s, hrun, rfl⟩
        exact ⟨_, hmatch,
          sameFindings_matchArgument hg.closed hconcrete hmatch⟩

/-- Arrays of arrays of integers (22), and a pair of an array and a string
(24). One level is followed, nothing is assignable to anything else, and
a parameter is bound to a type that is not there. -/
def nested : Resolution where
  checker := .listed []
  config := { maxDepth := 1 }
  types := .on { graph := ⟨Graph.builtin.nodes ++ #[
    .anonymous (.array .int),
    .anonymous (.array ⟨21⟩),
    .anonymous (.array .string),
    .anonymous (.tuple [⟨23⟩, .string] none)]⟩ }
  env := ⟨[⟨⟨⟨1⟩, "T"⟩, ⟨30⟩, ⟨31⟩⟩]⟩

/-- Without the gate, a union is made of the pair for the sake of the
inner arrays, which are then too deep. The binding is not looked at. -/
theorem nested_hides_nothing :
    nested.types.graph.WellFormed ∧ nested.checker.Total ∧
    nested.types.graph.Unlooped ∧
    nested.types.graph.containsMarker ⟨22⟩ = .ok false ∧
    bindArgument ⟨22⟩ ⟨24⟩ .null nested = .ok () nested ∧
    ∃ r', matchArgument ⟨22⟩ ⟨24⟩ .null nested = .ok () r' ∧
      r'.types.graph.size = nested.types.graph.size + 1 ∧
      r'.diagnostics.length = 1 ∧ nested.SameFindings r' := by
  have hg : nested.types.graph.WellFormed := by decide
  have hscan : nested.types.graph.containsMarker ⟨22⟩ = .ok false := by
    decide +kernel
  have htotal : nested.checker.Total :=
    .of_bothWays rfl fun _ _ _ _ _ _ => ⟨_, rfl⟩
  have hunlooped : nested.types.graph.Unlooped := .of_order (by decide)
  have hleft : endsWith (fun _ r =>
      decide (r.types.graph.size = nested.types.graph.size + 1 ∧
        r.diagnostics.length = 1))
      (matchArgument ⟨22⟩ ⟨24⟩ .null nested) = true := by decide +kernel
  obtain ⟨hclosed, -, hopen⟩ := gate_hides_nothing nested hg ⟨22⟩ ⟨24⟩
    (by decide) (by decide) .null
  have hgated := (hclosed hscan).1
  obtain ⟨r', hmatch, hsame⟩ := hopen htotal hunlooped nested hgated
  rw [hmatch] at hleft
  obtain ⟨hsize, hcount⟩ := of_decide_eq_true hleft
  exact ⟨hg, htotal, hunlooped, hscan, hgated, r', hmatch, hsize, hcount,
    hsame⟩

end Resolution

end TypeParams
