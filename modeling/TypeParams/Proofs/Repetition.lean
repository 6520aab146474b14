/-
Binding an argument twice.

An argument that was accepted is accepted again: the parameters are
bound by then, and agree with what they meet
(`Matching.matchTypes_repeats`). What they meet is not always the type
that they are bound to. The second match makes its own unions and
tuples, and a parameter may be bound to one that the first has made.

# What is asked

The first match must have reported nothing, or a parameter might be left
unbound, or bound to a type that another argument clashes with. The
actual type must be whole: a union of missing types is not even
assignable to its double. The checker is the structural one, since
another might tell doubles apart, or compare in a way that depends on
ids.

# What is given

The second match succeeds, reports nothing, and leaves the bindings as
they are. It may add types, the doubles of those that the first has
made, and tell events, since it goes the same way again.
-/
import TypeParams.Proofs.ArgumentOrder
import TypeParams.Proofs.Matching.Repeat

namespace TypeParams.Resolution

open TypeParams.Graph (Flat Whole)
open Matching (Abreast Again)

variable {r r' : Resolution} {declared actual : TypeId} {span : Span}

/-- A match that reports nothing does not meet its last level. -/
theorem quiet_of_diagnostics {s : Matching.State}
    (hrecords : r.workspace.Records s.work)
    (h : s.work.journal.log.entries = r.workspace.journal.log.entries) :
    r.workspace.Quiet s.work := by
  refine ⟨h, ?_⟩
  obtain ⟨-, added, hlog, -, hlimit⟩ := hrecords
  rw [h] at hlog
  have hnone : added = [] := List.append_right_eq_self.mp hlog.symm
  apply Bool.eq_false_iff.mpr
  intro hflag
  rcases hlimit hflag with hstart | ⟨d, hd, -⟩
  · cases hstart
  · rw [hnone] at hd
    cases hd

/-- A match adds flat types only. -/
theorem matching_flat (hready : r.matching.Ready)
    (hchecker : r.checker = .structural)
    (hdeclared : declared.index < r.types.graph.size)
    (hactual : actual.index < r.types.graph.size) {s : Matching.State}
    (h : Matching.matchTypes ⟨r.checker, r.config, span⟩
      r.config.maxDepth declared actual .covariant r.matching
      = .ok () s) : r.types.graph.Flat s.graph := by
  have hstart : Abreast r.types.graph r.env r.matching r.matching := by
    refine ⟨hready, hready, .refl _, .refl _, rfl, fun _ _ hb => hb, ?_⟩
    intro key hkey
    show Option.Rel _ (r.env.lookup? key) (r.env.lookup? key)
    rw [hkey]
    exact .none
  exact ((Matching.matchTypes_abreast hready.graph hchecker _ _ _ _ _ _ _
    hdeclared hstart (.inl ⟨hactual, rfl⟩)).abreast s s h h).left

/-- An argument that was accepted is accepted again. After any calls over
a closed graph, if no type is missing below the actual type and binding
the argument adds no diagnostic, then binding it again adds none, and
leaves the bindings as they are. -/
theorem bindArgument_again (config : Config) (store : Store)
    (listening : Bool) (hg : store.graph.WellFormed)
    (hrun : ValidRun (begin .structural config store listening) r)
    (hdeclared : declared.index < r.types.graph.size)
    (hactual : r.types.graph.Whole actual)
    (h : bindArgument declared actual span r = .ok () r')
    (hsilent : r'.diagnostics = r.diagnostics) :
    ∃ r'', bindArgument declared actual span r' = .ok () r'' ∧
      r''.diagnostics = r'.diagnostics ∧ r''.env = r'.env := by
  have hr : r.InOrder store :=
    (begin_inOrder Checker.structural_total config listening hg).run hrun
  have hchecker : r.checker = .structural := hrun.checker_eq
  have hready : r.matching.Ready := ⟨hr.graph, hr.bound⟩
  rcases bindArgument_eq_ok.mp h with ⟨-, rfl⟩ | ⟨hscan, hmatch⟩
  · exact ⟨r', h, rfl, rfl⟩
  obtain ⟨s, hfirst, rfl⟩ := matchArgument_eq_ok.mp hmatch
  have hmatches : Matching.Matches _ _ _ _ _ s := ⟨_, hfirst⟩
  have honward : Matching.Onward r.matching s := hmatches.onward
  -- the second match starts where the first has ended
  have hstart : Again r.types.graph s r.matching
      { r.withWork s.work with env := s.env }.matching := by
    have hflat : r.types.graph.Flat s.graph :=
      matching_flat hready hchecker hdeclared hactual.lt hfirst
    have hs := (hmatches.ready hready hactual.lt).1
    refine ⟨?_, .refl _, rfl⟩
    refine ⟨⟨hs.graph, hs.bound⟩, hready, hflat, .refl _, rfl,
      fun _ _ hb => hb, ?_⟩
    intro key hkey
    have hfree : r.env.lookup? key = none := by
      apply Option.eq_none_iff_forall_ne_some.mpr
      intro b hb
      have hbound := honward.lookup? hb
      rw [hkey] at hbound
      cases hbound
    show Option.Rel _ (s.env.lookup? key) (r.env.lookup? key)
    rw [hkey, hfree]
    exact .none
  -- it comes to an end because the first one did
  obtain ⟨⟨⟩, t, hsecond⟩ := (Matching.matchTypes_abreast hr.graph hchecker
    r.config.maxDepth _ _ _ _ _ _ hdeclared hstart.abreast
    (.inl ⟨hactual.lt, rfl⟩)).ends.mpr ⟨(), s, hfirst⟩
  have hstill := Matching.matchTypes_repeats hr.graph hchecker _ _ _ _ _ _
    _ _ _ hdeclared hstart (.inl ⟨hactual.lt, rfl⟩) (.inl hactual) hfirst
    hsecond (.refl _) (quiet_of_diagnostics honward.records hsilent)
  refine ⟨_, bindArgument_eq_ok.mpr (.inr ⟨?_, matchArgument_eq_ok.mpr
    ⟨t, hsecond, rfl⟩⟩), congrArg Log.entries hstill.log, hstill.env⟩
  exact (honward.graph.containsMarker_eq hr.graph.closed.closedOn
    hdeclared).trans hscan

/-- A pair for an array: the parameter is bound to a new union, and
compared with another of the same members when the pair is bound
again. -/
theorem twoLists_bindArgument_again :
    twoLists.graph.WellFormed ∧ twoLists.graph.Whole ⟨25⟩ ∧
      ∃ r' r'', bindArgument ⟨23⟩ ⟨25⟩ .null
          (begin .structural .default twoLists false) = .ok () r' ∧
        bindArgument ⟨23⟩ ⟨25⟩ .null r' = .ok () r'' ∧
        r''.diagnostics = r'.diagnostics ∧ r''.env = r'.env ∧
        r'.env.entries = [⟨⟨⟨1⟩, "T"⟩, ⟨21⟩, ⟨27⟩⟩] := by
  have hg : twoLists.graph.WellFormed := by decide
  have hpair : twoLists.graph.Whole ⟨25⟩ := by
    apply Whole.of_children hg.closed (show _ = some _ from rfl)
    · exact Kind.noConfusion
    · intro c hc
      rcases List.mem_pair.mp hc with rfl | rfl
      all_goals exact hg.whole_builtin rfl (by decide)
  have hdecided : endsWith (fun _ r => decide (r.diagnostics = [] ∧
        r.env.entries = [⟨⟨⟨1⟩, "T"⟩, ⟨21⟩, ⟨27⟩⟩]))
      (bindArgument ⟨23⟩ ⟨25⟩ .null
        (begin .structural .default twoLists false)) = true := by
    decide +kernel
  obtain ⟨_, r', hbind, hdecided⟩ := of_endsWith hdecided
  obtain ⟨hsilent, hbound⟩ := of_decide_eq_true hdecided
  have hactual : (begin .structural .default twoLists
      false).types.graph.Whole ⟨25⟩ := by
    rw [show (begin .structural .default twoLists false).types.graph
      = twoLists.graph from Layer.graph_on twoLists]
    exact hpair
  obtain ⟨r'', hagain, hdiagnostics, henv⟩ := bindArgument_again
    .default twoLists false hg .refl (by decide) hactual hbind hsilent
  exact ⟨hg, hpair, r', r'', hbind, hagain, hdiagnostics, henv, hbound⟩

end TypeParams.Resolution
