/-
What a match adds to its graph and to the bindings.

A match that starts from bound types and an actual type of some closed
set stays with that set and what it adds itself (`Matches.stays`): a
plan draws on the actual type only, what it draws on is put together to
unmarked types, and parameters are bound to nothing else.

# The set

What is learned depends on the set that is chosen. With all the types
that are there, the graph stays closed and bound types are there; with
those that are free of markers, bound types are free of markers. The
declared type need not be in the set, and usually is not: it is full of
markers, and no part of it is ever bound or made into anything.

`State.Within` is the invariant, on what has been added and what has
been bound, and `Stays` says that a match keeps it, along with the nodes
that were there. One level does, with one case for each way in which it
can end.
-/
import TypeParams.Proofs.Matching.Sources

namespace TypeParams.Matching

open TypeParams.Graph (Adds Admits)

variable {ctx : Context} {g₀ : Graph} {T : TypeId → Prop}

/-- What has been added or bound is made of types of the set. -/
structure State.Within (g₀ : Graph) (T : TypeId → Prop) (s : State) :
    Prop where
  adds : Adds g₀ T s.graph
  bound : ∀ b ∈ s.env.entries, Admits g₀ T s.graph b.bound

-- ============================================================= one level

/-- Where the types stay the same, so does what they are made of. -/
theorem State.Within.of_types {s : State} {work : Workspace}
    (h : s.Within g₀ T) (htypes : work.types = s.work.types) :
    ({ s with work } : State).Within g₀ T ∧
      s.graph.Extends work.types.graph := by
  rw [htypes]
  refine ⟨⟨?_, ?_⟩, .refl _⟩
  · show Adds g₀ T work.types.graph
    rw [htypes]
    exact h.adds
  · show ∀ b ∈ s.env.entries, Admits g₀ T work.types.graph b.bound
    rw [htypes]
    exact h.bound

/-- Reports leave the types alone. -/
theorem types_of_reports {kind : ProblemKind} {α : Type} {as : List α}
    {w w' : Workspace}
    (h : Sweeps (fun _ w w' => Workspace.Reports w kind w') as w w') :
    w'.types = w.types := by
  induction h with
  | nil => rfl
  | cons hreport _ ih => rw [ih, hreport.types]

/-- A marker is bound to the type that it meets, or to nothing. -/
theorem MarkerEnding.within {marker : TypeId} {key : MarkerKey}
    {actual : TypeId} {variance : Variance} {s s' : State}
    (h : MarkerEnding ctx marker key actual variance s s')
    (hs : s.Within g₀ T) (hactual : Admits g₀ T s.graph actual) :
    s'.Within g₀ T ∧ s.graph.Extends s'.graph := by
  cases h with
  | @binds work _ _ htell =>
      obtain ⟨hwithin, hext⟩ := hs.of_types htell.types
      refine ⟨⟨hwithin.adds, ?_⟩, hext⟩
      show ∀ b ∈ s.env.entries ++ [_], Admits g₀ T work.types.graph b.bound
      rw [List.forall_mem_append]
      refine ⟨hwithin.bound, fun b hb => ?_⟩
      rw [List.mem_singleton.mp hb]
      exact hactual.mono hext.size_le
  | agrees _ _ _ => exact ⟨hs, .refl _⟩
  | clashes _ _ _ hreport => exact hs.of_types hreport.types
  | skipped _ _ => exact ⟨hs, .refl _⟩
  | uninferred _ _ hreport => exact hs.of_types hreport.types

/-- A match that starts within the set and meets a type of it stays
within. -/
def Stays (g₀ : Graph) (T : TypeId → Prop) (_expected actual : TypeId)
    (_variance : Variance) (s s' : State) : Prop :=
  s.Within g₀ T → Admits g₀ T s.graph actual →
    s'.Within g₀ T ∧ s.graph.Extends s'.graph

/-- Pairings with types of the set, one after the other. -/
theorem Stays.pairs (hT : g₀.ClosedOn T) (hnever : T .never)
    {pairings : List Pairing} {s s' : State}
    (h : Sweeps (PairMeets fun e a v s s' =>
      Matches ctx e a v s s' ∧ Stays g₀ T e a v s s') pairings s s')
    (hs : s.Within g₀ T) (hdraws : Draws (Admits g₀ T s.graph) pairings) :
    s'.Within g₀ T ∧ s.graph.Extends s'.graph := by
  induction h with
  | nil => exact ⟨hs, .refl _⟩
  | @cons pairing pairings s s₁ s₂ hmeets _ ih =>
      obtain ⟨hsource, hrest⟩ := List.forall_mem_cons.mp hdraws
      obtain ⟨source, work, hresolve, hpart⟩ := hmeets
      obtain ⟨hext, hadds, hadmits⟩ :=
        Source.resolve_adds hT hnever hs.adds hsource hresolve
      have hmade : ({ s with work } : State).Within g₀ T :=
        ⟨hadds, fun b hb => (hs.bound b hb).mono hext.size_le⟩
      have hmet : s₁.Within g₀ T ∧ s.graph.Extends s₁.graph := by
        cases source with
        | none =>
            cases hpart
            exact ⟨hmade, hext⟩
        | some actual =>
            obtain ⟨hwithin, hext'⟩ := hpart.2 hmade (hadmits actual rfl)
            exact ⟨hwithin, hext.trans hext'⟩
      obtain ⟨hwithin, hext'⟩ := ih hmet.1 fun p hp id hid =>
        (hrest p hp id hid).mono hmet.2.size_le
      exact ⟨hwithin, hmet.2.trans hext'⟩

-- ============================================================ all levels

/-- A match stays with the types of a closed set that has the builtin
types, if it starts with them and meets one of them. -/
theorem Matches.stays (hT : g₀.ClosedOn T)
    (hbuiltin : ∀ id, id.isBuiltin = true → T id)
    {expected actual : TypeId} {variance : Variance} {s s' : State}
    (h : Matches ctx expected actual variance s s') :
    Stays g₀ T expected actual variance s s' := by
  refine match_induction (motive := Stays g₀ T) ?_ h
  intro expected actual variance s s' hend hs hactual
  cases hend with
  | again _ htell => exact hs.of_types htell.types
  | marker _ _ _ hmarker => exact hmarker.within hs hactual
  | missing _ _ _ _ _ hreports =>
      exact hs.of_types (types_of_reports hreports)
  | leaf _ _ _ _ _ => exact ⟨hs, .refl _⟩
  | stopped _ _ _ _ _ _ _ htypes => exact hs.of_types htypes
  | followed _ _ _ _ _ hactualNode hplan hfollows =>
      have hs' : ({ s with visited := expected :: s.visited } :
          State).Within g₀ T := ⟨hs.adds, hs.bound⟩
      cases hfollows with
      | generalUnions htell => exact hs'.of_types htell.types
      | unpaired htell => exact hs'.of_types htell.types
      | pairs hpairs =>
          have hdraws := plan_draws (hs.adds.closedOn hT)
            (.inl (hbuiltin _ rfl)) (.inl (hbuiltin _ rfl))
            (.inl (hbuiltin _ rfl)) hactual hactualNode hplan
          exact (Stays.pairs hT (hbuiltin _ rfl) hpairs hs' hdraws :)

end TypeParams.Matching
