/-
What an instantiation adds to its graph.

A type that an instantiation puts together is made of results of other
types. So is everything below it: the result of a type is one that was
added, or what a parameter is bound to, or a type that stands for
itself, or one that was left as it is at the last level. If all of the
last three are in some set, then nothing but added types and types of
the set is ever used (`Resolves.builds`), whatever the set is.

# Reserved ids

An id that is handed out before it has a node counts as added from the
start (`State.SlotsAdded`). Its placeholder has no parts, and the node
it gets in the end is made like any other. Were it counted only once it
has a node, a type that is made of itself could not be shown to be made
of added types.

# What goes into the set

Types that stand for themselves and types at the last level are declared
types, and what parameters are bound to is not, so the set usually has
both: all types that were there, or all that are free of markers, where
the last level was not met.
-/
import TypeParams.Proofs.Additions
import TypeParams.Proofs.Instantiation.Substitution

namespace TypeParams.Instantiation

open TypeParams.Graph (Adds Admits)

variable {ctx : Context} {g₀ : Graph} {T : TypeId → Prop}

-- ============================================================ rebuilding

/-- Dropping equal members of a union adds none. -/
theorem children_mergedKind {kind : Kind} {c : TypeId}
    (hc : c ∈ (mergedKind kind).children) : c ∈ kind.children := by
  cases kind with
  | union members =>
      simp only [mergedKind, Kind.children, List.mem_eraseDups] at hc
      exact hc
  | leaf | array | tuple | map | record | error | stream | table
  | function | object | typedesc | xml => exact hc

/-- A rebuilt type is made of the types that it was rebuilt from. -/
theorem children_rebuiltNode {node : Node} {keeps : Bool}
    {parts : List TypeId}
    (hlength : parts.length = node.kind.children.length) :
    ∀ c ∈ (rebuiltNode node keeps parts).kind.children, c ∈ parts := by
  intro c hc
  change c ∈ (rebuiltKind node.kind parts).children at hc
  rw [rebuiltKind_eq] at hc
  have hwhole := children_mergedKind hc
  rw [Kind.children_withChildren _ hlength] at hwhole
  exact hwhole

-- ================================================================ frames

/-- The ids that frames were given are added ones. -/
def State.SlotsAdded (g₀ : Graph) (s : State) : Prop :=
  ∀ f ∈ s.frames, ∀ id, f.slot = some id → g₀.size ≤ id.index

/-- A new frame has no id yet. -/
theorem State.SlotsAdded.enter {s : State} (h : s.SlotsAdded g₀)
    (declared : TypeId) :
    ({ s with frames := { declared } :: s.frames } : State).SlotsAdded
      g₀ := by
  intro f hf id hid
  rcases List.mem_cons.mp hf with rfl | hf
  · cases hid
  · exact h f hf id hid

/-- An id that a frame is given meanwhile is an added one too. -/
theorem Frame.slots_le_of_fills {low bound : Nat} (hle : low ≤ bound)
    {fs fs' : List Frame} (h : List.Forall₂ (Frame.Fills bound) fs fs')
    (hlow : ∀ f ∈ fs, ∀ id, f.slot = some id → low ≤ id.index) :
    ∀ f ∈ fs', ∀ id, f.slot = some id → low ≤ id.index := by
  induction h with
  | nil => exact hlow
  | cons hfills _ ih =>
      rw [List.forall_mem_cons] at hlow ⊢
      refine ⟨fun id hid => ?_, ih hlow.2⟩
      rcases hfills.2 with hsame | ⟨-, id', hid', hbound⟩
      · exact hlow.1 id (hsame.symm.trans hid)
      · rw [hid] at hid'
        cases hid'
        omega

/-- Ids that frames are given while types are resolved are new. -/
theorem State.SlotsAdded.grows {s s' : State} (h : s.SlotsAdded g₀)
    (hext : g₀.Extends s.graph) (hgrows : Grows s s') :
    s'.SlotsAdded g₀ :=
  Frame.slots_le_of_fills hext.size_le hgrows.frames h

-- =========================================================== all levels

/-- What was added by the time a type was resolved, unless types were
left as they are that are not in the set. -/
def Builds (g₀ : Graph) (T : TypeId → Prop) (d : TypeId) (s : State)
    (y : TypeId) (s' : State) : Prop :=
  s.Tidy → s.SlotsAdded g₀ → Adds g₀ T s.graph → d.index < g₀.size →
    (s'.work.limitReported = false ∨ ∀ a node, g₀.node? a = some node →
      node.markerKey? = none → T a) →
    Adds g₀ T s'.graph ∧ Admits g₀ T s'.graph y

/-- The parts of a type are built one after the other. -/
theorem Builds.threads {ds ys : List TypeId} {s s' : State}
    (h : Threads (fun d s y s' =>
      Resolves ctx d s y s' ∧ Builds g₀ T d s y s') ds s ys s')
    (hs : s.Tidy) (hslots : s.SlotsAdded g₀) (hadds : Adds g₀ T s.graph)
    (hds : ∀ d ∈ ds, d.index < g₀.size)
    (hleft : s'.work.limitReported = false ∨ ∀ a node,
      g₀.node? a = some node → node.markerKey? = none → T a) :
    Adds g₀ T s'.graph ∧ ∀ y ∈ ys, Admits g₀ T s'.graph y := by
  induction h with
  | nil => exact ⟨hadds, fun y hy => nomatch hy⟩
  | cons hd hrest ih =>
      rw [List.forall_mem_cons] at hds
      obtain ⟨hrun, hbuilds⟩ := hd
      have hgrows := hrun.grows hs
      have hgrows' := Resolves.grows_threads hrest hgrows.tidy
      obtain ⟨hadds₁, hy⟩ := hbuilds hs hslots hadds hds.1
        (hleft.imp_left hgrows'.records.limitReported_eq_false)
      obtain ⟨hadds₂, hys⟩ := ih hgrows.tidy
        (hslots.grows hadds.nodes hgrows) hadds₁ hds.2 hleft
      refine ⟨hadds₂, List.forall_mem_cons.mpr ⟨?_, hys⟩⟩
      exact hy.mono hgrows'.nodes.size_le

/-- An instantiation uses nothing but added types and types of a set,
if the set has the bound types and those that stand for themselves. -/
theorem Resolves.builds (hg₀ : g₀.Closed)
    (hbound : ∀ key b, ctx.env.lookup? key = some b → T b)
    (hnone : T .noType)
    (hself : ∀ d node, g₀.node? d = some node →
      node.markerKey? = none → StandsForItself g₀ d node → T d)
    {declared y : TypeId} {s s' : State}
    (h : Resolves ctx declared s y s') : Builds g₀ T declared s y s' := by
  refine resolve_induction (motive := Builds g₀ T) ?_ h
  intro d node s y s' hn hrun hend hs hslots hadds hd hleft
  have hnode : g₀.node? d = some node :=
    (hadds.nodes.node?_eq hd).symm.trans hn
  have hchild : ∀ c ∈ node.kind.children, c.index < g₀.size :=
    hg₀.closedOn.child hd hnode
  cases hend with
  | @bound key hkey =>
      refine ⟨hadds, .inl ?_⟩
      cases hlookup : ctx.env.lookup? key with
      | none => exact hnone
      | some b => exact hbound key b hlookup
  | itself hkey _ hstands =>
      refine ⟨hadds, .inl (hself d node hnode hkey ?_)⟩
      exact (standsForItself_iff hg₀ hadds.nodes hd node).mp hstands
  | stopped hkey _ _ hmet htypes =>
      rcases hleft with hleft | hleft
      · rw [hmet] at hleft
        cases hleft
      · unfold State.graph
        rw [htypes]
        exact ⟨hadds, .inl (hleft d node hnode hkey)⟩
  | @again work id s' _ hopen htell hslot =>
      have htold : Grows s { s with work } :=
        .of_eq hs htell.types rfl htell.records
      have hadds₁ : Adds g₀ T work.types.graph := by
        rw [htell.types]
        exact hadds
      rcases cycleSlot_cases htold.tidy hopen hslot with
        ⟨rfl, hmem⟩ | ⟨hmem, rfl, rfl⟩
      · refine ⟨hadds₁, .inr ⟨hslots _ hmem y rfl, ?_⟩⟩
        exact htold.tidy.slot_lt hmem rfl
      · -- the placeholder has no parts
        rw [Layer.nextId_eq]
        show Adds g₀ T work.types.reserve.2.graph ∧
          Admits g₀ T work.types.reserve.2.graph _
        rw [Layer.graph_reserve_eq]
        exact hadds₁.push _ rfl fun c hc => nomatch hc
  -- the result is that of a member
  | @collapsed keeps parts s₁ s₂ _ _ hopen hstands hthreads hleave hone =>
      have htidy := hs.enter hopen hn hstands
      have hgrows := Resolves.grows_threads hthreads htidy
      obtain ⟨frames, -, rfl, -, -⟩ := hgrows.leave hleave
      obtain ⟨hadds₁, hparts⟩ := Builds.threads hthreads htidy
        (hslots.enter d) hadds hchild hleft
      refine ⟨hadds₁, hparts y ?_⟩
      apply children_rebuiltNode hthreads.length_eq
      rw [hone]
      exact List.mem_singleton.mpr rfl
  | @placed keeps parts s₁ s₂ slot _ work _ hopen hstands _ hthreads
      hleave _ hplace =>
      have htidy := hs.enter hopen hn hstands
      have hgrows := Resolves.grows_threads hthreads htidy
      obtain ⟨hplaced, hle, -⟩ := hgrows.place hleave hplace
      obtain ⟨frames, -, rfl, -, -⟩ := hgrows.leave hleave
      obtain ⟨hadds₁, hparts⟩ := Builds.threads hthreads htidy
        (hslots.enter d) hadds hchild
        (hleft.imp_left hplaced.records.limitReported_eq_false)
      refine hadds₁.put hplaced.node?
        (Nat.le_trans hadds.nodes.size_le hle) rfl fun c hc => hparts c ?_
      exact children_rebuiltNode hthreads.length_eq c hc

end TypeParams.Instantiation
