/-
An instantiation makes no union a member of itself.

# The argument

Ids are handed out before they have nodes, so what an instantiation adds
is not made of types below it, as what a match adds is. It may well add
types that contain themselves. But it adds no union that is among its own
members, however far down, unless it was asked to copy one.

A type that was added is the result of one declared type, its owner: the
one that was being rebuilt when it got its node. Take an added union and
an added member of it. The member is the result of a member of the
owner, and if that has collapsed then of a member of that member, and so
on. So members lead from the owner of the union to the owner of the
member, in at least one step (`Owned.member`). From what was there no
member leads to what was added. Hence an added union that is among its
own members has an owner that is among its own.

# Owners of ids without nodes

The owner of an id that was handed out early is known at once: it is the
type of the frame that the id is given to (`Owned.slot`). When the frame
ends the id gets a node, and its members have owners by then, since they
are results of types that were resolved meanwhile.
-/
import TypeParams.Proofs.Instantiation.Additions
import TypeParams.Proofs.Loops

namespace TypeParams.Instantiation

open Relation (ReflTransGen TransGen)
open TypeParams.Graph (Adds Admits)

variable {ctx : Context} {g₀ : Graph} {own own' : TypeId → TypeId}
variable {s s' : State}

-- ================================================================ owners

/-- The added types have these owners: that of an id in a frame is the
type of the frame, and members lead from the owner of a union to the
owners of its members. -/
structure Owned (g₀ : Graph) (own : TypeId → TypeId) (s : State) :
    Prop where
  slot : ∀ x y, ⟨x, some y⟩ ∈ s.frames → own y = x
  member : ∀ y y', g₀.size ≤ y.index → g₀.size ≤ y'.index →
    s.graph.Member y y' → TransGen g₀.Member (own y) (own y')

/-- The result of a declared type, if it was added, is owned by the type
or by what members lead to from it. -/
def Leads (g₀ : Graph) (own : TypeId → TypeId) (d y : TypeId) : Prop :=
  g₀.size ≤ y.index → ReflTransGen g₀.Member d (own y)

/-- A result that was there has no owner to speak of. -/
theorem Leads.of_lt {d y : TypeId} (hy : y.index < g₀.size) :
    Leads g₀ own d y :=
  fun hle => absurd hy (Nat.not_lt.mpr hle)

/-- Only the owner of the result matters. -/
theorem Leads.congr {d y : TypeId} (h : Leads g₀ own d y)
    (hy : own' y = own y) : Leads g₀ own' d y := by
  intro hle
  rw [hy]
  exact h hle

theorem Leads.congr_parts {ds ys : List TypeId}
    (h : List.Forall₂ (Leads g₀ own) ds ys)
    (hys : ∀ y ∈ ys, own' y = own y) :
    List.Forall₂ (Leads g₀ own') ds ys := by
  induction h with
  | nil => exact .nil
  | cons hleads _ ih =>
      rw [List.forall_mem_cons] at hys
      exact .cons (hleads.congr hys.1) (ih hys.2)

/-- Owners of the types that are there matter, and no others. -/
theorem Owned.congr (h : Owned g₀ own s) (hs : s.Tidy)
    (hadds : Adds g₀ (·.index < g₀.size) s.graph) (hg₀ : g₀.Closed)
    (hown : ∀ z, z.index < s.graph.size → own' z = own z) :
    Owned g₀ own' s where
  slot x y hmem := by
    rw [hown y (hs.slot_lt hmem rfl)]
    exact h.slot x y hmem
  member y y' hy hy' hmember := by
    obtain ⟨node, hn, hc⟩ := hmember.child
    have hlt := (hadds.closedOn hg₀.closedOn).lt
      ((hadds.added y node hy hn).2 y' hc)
    rw [hown y (Graph.index_lt_of_node? hn), hown y' hlt]
    exact h.member y y' hy hy' hmember

/-- A frame that ends without an id leaves everything as it is. -/
theorem Owned.leave (h : Owned g₀ own s) {frame : Frame}
    {frames : List Frame} (hcons : s.frames = frame :: frames) :
    Owned g₀ own { s with frames } where
  slot x y hmem := h.slot x y (hcons ▸ List.mem_cons_of_mem _ hmem)
  member := h.member

/-- A new frame has no id, so it owns none. -/
theorem Owned.enter (h : Owned g₀ own s) (declared : TypeId) :
    Owned g₀ own { s with frames := { declared } :: s.frames } where
  slot x y hmem := by
    rcases List.mem_cons.mp hmem with heq | hmem
    · cases heq
    · exact h.slot x y hmem
  member := h.member

-- ================================================================= steps

/-- An id that is handed out early is owned by the type that it is handed
out for. Its placeholder has no members. -/
theorem Owned.reserve (h : Owned g₀ own s) {declared : TypeId}
    (hown : own s.work.types.nextId = declared) :
    Owned g₀ own
      { work := { s.work with types := s.work.types.reserve.2 }
        frames := s.frames.map
          (Frame.fill declared s.work.types.nextId) } where
  slot x y hmem := by
    obtain ⟨f, hf, hfill⟩ := List.mem_map.mp hmem
    unfold Frame.fill at hfill
    split at hfill
    next hd =>
      cases hfill
      exact hown.trans hd.symm
    next =>
      cases hfill
      exact h.slot x y hf
  member y y' hy hy' hmember := by
    obtain ⟨node, members, hn, hkind, hm⟩ := hmember
    change s.work.types.reserve.2.graph.node? y = some node at hn
    rw [Layer.graph_reserve_eq] at hn
    obtain ⟨i⟩ := y
    rw [Graph.node?_push] at hn
    split at hn
    · cases hn
      cases hkind
    · exact h.member ⟨i⟩ y' hy hy' ⟨node, members, hn, hkind, hm⟩

/-- A type that gets a node is owned by the type that it was rebuilt
from. -/
theorem Owned.place (h : Owned g₀ own s) {declared id : TypeId}
    {node : Node} {keeps : Bool} {parts : List TypeId} {work : Workspace}
    (hnode : g₀.node? declared = some node) (hown : own id = declared)
    (hparts : List.Forall₂ (Leads g₀ own) node.kind.children parts)
    (hput : ∀ j, work.types.graph.node? j = if j = id
      then some (rebuiltNode node keeps parts) else s.graph.node? j) :
    Owned g₀ own { s with work } where
  slot := h.slot
  member y y' hy hy' hmember := by
    obtain ⟨copy, members, hn, hkind, hm⟩ := hmember
    change work.types.graph.node? y = some copy at hn
    rw [hput] at hn
    split at hn
    next hid =>
      -- the member is a result for a member of the owner
      cases hn
      obtain ⟨⟨declaredMembers, hunion⟩, rfl⟩ := union_of_rebuiltNode hkind
      rw [hunion] at hparts
      obtain ⟨m, hmem, hleads⟩ := exists_mem_of_forall₂ hparts.flip
        (List.mem_eraseDups.mp hm)
      rw [hid, hown]
      exact .head' ⟨node, declaredMembers, hnode, hunion, hmem⟩
        (hleads hy')
    next => exact h.member y y' hy hy' ⟨copy, members, hn, hkind, hm⟩

-- ============================================================ all levels

/-- What owners become while a type is resolved: those of the types that
were there stay. -/
def Descends (g₀ : Graph) (d : TypeId) (s : State) (y : TypeId)
    (s' : State) : Prop :=
  s.Tidy → s.SlotsAdded g₀ → Adds g₀ (·.index < g₀.size) s.graph →
    d.index < g₀.size → ∀ own, Owned g₀ own s →
    ∃ own', (∀ z, z.index < s.graph.size → own' z = own z) ∧
      Owned g₀ own' s' ∧ Leads g₀ own' d y

/-- What is bound was there. -/
structure BoundThere (ctx : Context) (g₀ : Graph) : Prop where
  bound : ∀ key b, ctx.env.lookup? key = some b → b.index < g₀.size
  none : TypeId.noType.index < g₀.size

/-- An instantiation uses types that were there and types that it has
added. -/
theorem Resolves.adds (hg₀ : g₀.Closed) (hctx : BoundThere ctx g₀)
    {d y : TypeId} (h : Resolves ctx d s y s') (hs : s.Tidy)
    (hslots : s.SlotsAdded g₀)
    (hadds : Adds g₀ (·.index < g₀.size) s.graph) (hd : d.index < g₀.size) :
    Adds g₀ (·.index < g₀.size) s'.graph ∧ y.index < s'.graph.size := by
  obtain ⟨hadds', hy⟩ := h.builds hg₀ hctx.bound hctx.none
    (fun _ _ hn _ _ => Graph.index_lt_of_node? hn) hs hslots hadds hd
    (.inr fun _ _ hn _ => Graph.index_lt_of_node? hn)
  exact ⟨hadds', (hadds'.closedOn hg₀.closedOn).lt hy⟩

/-- The parts of a type one after the other. An owner that one of them
finds is not changed by those behind it. -/
theorem Descends.threads (hg₀ : g₀.Closed) (hctx : BoundThere ctx g₀)
    {ds ys : List TypeId}
    (h : Threads (fun d s y s' =>
      Resolves ctx d s y s' ∧ Descends g₀ d s y s') ds s ys s')
    (hs : s.Tidy) (hslots : s.SlotsAdded g₀)
    (hadds : Adds g₀ (·.index < g₀.size) s.graph)
    (hds : ∀ d ∈ ds, d.index < g₀.size) (hown : Owned g₀ own s) :
    ∃ own', (∀ z, z.index < s.graph.size → own' z = own z) ∧
      Owned g₀ own' s' ∧ List.Forall₂ (Leads g₀ own') ds ys ∧
      Adds g₀ (·.index < g₀.size) s'.graph ∧
      ∀ y ∈ ys, y.index < s'.graph.size := by
  induction h generalizing own with
  | nil => exact ⟨own, fun _ _ => rfl, hown, .nil, hadds, by simp⟩
  | cons hd hrest ih =>
      rw [List.forall_mem_cons] at hds
      obtain ⟨hrun, hdescends⟩ := hd
      have hgrows := hrun.grows hs
      have hgrows' := Resolves.grows_threads hrest hgrows.tidy
      obtain ⟨hadds₁, hy⟩ := hrun.adds hg₀ hctx hs hslots hadds hds.1
      obtain ⟨own₁, hkept₁, hown₁, hleads⟩ :=
        hdescends hs hslots hadds hds.1 own hown
      obtain ⟨own₂, hkept₂, hown₂, hleads', hadds₂, hys⟩ := ih hgrows.tidy
        (hslots.grows hadds.nodes hgrows) hadds₁ hds.2 hown₁
      refine ⟨own₂, fun z hz => ?_, hown₂, ?_, hadds₂, ?_⟩
      · exact (hkept₂ z (hgrows.nodes.lt hz)).trans (hkept₁ z hz)
      · exact .cons (hleads.congr (hkept₂ _ hy)) hleads'
      · exact List.forall_mem_cons.mpr ⟨hgrows'.nodes.lt hy, hys⟩

/-- A type that gets an owner of its own. -/
theorem owner_update {id declared : TypeId} {size : Nat}
    (h : id.index < size → own id = declared) :
    Function.update own id declared id = declared ∧
      ∀ z : TypeId, z.index < size →
        Function.update own id declared z = own z := by
  refine ⟨Function.update_self .., fun z hz => ?_⟩
  by_cases heq : z = id
  · subst heq
    rw [Function.update_self, h hz]
  · rw [Function.update_of_ne heq]

/-- Every resolved type has an owner. -/
theorem Resolves.descends (hg₀ : g₀.Closed) (hctx : BoundThere ctx g₀)
    {declared y : TypeId} (h : Resolves ctx declared s y s') :
    Descends g₀ declared s y s' := by
  refine resolve_induction (motive := Descends g₀) ?_ h
  intro d node s y s' hn _ hend hs hslots hadds hd own hown
  have hnode : g₀.node? d = some node :=
    (hadds.nodes.node?_eq hd).symm.trans hn
  have hchild : ∀ c ∈ node.kind.children, c.index < g₀.size :=
    hg₀.closedOn.child hd hnode
  cases hend with
  | @bound key hkey =>
      refine ⟨own, fun _ _ => rfl, hown, .of_lt ?_⟩
      cases hlookup : ctx.env.lookup? key with
      | none => exact hctx.none
      | some b => exact hctx.bound key b hlookup
  | itself => exact ⟨own, fun _ _ => rfl, hown, .of_lt hd⟩
  | @stopped work _ _ _ _ htypes =>
      have hgraph : work.types.graph = s.graph := congrArg Layer.graph htypes
      refine ⟨own, fun _ _ => rfl, ⟨hown.slot, ?_⟩, .of_lt hd⟩
      unfold State.graph
      rw [hgraph]
      exact hown.member
  | @again work id s' _ hopen htell hslot =>
      have htold : Grows s { s with work } :=
        .of_eq hs htell.types rfl htell.records
      have hgraph : work.types.graph = s.graph :=
        congrArg Layer.graph htell.types
      have htoldOwn : Owned g₀ own { s with work } := by
        refine ⟨hown.slot, ?_⟩
        unfold State.graph
        rw [hgraph]
        exact hown.member
      rcases cycleSlot_cases htold.tidy hopen hslot with
        ⟨rfl, hmem⟩ | ⟨-, rfl, rfl⟩
      · refine ⟨own, fun _ _ => rfl, htoldOwn, fun _ => ?_⟩
        rw [hown.slot d y hmem]
      · -- the owner of the new id
        have hadds₁ : Adds g₀ (·.index < g₀.size)
            ({ s with work } : State).graph := by
          unfold State.graph
          rw [hgraph]
          exact hadds
        have hnext : work.types.nextId.index < work.types.graph.size →
            own work.types.nextId = d := by
          rw [Layer.nextId_eq]
          exact fun hlt => absurd hlt (Nat.lt_irrefl _)
        obtain ⟨hself, hothers⟩ := owner_update hnext
        refine ⟨_, ?_, (htoldOwn.congr htold.tidy hadds₁ hg₀
          hothers).reserve hself, fun _ => ?_⟩
        · intro z hz
          exact hothers z (hgraph ▸ hz)
        · rw [hself]
  | @collapsed keeps parts s₁ s₂ _ hkey hopen hself hthreads hleave hone =>
      have htidy := hs.enter hopen hn hself
      have hgrows := Resolves.grows_threads hthreads htidy
      obtain ⟨frames, hcons, rfl, -, -⟩ := hgrows.leave hleave
      obtain ⟨own₁, hkept, hown₁, hleads, -, -⟩ := Descends.threads hg₀ hctx
        hthreads htidy (hslots.enter d) hadds hchild (hown.enter d)
      obtain ⟨members, hkind, hsome, hmembers⟩ :=
        members_of_rebuilt_union hleads hone
      obtain ⟨m, hm⟩ := List.exists_mem_of_ne_nil members hsome
      refine ⟨own₁, hkept, hown₁.leave hcons, fun hle => ?_⟩
      exact .head ⟨node, members, hnode, hkind, hm⟩ (hmembers m hm hle)
  | @placed keeps parts s₁ s₂ slot _ work hkey hopen hself _ hthreads hleave
      _ hplace =>
      have htidy := hs.enter hopen hn hself
      have hgrows := Resolves.grows_threads hthreads htidy
      obtain ⟨hplaced, hle, -⟩ := hgrows.place hleave hplace
      obtain ⟨frames, hcons, rfl, -, -⟩ := hgrows.leave hleave
      obtain ⟨own₁, hkept, hown₁, hleads, hadds₁, hparts⟩ :=
        Descends.threads hg₀ hctx hthreads htidy (hslots.enter d) hadds
          hchild (hown.enter d)
      -- an id that was handed out for the type has it for its owner
      have hslot : y.index < s₁.graph.size → own₁ y = d := by
        intro hlt
        rcases hplaced.slot_eq with rfl | ⟨-, rfl⟩
        · exact hown₁.slot d y (hcons ▸ List.mem_cons_self)
        · rw [Layer.nextId_eq] at hlt
          exact absurd hlt (Nat.lt_irrefl _)
      obtain ⟨hself', hothers⟩ := owner_update hslot
      have hown₂ := (hown₁.congr hgrows.tidy hadds₁ hg₀ hothers).leave hcons
      refine ⟨_, fun z hz => ?_, hown₂.place hnode hself' ?_ hplaced.node?,
        fun _ => ?_⟩
      · exact (hothers z (hgrows.nodes.lt hz)).trans (hkept z hz)
      · exact Leads.congr_parts hleads fun z hz => hothers z (hparts z hz)
      · rw [hself']

/-- A union that is among its own members is there already, or its owner
is. -/
theorem Owned.unlooped (hg₀ : g₀.Closed) (h : Owned g₀ own s)
    (hadds : Adds g₀ (·.index < g₀.size) s.graph)
    (hunlooped : g₀.Unlooped) : s.graph.Unlooped := by
  have hold : ∀ {a b}, a.index < g₀.size → s.graph.Member a b →
      b.index < g₀.size ∧ g₀.Member a b := by
    rintro a b ha ⟨node, members, hn, hkind, hb⟩
    rw [hadds.nodes.node?_eq ha] at hn
    have hmember : g₀.Member a b := ⟨node, members, hn, hkind, hb⟩
    exact ⟨hg₀.child hmember.child, hmember⟩
  have hleads : ∀ {a b}, TransGen s.graph.Member a b →
      (a.index < g₀.size → b.index < g₀.size ∧ TransGen g₀.Member a b) ∧
        (g₀.size ≤ a.index → g₀.size ≤ b.index →
          TransGen g₀.Member (own a) (own b)) := by
    intro a b hab
    induction hab with
    | single hab =>
        refine ⟨fun ha => ?_, fun ha hb => h.member _ _ ha hb hab⟩
        obtain ⟨hb, hmember⟩ := hold ha hab
        exact ⟨hb, .single hmember⟩
    | @tail b c _ hbc ih =>
        refine ⟨fun ha => ?_, fun ha hc => ?_⟩
        · obtain ⟨hb, hab⟩ := ih.1 ha
          obtain ⟨hc, hmember⟩ := hold hb hbc
          exact ⟨hc, hab.tail hmember⟩
        · -- nothing that was there leads to what was added
          have hb : g₀.size ≤ b.index := Nat.le_of_not_lt fun hb =>
            Nat.not_lt.mpr hc (hold hb hbc).1
          exact (ih.2 ha hb).trans (h.member b c hb hc hbc)
  intro u hu
  by_cases hlt : u.index < g₀.size
  · exact hunlooped u ((hleads hu).1 hlt).2
  · have hle := Nat.le_of_not_lt hlt
    exact hunlooped (own u) ((hleads hu).2 hle hle)

end TypeParams.Instantiation

namespace TypeParams.Resolution

open Instantiation
open TypeParams.Graph (Adds)

/-- An instantiation over a graph in which no union is among its own
members leaves it so. -/
theorem instantiate_unlooped {r r' : Resolution}
    (hg : r.types.graph.WellFormed)
    (hbound : ∀ key b, r.env.lookup? key = some b →
      b.index < r.types.graph.size)
    (hunlooped : r.types.graph.Unlooped) {declared y : TypeId}
    {span : Span} (h : instantiate declared span r = .ok y r') :
    r'.types.graph.Unlooped := by
  have hd := instantiate_lt h
  obtain ⟨s, hrun, rfl⟩ := instantiate_run h
  have hctx : BoundThere ⟨r.env, r.config, span⟩ r.types.graph :=
    ⟨hbound, hg.builtin_lt rfl⟩
  have hslots : r.instantiation.SlotsAdded r.types.graph :=
    fun f hf => absurd hf List.not_mem_nil
  have hadds : Adds r.types.graph (·.index < r.types.graph.size)
      r.instantiation.graph := .refl _ _
  -- nothing was added yet
  have hstart : Owned r.types.graph id r.instantiation := by
    refine ⟨fun x y hmem => absurd hmem List.not_mem_nil, ?_⟩
    intro y y' hy _ hmember
    obtain ⟨node, -, hn, -⟩ := hmember
    exact absurd (Graph.index_lt_of_node? hn) (Nat.not_lt.mpr hy)
  obtain ⟨own, -, hown, -⟩ := hrun.descends hg.closed hctx
    r.instantiation_tidy hslots hadds hd id hstart
  exact hown.unlooped hg.closed (hrun.adds hg.closed hctx
    r.instantiation_tidy hslots hadds hd).1 hunlooped

end TypeParams.Resolution
