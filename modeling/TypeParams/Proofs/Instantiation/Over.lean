/-
An instantiation over another store.

An instantiation asks of every declared type whether it is a marker
before it looks at its form, and of a marker it uses the key only. So it
does the same over a store with other witnesses (`resolve_commutes`).

# What has to be kept

Bound types must be no named markers themselves (`Context.Keyless`);
then no added type has a named marker among its parts, and the layer
stays `Above` its store. An instantiation with markers among the bound
types would put them into rebuilt types, where their forms may be looked
at later. `State.AboveStore` carries this from level to level, together
with what is known of the frames: a rebuilt type is not complete until
its frame has ended, and the ids of open frames have placeholders, which
are the same over both stores.

# Actions

Each action of an instantiation that touches the types has its
`…_commutes` lemma, and for the ones that only look at types it follows
from the walks that stop at markers. A level commutes if the levels
below do, where the parts are resolved one after the other and each
starts from what the ones before it have added.
-/
import TypeParams.Proofs.Instantiation.Additions
import TypeParams.Proofs.Instantiation.Slots
import TypeParams.Proofs.Over

namespace TypeParams.Instantiation

open TypeParams.Graph (Adds Admits)

variable {ctx : Context} {store store' : Store} {start : Layer}
variable {s s' : State} {w : Workspace}

/-- The same state over another store. -/
def State.over (store : Store) (s : State) : State :=
  { s with work := s.work.over store }

/-- The state of an instantiation that started with a layer above the
store. -/
structure State.AboveStore (store : Store) (start : Layer) (s : State) :
    Prop where
  above : start.Above store
  closed : start.graph.Closed
  tidy : s.Tidy
  owes : s.Owes start
  slots : s.SlotsAdded start.graph
  adds : Adds start.graph start.graph.Keyless s.graph

/-- Parameters stand for no named markers. -/
structure Context.Keyless (ctx : Context) (g : Graph) : Prop where
  bound : ∀ key b, ctx.env.lookup? key = some b → g.Keyless b
  noType : g.Keyless .noType

namespace State.AboveStore

variable (h : s.AboveStore store start)
include h

/-- The layer of the state is above its store. -/
theorem types : s.work.types.Above store where
  base := h.owes.base.trans h.above.base
  adds := by
    refine h.above.adds.trans h.adds ?_ fun id hid => hid.lt
    rintro id ⟨node, hn, hkey⟩ hlt
    rw [h.above.adds.nodes.node?_eq hlt] at hn
    exact ⟨node, hn, hkey⟩

/-- Beginning to rebuild a type that stands not for itself. -/
theorem enter {declared : TypeId} {node : Node}
    (hopen : ∀ f ∈ s.frames, f.declared ≠ declared)
    (hn : s.graph.node? declared = some node)
    (hself : ¬ StandsForItself s.graph declared node) :
    ({ s with frames := { declared } :: s.frames } : State).AboveStore store
      start where
  above := h.above
  closed := h.closed
  tidy := h.tidy.enter hopen hn hself
  owes := h.owes.enter declared
  slots := h.slots.enter declared
  adds := h.adds

/-- Resolving a type stays above the store. -/
theorem resolved (hctx : ctx.Keyless start.graph) {declared y : TypeId}
    (hd : declared.index < start.graph.size)
    (hrun : Resolves ctx declared s y s') : s'.AboveStore store start := by
  have hgrows := hrun.grows h.tidy
  have hkept : ∀ a node, start.graph.node? a = some node →
      node.markerKey? = none → start.graph.Keyless a :=
    fun a node hn hkey => ⟨node, hn, hkey⟩
  have hbuilds := hrun.builds h.closed hctx.bound hctx.noType
    (fun d node hn hkey _ => hkept d node hn hkey) h.tidy h.slots h.adds
    hd (.inr hkept)
  exact ⟨h.above, h.closed, hgrows.tidy, hrun.settles h.tidy h.owes,
    h.slots.grows h.adds.nodes hgrows, hbuilds.1⟩

end State.AboveStore

-- =============================================================== actions

/-- An action on the workspace, within an instantiation. -/
theorem onWork_commutes {α : Type} {action : WorkM α}
    (h : Commutes (Workspace.over store') action s.work) :
    Commutes (State.over store') (onWork action) s := by
  have hsame : action (s.over store').work = _ := h
  unfold Commutes onWork
  rw [hsame]
  cases action s.work <;> rfl

/-- Ending a frame does not touch the types. -/
theorem leave_commutes : Commutes (State.over store') leave s := by
  have hframes : (s.over store').frames = s.frames := rfl
  unfold Commutes leave
  rw [hframes]
  cases s.frames <;> rfl

/-- An id that was handed out gets its node, unless it cannot be
defined. -/
theorem place_some (id : TypeId) (node : Node) (w : Workspace) :
    place (some id) node w
      = match w.types.define id node with
        | .ok types => .ok id { w with types }
        | .error error => (do
            WorkM.tell fun _ => .ok (.cycleNotClosed id error)
            return id) w := by
  change (match w.types.define id node with
    | .ok types => _
    | .error error => _ : WorkM TypeId) w = _
  cases w.types.define id node <;> rfl

/-- Ending a rebuilding leaves the workspace alone. -/
theorem leave_work {slot : Option TypeId} (h : leave s = .ok slot s') :
    s'.work = s.work := by
  unfold leave at h
  split at h <;> cases h <;> rfl

section Levels

variable (hstore : store.Veils store')
include hstore

/-- Whether a type stands for itself is the same over both stores. -/
theorem standsForItself_commutes (h : w.types.Above store) (id : TypeId)
    (kind : Kind) :
    Commutes (Workspace.over store') (standsForItself id kind) w := by
  cases kind with
  | xml constraint =>
      exact (WorkM.containsMarker_commutes hstore h id).bind
        fun _ _ _ => .pure _
  | leaf | array | tuple | map | record | union | error | stream | table
  | function | object | typedesc => exact .pure _

/-- So is whether a rebuilt type keeps its name. -/
theorem keepsName_commutes (h : w.types.Above store) (id : TypeId)
    (node : Node) :
    Commutes (Workspace.over store') (keepsName id node) w := by
  unfold keepsName
  by_cases hname : node.name.isSome = true
  · rw [if_pos hname]
    exact (WorkM.containsMarker_commutes hstore h id).bind
      fun _ _ _ => .pure _
  · rw [if_neg hname]
    exact .pure _

/-- A type that is met inside itself gets the same id. -/
theorem cycleSlot_commutes (h : s.work.types.Above store)
    (declared : TypeId) :
    Commutes (State.over store') (cycleSlot declared) s := by
  have hreserve : (s.over store').work.types.reserve
      = (s.work.types.reserve.1, s.work.types.reserve.2.over store') :=
    h.reserve_over hstore
  have hframes : (s.over store').frames = s.frames := rfl
  unfold Commutes cycleSlot
  rw [hreserve, hframes]
  cases (s.frames.find? (·.declared == declared)).bind (·.slot) <;> rfl

/-- A rebuilt type is placed under the same id. -/
theorem place_commutes (h : w.types.Above store) (slot : Option TypeId)
    (node : Node) :
    Commutes (Workspace.over store') (place slot node) w := by
  cases slot with
  | none => exact WorkM.alloc_commutes hstore h node
  | some id =>
      have hdefine : (w.over store').types.define id node
          = (w.types.define id node).map (·.over store') :=
        h.define_over hstore id node
      unfold Commutes
      rw [place_some, place_some, hdefine]
      cases w.types.define id node with
      | ok types => rfl
      | error error =>
          exact Commutes.bind (WorkM.tell_commutes (by rfl))
            fun _ _ _ => .pure id

-- ================================================================ levels

variable (hctx : ctx.Keyless start.graph)

/-- Rebuilding does the same if resolving the parts does, and stays
above. -/
theorem rebuild_commutes (h : s.AboveStore store start)
    {descend : TypeId → InstantiateM TypeId} {declared : TypeId}
    {node : Node} (hopen : ∀ f ∈ s.frames, f.declared ≠ declared)
    (hn : s.graph.node? declared = some node)
    (hself : ¬ StandsForItself s.graph declared node)
    (hpart : ∀ part ∈ node.kind.children, ∀ s, s.AboveStore store start →
      Commutes (State.over store') (descend part) s ∧
      ∀ y s', descend part s = .ok y s' → s'.AboveStore store start) :
    Commutes (State.over store') (rebuild descend declared node) s := by
  rw [rebuild_eq]
  refine .bind (onWork_commutes (keepsName_commutes hstore h.types _ _))
    fun keeps s₀ hname => ?_
  obtain ⟨work, hscan, rfl⟩ := onWork_run.mp hname
  obtain ⟨rfl, -⟩ := keepsName_run hscan
  refine .bind (.update (by rfl)) fun _ s₁ henter => ?_
  cases modify_run.mp henter
  have henter := h.enter hopen hn hself
  refine .bind (.mapM (I := fun s => s.AboveStore store start)
    (fun part hmem s hs => (hpart part hmem s hs).1)
    (fun part hmem s y s' hs hrun => (hpart part hmem s hs).2 y s' hrun)
    henter) fun parts s₂ hloop => ?_
  have hdone : s₂.AboveStore store start := (mapM_run.mp hloop).keeps
    (fun part hmem s y s' hs hrun => (hpart part hmem s hs).2 y s' hrun)
    henter
  refine leave_commutes.bind fun slot s₃ hleave => ?_
  have htypes : s₃.work.types.Above store := by
    rw [leave_work hleave]
    exact hdone.types
  rcases settle_cases slot (rebuiltNode node keeps parts) with
    ⟨member, -, -, hsettle⟩ | ⟨-, hsettle⟩
  · rw [hsettle]
    exact .pure _
  · rw [hsettle]
    exact onWork_commutes (place_commutes hstore htypes _ _)

/-- One level does the same if the levels below do. -/
theorem resolveStep_commutes (h : s.AboveStore store start)
    {descend : Option (TypeId → InstantiateM TypeId)} {declared : TypeId}
    (hrebuild : ∀ f ∈ descend, ∀ node,
      s.graph.node? declared = some node →
      (∀ f ∈ s.frames, f.declared ≠ declared) →
      ¬ StandsForItself s.graph declared node →
      Commutes (State.over store') (rebuild f declared node) s) :
    Commutes (State.over store') (resolveStep ctx descend declared) s := by
  have hveils := h.types.veils hstore
  cases hn : s.graph.node? declared with
  | none =>
      have hsize : (s.over store').graph.size = s.graph.size :=
        hveils.size_eq
      unfold Commutes
      rw [resolveStep_of_missing hn,
        resolveStep_of_missing (s := s.over store')
          (hveils.node?_eq_none hn), hsize]
      rfl
  | some node =>
      cases hkey : node.markerKey? with
      | some key =>
          -- the two nodes differ in the witness, and only the key is used
          obtain ⟨node', hn', hnode⟩ := hveils.node? hn
          have hkey' : node'.markerKey? = some key :=
            hnode.markerKey?_eq.trans hkey
          unfold Commutes
          rw [resolveStep_of_marker hn hkey,
            resolveStep_of_marker (s := s.over store') hn' hkey']
          rfl
      | none =>
          refine .bind (onWork_commutes (WorkM.node_commutes hstore h.types
            ⟨node, hn, hkey⟩)) fun node₁ s₁ hread => ?_
          obtain ⟨work, hread', rfl⟩ := onWork_run.mp hread
          obtain ⟨hn₁, rfl⟩ := WorkM.node_run.mp hread'
          cases hn.symm.trans hn₁
          rw [hkey]
          refine .read ?_ rfl
          by_cases hopen : s.frames.any (·.declared == declared) = true
          · rw [if_pos hopen]
            refine .bind (onWork_commutes (WorkM.tell_commutes (by rfl)))
              fun _ s₁ htell => ?_
            obtain ⟨work, htell', rfl⟩ := onWork_run.mp htell
            refine cycleSlot_commutes hstore ?_ declared
            show work.types.Above store
            rw [WorkM.tell_types htell']
            exact h.types
          · rw [if_neg hopen]
            refine .bind (onWork_commutes (standsForItself_commutes hstore
              h.types declared node.kind)) fun b s₁ htest => ?_
            obtain ⟨work, htest', rfl⟩ := onWork_run.mp htest
            obtain ⟨rfl, hself⟩ := standsForItself_run htest'
            cases b with
            | true => exact .pure _
            | false =>
                cases descend with
                | some f =>
                    refine hrebuild f rfl node hn (by simpa using hopen) ?_
                    exact fun hs => Bool.false_ne_true (hself.mpr hs)
                | none =>
                    exact .bind (onWork_commutes
                      (WorkM.reportLimit_commutes hstore h.types _ _ _ _))
                      fun _ _ _ => .pure _

include hctx in
/-- A type is resolved alike over a store with other witnesses. It may
be one that is not there. -/
theorem resolve_commutes (depth : Nat) (h : s.AboveStore store start)
    {declared : TypeId}
    (hd : ∀ node, s.graph.node? declared = some node →
      declared.index < start.graph.size) :
    Commutes (State.over store') (resolve ctx depth declared) s := by
  induction depth generalizing declared s with
  | zero =>
      refine resolveStep_commutes hstore h fun f hf => ?_
      cases hf
  | succ depth ih =>
      refine resolveStep_commutes hstore h fun f hf node hn hopen hself => ?_
      cases hf
      refine rebuild_commutes hstore h hopen hn hself ?_
      intro part hmem s hs
      have hpart : part.index < start.graph.size := by
        refine h.closed.closedOn.child (hd node hn) ?_ part hmem
        rw [← h.adds.nodes.node?_eq (hd node hn)]
        exact hn
      exact ⟨ih hs fun _ _ => hpart, fun y s' hrun =>
        hs.resolved hctx hpart ⟨depth, hrun⟩⟩

end Levels

end TypeParams.Instantiation
