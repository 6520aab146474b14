/-
Who still owes a node for an id that was reserved.

A store and the layers on it hand out ids by reserving them, each for
itself; the nodes of a layer may join the store later. A `Shelf` is a
store with layers and detached nodes around it, at some point of a run,
and beside each of them the ids it has reserved and those it has defined
(`Recorded`). The records are only written, never read, so a run with
them is the run without.

# What the pending ids are

The store's pending ids are then the ids that it reserved itself and has
not defined (`Recorded.Kept`), whatever is done to the store and to the
layers. One operation keeps this (`Recorded.Kept.perform`), one action
on the shelf keeps it for all that is on it (`Shelf.Sound.act`), and so
does a run (`Shelf.run_sound`). A layer is flattened for the purpose: on
its own nodes it does what a store does on all of its.

# What validating finds

Validating looks at the pending ids, so it speaks of the store's own
reservations (`Recorded.Kept.validate`). Those of a layer get lost when
its nodes are taken off it: a layer that still owes a node can be
committed, and the store validates (`Shelf.owed_unnoticed`). Where every
layer that was committed had settled its reservations, what the store
reserved itself is all that can be owed (`Shelf.Sound.owes_iff`), and
validating finds it.
-/
import TypeParams.Proofs.Allocation

namespace TypeParams

-- =============================================================== stores

namespace Store

variable {store store' : Store} {id : TypeId}

theorem size_le_alloc (store : Store) (node : Node) :
    store.size ≤ (store.alloc node).2.size := by
  show store.graph.nodes.size ≤ (store.graph.nodes.push node).size
  simp

theorem size_reserve (store : Store) :
    store.reserve.2.size = store.size + 1 :=
  Array.size_push ..

/-- Only what is pending can be defined, and then it is not pending any
more. -/
theorem define_eq_ok {node : Node} :
    store.define id node = .ok store' ↔
      id ∈ store.pending ∧
        store' =
          { graph := ⟨store.graph.nodes.setIfInBounds id.index node⟩
            pending := store.pending.erase id } := by
  unfold define
  by_cases hmem : id ∈ store.pending
  · simp [hmem, eq_comm]
  · by_cases hle : store.size ≤ id.index
    · simp [hmem, hle]
    · simp [hmem, hle]

/-- A union is at most one more node. -/
theorem unionOf_keeps {ids : List TypeId}
    (h : store.unionOf ids = .ok (id, store')) :
    store'.pending = store.pending ∧ store.size ≤ store'.size := by
  obtain ⟨members, -, h⟩ := bind_eq_ok.mp h
  split at h
  · cases pure_eq_ok.mp h
    exact ⟨rfl, Nat.le_refl _⟩
  · cases pure_eq_ok.mp h
    exact ⟨rfl, Nat.le_refl _⟩
  · cases pure_eq_ok.mp h
    exact ⟨rfl, store.size_le_alloc _⟩

/-- What is committed was made on top of the store as it is, and leaves
the pending ids alone. -/
theorem commit_eq_ok {detached : Detached} {commit : Commit}
    (h : store.commit detached = .ok commit) :
    detached.baseSize = store.size ∧
      commit.store.pending = store.pending ∧
      commit.store.size = store.size + detached.nodes.size := by
  unfold Store.commit at h
  split at h
  next heq =>
    cases h
    exact ⟨heq, rfl, Array.size_append⟩
  next => cases h

end Store

-- ============================================================== records

/-- A store, a layer or detached nodes, with the ids reserved and
defined there. -/
structure Recorded (σ : Type) where
  holder : σ
  reserved : List TypeId := []
  defined : List TypeId := []

namespace Recorded

variable {σ τ : Type}

/-- The records of something else. -/
def map (f : σ → τ) (r : Recorded σ) : Recorded τ :=
  ⟨f r.holder, r.reserved, r.defined⟩

/-- An operation, put on record. -/
def perform (a : Allocator σ) (op : Operation) (r : Recorded σ) :
    Except Fault (Recorded σ) := do
  let (reply, holder) ← op.perform a r.holder
  match op, reply with
  | .reserve, .made id =>
      return { r with holder, reserved := r.reserved ++ [id] }
  | .define id _, .defined =>
      return { r with holder, defined := id :: r.defined }
  | _, _ => return { r with holder }

/-- Every id reserved here is defined. -/
def Settled (r : Recorded σ) : Prop := ∀ id ∈ r.reserved, id ∈ r.defined

instance (r : Recorded σ) : Decidable r.Settled :=
  inferInstanceAs (Decidable (∀ id ∈ r.reserved, id ∈ r.defined))

/-- Reserved ids lie in a range, and only they are defined. -/
structure Within (first stop : Nat) (r : Recorded σ) : Prop where
  range : ∀ id ∈ r.reserved, first ≤ id.index ∧ id.index < stop
  defined : ∀ id ∈ r.defined, id ∈ r.reserved

/-- What the records say of the store they are about: its pending ids,
in ascending order, are those reserved and not defined. -/
structure Kept (first : Nat) (r : Recorded Store) : Prop
    extends Within first r.holder.size r where
  base : first ≤ r.holder.size
  pending : ∀ id,
    id ∈ r.holder.pending ↔ id ∈ r.reserved ∧ id ∉ r.defined
  ascending : r.holder.pending.Pairwise (·.index < ·.index)

end Recorded

-- ====================================================== one operation

namespace Recorded

variable {r r' : Recorded Store} {op : Operation} {first : Nat}

/-- What an operation does to a store's pending ids, and to the
records. -/
theorem perform_cases (h : r.perform Store.allocator op = .ok r') :
    r' = { r with
      holder := r.holder.reserve.2
      reserved := r.reserved ++ [r.holder.nextId] } ∨
    (∃ id ∈ r.holder.pending,
      r'.holder.pending = r.holder.pending.erase id ∧
      r'.holder.size = r.holder.size ∧
      r'.reserved = r.reserved ∧ r'.defined = id :: r.defined) ∨
    (r'.holder.pending = r.holder.pending ∧
      r.holder.size ≤ r'.holder.size ∧
      r'.reserved = r.reserved ∧ r'.defined = r.defined) := by
  obtain ⟨⟨reply, store⟩, hop, h⟩ := bind_eq_ok.mp h
  cases op with
  | alloc node =>
      cases hop
      cases h
      exact .inr (.inr ⟨rfl, r.holder.size_le_alloc node, rfl, rfl⟩)
  | reserve =>
      cases hop
      cases h
      exact .inl rfl
  | define id node =>
      simp only [Operation.perform] at hop
      split at hop
      next store' hdefine =>
        cases hop
        cases h
        obtain ⟨hmem, rfl⟩ := Store.define_eq_ok.mp hdefine
        exact .inr (.inl ⟨id, hmem, rfl, Array.size_setIfInBounds, rfl,
          rfl⟩)
      next =>
        cases hop
        cases h
        exact .inr (.inr ⟨rfl, Nat.le_refl _, rfl, rfl⟩)
  | unionOf ids =>
      obtain ⟨⟨id, store'⟩, hunion, hop⟩ := bind_eq_ok.mp hop
      cases hop
      cases h
      obtain ⟨hpending, hsize⟩ := Store.unionOf_keeps hunion
      exact .inr (.inr ⟨hpending, hsize, rfl, rfl⟩)
  | nilable id =>
      obtain ⟨⟨id, store'⟩, hunion, hop⟩ := bind_eq_ok.mp hop
      cases hop
      cases h
      obtain ⟨hpending, hsize⟩ := Store.unionOf_keeps hunion
      exact .inr (.inr ⟨hpending, hsize, rfl, rfl⟩)

/-- A store does not shrink, and what it reserves is new. -/
theorem perform_grows (h : r.perform Store.allocator op = .ok r') :
    r.holder.size ≤ r'.holder.size ∧
      ∀ id ∈ r'.reserved, id ∈ r.reserved ∨ r.holder.size ≤ id.index := by
  obtain rfl | ⟨_, -, -, hsize, hreserved, -⟩ | ⟨-, hsize, hreserved, -⟩ :=
    perform_cases h
  · show _ ≤ r.holder.reserve.2.size ∧
      ∀ id ∈ r.reserved ++ [r.holder.nextId], _
    rw [Store.size_reserve, List.forall_mem_append,
      List.forall_mem_singleton]
    exact ⟨by omega, fun id hid => .inl hid, .inr (Nat.le_refl _)⟩
  · rw [hreserved]
    exact ⟨by omega, fun id hid => .inl hid⟩
  · rw [hreserved]
    exact ⟨hsize, fun id hid => .inl hid⟩

/-- A range may be larger. -/
theorem Within.mono {σ : Type} {r : Recorded σ} {first first' stop
    stop' : Nat} (h : r.Within first stop) (hfirst : first' ≤ first)
    (hstop : stop ≤ stop') : r.Within first' stop' := by
  refine ⟨?_, h.defined⟩
  intro id hid
  obtain ⟨hle, hlt⟩ := h.range id hid
  exact ⟨by omega, by omega⟩

/-- The new id is the largest of the pending ones. -/
theorem Kept.reserve (h : r.Kept first) :
    Kept first { r with
      holder := r.holder.reserve.2
      reserved := r.reserved ++ [r.holder.nextId] } := by
  have hsize := r.holder.size_reserve
  have hbase := h.base
  have hold : ∀ id ∈ r.reserved, id.index < r.holder.size :=
    fun id hid => (h.range id hid).2
  have hnew : r.holder.nextId ∉ r.defined := by
    intro hmem
    exact Nat.lt_irrefl _ (hold _ (h.defined _ hmem))
  constructor
  · constructor
    · show ∀ id ∈ r.reserved ++ [r.holder.nextId],
        first ≤ id.index ∧ id.index < r.holder.reserve.2.size
      rw [hsize, List.forall_mem_append, List.forall_mem_singleton]
      refine ⟨fun id hid => ?_, h.base, Nat.lt_succ_self _⟩
      obtain ⟨hle, hlt⟩ := h.range id hid
      exact ⟨hle, by omega⟩
    · intro id hid
      exact List.mem_append_left _ (h.defined id hid)
  · show first ≤ r.holder.reserve.2.size
    omega
  · intro id
    show id ∈ r.holder.pending ++ [r.holder.nextId] ↔
      id ∈ r.reserved ++ [r.holder.nextId] ∧ id ∉ r.defined
    rw [List.mem_append, List.mem_append, List.mem_singleton, h.pending id]
    constructor
    · intro hmem
      obtain ⟨hmem, hnot⟩ | rfl := hmem
      · exact ⟨.inl hmem, hnot⟩
      · exact ⟨.inr rfl, hnew⟩
    · intro hmem
      obtain ⟨hmem | rfl, hnot⟩ := hmem
      · exact .inl ⟨hmem, hnot⟩
      · exact .inr rfl
  · show (r.holder.pending ++ [r.holder.nextId]).Pairwise _
    rw [List.pairwise_append]
    refine ⟨h.ascending, List.pairwise_singleton .., ?_⟩
    intro id hid last hlast
    rw [List.mem_singleton.mp hlast]
    exact hold id ((h.pending id).mp hid).1

/-- A pending id is there once, so it is no longer pending when it is
defined. -/
theorem Kept.define (h : r.Kept first) {id : TypeId}
    (hpending : r'.holder.pending = r.holder.pending.erase id)
    (hmem : id ∈ r.holder.pending)
    (hsize : r'.holder.size = r.holder.size)
    (hreserved : r'.reserved = r.reserved)
    (hdefined : r'.defined = id :: r.defined) : r'.Kept first := by
  have hnodup : r.holder.pending.Nodup := by
    refine h.ascending.imp ?_
    intro a b hlt heq
    rw [heq] at hlt
    exact Nat.lt_irrefl _ hlt
  constructor
  · constructor
    · rw [hreserved, hsize]
      exact h.range
    · rw [hreserved, hdefined, List.forall_mem_cons]
      exact ⟨((h.pending id).mp hmem).1, h.defined⟩
  · rw [hsize]
    exact h.base
  · intro other
    rw [hpending, hreserved, hdefined, hnodup.mem_erase_iff,
      h.pending other, List.mem_cons, not_or]
    constructor
    · intro hother
      exact ⟨hother.2.1, hother.1, hother.2.2⟩
    · intro hother
      exact ⟨hother.2.1, hother.1, hother.2.2⟩
  · rw [hpending]
    exact h.ascending.sublist List.erase_sublist

/-- Every operation keeps the records of a store. -/
theorem Kept.perform (h : r.Kept first)
    (hop : r.perform Store.allocator op = .ok r') : r'.Kept first := by
  obtain rfl | ⟨id, hmem, hpending, hsize, hreserved, hdefined⟩ |
    ⟨hpending, hsize, hreserved, hdefined⟩ := perform_cases hop
  · exact h.reserve
  · exact h.define hpending hmem hsize hreserved hdefined
  · have hbase := h.base
    constructor
    · obtain ⟨hrange, hdef⟩ := h.toWithin.mono (Nat.le_refl _) hsize
      constructor
      · rw [hreserved]
        exact hrange
      · rw [hreserved, hdefined]
        exact hdef
    · omega
    · rw [hpending, hreserved, hdefined]
      exact h.pending
    · rw [hpending]
      exact h.ascending

/-- What is put on record for a layer is what is put on record for the
store that it amounts to. -/
theorem perform_map_flattened {r r' : Recorded Layer}
    (h : r.holder.OwnsPending)
    (hop : r.perform Layer.allocator op = .ok r') :
    (r.map Layer.flattened).perform Store.allocator op
      = .ok (r'.map Layer.flattened) ∧
    r'.holder.baseSize = r.holder.baseSize := by
  obtain ⟨⟨reply, layer⟩, hlayer, hop⟩ := bind_eq_ok.mp hop
  have hstore := Operation.perform_flattened h op
  rw [hlayer] at hstore
  have hbase := congrArg Store.size
    (Operation.perform_ownsPending h hlayer).1
  unfold Recorded.perform
  show (op.perform Store.allocator r.holder.flattened >>= _) = _ ∧ _
  rw [hstore]
  cases op <;> cases reply <;> cases hop <;> exact ⟨rfl, hbase⟩

/-- Every operation keeps those of a layer. -/
theorem Kept.layer {r r' : Recorded Layer}
    (h : (r.map Layer.flattened).Kept r.holder.baseSize)
    (hop : r.perform Layer.allocator op = .ok r') :
    (r'.map Layer.flattened).Kept r'.holder.baseSize := by
  have hown : r.holder.OwnsPending := by
    intro id hid
    exact (h.range id ((h.pending id).mp hid).1).1
  obtain ⟨hstore, hbase⟩ := perform_map_flattened hown hop
  rw [hbase]
  exact h.perform hstore

/-- Validating names the least id that is reserved and not defined. -/
theorem Kept.validate (h : r.Kept first) :
    (r.Settled ∧ r.holder.validate = .ok ()) ∨
    ∃ id, r.holder.validate = .error (.undefined id) ∧
      id ∈ r.reserved ∧ id ∉ r.defined ∧
      ∀ other ∈ r.reserved, other ∉ r.defined →
        id.index ≤ other.index := by
  unfold Store.validate
  have hpending := h.pending
  have hascending := h.ascending
  cases hp : r.holder.pending with
  | nil =>
      rw [hp] at hpending
      refine .inl ⟨?_, rfl⟩
      intro id hid
      by_contra hnot
      cases (hpending id).mpr ⟨hid, hnot⟩
  | cons id rest =>
      rw [hp] at hpending hascending
      obtain ⟨hid, hnot⟩ := (hpending id).mp List.mem_cons_self
      refine .inr ⟨id, rfl, hid, hnot, ?_⟩
      intro other hother hundefined
      have hmem := (hpending other).mpr ⟨hother, hundefined⟩
      obtain rfl | hmem := List.mem_cons.mp hmem
      · exact Nat.le_refl _
      · exact Nat.le_of_lt ((List.pairwise_cons.mp hascending).1 other hmem)

end Recorded

-- ================================================================= runs

/-- A store in use, with the layers that were put on it, the nodes that
were taken off layers, and which of them were added to it. -/
structure Shelf where
  store : Recorded Store
  layers : List (Recorded Layer) := []
  detached : List (Recorded Detached) := []
  absorbed : List (Recorded Detached) := []

/-- Layers and detached nodes are numbered in the order in which they
came to be. -/
inductive Action where
  | store (op : Operation)
  | stack
  | layer (i : Nat) (op : Operation)
  | detach (i : Nat)
  | commit (i : Nat)

namespace Shelf

/-- The builtin types, with nothing on top of them. -/
def initial : Shelf := { store := { holder := .initial } }

/-- A layer can go on after its nodes were taken off it, and nodes stay
there when they are committed: both may be copies. -/
def act (s : Shelf) : Action → Except Fault Shelf
  | .store op => do
      return { s with store := ← s.store.perform Store.allocator op }
  | .stack =>
      let layer : Recorded Layer := { holder := .on s.store.holder }
      return { s with layers := s.layers ++ [layer] }
  | .layer i op =>
      match s.layers[i]? with
      | none => return s
      | some layer => do
          let layer ← layer.perform Layer.allocator op
          return { s with layers := s.layers.set i layer }
  | .detach i =>
      match s.layers[i]? with
      | none => return s
      | some layer =>
          return { s with
            detached := s.detached ++ [layer.map Layer.detach] }
  | .commit i =>
      match s.detached[i]? with
      | none => return s
      | some detached =>
          match s.store.holder.commit detached.holder with
          | .ok commit =>
              return { s with
                store := { s.store with holder := commit.store }
                absorbed := s.absorbed ++ [detached] }
          | .error _ => return s

/-- A run, from the builtin types on. -/
def run (actions : List Action) : Except Fault Shelf :=
  actions.foldlM act initial

/-- The id was reserved by the store, or by a layer that was committed
to it. -/
def Reserved (s : Shelf) (id : TypeId) : Prop :=
  id ∈ s.store.reserved ∨ ∃ d ∈ s.absorbed, id ∈ d.reserved

/-- The id was defined by the store, or by a layer that was committed to
it. -/
def Defined (s : Shelf) (id : TypeId) : Prop :=
  id ∈ s.store.defined ∨ ∃ d ∈ s.absorbed, id ∈ d.defined

/-- The id is one of the store's, reserved and never defined. -/
def Owes (s : Shelf) (id : TypeId) : Prop :=
  id.index < s.store.holder.size ∧ s.Reserved id ∧ ¬ s.Defined id

instance (s : Shelf) (id : TypeId) : Decidable (s.Reserved id) :=
  inferInstanceAs (Decidable (_ ∨ ∃ d ∈ s.absorbed, id ∈ d.reserved))

instance (s : Shelf) (id : TypeId) : Decidable (s.Defined id) :=
  inferInstanceAs (Decidable (_ ∨ ∃ d ∈ s.absorbed, id ∈ d.defined))

instance (s : Shelf) (id : TypeId) : Decidable (s.Owes id) :=
  inferInstanceAs (Decidable (_ ∧ _ ∧ _))

/-- All records are kept, and the ids of what was committed are not those
that the store reserved itself. -/
structure Sound (s : Shelf) : Prop where
  store : s.store.Kept 0
  layers : ∀ layer ∈ s.layers,
    (layer.map Layer.flattened).Kept layer.holder.baseSize
  detached : ∀ d ∈ s.detached,
    d.Within d.holder.baseSize (d.holder.baseSize + d.holder.nodes.size)
  absorbed : ∀ d ∈ s.absorbed,
    d.Within 0 s.store.holder.size ∧
      ∀ id ∈ d.reserved, id ∉ s.store.reserved

variable {s s' : Shelf}

/-- At first nothing is reserved. -/
theorem initial_sound : initial.Sound := by
  refine ⟨⟨⟨?_, ?_⟩, Nat.zero_le _, ?_, .nil⟩, ?_, ?_, ?_⟩
  all_goals simp [initial, Store.initial]

/-- An operation on the store. -/
theorem Sound.onStore (h : s.Sound) {op : Operation}
    {store : Recorded Store}
    (hop : s.store.perform Store.allocator op = .ok store) :
    Sound { s with store } := by
  obtain ⟨hsize, hnew⟩ := Recorded.perform_grows hop
  refine ⟨h.store.perform hop, h.layers, h.detached, ?_⟩
  intro d hd
  obtain ⟨hwithin, hapart⟩ := h.absorbed d hd
  refine ⟨hwithin.mono (Nat.le_refl _) hsize, ?_⟩
  intro id hid hmem
  have hlt := (hwithin.range id hid).2
  obtain hold | hle := hnew id hmem
  · exact hapart id hid hold
  · omega

/-- A new layer. -/
theorem Sound.stack (h : s.Sound) :
    Sound { s with
      layers := s.layers ++ [{ holder := .on s.store.holder }] } := by
  refine ⟨h.store, ?_, h.detached, h.absorbed⟩
  rw [List.forall_mem_append, List.forall_mem_singleton]
  refine ⟨h.layers, ⟨⟨?_, ?_⟩, ?_, ?_, .nil⟩⟩
  · intro id hid
    cases hid
  · intro id hid
    cases hid
  · show _ ≤ (Layer.on s.store.holder).flattened.size
    rw [Layer.size_flattened]
    exact Nat.le_add_right _ _
  · intro id
    simp [Recorded.map, Layer.flattened, Layer.on]

/-- An operation on one of the layers. -/
theorem Sound.onLayer (h : s.Sound) {i : Nat} {op : Operation}
    {layer layer' : Recorded Layer} (hi : s.layers[i]? = some layer)
    (hop : layer.perform Layer.allocator op = .ok layer') :
    Sound { s with layers := s.layers.set i layer' } := by
  refine ⟨h.store, ?_, h.detached, h.absorbed⟩
  intro other hother
  obtain hother | rfl := List.mem_or_eq_of_mem_set hother
  · exact h.layers other hother
  · exact (h.layers layer (List.mem_of_getElem? hi)).layer hop

/-- Taking the nodes off a layer. -/
theorem Sound.detach (h : s.Sound) {i : Nat} {layer : Recorded Layer}
    (hi : s.layers[i]? = some layer) :
    Sound { s with
      detached := s.detached ++ [layer.map Layer.detach] } := by
  refine ⟨h.store, h.layers, ?_, h.absorbed⟩
  rw [List.forall_mem_append, List.forall_mem_singleton]
  obtain ⟨hrange, hdefined⟩ :=
    (h.layers layer (List.mem_of_getElem? hi)).toWithin
  refine ⟨h.detached, ?_, hdefined⟩
  have hsize : layer.holder.flattened.size
      = layer.holder.baseSize + layer.holder.fresh.size :=
    layer.holder.size_flattened
  intro id hid
  rw [show (layer.map Layer.flattened).holder.size = _ from hsize]
    at hrange
  exact hrange id hid

/-- The ids of what is committed begin where those of the store end. -/
theorem Sound.commit (h : s.Sound) {i : Nat} {d : Recorded Detached}
    {commit : Store.Commit} (hi : s.detached[i]? = some d)
    (hcommit : s.store.holder.commit d.holder = .ok commit) :
    Sound { s with
      store := { s.store with holder := commit.store }
      absorbed := s.absorbed ++ [d] } := by
  obtain ⟨hbase, hpending, hsize⟩ := Store.commit_eq_ok hcommit
  have hle : s.store.holder.size ≤ commit.store.size := by omega
  have hd := h.detached d (List.mem_of_getElem? hi)
  rw [hbase, ← hsize] at hd
  constructor
  · have hkept := h.store
    obtain ⟨hrange, hdefined⟩ :=
      hkept.toWithin.mono (Nat.le_refl _) hle
    refine ⟨⟨hrange, hdefined⟩, Nat.zero_le _, ?_, ?_⟩
    · intro id
      show id ∈ commit.store.pending ↔ _
      rw [hpending]
      exact hkept.pending id
    · show commit.store.pending.Pairwise _
      rw [hpending]
      exact hkept.ascending
  · exact h.layers
  · exact h.detached
  · show ∀ d' ∈ s.absorbed ++ [d], d'.Within 0 commit.store.size ∧
      ∀ id ∈ d'.reserved, id ∉ s.store.reserved
    rw [List.forall_mem_append, List.forall_mem_singleton]
    refine ⟨fun d' hd' => ?_, hd.mono (Nat.zero_le _) (Nat.le_refl _), ?_⟩
    · obtain ⟨hwithin, hapart⟩ := h.absorbed d' hd'
      exact ⟨hwithin.mono (Nat.le_refl _) hle, hapart⟩
    · intro id hid hmem
      have hfrom := (hd.range id hid).1
      have hupto := (h.store.range id hmem).2
      omega

/-- Every action keeps the records. -/
theorem Sound.act (h : s.Sound) {action : Action}
    (hact : s.act action = .ok s') : s'.Sound := by
  cases action with
  | store op =>
      obtain ⟨store, hop, hact⟩ := bind_eq_ok.mp hact
      cases hact
      exact h.onStore hop
  | stack =>
      cases hact
      exact h.stack
  | layer i op =>
      simp only [Shelf.act] at hact
      split at hact
      · cases hact
        exact h
      next layer hi =>
        obtain ⟨layer', hop, hact⟩ := bind_eq_ok.mp hact
        cases hact
        exact h.onLayer hi hop
  | detach i =>
      simp only [Shelf.act] at hact
      split at hact
      · cases hact
        exact h
      next layer hi =>
        cases hact
        exact h.detach hi
  | commit i =>
      simp only [Shelf.act] at hact
      split at hact
      · cases hact
        exact h
      next d hi =>
        split at hact
        next commit hcommit =>
          cases hact
          exact h.commit hi hcommit
        next =>
          cases hact
          exact h

/-- Every run does, from the builtin types on. -/
theorem run_sound {actions : List Action} (hrun : run actions = .ok s) :
    s.Sound := by
  refine foldlM_invariant ?_ initial_sound hrun
  intro action _ s s' h hact
  exact h.act hact

/-- Where what was committed is settled, the store owes what it reserved
itself. -/
theorem Sound.owes_iff (h : s.Sound)
    (hsettled : ∀ d ∈ s.absorbed, d.Settled) (id : TypeId) :
    s.Owes id ↔ id ∈ s.store.reserved ∧ id ∉ s.store.defined := by
  constructor
  · intro howes
    obtain ⟨-, hreserved, hnot⟩ := howes
    obtain hown | ⟨d, hd, hmem⟩ := hreserved
    · exact ⟨hown, fun hdef => hnot (.inl hdef)⟩
    · exact absurd (.inr ⟨d, hd, hsettled d hd id hmem⟩) hnot
  · intro hown
    obtain ⟨hmem, hnot⟩ := hown
    refine ⟨(h.store.range id hmem).2, .inl hmem, ?_⟩
    intro hdef
    obtain hdef | ⟨d, hd, hdef⟩ := hdef
    · exact hnot hdef
    · obtain ⟨hwithin, hapart⟩ := h.absorbed d hd
      exact hapart id (hwithin.defined id hdef) hmem

/-- Validating finds every id that was reserved and never defined. After
any run in which a layer was committed only with its reservations
settled, the store validates exactly if no id of its is owed a node,
whoever reserved it, and otherwise the least of these is named. -/
theorem validate_finds_owed {actions : List Action}
    (hrun : run actions = .ok s)
    (hsettled : ∀ d ∈ s.absorbed, d.Settled) :
    (s.store.holder.validate = .ok () ↔ ∀ id, ¬ s.Owes id) ∧
    ((∃ id, s.Owes id) →
      ∃ id, s.store.holder.validate = .error (.undefined id) ∧
        s.Owes id ∧ ∀ other, s.Owes other → id.index ≤ other.index) := by
  have hsound := run_sound hrun
  have howes := hsound.owes_iff hsettled
  obtain ⟨hown, hvalid⟩ | ⟨id, hinvalid, hreserved, hnot, hleast⟩ :=
    hsound.store.validate
  · have hnone : ∀ id, ¬ s.Owes id := by
      intro id howed
      obtain ⟨hmem, hnot⟩ := (howes id).mp howed
      exact hnot (hown id hmem)
    refine ⟨⟨fun _ => hnone, fun _ => hvalid⟩, ?_⟩
    intro hsome
    obtain ⟨id, howed⟩ := hsome
    exact absurd howed (hnone id)
  · have howed : s.Owes id := (howes id).mpr ⟨hreserved, hnot⟩
    constructor
    · rw [hinvalid]
      constructor
      · intro hvalid
        cases hvalid
      · intro hnone
        exact absurd howed (hnone id)
    · intro _
      refine ⟨id, hinvalid, howed, ?_⟩
      intro other hother
      obtain ⟨hmem, hundefined⟩ := (howes other).mp hother
      exact hleast other hmem hundefined

/-- The store reserves three ids and defines the first, and a layer that
reserves and defines one is committed in between. -/
def draftedActions : List Action :=
  [.store .reserve, .stack, .layer 0 .reserve,
   .layer 0 (.define ⟨22⟩ (.anonymous (.array ⟨21⟩))), .detach 0,
   .commit 0, .store .reserve, .store .reserve,
   .store (.define ⟨21⟩ (.anonymous (.map ⟨23⟩)))]

/-- Two ids are owed, and the lesser is named. -/
theorem drafted_finds_owed :
    ∃ s, run draftedActions = .ok s ∧
      (∀ d ∈ s.absorbed, d.Settled) ∧ s.Reserved ⟨22⟩ ∧
      s.Owes ⟨23⟩ ∧ s.Owes ⟨24⟩ ∧
      (s.store.holder.validate = .ok () ↔ ∀ id, ¬ s.Owes id) ∧
      ∃ id, s.store.holder.validate = .error (.undefined id) ∧
        s.Owes id ∧ ∀ other, s.Owes other → id.index ≤ other.index := by
  have hrun : ∃ s, run draftedActions = .ok s ∧
      (∀ d ∈ s.absorbed, d.Settled) ∧ s.Reserved ⟨22⟩ ∧
      s.Owes ⟨23⟩ ∧ s.Owes ⟨24⟩ := by
    refine ⟨_, rfl, ?_⟩
    decide +kernel
  obtain ⟨s, hrun, hsettled, hreserved, howed, howed'⟩ := hrun
  obtain ⟨hiff, hleast⟩ := validate_finds_owed hrun hsettled
  exact ⟨s, hrun, hsettled, hreserved, howed, howed', hiff,
    hleast ⟨⟨23⟩, howed⟩⟩

/-- A layer that reserves an id and never defines it: its nodes can be
committed all the same, and the store validates. -/
theorem owed_unnoticed :
    ∃ s, run [.stack, .layer 0 .reserve, .detach 0, .commit 0] = .ok s ∧
      s.Owes ⟨21⟩ ∧ s.store.holder.validate = .ok () := by
  refine ⟨_, rfl, ?_, rfl⟩
  decide +kernel

end Shelf

end TypeParams
