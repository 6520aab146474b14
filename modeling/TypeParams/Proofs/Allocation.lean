/-
Adding types to a layer, and to the store itself.

A store and a layer take the same operations (`Allocator`): add a node,
reserve an id, define it, make a union. They go about it differently. A
layer has nodes of its own, which it finds by shifting ids by the size
of the store below, and reserved ids of its own.

# What a layer amounts to

`Layer.flattened` is the store that a layer amounts to: the nodes it
shows, with the ids it has reserved. One operation on a layer is the
same operation on that store (`perform_flattened`), as long as the layer
has reserved ids of its own only (`Layer.OwnsPending`), which every
operation keeps. The replies agree as well, but for the words of a
refusal: a layer that is asked to define an id of the store says that it
is not its own.

# Operations in turn

A layer on a store without reserved ids amounts to the store to begin
with, so whatever is done to the one and to the other has the same
replies and shows the same nodes all along (`transcript_flattened`), and
what the layer has made can be put into the store at any time.
`transcript` lists the replies with the nodes that are shown after each
operation, so that the statement is about everything that can be seen on
the way and not only about the end. `InRange` says that no operation
looks up an id that is not there by then; where one does, both end in a
fault.
-/
import TypeParams.Proofs.Layer

namespace TypeParams

-- ========================================================== operations

/-- What stores and layers can be asked to do, and the nodes they
show. -/
structure Allocator (σ : Type) where
  alloc : σ → Node → TypeId × σ
  reserve : σ → TypeId × σ
  define : σ → TypeId → Node → Except Error σ
  unionOf : σ → List TypeId → Except Fault (TypeId × σ)
  nilable : σ → TypeId → Except Fault (TypeId × σ)
  node? : σ → TypeId → Option Node

/-- What a store can be asked to do. -/
def Store.allocator : Allocator Store where
  alloc := Store.alloc
  reserve := Store.reserve
  define := Store.define
  unionOf := Store.unionOf
  nilable := Store.nilable
  node? store := store.graph.node?

/-- What a layer can be asked to do. -/
def Layer.allocator : Allocator Layer where
  alloc := Layer.alloc
  reserve := Layer.reserve
  define := Layer.define
  unionOf := Layer.unionOf
  nilable := Layer.nilable
  node? := Layer.node?

/-- One thing to ask for. -/
inductive Operation where
  | alloc (node : Node)
  | reserve
  | define (id : TypeId) (node : Node)
  | unionOf (ids : List TypeId)
  | nilable (id : TypeId)

/-- What comes of an operation: an id, or a definition, or that it was
refused, for a reason of some sort. -/
inductive Reply where
  | made (id : TypeId)
  | defined
  | refused (kind : ErrorKind)
  deriving DecidableEq

namespace Operation

variable {σ : Type}

/-- The ids that an operation looks up. -/
def lookedUp : Operation → List TypeId
  | .unionOf ids => ids
  | .nilable id => [id, .nil]
  | .alloc _ | .reserve | .define _ _ => []

/-- An operation that is refused changes nothing. -/
def perform (a : Allocator σ) (s : σ) :
    Operation → Except Fault (Reply × σ)
  | .alloc node =>
      let (id, s) := a.alloc s node
      return (.made id, s)
  | .reserve =>
      let (id, s) := a.reserve s
      return (.made id, s)
  | .define id node =>
      match a.define s id node with
      | .ok s => return (.defined, s)
      | .error error => return (.refused error.kind, s)
  | .unionOf ids => do
      let (id, s) ← a.unionOf s ids
      return (.made id, s)
  | .nilable id => do
      let (id, s) ← a.nilable s id
      return (.made id, s)

/-- Operations one after the other: the reply to each, with the nodes
that are shown then. -/
def transcript (a : Allocator σ) (s : σ) : List Operation →
    Except Fault (List (Reply × (TypeId → Option Node)) × σ)
  | [] => return ([], s)
  | op :: ops => do
      let (reply, s) ← op.perform a s
      let (rest, last) ← transcript a s ops
      return ((reply, a.node? s) :: rest, last)

/-- Every id that an operation looks up is there by then. -/
def InRange (a : Allocator σ) (s : σ) : List Operation → Prop
  | [] => True
  | op :: ops =>
      (∀ id ∈ op.lookedUp, (a.node? s id).isSome) ∧
        match op.perform a s with
        | .ok (_, s) => InRange a s ops
        | .error _ => True

instance InRange.decidable (a : Allocator σ) :
    (s : σ) → (ops : List Operation) → Decidable (InRange a s ops)
  | _, [] => .isTrue trivial
  | s, op :: ops =>
      have : Decidable (match op.perform a s with
          | .ok (_, s) => InRange a s ops
          | .error _ => True) :=
        match op.perform a s with
        | .ok (_, s) => InRange.decidable a s ops
        | .error _ => .isTrue trivial
      inferInstanceAs (Decidable (_ ∧ _))

end Operation

-- ========================================================== one operation

namespace Layer

variable {layer layer' : Layer}

/-- The store that a layer amounts to. -/
def flattened (layer : Layer) : Store where
  graph := layer.graph
  pending := layer.pending

/-- The layer has reserved ids of its own only. -/
def OwnsPending (layer : Layer) : Prop :=
  ∀ id ∈ layer.pending, layer.baseSize ≤ id.index

/-- A new layer amounts to its store, if nothing is reserved there. -/
theorem flattened_on {store : Store} (h : store.pending = []) :
    (Layer.on store).flattened = store := by
  unfold flattened
  rw [graph_on]
  show (⟨store.graph, []⟩ : Store) = store
  rw [← h]

theorem size_flattened (layer : Layer) :
    layer.flattened.size = layer.size :=
  size_graph layer

theorem nextId_flattened (layer : Layer) :
    layer.flattened.nextId = layer.nextId := by
  unfold Store.nextId nextId
  rw [size_flattened]

/-- A layer adds a node as the store does that it amounts to. -/
theorem alloc_flattened (layer : Layer) (node : Node) :
    layer.flattened.alloc node
      = ((layer.alloc node).1, (layer.alloc node).2.flattened) := by
  unfold Store.alloc flattened
  rw [graph_alloc]
  exact congrArg (·, _) layer.nextId_flattened

/-- It reserves an id as that store does. -/
theorem reserve_flattened (layer : Layer) :
    layer.flattened.reserve
      = (layer.reserve.1, layer.reserve.2.flattened) := by
  unfold Store.reserve
  rw [nextId_flattened]
  show (layer.nextId, (⟨_, _⟩ : Store)) = _
  unfold flattened
  rw [graph_reserve]
  rfl

/-- Putting a node into the layer's own part is putting it into all the
layer shows. -/
theorem graph_set (layer : Layer) {id : TypeId}
    (h : layer.baseSize ≤ id.index) (node : Node) :
    (⟨layer.graph.nodes.setIfInBounds id.index node⟩ : Graph)
      = { layer with
          fresh :=
            layer.fresh.setIfInBounds (id.index - layer.baseSize) node
          : Layer }.graph :=
  congrArg Graph.mk (Array.setIfInBounds_append_right h)

/-- The layer defines what the store defines. Where they refuse, their
words may differ and their reasons do not. -/
theorem define_flattened (h : layer.OwnsPending) (id : TypeId)
    (node : Node) :
    (layer.flattened.define id node).mapError Error.kind
      = ((layer.define id node).map flattened).mapError Error.kind := by
  unfold Store.define Layer.define
  rw [size_flattened]
  by_cases hmem : id ∈ layer.pending
  · rw [if_pos (show id ∈ layer.flattened.pending from hmem), if_pos hmem]
    unfold flattened
    rw [layer.graph_set (h id hmem)]
    rfl
  · rw [if_neg (show id ∉ layer.flattened.pending from hmem),
      if_neg hmem]
    by_cases hle : layer.size ≤ id.index
    · rw [if_pos hle, if_pos hle]
      rfl
    · rw [if_neg hle, if_neg hle]
      rfl

/-- It makes a union as that store does. -/
theorem unionOf_flattened (layer : Layer) (ids : List TypeId) :
    layer.flattened.unionOf ids
      = (layer.unionOf ids).map fun made => (made.1, made.2.flattened) := by
  unfold Store.unionOf Layer.unionOf
  show (layer.graph.unionMembers ids >>= _) = _
  cases layer.graph.unionMembers ids with
  | error fault => rfl
  | ok members =>
      match members with
      | [] => rfl
      | [id] => rfl
      | a :: b :: rest =>
          exact congrArg Except.ok (layer.alloc_flattened _)

/-- Reserving, and only reserving, adds to the reserved ids. -/
theorem OwnsPending.reserve (h : layer.OwnsPending) :
    layer.reserve.2.OwnsPending := by
  show ∀ id ∈ layer.pending ++ [layer.nextId], layer.baseSize ≤ id.index
  rw [List.forall_mem_append, List.forall_mem_singleton]
  exact ⟨h, Nat.le_add_right _ _⟩

/-- Defining takes an id off the reserved ones. -/
theorem OwnsPending.define (h : layer.OwnsPending) {id : TypeId}
    {node : Node} (hdefine : layer.define id node = .ok layer') :
    layer'.base = layer.base ∧ layer'.OwnsPending := by
  obtain ⟨-, rfl⟩ := define_eq_ok.mp hdefine
  refine ⟨rfl, ?_⟩
  intro j hj
  exact h j (List.mem_of_mem_erase hj)

/-- Making a union reserves nothing. -/
theorem OwnsPending.unionOf (h : layer.OwnsPending)
    {ids : List TypeId} {id : TypeId}
    (hunion : layer.unionOf ids = .ok (id, layer')) :
    layer'.base = layer.base ∧ layer'.OwnsPending := by
  obtain ⟨members, -, ⟨-, rfl⟩ | ⟨-, rfl⟩ | ⟨-, rfl⟩⟩ :=
    unionOf_cases hunion
  · exact ⟨rfl, h⟩
  · exact ⟨rfl, h⟩
  · exact ⟨rfl, h⟩

end Layer

/-- The union of types that are there can be made. -/
theorem Graph.unionMembers_returns {g : Graph} {ids : List TypeId}
    (h : ∀ id ∈ ids, (g.node? id).isSome) :
    Returns (g.unionMembers ids) := by
  refine Returns.bind (.mapM fun id hid => ?_) fun _ _ => .pure _
  obtain ⟨node, hn⟩ := Option.isSome_iff_exists.mp (h id hid)
  refine Returns.bind ⟨node, Graph.node_eq_ok.mpr hn⟩ fun _ _ => ?_
  split
  · exact .pure _
  · exact .pure _

/-- A union can be made of types that are there. -/
theorem Store.unionOf_returns {store : Store} {ids : List TypeId}
    (h : ∀ id ∈ ids, (store.graph.node? id).isSome) :
    Returns (store.unionOf ids) := by
  refine (Graph.unionMembers_returns h).bind fun members _ => ?_
  split
  · exact .pure _
  · exact .pure _
  · exact .pure _

namespace Operation

variable {layer layer' : Layer}

/-- An operation on a layer is the operation on the store that the layer
amounts to. -/
theorem perform_flattened (h : layer.OwnsPending) (op : Operation) :
    op.perform Store.allocator layer.flattened
      = (op.perform Layer.allocator layer).map
          fun done => (done.1, done.2.flattened) := by
  cases op with
  | alloc node =>
      show Except.ok (Reply.made (layer.flattened.alloc node).1,
        (layer.flattened.alloc node).2) = _
      rw [layer.alloc_flattened]
      rfl
  | reserve =>
      show Except.ok (Reply.made layer.flattened.reserve.1,
        layer.flattened.reserve.2) = _
      rw [layer.reserve_flattened]
      rfl
  | define id node =>
      have hdefine := Layer.define_flattened h id node
      simp only [perform, Store.allocator, Layer.allocator]
      cases hs : layer.flattened.define id node with
      | ok store =>
          cases hl : layer.define id node with
          | ok layer' =>
              rw [hs, hl] at hdefine
              cases hdefine
              rfl
          | error error =>
              rw [hs, hl] at hdefine
              cases hdefine
      | error error =>
          cases hl : layer.define id node with
          | ok layer' =>
              rw [hs, hl] at hdefine
              cases hdefine
          | error error' =>
              rw [hs, hl] at hdefine
              have hkind : error.kind = error'.kind :=
                Except.error.inj hdefine
              show Except.ok (Reply.refused error.kind, layer.flattened) = _
              rw [hkind]
              rfl
  | unionOf ids =>
      show (layer.flattened.unionOf ids >>= _) = _
      rw [layer.unionOf_flattened]
      show _ = Except.map _ (layer.unionOf ids >>= _)
      cases layer.unionOf ids <;> rfl
  | nilable id =>
      show (layer.flattened.unionOf [id, .nil] >>= _) = _
      rw [layer.unionOf_flattened]
      show _ = Except.map _ (layer.unionOf [id, .nil] >>= _)
      cases layer.unionOf [id, .nil] <;> rfl

/-- A layer stays on its store and reserves ids of its own only. -/
theorem perform_ownsPending (h : layer.OwnsPending) {op : Operation}
    {reply : Reply}
    (hop : op.perform Layer.allocator layer = .ok (reply, layer')) :
    layer'.base = layer.base ∧ layer'.OwnsPending := by
  cases op with
  | alloc node =>
      cases hop
      exact ⟨rfl, h⟩
  | reserve =>
      cases hop
      exact ⟨rfl, h.reserve⟩
  | define id node =>
      simp only [perform] at hop
      split at hop
      next layer'' hdefine =>
        cases hop
        exact h.define hdefine
      next =>
        cases hop
        exact ⟨rfl, h⟩
  | unionOf ids =>
      obtain ⟨⟨id, layer''⟩, hunion, hop⟩ := bind_eq_ok.mp hop
      cases hop
      exact h.unionOf hunion
  | nilable id =>
      obtain ⟨⟨id, layer''⟩, hunion, hop⟩ := bind_eq_ok.mp hop
      cases hop
      exact h.unionOf hunion

/-- An operation that looks up types that are there does not fault. -/
theorem perform_returns {store : Store} {op : Operation}
    (h : ∀ id ∈ op.lookedUp, (store.graph.node? id).isSome) :
    Returns (op.perform Store.allocator store) := by
  cases op with
  | alloc node => exact .pure _
  | reserve => exact .pure _
  | define id node =>
      simp only [perform]
      split
      · exact .pure _
      · exact .pure _
  | unionOf ids => exact (Store.unionOf_returns h).bind fun _ _ => .pure _
  | nilable id => exact (Store.unionOf_returns h).bind fun _ _ => .pure _

-- ==================================================== operations in turn

/-- Operations on a layer are those on the store that it amounts to, with
the same nodes shown after each. -/
theorem transcript_flattened (h : layer.OwnsPending)
    {ops : List Operation}
    (hrange : InRange Store.allocator layer.flattened ops) :
    ∃ shown layer',
      transcript Layer.allocator layer ops = .ok (shown, layer') ∧
      transcript Store.allocator layer.flattened ops
        = .ok (shown, layer'.flattened) ∧
      layer'.base = layer.base := by
  induction ops generalizing layer with
  | nil => exact ⟨[], layer, rfl, rfl, rfl⟩
  | cons op ops ih =>
      obtain ⟨hids, hrest⟩ := hrange
      obtain ⟨⟨reply, store⟩, hstore⟩ := perform_returns hids
      have hboth := perform_flattened h op
      rw [hstore] at hboth hrest
      cases hlayer : op.perform Layer.allocator layer with
      | error fault =>
          rw [hlayer] at hboth
          cases hboth
      | ok done =>
          obtain ⟨reply', layer₁⟩ := done
          rw [hlayer] at hboth
          obtain ⟨rfl, rfl⟩ := Prod.mk.inj (Except.ok.inj hboth)
          obtain ⟨hbase, hown⟩ := perform_ownsPending h hlayer
          obtain ⟨shown, layer', hleft, hright, hbase'⟩ := ih hown hrest
          have hnodes : Store.allocator.node? layer₁.flattened
              = Layer.allocator.node? layer₁ := by
            funext id
            exact layer₁.node?_graph id
          refine ⟨(reply, Layer.allocator.node? layer₁) :: shown, layer',
            ?_, ?_, hbase'.trans hbase⟩
          · unfold transcript
            rw [hlayer]
            show (transcript Layer.allocator layer₁ ops >>= _) = _
            rw [hleft]
            rfl
          · unfold transcript
            rw [hstore]
            show (transcript Store.allocator layer₁.flattened ops >>= _)
              = _
            rw [hright, ← hnodes]
            rfl

end Operation

-- ============================================================== commits

/-- What is left of a store that nodes were to be committed to. -/
def Store.afterCommit (store : Store) (detached : Detached) : Store :=
  match store.commit detached with
  | .ok commit => commit.store
  | .error _ => store

/-- A layer does what its store would do. Take a store without reserved
ids and any operations, each about types that are there when it looks
them up. Done on a layer and done to a copy of the store, they have the
same replies, and after each of them every id shows the same node. What
the layer has made can then be committed to the store: it gets the ids
from the old size to the new, and the nodes of the copy are the result.
A store whose size has changed in the meantime refuses, and stays as it
is. -/
theorem layer_refines_store (store : Store) (hpending : store.pending = [])
    (ops : List Operation)
    (hrange : Operation.InRange Store.allocator store ops) :
    ∃ shown layer direct,
      Operation.transcript Layer.allocator (.on store) ops
        = .ok (shown, layer) ∧
      Operation.transcript Store.allocator store ops
        = .ok (shown, direct) ∧
      (∃ commit, store.commit layer.detach = .ok commit ∧
        commit.first = ⟨store.size⟩ ∧ commit.stop = ⟨direct.size⟩ ∧
        commit.store.graph = direct.graph) ∧
      ∀ changed : Store, changed.size ≠ store.size →
        changed.commit layer.detach
          = .error (.staleLayer store.size changed.size) ∧
        changed.afterCommit layer.detach = changed := by
  have hflat := Layer.flattened_on hpending
  have hown : (Layer.on store).OwnsPending := by
    intro id hid
    cases hid
  have hrange' : Operation.InRange Store.allocator
      (Layer.on store).flattened ops := by
    rw [hflat]
    exact hrange
  obtain ⟨shown, layer, hleft, hright, hbase⟩ :=
    Operation.transcript_flattened hown hrange'
  rw [hflat] at hright
  -- the layer is still on the store that it was put on
  have hsize : layer.detach.baseSize = store.size :=
    congrArg Store.size hbase
  refine ⟨shown, layer, layer.flattened, hleft, hright, ?_, ?_⟩
  · unfold Store.commit
    rw [if_pos hsize]
    have hgraph : (⟨store.graph.nodes ++ layer.detach.nodes⟩ : Graph)
        = layer.graph := by
      unfold Layer.graph
      rw [hbase]
      rfl
    refine ⟨_, rfl, rfl, ?_, hgraph⟩
    show (⟨(⟨store.graph.nodes ++ layer.detach.nodes⟩ : Graph).size⟩
      : TypeId) = ⟨layer.graph.size⟩
    rw [hgraph]
  · intro changed hchanged
    have hstale : changed.commit layer.detach
        = .error (.staleLayer store.size changed.size) := by
      unfold Store.commit
      rw [hsize, if_neg hchanged.symm]
    refine ⟨hstale, ?_⟩
    unfold Store.afterCommit
    rw [hstale]

/-- An id is reserved, unions are made around it, it is defined, and
definitions of what has one, of builtin types and of nothing at all are
tried in between. -/
def linkedOperations : List Operation :=
  [.reserve, .nilable ⟨21⟩, .define ⟨21⟩ (.anonymous (.array ⟨22⟩)),
   .define ⟨21⟩ (.anonymous (.leaf .int)),
   .define .int (.anonymous (.leaf .byte)),
   .define ⟨40⟩ (.anonymous (.leaf .int)), .unionOf [⟨22⟩, .int, .nil],
   .unionOf [.int, .int], .unionOf [],
   .alloc (.named "Link" ⟨1⟩ (.map ⟨23⟩)), .reserve]

/-- The builtin types and a layer on them. -/
theorem linked_refines :
    Operation.InRange Store.allocator .initial linkedOperations ∧
    ∃ shown layer direct,
      Operation.transcript Layer.allocator (.on .initial) linkedOperations
        = .ok (shown, layer) ∧
      Operation.transcript Store.allocator .initial linkedOperations
        = .ok (shown, direct) ∧
      shown.map Prod.fst
        = [.made ⟨21⟩, .made ⟨22⟩, .defined, .refused .generic,
           .refused .generic, .refused .unknownType, .made ⟨23⟩,
           .made .int, .made .never, .made ⟨24⟩, .made ⟨25⟩] ∧
      ∃ commit, Store.initial.commit layer.detach = .ok commit ∧
        commit.first = ⟨21⟩ ∧ commit.stop = ⟨direct.size⟩ ∧
        commit.store.graph = direct.graph := by
  have hrange : Operation.InRange Store.allocator .initial
      linkedOperations := by decide +kernel
  obtain ⟨shown, layer, direct, hleft, hright, hcommit, -⟩ :=
    layer_refines_store .initial rfl linkedOperations hrange
  have hreplies : (Operation.transcript Store.allocator .initial
      linkedOperations).map (fun done => done.1.map Prod.fst)
      = .ok [.made ⟨21⟩, .made ⟨22⟩, .defined, .refused .generic,
           .refused .generic, .refused .unknownType, .made ⟨23⟩,
           .made .int, .made .never, .made ⟨24⟩, .made ⟨25⟩] := by
    rfl
  rw [hright] at hreplies
  exact ⟨hrange, shown, layer, direct, hleft, hright,
    Except.ok.inj hreplies, hcommit⟩

end TypeParams
