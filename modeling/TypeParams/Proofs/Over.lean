/-
The same layer over another store.

A resolution only ever adds to its layer, so it makes sense to ask what
it would have done had the store below been another one (`Layer.over`).
Here the other store differs in witnesses that nothing is read off
(`Graph.Veils`, `Graph.Discreet`).

# What the layer must not bring about

The two stores look alike, but a layer could still read a witness off by
putting a named marker where forms are looked at: a union of nil and a
marker, or an object with a marker for a method's type. So what the
layer adds has no named marker among its parts (`Layer.Above`). Then the
graphs of the two layers differ in such witnesses only
(`Layer.Above.veils`), what can be read off one can be read off the
other (`Layer.Above.discreet`), and types are written alike.

# Actions that commute

Changing the store under a workspace commutes with every action that
looks at types in ways that do not show a witness: allocating, reserving
and defining nodes, building unions, looking for markers, and writing
reports and events. These are the `…_commutes` lemmas at the end;
copying and matching are built from them, and the theorem about whole
sessions from those.
-/
import TypeParams.Proofs.Additions
import TypeParams.Proofs.Commuting
import TypeParams.Proofs.Veil
import TypeParams.Proofs.Workspace

namespace TypeParams

open TypeParams.Graph (Adds Admits)

-- ====================================================== changing the store

/-- The same layer over another store. -/
def Layer.over (store : Store) (layer : Layer) : Layer :=
  { layer with base := store }

/-- The same workspace with its layer over another store. -/
def Workspace.over (store : Store) (w : Workspace) : Workspace :=
  { w with types := w.types.over store }

/-- The type is there and no named marker. -/
def Graph.Keyless (g : Graph) (id : TypeId) : Prop :=
  ∃ node, g.node? id = some node ∧ node.markerKey? = none

/-- The stores differ in witnesses that are not looked at. -/
structure Store.Veils (store store' : Store) : Prop where
  closed : store.graph.Closed
  veils : store.graph.Veils store'.graph
  discreet : store.graph.Discreet store'.graph

/-- What the layer has added to the store has no named marker among its
parts. -/
structure Layer.Above (store : Store) (layer : Layer) : Prop where
  base : layer.base = store
  adds : Adds store.graph store.graph.Keyless layer.graph

namespace Graph

variable {g g' : Graph}

/-- A type that is no named marker is there. -/
theorem Keyless.lt {id : TypeId} (h : g.Keyless id) :
    id.index < g.size := by
  obtain ⟨node, hn, -⟩ := h
  exact index_lt_of_node? hn

/-- Other witnesses change only named markers. -/
theorem Veils.node?_of_keyless (h : g.Veils g') {id : TypeId}
    (hid : g.Keyless id) : g'.node? id = g.node? id := by
  obtain ⟨node, hn, hkey⟩ := hid
  obtain ⟨node', hn', hnode⟩ := h.node? hn
  rw [hn, hn', hnode.2 hkey]

/-- Whether a type is nil depends on its node, and for an id without one
on the size of the graph, which the fault names. -/
theorem isNil_congr {id : TypeId} (h : g'.node? id = g.node? id)
    (hsize : g'.size = g.size) : g'.isNil id = g.isNil id := by
  unfold isNil Graph.kind Graph.node
  rw [h, hsize]

/-- A type of the graph is nil in a larger graph if it is nil in it. -/
theorem Extends.isNil_eq (h : g.Extends g') {id : TypeId}
    (hid : id.index < g.size) : g'.isNil id = g.isNil id := by
  obtain ⟨node, hn⟩ := exists_node_of_lt hid
  unfold isNil
  rw [kind_of_node hn, kind_of_node (h _ _ hn)]

/-- A type of the graph has the same signature in a larger one. -/
theorem Extends.signature?_eq (h : g.Extends g') {id : TypeId}
    (hid : id.index < g.size) : g'.signature? id = g.signature? id := by
  unfold signature?
  rw [h.node?_eq hid]

/-- What was added after adding is added. -/
theorem Adds.trans {g₀ : Graph} {T T' : TypeId → Prop}
    (h : Adds g₀ T g) (h' : Adds g T' g')
    (hT : ∀ id, T' id → id.index < g₀.size → T id)
    (hlt : ∀ id, T' id → id.index < g.size) : Adds g₀ T g' := by
  have hadmits : ∀ id, Admits g T' g' id → Admits g₀ T g' id := by
    rintro id (hid | ⟨hle, hlt'⟩)
    · by_cases hold : id.index < g₀.size
      · exact .inl (hT id hid hold)
      · exact .inr ⟨Nat.le_of_not_lt hold, h'.nodes.lt (hlt id hid)⟩
    · exact .inr ⟨Nat.le_trans h.nodes.size_le hle, hlt'⟩
  refine ⟨h.nodes.trans h'.nodes, fun id node hle hn => ?_⟩
  by_cases hid : id.index < g.size
  · have hn' : g.node? id = some node :=
      (h'.nodes.node?_eq hid).symm.trans hn
    obtain ⟨hmarker, hparts⟩ := h.added id node hle hn'
    exact ⟨hmarker, fun c hc => (hparts c hc).mono h'.nodes.size_le⟩
  · obtain ⟨hmarker, hparts⟩ :=
      h'.added id node (Nat.le_of_not_lt hid) hn
    exact ⟨hmarker, fun c hc => hadmits c (hparts c hc)⟩

end Graph

-- ================================================================ layers

namespace Layer.Above

variable {store store' : Store} {layer : Layer}

/-- The layer's graph has grown from the store it is put over. -/
theorem extends_over (layer : Layer) (store' : Store) :
    store'.graph.Extends (layer.over store').graph := by
  rw [Graph.extends_iff_prefix]
  simp [Layer.graph, Layer.over]

/-- The graphs of the two layers differ in witnesses only: below, the
stores do, and above them are the same nodes. -/
theorem veils (hstore : store.Veils store') (h : layer.Above store) :
    layer.graph.Veils (layer.over store').graph := by
  unfold Graph.Veils
  have hbase := hstore.veils
  rw [← h.base] at hbase
  have hfresh : List.Forall₂ Node.Veils layer.fresh.toList
      layer.fresh.toList :=
    List.forall₂_same.mpr fun node _ => .refl node
  simpa [Layer.graph, Layer.over] using List.rel_append hbase hfresh

/-- Both layers have ids up to the same one. -/
theorem size_over (hstore : store.Veils store') (h : layer.Above store) :
    (layer.over store').size = layer.size := by
  rw [← Layer.size_graph, ← Layer.size_graph, (h.veils hstore).size_eq]

theorem baseSize_over (hstore : store.Veils store')
    (h : layer.Above store) :
    (layer.over store').baseSize = layer.baseSize := by
  unfold Layer.baseSize
  rw [h.base]
  exact hstore.veils.size_eq

/-- A part of an added type has the same node over the other store. -/
theorem node?_of_admits (hstore : store.Veils store')
    (h : layer.Above store) {id : TypeId}
    (hid : Admits store.graph store.graph.Keyless layer.graph id) :
    (layer.over store').graph.node? id = layer.graph.node? id := by
  refine (h.veils hstore).node?_of_keyless ?_
  rcases hid with ⟨node, hn, hkey⟩ | ⟨hle, hlt⟩
  · exact ⟨node, h.adds.nodes _ _ hn, hkey⟩
  · obtain ⟨node, hn⟩ := Graph.exists_node_of_lt hlt
    exact ⟨node, hn,
      Node.markerKey?_of_unmarked (h.adds.added id node hle hn).1⟩

/-- The parts of a type are those of a type of the store, or may be the
parts of an added one. -/
theorem parts (hstore : store.Veils store') (h : layer.Above store)
    {node : Node} (hmem : node ∈ layer.graph.nodes.toList) :
    (node ∈ store.graph.nodes.toList ∧
      ∀ c ∈ node.kind.children, c.index < store.graph.size) ∨
    ∀ c ∈ node.kind.children,
      Admits store.graph store.graph.Keyless layer.graph c := by
  obtain ⟨id, hn⟩ := Graph.exists_id_of_mem hmem
  by_cases hid : id.index < store.graph.size
  · rw [h.adds.nodes.node?_eq hid] at hn
    exact .inl ⟨Graph.mem_nodes_of_node? hn,
      hstore.closed.closedOn.child hid hn⟩
  · exact .inr (h.adds.added id node (Nat.le_of_not_lt hid) hn).2

/-- What can be read off the layer's types is the same over the other
store. -/
theorem discreet (hstore : store.Veils store') (h : layer.Above store) :
    layer.graph.Discreet (layer.over store').graph where
  nil := by
    intro node hmem hkey a b hkind
    have ha : a ∈ node.kind.children := by simp [hkind, Kind.children]
    have hb : b ∈ node.kind.children := by simp [hkind, Kind.children]
    rcases h.parts hstore hmem with ⟨hold, hlt⟩ | hadmits
    · have hext := extends_over layer store'
      have hlt' : ∀ c ∈ node.kind.children,
          c.index < store'.graph.size := by
        rw [hstore.veils.size_eq]
        exact hlt
      rw [h.adds.nodes.isNil_eq (hlt a ha),
        h.adds.nodes.isNil_eq (hlt b hb), hext.isNil_eq (hlt' a ha),
        hext.isNil_eq (hlt' b hb)]
      exact hstore.discreet.nil node hold hkey a b hkind
    · have hsize := (h.veils hstore).size_eq
      have hsame : ∀ c ∈ node.kind.children,
          (layer.over store').graph.isNil c = layer.graph.isNil c :=
        fun c hc => Graph.isNil_congr
          (h.node?_of_admits hstore (hadmits c hc)) hsize
      exact ⟨hsame b hb, fun _ => hsame a ha⟩
  method := by
    intro node hmem hkey object hkind m hm
    have hc : m.type ∈ node.kind.children := by
      rw [hkind]
      exact List.mem_append_right _ (List.mem_map_of_mem hm)
    rcases h.parts hstore hmem with ⟨hold, hlt⟩ | hadmits
    · have hlt' : m.type.index < store'.graph.size := by
        rw [hstore.veils.size_eq]
        exact hlt _ hc
      rw [h.adds.nodes.signature?_eq (hlt _ hc),
        (extends_over layer store').signature?_eq hlt']
      exact hstore.discreet.method node hold hkey object hkind m hm
    · unfold Graph.signature?
      rw [h.node?_of_admits hstore (hadmits _ hc)]

/-- Types are written alike over both stores. -/
theorem render_eq (hstore : store.Veils store') (h : layer.Above store)
    (id : TypeId) :
    (layer.over store').graph.render id = layer.graph.render id :=
  (h.discreet hstore).render_eq (h.veils hstore) id

/-- A new node gets the same id over both stores. -/
theorem alloc_over (hstore : store.Veils store') (h : layer.Above store)
    (node : Node) :
    (layer.over store').alloc node
      = ((layer.alloc node).1, (layer.alloc node).2.over store') := by
  unfold Layer.alloc Layer.nextId
  rw [h.size_over hstore]
  rfl

/-- So does a reserved one. -/
theorem reserve_over (hstore : store.Veils store')
    (h : layer.Above store) :
    (layer.over store').reserve
      = (layer.reserve.1, layer.reserve.2.over store') := by
  unfold Layer.reserve Layer.nextId
  rw [h.size_over hstore]
  rfl

/-- A reserved id is defined over both stores, or over neither. -/
theorem define_over (hstore : store.Veils store') (h : layer.Above store)
    (id : TypeId) (node : Node) :
    (layer.over store').define id node
      = (layer.define id node).map (·.over store') := by
  unfold Layer.define
  rw [h.baseSize_over hstore, h.size_over hstore]
  by_cases hpending : id ∈ layer.pending
  · rw [if_pos hpending]
    exact if_pos hpending
  · rw [if_neg hpending]
    refine (if_neg hpending).trans ?_
    split <;> rfl

/-- A union is built of the same members over both stores: its members
are looked at, but no witness of theirs. -/
theorem unionOf_over (hstore : store.Veils store')
    (h : layer.Above store) (ids : List TypeId) :
    (layer.over store').unionOf ids
      = (layer.unionOf ids).map fun made => (made.1, made.2.over store') := by
  unfold Layer.unionOf
  rw [(h.veils hstore).unionMembers_eq]
  cases layer.graph.unionMembers ids with
  | error fault => rfl
  | ok members =>
      match members with
      | [] => rfl
      | [id] => rfl
      | a :: b :: rest =>
          exact congrArg Except.ok (h.alloc_over hstore _)

end Layer.Above

-- ============================================================== actions

namespace WorkM

variable {store store' : Store} {w : Workspace} {α : Type}

/-- Looking at the types commutes with changing the store if the same is
seen. -/
theorem inspect_commutes {f : Graph → Except Fault α}
    (h : f (w.types.over store').graph = f w.types.graph) :
    Commutes (Workspace.over store') (WorkM.inspect f) w := by
  have hsame : f (w.over store').types.graph = f w.types.graph := h
  unfold Commutes inspect
  rw [hsame]
  cases f w.types.graph <;> rfl

/-- Looking for markers stops at a marker, and never sees its witness. -/
theorem containsMarker_commutes (hstore : store.Veils store')
    (h : w.types.Above store) (id : TypeId) :
    Commutes (Workspace.over store')
      (WorkM.inspect (·.containsMarker id)) w :=
  inspect_commutes ((h.veils hstore).containsMarker_eq id)

/-- Looking a node up that the other store has too. -/
theorem node_commutes (hstore : store.Veils store')
    (h : w.types.Above store) {id : TypeId}
    (hid : w.types.graph.Keyless id) :
    Commutes (Workspace.over store') (WorkM.node id) w := by
  have hsame := (h.veils hstore).node?_of_keyless hid
  obtain ⟨node, hn, -⟩ := hid
  have hrun : WorkM.node id w = .ok node w :=
    node_run.mpr ⟨hn, rfl⟩
  have hrun' : WorkM.node id (w.over store') = .ok node (w.over store') :=
    node_run.mpr ⟨hsame.trans hn, rfl⟩
  unfold Commutes
  rw [hrun, hrun']
  rfl

/-- An event is told alike if its text is the same. -/
theorem tell_commutes {event : Graph → Except Fault Event}
    (h : event (w.types.over store').graph = event w.types.graph) :
    Commutes (Workspace.over store') (WorkM.tell event) w := by
  have hsame : event (w.over store').types.graph = event w.types.graph := h
  have hlisten : (w.over store').journal.listening
      = w.journal.listening := rfl
  unfold Commutes tell
  rw [hsame, hlisten]
  cases w.journal.listening with
  | false => rfl
  | true => cases event w.types.graph <;> rfl

/-- A problem is reported alike if its text is the same. -/
theorem report_commutes {config : Config} {span : Span}
    {problem : Graph → Except Fault Problem}
    (h : problem (w.types.over store').graph = problem w.types.graph) :
    Commutes (Workspace.over store') (WorkM.report config span problem)
      w :=
  (inspect_commutes h).bind fun _ _ _ => .update rfl

/-- Running out of levels is reported alike: the message shows the type,
which is written alike. -/
theorem reportLimit_commutes (hstore : store.Veils store')
    (h : w.types.Above store) (config : Config) (span : Span)
    (event : Nat → Event) (id : TypeId) :
    Commutes (Workspace.over store')
      (WorkM.reportLimit config span event id) w := by
  refine .read ?_ rfl
  cases w.limitReported with
  | true => exact .pure _
  | false =>
      rw [Bool.not_false, if_pos rfl]
      refine .bind (.update (by rfl)) fun _ w₁ hmodify => ?_
      cases modify_run.mp hmodify
      refine .bind (tell_commutes (by rfl)) fun _ w₁ htell => ?_
      refine report_commutes ?_
      rw [tell_types htell, h.render_eq hstore]

theorem alloc_commutes (hstore : store.Veils store')
    (h : w.types.Above store) (node : Node) :
    Commutes (Workspace.over store') (WorkM.alloc node) w := by
  unfold Commutes alloc
  change EStateM.Result.ok ((w.types.over store').alloc node).1
    { w with types := ((w.types.over store').alloc node).2 } = _
  rw [h.alloc_over hstore]
  rfl

theorem unionOf_commutes (hstore : store.Veils store')
    (h : w.types.Above store) (ids : List TypeId) :
    Commutes (Workspace.over store') (WorkM.unionOf ids) w := by
  have hunion : (w.over store').types.unionOf ids = _ :=
    h.unionOf_over hstore ids
  unfold Commutes unionOf
  rw [hunion]
  cases w.types.unionOf ids <;> rfl

end WorkM

end TypeParams
