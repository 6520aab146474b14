/-
Copies are written like what they are copies of.

# Forms

The text of a type is put together from the texts of its parts, and from
little else: whether a part is a union without a name, which member of a
union is nil, whether a function returns nil (`Graph.Resembles`). So
types of the same form are written alike if their parts are
(`kindText_of_alike`). Names play their part too: a type that has a name
is written by it, and a copy keeps the name of its type.

# Cycles

Inside itself a type is written as its name, or as dots if it has none.
A copy is inside itself just where the type is (`Unfolds`), so there the
texts agree too. The path of types that writing is inside of is not the
same for the two, since a copy shares its parts in another way; what
matters is only which types are on it, and `Unfolds.render_eq` is stated
for paths that correspond.

# Types that stay

A part may also have stayed what it was, because it stands for itself.
It is written in the larger graph as it was before
(`Verbatim.renderWithin_extends`).
-/
import TypeParams.Proofs.Instantiation.Unfolding

namespace TypeParams

namespace Graph

variable {g g' : Graph} {x y : TypeId} {node copy : Node}

-- ======================================================== looking alike

/-- Types that look alike to a type that they are parts of. -/
structure Resembles (g g' : Graph) (x y : TypeId) : Prop where
  nil : y = .nil ↔ x = .nil
  nodes : ∃ node copy, g.node? x = some node ∧ g'.node? y = some copy ∧
    copy.name = node.name ∧ copy.isMarker = node.isMarker ∧
    copy.kind.unionMembers?.isSome = node.kind.unionMembers?.isSome ∧
    (copy.kind = .leaf .nil ↔ node.kind = .leaf .nil)

theorem Resembles.refl (hn : g.node? x = some node)
    (hn' : g'.node? x = some node) : g.Resembles g' x x :=
  ⟨.rfl, node, node, hn, hn', rfl, rfl, rfl, .rfl⟩

/-- Both are found to be nil, or neither. -/
theorem Resembles.isNil_eq (h : g.Resembles g' x y) :
    ∃ answer, g.isNil x = .ok answer ∧ g'.isNil y = .ok answer := by
  obtain ⟨-, node, copy, hn, hn', -, -, -, hnil⟩ := h
  refine ⟨node.kind == .leaf .nil, ?_, ?_⟩
  · exact bind_eq_ok.mpr ⟨_, kind_of_node hn, rfl⟩
  · refine bind_eq_ok.mpr ⟨_, kind_of_node hn', ?_⟩
    rw [show (copy.kind == .leaf .nil) = (node.kind == .leaf .nil) by
      rw [Bool.eq_iff_iff, beq_iff_eq, beq_iff_eq, hnil]]
    rfl

-- ============================================================== writing

section Writing

variable {child child' : TypeId → Except Fault String}

/-- Parts that look alike and are written alike. -/
structure ReadsAlike (g g' : Graph)
    (child child' : TypeId → Except Fault String) (x y : TypeId) :
    Prop where
  resembles : g.Resembles g' x y
  text : child' y = child x

/-- A part that something is written behind is written alike. -/
theorem ReadsAlike.atomText_eq (h : ReadsAlike g g' child child' x y) :
    g'.atomText child' y = g.atomText child x := by
  obtain ⟨node, copy, hn, hn', hname, -, hunion, -⟩ := h.resembles.nodes
  have hunnamed : copy.isUnnamedUnion = node.isUnnamedUnion := by
    unfold Node.isUnnamedUnion
    rw [hname, hunion]
  unfold atomText
  rw [h.text, node_eq_ok.mpr hn, node_eq_ok.mpr hn']
  refine bind_congr_ok fun text _ => ?_
  show Except.ok _ = Except.ok _
  rw [hunnamed]

/-- So is the type of all further members. -/
theorem restTexts_of_alike {rest rest' : Option TypeId}
    (h : Option.Rel (ReadsAlike g g' child child') rest rest') :
    g'.restTexts child' rest' = g.restTexts child rest := by
  cases h with
  | none => rfl
  | some h =>
      refine mapM_of_forall₂ (.cons ?_ .nil)
      rw [h.atomText_eq]

/-- So are parts that are listed. -/
theorem texts_of_alike {ids ids' : List TypeId}
    (h : List.Forall₂ (ReadsAlike g g' child child') ids ids') :
    ids'.mapM child' = ids.mapM child :=
  mapM_of_forall₂ (h.imp fun _ _ h => h.text)

/-- The other member than nil is at the same place. -/
theorem otherThanNil_of_alike {R : TypeId → TypeId → Prop}
    (hR : ∀ a b, R a b → g.Resembles g' a b)
    {members members' : List TypeId} (h : List.Forall₂ R members members') :
    ∃ inner inner', otherThanNil g.isNil (.union members) = .ok inner ∧
      otherThanNil g'.isNil (.union members') = .ok inner' ∧
      Option.Rel R inner inner' := by
  rcases h with _ | ⟨ha, _ | ⟨hb, _ | _⟩⟩
  · exact ⟨none, none, rfl, rfl, .none⟩
  · exact ⟨none, none, rfl, rfl, .none⟩
  · obtain ⟨nilA, hnilA, hnilA'⟩ := (hR _ _ ha).isNil_eq
    obtain ⟨nilB, hnilB, hnilB'⟩ := (hR _ _ hb).isNil_eq
    simp only [otherThanNil, hnilA, hnilA', hnilB, hnilB']
    cases nilB with
    | true => exact ⟨_, _, rfl, rfl, .some ha⟩
    | false =>
        cases nilA with
        | true => exact ⟨_, _, rfl, rfl, .some hb⟩
        | false => exact ⟨none, none, rfl, rfl, .none⟩
  · exact ⟨none, none, rfl, rfl, .none⟩

/-- Unions are written alike if their members are. -/
theorem unionText_of_alike {members members' : List TypeId}
    (hn : g.node? x = some node) (hn' : g'.node? y = some copy)
    (hkind : node.kind = .union members)
    (hkind' : copy.kind = .union members')
    (h : List.Forall₂ (ReadsAlike g g' child child') members members') :
    g'.unionText child' y members' = g.unionText child x members := by
  obtain ⟨inner, inner', hinner, hinner', hrel⟩ :=
    otherThanNil_of_alike (fun _ _ h => h.resembles) h
  unfold unionText
  rw [withoutNil?_of_node hn, withoutNil?_of_node hn', hkind, hkind',
    hinner, hinner']
  cases hrel with
  | none =>
      show (members'.mapM child' >>= _) = (members.mapM child >>= _)
      rw [texts_of_alike h]
  | some hrel =>
      show (g'.atomText child' _ >>= _) = (g.atomText child _ >>= _)
      rw [hrel.atomText_eq]

/-- Records are written alike if the types of their fields are. -/
theorem recordText_of_alike {fields fields' : List Field}
    {rest rest' : Option TypeId} (isSealed : Bool)
    (hfields : List.Forall₂ (Field.Alike (ReadsAlike g g' child child'))
      fields fields')
    (hrest : Option.Rel (ReadsAlike g g' child child') rest rest') :
    g'.recordText child' ⟨fields', rest', isSealed⟩
      = g.recordText child ⟨fields, rest, isSealed⟩ := by
  have hsome : rest'.isSome = rest.isSome := by cases hrest <;> rfl
  unfold recordText
  simp only [restTexts_of_alike hrest, hsome]
  refine congrArg (· >>= _) (mapM_of_forall₂ (hfields.imp ?_))
  rintro f f' ⟨type, htype, rfl⟩
  simp only [htype.text]

/-- A type is written like another if their parts are. -/
theorem kindText_of_alike (hn : g.node? x = some node)
    (hn' : g'.node? y = some copy) (herror : y = .error ↔ x = .error)
    (halike : node.kind.Alike (ReadsAlike g g' child child') copy.kind)
    (hform : node.kind.Verbatim) :
    g'.kindText child' y copy.kind = g.kindText child x node.kind := by
  generalize hkind : node.kind = kind at halike hform ⊢
  generalize hkind' : copy.kind = kind' at halike ⊢
  cases halike with
  | leaf form => rfl
  | array h => simp only [kindText, h.atomText_eq]
  | tuple hmembers hrest =>
      simp only [kindText, tupleText, texts_of_alike hmembers,
        restTexts_of_alike hrest]
  | map h | typedesc h => simp only [kindText, h.text]
  | record hfields hrest => exact recordText_of_alike _ hfields hrest
  | union hmembers => exact unionText_of_alike hn hn' hkind hkind' hmembers
  | error h => simp only [kindText, h.text, herror]
  | stream h hcompletion =>
      cases hcompletion with
      | none => simp only [kindText, h.text]
      | some h' => simp only [kindText, h.text, h'.text]
  | table h hkey =>
      cases hkey with
      | none => simp only [kindText, tableText, h.text]
      | some h' => simp only [kindText, tableText, h.text, h'.text]
  | function hparams hrest hresult =>
      simp only [kindText, signatureText, texts_of_alike hparams,
        restTexts_of_alike hrest, hresult.text, hresult.resembles.nil]
  | object | xml => exact hform.elim

end Writing

-- ========================================================= larger graphs

/-- Types that look alike are named alike. -/
theorem shownName?_of_alike (hname : copy.name = node.name)
    (hmarker : copy.isMarker = node.isMarker) (top : Bool) :
    copy.shownName? top = node.shownName? top := by
  unfold Node.shownName?
  rw [hname, hmarker]

/-- A larger graph writes the types that were there as before. -/
theorem Verbatim.renderWithin_extends (hg : g.Closed)
    (hgg' : g.Extends g') {path : List TypeId} {top : Bool}
    (hx : g.Verbatim x) :
    g'.renderWithin path top x = g.renderWithin path top x := by
  induction path, top, x using renderWithin.induct g with
  | case1 path top x hn =>
      obtain ⟨node, hn'⟩ := exists_node_of_lt hx.lt
      cases hn.symm.trans hn'
  | case2 path top x node hn name hname =>
      rw [renderWithin_of_node hn, renderWithin_of_node (hgg' _ _ hn),
        hname]
  | case3 path top x node hn hname hmem =>
      rw [renderWithin_of_node hn, renderWithin_of_node (hgg' _ _ hn),
        hname]
      simp only [if_pos hmem]
  | case4 path top x node hn hname hmem ih =>
      rw [renderWithin_of_node hn, renderWithin_of_node (hgg' _ _ hn),
        hname]
      simp only [if_neg hmem]
      have hparts : List.Forall₂ (ReadsAlike g g'
          (fun c => g.renderWithin (x :: path) false c)
          (fun c => g'.renderWithin (x :: path) false c))
          node.kind.children node.kind.children := by
        refine List.forall₂_same.mpr fun c hc => ?_
        have hchild := hx.child hg hn hc
        obtain ⟨node', hn'⟩ := exists_node_of_lt hchild.lt
        exact ⟨.refl hn' (hgg' _ _ hn'), ih c hchild⟩
      have halike := Kind.alike_withChildren hparts
      rw [Kind.withChildren_children] at halike
      exact kindText_of_alike hn (hgg' _ _ hn) .rfl halike
        (hx.forms x node .refl hn)

end Graph

-- =============================================================== copies

namespace Instantiation

open TypeParams.Graph (ReadsAlike)

variable {g g' : Graph} {x y : TypeId}
  {above : List (TypeId × TypeId)}

/-- A copy looks like its type: it is new, and neither is nil. -/
theorem resembles_of_copied {node copy : Node} (hg : g.WellFormed)
    (hn : g.node? x = some node) (hcopy : g'.node? y = some copy)
    (hleaf : node.kind.isLeaf = false) (hnew : g.size ≤ y.index)
    (hname : copy.name = node.name)
    (hmarker : copy.isMarker = node.isMarker)
    {R : TypeId → TypeId → Prop} (halike : node.kind.Alike R copy.kind) :
    g.Resembles g' x y := by
  have hx : x ≠ .nil := by
    rintro rfl
    cases hg.node?_nil.symm.trans hn
    cases hleaf
  have hy : y ≠ .nil := by
    rintro rfl
    exact Nat.not_lt.mpr hnew (hg.builtin_lt rfl)
  refine ⟨iff_of_false hy hx, node, copy, hn, hcopy, hname, hmarker, ?_,
    ?_⟩
  · generalize node.kind = kind, copy.kind = kind' at halike
    cases halike <;> rfl
  · have hleaf' := halike.isLeaf_eq.trans hleaf
    constructor
    · intro hnil
      rw [hnil] at hleaf'
      cases hleaf'
    · intro hnil
      rw [hnil] at hleaf
      cases hleaf

/-- Inside itself a type is written as its name or as dots. -/
theorem renderWithin_inside {node copy : Node} {path path' : List TypeId}
    (hn : g.node? x = some node) (hcopy : g'.node? y = some copy)
    (hname : copy.name = node.name)
    (hmarker : copy.isMarker = node.isMarker) (hx : x ∈ path)
    (hy : y ∈ path') (top : Bool) :
    g'.renderWithin path' top y = g.renderWithin path top x := by
  rw [Graph.renderWithin_of_node hn, Graph.renderWithin_of_node hcopy,
    Graph.shownName?_of_alike hname hmarker]
  simp only [if_pos hx, if_pos hy]

/-- Anywhere else types are written alike if their forms are. -/
theorem renderWithin_outside {node copy : Node} {path path' : List TypeId}
    (hn : g.node? x = some node) (hcopy : g'.node? y = some copy)
    (hname : copy.name = node.name)
    (hmarker : copy.isMarker = node.isMarker) (hx : x ∉ path)
    (hy : y ∉ path')
    (hkind : g'.kindText
        (fun c => g'.renderWithin (y :: path') false c) y copy.kind
      = g.kindText
        (fun c => g.renderWithin (x :: path) false c) x node.kind)
    (top : Bool) :
    g'.renderWithin path' top y = g.renderWithin path top x := by
  rw [Graph.renderWithin_of_node hn, Graph.renderWithin_of_node hcopy,
    Graph.shownName?_of_alike hname hmarker]
  simp only [if_neg hx, if_neg hy, hkind]

/-- A type that stands for itself is written without its parts. -/
theorem kindText_of_whole {node : Node}
    {child child' : TypeId → Except Fault String} (hg : g.WellFormed)
    (hn : g.node? x = some node)
    (hwhole : node.kind.isLeaf = true ∨ x = .error) :
    g'.kindText child' x node.kind = g.kindText child x node.kind := by
  rcases hwhole with hleaf | rfl
  · cases hkind : node.kind with
    | leaf form => rfl
    | array | tuple | map | record | union | error | stream | table
    | function | object | typedesc | xml =>
        rw [hkind] at hleaf
        cases hleaf
  · cases (hg.extends_builtin _ _ rfl).symm.trans hn
    rfl

/-- A copy is written as its type is, inside the copies of the types
that the type is inside of. -/
theorem Unfolds.render_eq (hg : g.WellFormed) (h : Unfolds g g' above x y)
    (hx : g.Verbatim x)
    (habove : ∀ p ∈ above, g.Resembles g' p.1 p.2) :
    g.Resembles g' x y ∧ ∀ top,
      g'.renderWithin (above.map (·.2)) top y
        = g.renderWithin (above.map (·.1)) top x := by
  have hnot : ∀ {above : List (TypeId × TypeId)} {a : TypeId}
      {side : TypeId × TypeId → TypeId}, (∀ p ∈ above, side p ≠ a) →
      a ∉ above.map side := by
    intro above a side hne hmem
    obtain ⟨p, hp, hpa⟩ := List.mem_map.mp hmem
    exact hne p hp hpa
  induction h with
  | itself hn hn' hwhole houtside =>
      exact ⟨.refl hn hn', renderWithin_outside hn hn' rfl rfl
        (hnot fun p hp => (houtside p hp).1)
        (hnot fun p hp => (houtside p hp).2)
        (kindText_of_whole hg hn hwhole)⟩
  | again hinside =>
      have hresembles := habove _ hinside
      obtain ⟨node, copy, hn, hcopy, hname, hmarker, -⟩ := hresembles.nodes
      exact ⟨hresembles, renderWithin_inside hn hcopy hname hmarker
        (List.mem_map_of_mem hinside) (List.mem_map_of_mem hinside)⟩
  | @copied above x y node copy parts hn hcopy hleaf hcustom hnew hname
      hunmarked hkind hlength houtside _ ih =>
      have hmarker : copy.isMarker = node.isMarker :=
        hunmarked.trans (hx.markerFree x .refl node hn).symm
      have hform : node.kind.Alike (fun _ _ => True) copy.kind := by
        rw [hkind]
        exact Kind.alike_withChildren
          (List.forall₂_iff_zip.mpr ⟨hlength.symm, fun _ => trivial⟩)
      -- that the two look alike does not take their parts, so the pair can
      -- go on the path before these are written
      have hresembles : g.Resembles g' x y :=
        resembles_of_copied hg hn hcopy hleaf hnew hname hmarker hform
      have habove' : ∀ p ∈ (x, y) :: above, g.Resembles g' p.1 p.2 :=
        List.forall_mem_cons.mpr ⟨hresembles, habove⟩
      have hparts : node.kind.Alike (ReadsAlike g g'
          (fun c => g.renderWithin (x :: above.map (·.1)) false c)
          (fun c => g'.renderWithin (y :: above.map (·.2)) false c))
          copy.kind := by
        rw [hkind]
        refine Kind.alike_withChildren (List.forall₂_iff_zip.mpr
          ⟨hlength.symm, fun {a b} hp => ?_⟩)
        have hchild := hx.child hg.closed hn (List.of_mem_zip hp).1
        obtain ⟨hpart, htext⟩ := ih (a, b) hp hchild habove'
        exact ⟨hpart, htext false⟩
      have hcustom' : y ≠ .error := by
        rintro rfl
        exact Nat.not_lt.mpr hnew (hg.builtin_lt rfl)
      exact ⟨hresembles, renderWithin_outside hn hcopy hname hmarker
        (hnot fun p hp => (houtside p hp).1)
        (hnot fun p hp => (houtside p hp).2)
        (Graph.kindText_of_alike hn hcopy (iff_of_false hcustom' hcustom)
          hparts (hx.forms x node .refl hn))⟩

end Instantiation

namespace Resolution

open Instantiation

/-- Instantiating a type without markers does not change how it is
written. The type may contain itself and be shared, but must be free of
objects and xml, and its unions must have several members that differ;
then, unless the instantiation had something to report, its result is
written as the type was and still is. -/
theorem instantiate_render (r : Resolution)
    (hg : r.types.graph.WellFormed) {d : TypeId}
    (hd : r.types.graph.Verbatim d) (span : Span) :
    ∃ y r' text, instantiate d span r = .ok y r' ∧
      r.types.graph.render d = .ok text ∧
      r'.types.graph.render d = .ok text ∧
      (r'.diagnostics = r.diagnostics →
        r'.types.graph.render y = .ok text) := by
  obtain ⟨y, r', hrun⟩ := instantiate_succeeds hg.closed.closedOn hd.lt span
  obtain ⟨text, htext⟩ := Graph.render_returns hg.closed.closedOn hd.lt
  have hext := (instantiate_grows hrun).2
  refine ⟨y, r', text, hrun, htext,
    (hd.renderWithin_extends hg.closed hext).trans htext, fun hsilent => ?_⟩
  have hlimit : r.WithinLimit r' := by
    unfold WithinLimit
    rw [hsilent, List.drop_length]
    exact fun d hd => nomatch hd
  obtain ⟨s, hresolves, rfl⟩ := instantiate_run hrun
  have hgrows := hresolves.grows r.instantiation_tidy
  -- no frame is left open
  have hframes : s.frames = [] :=
    List.forall₂_nil_left_iff.mp hgrows.frames
  have hunfolds : Unfolds r.types.graph s.graph [] d y :=
    hresolves.copying hg
      ⟨r.instantiation_tidy, (fun _ hf => nomatch hf), .refl _⟩ hd
      (hlimit.limitReported hgrows.records) s.graph [] hext
      (fun _ _ hn _ => hn) (by
        unfold State.Foresees
        rw [hframes]
        exact .nil)
  exact ((hunfolds.render_eq hg hd fun _ hp => nomatch hp).2 true).trans
    htext

/-- A list of ints or lists (21, 22), which has no name, a tree of such
lists (23, 24), a function over these (25), and a pair in which the tree
stands a second time (26). -/
def forest : Resolution where
  checker := .structural
  config := { maxDepth := 8 }
  types := .on { graph := ⟨Graph.builtin.nodes ++ #[
    .anonymous (.array ⟨22⟩),
    .anonymous (.union [.nil, ⟨21⟩, .int]),
    .named "Tree" ⟨1⟩ (.record {
      fields := [{ name := "left", type := ⟨24⟩ },
        { name := "value", type := ⟨21⟩ },
        { name := "right", type := ⟨24⟩ }]
      isSealed := true }),
    .anonymous (.union [⟨23⟩, .nil]),
    .anonymous (.function {
      params := [⟨23⟩, ⟨24⟩], rest := some ⟨21⟩, result := ⟨22⟩ }),
    .anonymous (.tuple [⟨25⟩, ⟨23⟩] (some .error))]⟩ }

/-- The result is a new type. -/
theorem forest_instantiate_render :
    forest.types.graph.WellFormed ∧ forest.types.graph.Verbatim ⟨26⟩ ∧
      ∃ y r' text, instantiate ⟨26⟩ .null forest = .ok y r' ∧
        y ≠ ⟨26⟩ ∧ r'.diagnostics = forest.diagnostics ∧
        forest.types.graph.render ⟨26⟩ = .ok text ∧
        r'.types.graph.render y = .ok text := by
  have hg : forest.types.graph.WellFormed := by decide
  have hd : forest.types.graph.Verbatim ⟨26⟩ :=
    .of_list [.nil, .int, .anydata, .readonly, .detailValue, .errorDetail,
      .error, ⟨21⟩, ⟨22⟩, ⟨23⟩, ⟨24⟩, ⟨25⟩, ⟨26⟩] (by decide) (by decide)
  obtain ⟨y, r', text, hrun, htext, -, hcopy⟩ :=
    instantiate_render forest hg hd .null
  have hdecided : (match instantiate ⟨26⟩ .null forest with
      | .ok y r' => decide (y ≠ ⟨26⟩ ∧
          r'.diagnostics = forest.diagnostics)
      | .error _ _ => false) = true := by decide +kernel
  rw [hrun] at hdecided
  obtain ⟨hne, hsilent⟩ := of_decide_eq_true hdecided
  exact ⟨hg, hd, y, r', text, hrun, hne, hsilent, htext, hcopy hsilent⟩

end Resolution

end TypeParams
