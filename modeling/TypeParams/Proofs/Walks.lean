/-
Walks inside a closed set give a result.

Each walk over a graph (telling error types, finding the other member of
a type or nil, writing a type out) looks up ids that it met as parts of
others. Inside a set that is closed under parts it never meets an id
without a node, so it does not end in a fault.

# What a walk does at a node

The walks are defined over lookups that may fail. Once the node of an id
is known the lookup is settled, and the walk is a plain function of that
node's form: `onlyErrorsWithin_of_node`, `withoutNil?_of_node` and
`renderWithin_of_node` state the walks in that shape, and their
counterparts for an id without a node state the fault (or, for writing,
the placeholder text). Every later argument about a walk begins with one
of these equations and never opens the definition.

# Which walks can fail otherwise

Looking for the other member of a type or nil looks one level down, and
writing a type keeps the path it has come along and cuts a cycle short,
so these two return on every closed set. Telling error types follows a
union into its members with no such way out: on a union that is among
its own members it would go on for ever, and ends in the fault that says
so. It returns at every type that is not a union
(`onlyErrors_returns_of_node`); which unions it returns at is a matter
of the graph, and is settled where unions are known not to loop.
-/
import TypeParams.Proofs.Fallible
import TypeParams.Proofs.Graph
import TypeParams.Render

namespace TypeParams.Graph

variable {g : Graph} {P : TypeId → Prop}

-- ============================================================== looking

/-- Looking a node up succeeds with the node of the id. -/
theorem node_eq_ok {id : TypeId} {node : Node} :
    g.node id = .ok node ↔ g.node? id = some node := by
  unfold Graph.node
  cases g.node? id with
  | none => simp
  | some node' => simp

/-- Looking up an id without a node fails, and the fault names the id
and the size of the graph. -/
theorem node_eq_error {id : TypeId} (hn : g.node? id = none) :
    g.node id = .error (.missing id g.size) := by
  unfold Graph.node
  rw [hn]

/-- Looking a form up succeeds with the form of the id's node. -/
theorem kind_eq_ok {id : TypeId} {kind : Kind} :
    g.kind id = .ok kind ↔
      ∃ node, g.node? id = some node ∧ node.kind = kind := by
  unfold Graph.kind
  rw [bind_eq_ok]
  simp only [node_eq_ok, pure_eq_ok]

/-- The form of an id is that of its node. -/
theorem kind_of_node {id : TypeId} {node : Node}
    (hn : g.node? id = some node) : g.kind id = .ok node.kind :=
  kind_eq_ok.mpr ⟨node, hn, rfl⟩

/-- Looking up an id of a closed set succeeds. -/
theorem ClosedOn.node_returns (hP : g.ClosedOn P) {id : TypeId}
    (hid : P id) : Returns (g.node id) := by
  obtain ⟨node, hn, -⟩ := hP id hid
  exact ⟨node, node_eq_ok.mpr hn⟩

/-- So does looking up its form. -/
theorem ClosedOn.kind_returns (hP : g.ClosedOn P) {id : TypeId}
    (hid : P id) : Returns (g.kind id) :=
  (hP.node_returns hid).bind fun node _ => .pure node.kind

/-- The parts of a kind that was looked up are in the set. -/
theorem ClosedOn.of_kind (hP : g.ClosedOn P) {id : TypeId} (hid : P id)
    {kind : Kind} (h : g.kind id = .ok kind) :
    ∀ c ∈ kind.children, P c := by
  obtain ⟨node, hn, rfl⟩ := kind_eq_ok.mp h
  exact hP.child hid hn

-- =============================================================== unions

/-- What telling error types does at a node: it fails on an id that it
has come through, and else goes by the form. A union is an error type if
it has members and all of them are. -/
theorem onlyErrorsWithin_of_node {path : List TypeId} {id : TypeId}
    {node : Node} (hn : g.node? id = some node) :
    g.onlyErrorsWithin path id =
      if id ∈ path then .error (.endless id)
      else
        match node.kind with
        | .error _ => .ok true
        | .union members =>
            if members.isEmpty then .ok false
            else members.allM fun m => g.onlyErrorsWithin (id :: path) m
        | _ => .ok false := by
  rw [onlyErrorsWithin]
  split
  next hn' =>
    rw [hn] at hn'
    cases hn'
  next node' hn' =>
    rw [hn] at hn'
    cases hn'
    rfl

/-- On an id without a node it fails as the lookup does. -/
theorem onlyErrorsWithin_of_none {path : List TypeId} {id : TypeId}
    (hn : g.node? id = none) :
    g.onlyErrorsWithin path id = .error (.missing id g.size) := by
  rw [onlyErrorsWithin]
  split
  next => rfl
  next hn' =>
    rw [hn] at hn'
    cases hn'

/-- A type other than a union is an error type or not by its form. -/
theorem onlyErrors_returns_of_node {id : TypeId} {node : Node}
    (hn : g.node? id = some node)
    (hunion : ∀ members, node.kind ≠ .union members) :
    Returns (g.onlyErrors id) := by
  unfold onlyErrors
  rw [onlyErrorsWithin_of_node hn, if_neg List.not_mem_nil]
  split
  · exact .ok true
  next members hkind => exact absurd hkind (hunion members)
  · exact .ok false

/-- The other member of a form, given which types are nil. -/
def otherThanNil (isNil : TypeId → Except Fault Bool) :
    Kind → Except Fault (Option TypeId)
  | .union [a, b] => do
      if ← isNil b then return some a
      if ← isNil a then return some b
      return none
  | _ => return none

/-- The other member of a type or nil depends on the form of the node,
and on which types are nil. -/
theorem withoutNil?_of_node {id : TypeId} {node : Node}
    (hn : g.node? id = some node) :
    g.withoutNil? id = otherThanNil g.isNil node.kind := by
  unfold withoutNil?
  rw [kind_of_node hn]
  rfl

/-- The first of two members is looked at only if the second is not
nil. -/
theorem otherThanNil_congr {isNil isNil' : TypeId → Except Fault Bool}
    {kind : Kind} (h : ∀ a b, kind = .union [a, b] →
      isNil' b = isNil b ∧ (isNil b = .ok false → isNil' a = isNil a)) :
    otherThanNil isNil' kind = otherThanNil isNil kind := by
  unfold otherThanNil
  split
  next a b =>
    obtain ⟨hb, ha⟩ := h a b rfl
    rw [hb]
    cases hnil : isNil b with
    | error fault => rfl
    | ok nil =>
        cases nil with
        | true => rfl
        | false => rw [ha hnil]
  next => rfl

/-- Finding the other member of a type or nil succeeds on a closed set. -/
theorem withoutNil?_returns (hP : g.ClosedOn P) {id : TypeId}
    (hid : P id) : Returns (g.withoutNil? id) := by
  refine (hP.kind_returns hid).bind fun kind hkind => ?_
  have hparts := hP.of_kind hid hkind
  split
  next a b =>
    have hisNil : ∀ c ∈ [a, b], Returns (g.isNil c) := fun c hc =>
      (hP.kind_returns (hparts c hc)).bind fun _ _ => .pure _
    refine (hisNil b (by simp)).bind fun nilB _ => ?_
    cases nilB with
    | true => exact .pure _
    | false =>
        refine (hisNil a (by simp)).bind fun nilA _ => ?_
        cases nilA with
        | true => exact .pure _
        | false => exact .pure _
  next => exact .pure _

/-- The other member of a type or nil is one of its parts. -/
theorem mem_of_withoutNil? {id inner : TypeId} {node : Node}
    (hn : g.node? id = some node)
    (h : g.withoutNil? id = .ok (some inner)) :
    inner ∈ node.kind.children := by
  obtain ⟨kind, hkind, h⟩ := bind_eq_ok.mp h
  obtain ⟨node', hn', rfl⟩ := kind_eq_ok.mp hkind
  rw [hn] at hn'
  cases hn'
  split at h
  next a b hunion =>
    rw [hunion]
    obtain ⟨nilB, -, h⟩ := bind_eq_ok.mp h
    cases nilB with
    | true =>
        cases pure_eq_ok.mp h
        exact List.mem_cons_self
    | false =>
        obtain ⟨nilA, -, h⟩ := bind_eq_ok.mp h
        cases nilA with
        | true =>
            cases pure_eq_ok.mp h
            exact List.mem_cons_of_mem _ List.mem_cons_self
        | false => cases pure_eq_ok.mp h
  next => cases pure_eq_ok.mp h

-- ============================================================== writing

section Writing

variable {child : TypeId → Except Fault String}

/-- A part that something is written behind can be written if the part
by itself can. -/
theorem atomText_returns (hP : g.ClosedOn P)
    (hchild : ∀ c, P c → Returns (child c)) {id : TypeId} (hid : P id) :
    Returns (g.atomText child id) :=
  (hchild id hid).bind fun _ _ =>
    (hP.node_returns hid).bind fun _ _ => .pure _

/-- So can the type of all further members, where there is one. -/
theorem restTexts_returns (hP : g.ClosedOn P)
    (hchild : ∀ c, P c → Returns (child c)) {rest : Option TypeId}
    (hrest : ∀ c ∈ rest.toList, P c) :
    Returns (g.restTexts child rest) :=
  Returns.mapM fun c hc =>
    (atomText_returns hP hchild (hrest c hc)).bind fun _ _ => .pure _

/-- A signature can be written if its parameters and its result can. -/
theorem signatureText_returns (hP : g.ClosedOn P)
    (hchild : ∀ c, P c → Returns (child c)) {signature : Signature}
    (hparts : ∀ c ∈ (Kind.function signature).children, P c) :
    Returns (g.signatureText child signature) := by
  simp only [Kind.children, List.forall_mem_append,
    List.forall_mem_singleton] at hparts
  obtain ⟨⟨hparams, hrest⟩, hresult⟩ := hparts
  refine (Returns.mapM fun c hc => hchild c (hparams c hc)).bind
    fun _ _ => (restTexts_returns hP hchild hrest).bind fun _ _ => ?_
  by_cases hnil : signature.result = .nil
  · simp only [hnil, if_true]
    exact .pure _
  · simp only [hnil, if_false]
    exact (hchild _ hresult).bind fun _ _ => .pure _

/-- A method can be written if its type can, or the parts of its
signature. -/
theorem methodText_returns (hP : g.ClosedOn P)
    (hchild : ∀ c, P c → Returns (child c)) {method : Method}
    (hm : P method.type) : Returns (g.methodText child method) := by
  unfold methodText
  refine (hP.kind_returns hm).bind fun kind hkind => ?_
  have hparts := hP.of_kind hm hkind
  split
  next signature =>
    exact (signatureText_returns hP hchild hparts).bind
      fun _ _ => .pure _
  next =>
    exact (hchild _ hm).bind fun _ _ =>
      (Returns.pure _).bind fun _ _ => .pure _

/-- A type can be written out if its parts can. -/
theorem kindText_returns (hP : g.ClosedOn P)
    (hchild : ∀ c, P c → Returns (child c)) {id : TypeId} {node : Node}
    (hid : P id) (hn : g.node? id = some node) :
    Returns (g.kindText child id node.kind) := by
  have hparts := hP.child hid hn
  cases hkind : node.kind with
  | leaf form => exact .ok _
  | array element =>
      rw [hkind] at hparts
      exact (atomText_returns hP hchild
        (hparts _ List.mem_cons_self)).bind fun _ _ => .pure _
  | tuple members rest =>
      rw [hkind] at hparts
      simp only [Kind.children, List.forall_mem_append] at hparts
      exact (Returns.mapM fun c hc => hchild c (hparts.1 c hc)).bind
        fun _ _ => (restTexts_returns hP hchild hparts.2).bind
          fun _ _ => .pure _
  | map constraint | typedesc constraint =>
      rw [hkind] at hparts
      exact (hchild _ (hparts _ List.mem_cons_self)).bind
        fun _ _ => .pure _
  | record shape =>
      rw [hkind] at hparts
      simp only [Kind.children, List.forall_mem_append,
        List.forall_mem_map] at hparts
      exact (Returns.mapM fun f hf =>
          (hchild _ (hparts.1 f hf)).bind fun _ _ => .pure _).bind
        fun _ _ => (restTexts_returns hP hchild hparts.2).bind
          fun _ _ => .pure _
  | union members =>
      rw [hkind] at hparts
      refine (withoutNil?_returns hP hid).bind fun inner hinner => ?_
      cases inner with
      | some inner =>
          have hmem := mem_of_withoutNil? hn hinner
          rw [hkind] at hmem
          exact (atomText_returns hP hchild (hparts _ hmem)).bind
            fun _ _ => .pure _
      | none =>
          exact (Returns.mapM fun c hc => hchild c (hparts c hc)).bind
            fun _ _ => .pure _
  | error detail =>
      rw [hkind] at hparts
      simp only [kindText]
      split
      · exact .ok _
      · exact (hchild _ (hparts _ List.mem_cons_self)).bind
          fun _ _ => .pure _
  | stream constraint completion =>
      rw [hkind] at hparts
      cases completion with
      | none =>
          exact (hchild _ (hparts _ List.mem_cons_self)).bind
            fun _ _ => .pure _
      | some completion =>
          refine (hchild _ (hparts _ List.mem_cons_self)).bind
            fun _ _ => (hchild completion (hparts _ ?_)).bind
              fun _ _ => .pure _
          simp [Kind.children]
  | table shape =>
      rw [hkind] at hparts
      simp only [kindText, tableText]
      refine (hchild _ (hparts _ List.mem_cons_self)).bind
        fun _ _ => ?_
      cases hkey : shape.key with
      | none => exact .pure _
      | some key =>
          refine (hchild key (hparts _ ?_)).bind fun _ _ => .pure _
          simp [Kind.children, hkey]
  | function signature =>
      rw [hkind] at hparts
      exact (signatureText_returns hP hchild hparts).bind
        fun _ _ => .pure _
  | object shape =>
      rw [hkind] at hparts
      simp only [Kind.children, List.forall_mem_append,
        List.forall_mem_map] at hparts
      simp only [kindText, objectText]
      refine (Returns.mapM fun f hf =>
          (hchild _ (hparts.1 f hf)).bind fun _ _ => .pure _).bind
        fun _ _ => (Returns.mapM fun m hm =>
          methodText_returns hP hchild (hparts.2 m hm)).bind
          fun _ _ => ?_
      split
      · exact .pure _
      · exact .pure _
  | xml constraint =>
      rw [hkind] at hparts
      simp only [kindText]
      split
      · exact .ok _
      · exact (hchild _ (hparts _ List.mem_cons_self)).bind
          fun _ _ => .pure _

end Writing

/-- An id without a node is written as an invalid one. -/
theorem renderWithin_of_none {path : List TypeId} {top : Bool}
    {id : TypeId} (hn : g.node? id = none) :
    g.renderWithin path top id = .ok ("<invalid " ++ id.label ++ ">") := by
  rw [renderWithin]
  split
  next => rfl
  next hn' =>
    rw [hn] at hn'
    cases hn'

/-- What writing does at a node: a name that is shown stands for the
type; else an id on the path is cut short, and any other is written by
its form, with itself on the path. -/
theorem renderWithin_of_node {path : List TypeId} {top : Bool}
    {id : TypeId} {node : Node} (hn : g.node? id = some node) :
    g.renderWithin path top id =
      match node.shownName? top with
      | some name => .ok name
      | none =>
          if id ∈ path then .ok "..."
          else
            g.kindText (fun c => g.renderWithin (id :: path) false c)
              id node.kind := by
  rw [renderWithin]
  split
  next hn' =>
    rw [hn] at hn'
    cases hn'
  next node' hn' =>
    rw [hn] at hn'
    cases hn'
    rfl

/-- Writing succeeds on a closed set, wherever it starts. The recursion
is on the ids of the graph that are not on the path yet. -/
theorem renderWithin_returns (hP : g.ClosedOn P) {path : List TypeId}
    {top : Bool} {id : TypeId} (hid : P id) :
    Returns (g.renderWithin path top id) := by
  induction path, top, id using renderWithin.induct g with
  | case1 path top id hn =>
      rw [renderWithin_of_none hn]
      exact .ok _
  | case2 path top id node hn name hname =>
      rw [renderWithin_of_node hn, hname]
      exact .ok _
  | case3 path top id node hn hname hmem =>
      rw [renderWithin_of_node hn, hname]
      simp only [hmem, if_true]
      exact .ok _
  | case4 path top id node hn hname hmem ih =>
      rw [renderWithin_of_node hn, hname]
      simp only [hmem, if_false]
      exact kindText_returns hP (fun c hc => ih c hc) hid hn

/-- Every type of a closed set can be written. -/
theorem render_returns (hP : g.ClosedOn P) {id : TypeId} (hid : P id) :
    Returns (g.render id) :=
  renderWithin_returns hP hid

end TypeParams.Graph
