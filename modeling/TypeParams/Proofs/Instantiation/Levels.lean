/-
What one level of an instantiation can do.

`Ending` lists the ways in which a level can end, each with everything
that is known then. It is proved once from the procedure
(`resolveStep_ending`); whatever holds of all instantiations is then
proved by `resolve_induction`, with one case for each way. The parts of
a rebuilt type are resolved in turn, so that case has a `Threads` along
them.

# The two tests

A level asks two things about a declared type: whether it stands for
itself, and, if it has a name, whether the rebuilt type keeps it. Both
come down to whether a marker can be reached, and the lemmas about them
say so in terms of the graph (`StandsForItself`, `Graph.MarkerFree`),
not of the search.

# Rebuilding

Rebuilding opens a frame for the type, resolves the parts, ends the
frame, and settles the result: a union that is left with one member
collapses into it, anything else becomes a node. `settle` names that
last step, so that the parts of a rebuilding can be argued about apart.

# All levels

`Resolves` is a type resolved through however many levels, the last
included. What is proved by `resolve_induction` does not mention the
number of levels, and later files do so only where it matters.
-/
import TypeParams.Instantiation
import TypeParams.Proofs.Marker
import TypeParams.Proofs.Workspace

namespace TypeParams.Instantiation

/-- The nodes that an instantiation sees. -/
def State.graph (s : State) : Graph := s.work.types.graph

/-- An action on the workspace, within an instantiation. -/
theorem onWork_run {α : Type} {action : WorkM α} {s s' : State} {a : α} :
    onWork action s = .ok a s' ↔
      ∃ work, action s.work = .ok a work ∧ s' = { s with work } := by
  unfold onWork
  cases action s.work with
  | error fault work => simp
  | ok b work => grind

/-- It causes no fault in an instantiation if it causes none by itself. -/
theorem onWork_succeeds {α : Type} {action : WorkM α} {s : State}
    (h : Succeeds action s.work) : Succeeds (onWork action) s := by
  obtain ⟨a, work, ha⟩ := h
  exact ⟨a, _, onWork_run.mpr ⟨work, ha, rfl⟩⟩

-- ========================================================== the two tests

/-- A type that stands for itself: one without parts, the top error
type, or xml without markers. -/
def StandsForItself (g : Graph) (id : TypeId) (node : Node) : Prop :=
  node.kind.isLeaf = true ∨
    (id = .error ∧ ∃ detail, node.kind = .error detail) ∨
    ((∃ constraint, node.kind = .xml constraint) ∧ g.MarkerFree id)

/-- The search for markers changes nothing, and its answer is right. -/
theorem containsMarker_run {id : TypeId} {w w' : Workspace} {b : Bool}
    (h : containsMarker id w = .ok b w') :
    w = w' ∧ (b = false ↔ w.types.graph.MarkerFree id) := by
  obtain ⟨hscan, rfl⟩ := WorkM.inspect_run.mp h
  refine ⟨rfl, ?_⟩
  cases b with
  | false =>
      exact ⟨fun _ => Graph.markerFree_of_containsMarker hscan,
        fun _ => rfl⟩
  | true =>
      constructor
      · intro hfalse
        cases hfalse
      · exact fun hfree => absurd hfree
          (Graph.not_markerFree_of_containsMarker hscan)

/-- Asking whether a type stands for itself changes nothing, and the
answer is right. -/
theorem standsForItself_run {id : TypeId} {node : Node}
    {w w' : Workspace} {b : Bool}
    (h : standsForItself id node.kind w = .ok b w') :
    w = w' ∧ (b = true ↔ StandsForItself w.types.graph id node) := by
  unfold StandsForItself
  cases hkind : node.kind with
  | leaf form =>
      rw [hkind] at h
      obtain ⟨rfl, rfl⟩ := pure_run.mp h
      exact ⟨rfl, by simp [Kind.isLeaf]⟩
  | error detail =>
      rw [hkind] at h
      obtain ⟨rfl, rfl⟩ := pure_run.mp h
      exact ⟨rfl, by simp [Kind.isLeaf]⟩
  | xml constraint =>
      rw [hkind] at h
      obtain ⟨answer, w₁, hanswer, h⟩ := bind_run.mp h
      obtain ⟨rfl, hiff⟩ := containsMarker_run hanswer
      obtain ⟨rfl, rfl⟩ := pure_run.mp h
      refine ⟨rfl, ?_⟩
      rw [Bool.not_eq_true', hiff]
      simp [Kind.isLeaf]
  | array | tuple | map | record | union | stream | table | function
  | object | typedesc =>
      rw [hkind] at h
      obtain ⟨rfl, rfl⟩ := pure_run.mp h
      exact ⟨rfl, by simp [Kind.isLeaf]⟩

/-- A rebuilt type keeps a name if there is one and no marker is
reached. -/
theorem keepsName_run {id : TypeId} {node : Node} {w w' : Workspace}
    {b : Bool} (h : keepsName id node w = .ok b w') :
    w = w' ∧ (b = true ↔
      node.name.isSome = true ∧ w.types.graph.MarkerFree id) := by
  unfold keepsName at h
  cases hname : node.name.isSome with
  | false =>
      simp only [hname, Bool.false_eq_true, if_false] at h
      obtain ⟨rfl, rfl⟩ := pure_run.mp h
      exact ⟨rfl, by simp⟩
  | true =>
      simp only [hname, if_true] at h
      obtain ⟨answer, w₁, hanswer, h⟩ := bind_run.mp h
      obtain ⟨rfl, hiff⟩ := containsMarker_run hanswer
      obtain ⟨rfl, rfl⟩ := pure_run.mp h
      refine ⟨rfl, ?_⟩
      rw [Bool.not_eq_true', hiff]
      simp

-- ============================================================== endings

/-- The ways in which one level can end; `part` says what the levels
below did. -/
inductive Ending (ctx : Context)
    (part : TypeId → State → TypeId → State → Prop) (declared : TypeId)
    (node : Node) (s : State) : TypeId → State → Prop where
  /-- A parameter: what it is bound to. -/
  | bound {key : MarkerKey} (hkey : node.markerKey? = some key) :
      Ending ctx part declared node s
        ((ctx.env.lookup? key).getD .noType) s
  /-- A type that is being rebuilt: the id of the result. -/
  | again {work : Workspace} {id : TypeId} {s' : State}
      (hkey : node.markerKey? = none)
      (hopen : ∃ f ∈ s.frames, f.declared = declared)
      (htell : s.work.Tells work)
      (hslot : cycleSlot declared { s with work } = .ok id s') :
      Ending ctx part declared node s id s'
  | itself (hkey : node.markerKey? = none)
      (hopen : ∀ f ∈ s.frames, f.declared ≠ declared)
      (hself : StandsForItself s.graph declared node) :
      Ending ctx part declared node s declared s
  /-- A type below the last level: left as it is. -/
  | stopped {work : Workspace} (hkey : node.markerKey? = none)
      (hself : ¬ StandsForItself s.graph declared node)
      (hrecords : s.work.Records work)
      (hlimit : work.limitReported = true)
      (htypes : work.types = s.work.types) :
      Ending ctx part declared node s declared { s with work }
  /-- A union left with one member: that member. -/
  | collapsed {keeps : Bool} {parts : List TypeId} {s₁ s₂ : State}
      {member : TypeId} (hkey : node.markerKey? = none)
      (hopen : ∀ f ∈ s.frames, f.declared ≠ declared)
      (hself : ¬ StandsForItself s.graph declared node)
      (hparts : Threads part node.kind.children
        { s with frames := { declared } :: s.frames } parts s₁)
      (hleave : leave s₁ = .ok none s₂)
      (hone : (rebuiltNode node keeps parts).kind = .union [member]) :
      Ending ctx part declared node s member s₂
  /-- Any other type: a new one over the parts. -/
  | placed {keeps : Bool} {parts : List TypeId} {s₁ s₂ : State}
      {slot : Option TypeId} {id : TypeId} {work : Workspace}
      (hkey : node.markerKey? = none)
      (hopen : ∀ f ∈ s.frames, f.declared ≠ declared)
      (hself : ¬ StandsForItself s.graph declared node)
      (hkeeps : keeps = true ↔
        node.name.isSome = true ∧ s.graph.MarkerFree declared)
      (hparts : Threads part node.kind.children
        { s with frames := { declared } :: s.frames } parts s₁)
      (hleave : leave s₁ = .ok slot s₂)
      (hmany : slot = none → ∀ member,
        (rebuiltNode node keeps parts).kind ≠ .union [member])
      (hplace : place slot (rebuiltNode node keeps parts) s₂.work
        = .ok id work) :
      Ending ctx part declared node s id { s₂ with work }

/-- How a level ended, in other words for the levels below. -/
theorem Ending.mono {ctx : Context}
    {part part' : TypeId → State → TypeId → State → Prop}
    (hpart : ∀ d s y s', part d s y s' → part' d s y s')
    {declared y : TypeId} {node : Node} {s s' : State}
    (h : Ending ctx part declared node s y s') :
    Ending ctx part' declared node s y s' := by
  cases h with
  | bound hkey => exact .bound hkey
  | again hkey hopen htell hslot => exact .again hkey hopen htell hslot
  | itself hkey hopen hself => exact .itself hkey hopen hself
  | stopped hkey hself hrecords hlimit htypes =>
      exact .stopped hkey hself hrecords hlimit htypes
  | collapsed hkey hopen hself hparts hleave hone =>
      exact .collapsed hkey hopen hself (hparts.mono hpart) hleave hone
  | placed hkey hopen hself hkeeps hparts hleave hmany hplace =>
      exact .placed hkey hopen hself hkeeps (hparts.mono hpart) hleave
        hmany hplace

/-- The end of a rebuilding. -/
def settle (slot : Option TypeId) (rebuilt : Node) :
    InstantiateM TypeId :=
  match slot, rebuilt.kind with
  | none, .union [member] => return member
  | slot, _ => onWork (place slot rebuilt)

/-- Rebuilding, in steps. -/
theorem rebuild_eq (descend : TypeId → InstantiateM TypeId)
    (declared : TypeId) (node : Node) :
    rebuild descend declared node = (do
      let keeps ← onWork (keepsName declared node)
      enter declared
      let parts ← node.kind.children.mapM descend
      let slot ← leave
      settle slot (rebuiltNode node keeps parts)) := rfl

/-- A rebuilt type is the member that a union was left with, or is
placed. -/
theorem settle_cases (slot : Option TypeId) (rebuilt : Node) :
    (∃ member, slot = none ∧ rebuilt.kind = .union [member] ∧
      settle slot rebuilt = pure member) ∨
    ((slot = none → ∀ member, rebuilt.kind ≠ .union [member]) ∧
      settle slot rebuilt = onWork (place slot rebuilt)) := by
  unfold settle
  split
  next member hone => exact .inl ⟨member, rfl, hone, rfl⟩
  next hmany =>
    exact .inr ⟨fun hnone member hone => hmany member hnone hone, rfl⟩

/-- A type is rebuilt over what its parts were resolved to, with a frame
of its own open meanwhile. -/
theorem rebuild_run {descend : TypeId → InstantiateM TypeId}
    {declared y : TypeId} {node : Node} {s s' : State}
    (h : rebuild descend declared node s = .ok y s') :
    ∃ keeps parts s₁ slot s₂,
      (keeps = true ↔
        node.name.isSome = true ∧ s.graph.MarkerFree declared) ∧
      Threads (fun d s y s' => descend d s = .ok y s') node.kind.children
        { s with frames := { declared } :: s.frames } parts s₁ ∧
      leave s₁ = .ok slot s₂ ∧
      settle slot (rebuiltNode node keeps parts) s₂ = .ok y s' := by
  rw [rebuild_eq] at h
  obtain ⟨keeps, s₀, hname, h⟩ := bind_run.mp h
  obtain ⟨work₀, hscan, rfl⟩ := onWork_run.mp hname
  obtain ⟨rfl, hkeeps⟩ := keepsName_run hscan
  obtain ⟨_, s₁, henter, h⟩ := bind_run.mp h
  cases modify_run.mp henter
  obtain ⟨parts, s₂, hloop, h⟩ := bind_run.mp h
  obtain ⟨slot, s₃, hleave, h⟩ := bind_run.mp h
  exact ⟨keeps, parts, s₂, slot, s₃, hkeeps, mapM_run.mp hloop, hleave, h⟩

/-- A rebuilt type is collapsed or placed. -/
theorem rebuild_ending {ctx : Context}
    {descend : TypeId → InstantiateM TypeId} {declared y : TypeId}
    {node : Node} {s s' : State} (hkey : node.markerKey? = none)
    (hopen : ∀ f ∈ s.frames, f.declared ≠ declared)
    (hself : ¬ StandsForItself s.graph declared node)
    (h : rebuild descend declared node s = .ok y s') :
    Ending ctx (fun d s y s' => descend d s = .ok y s') declared node s
      y s' := by
  obtain ⟨keeps, parts, s₁, slot, s₂, hkeeps, hparts, hleave, h⟩ :=
    rebuild_run h
  rcases settle_cases slot (rebuiltNode node keeps parts) with
    ⟨member, rfl, hone, hsettle⟩ | ⟨hmany, hsettle⟩
  · rw [hsettle] at h
    obtain ⟨rfl, rfl⟩ := pure_run.mp h
    exact .collapsed hkey hopen hself hparts hleave hone
  · rw [hsettle] at h
    obtain ⟨work, hplace, rfl⟩ := onWork_run.mp h
    exact .placed hkey hopen hself hkeeps hparts hleave hmany hplace

/-- A type with parts is rebuilt, except at the last level. -/
theorem descend_ending {ctx : Context}
    {descend : Option (TypeId → InstantiateM TypeId)}
    {declared y : TypeId} {node : Node} {s s' : State}
    (hkey : node.markerKey? = none)
    (hopen : ∀ f ∈ s.frames, f.declared ≠ declared)
    (hself : ¬ StandsForItself s.graph declared node)
    (h : (match descend with
      | some descend => rebuild descend declared node
      | none => do
          onWork (.reportLimit ctx.config ctx.span .instantiationStopped
            declared)
          return declared) s = .ok y s') :
    Ending ctx (fun d s y s' => ∃ f ∈ descend, f d s = .ok y s')
      declared node s y s' := by
  cases descend with
  | none =>
      obtain ⟨_, s₁, hlimit, h⟩ := bind_run.mp h
      obtain ⟨work, hlimit', rfl⟩ := onWork_run.mp hlimit
      obtain ⟨rfl, rfl⟩ := pure_run.mp h
      obtain ⟨hrecords, hflag, htypes⟩ :=
        WorkM.reportLimit_run (by simp [Event.level]) hlimit'
      exact .stopped hkey hself hrecords hflag htypes
  | some f =>
      refine (rebuild_ending hkey hopen hself h).mono ?_
      exact fun d s y s' hf => ⟨f, rfl, hf⟩

/-- What one level can do, given what the levels below do. -/
theorem resolveStep_ending {ctx : Context}
    {descend : Option (TypeId → InstantiateM TypeId)}
    {declared y : TypeId} {s s' : State}
    (h : resolveStep ctx descend declared s = .ok y s') :
    ∃ node, s.graph.node? declared = some node ∧
      Ending ctx (fun d s y s' => ∃ f ∈ descend, f d s = .ok y s')
        declared node s y s' := by
  obtain ⟨node, s₁, hread, h⟩ := bind_run.mp h
  obtain ⟨work, hread', rfl⟩ := onWork_run.mp hread
  obtain ⟨hnode, rfl⟩ := WorkM.node_run.mp hread'
  refine ⟨node, hnode, ?_⟩
  cases hkey : node.markerKey? with
  | some key =>
      rw [hkey] at h
      obtain ⟨rfl, rfl⟩ := pure_run.mp h
      exact .bound hkey
  | none =>
      rw [hkey] at h
      obtain ⟨s₁, s₂, hget, h⟩ := bind_run.mp h
      obtain ⟨rfl, rfl⟩ := get_run.mp hget
      by_cases hopen : s.frames.any (·.declared == declared) = true
      · rw [if_pos hopen] at h
        obtain ⟨_, s₃, htell, h⟩ := bind_run.mp h
        obtain ⟨work, htell', rfl⟩ := onWork_run.mp htell
        have hcalm : WorkM.Harmless fun _ => .ok (.cycleMet declared) :=
          fun _ _ he => by cases he; simp [Event.level]
        refine .again hkey ?_ (WorkM.tell_run hcalm htell') h
        simpa using hopen
      · rw [if_neg hopen] at h
        have hfresh : ∀ f ∈ s.frames, f.declared ≠ declared := by
          simpa using hopen
        obtain ⟨b, s₃, htest, h⟩ := bind_run.mp h
        obtain ⟨work, htest', rfl⟩ := onWork_run.mp htest
        obtain ⟨rfl, hself⟩ := standsForItself_run htest'
        cases b with
        | true =>
            obtain ⟨rfl, rfl⟩ := pure_run.mp h
            exact .itself hkey hfresh (hself.mp rfl)
        | false =>
            have hparts : ¬ StandsForItself s.graph declared node :=
              fun hs => Bool.false_ne_true (hself.mpr hs)
            exact descend_ending hkey hfresh hparts h

-- ======================================================== known endings

/-- A level at an id without a node ends in a fault. -/
theorem resolveStep_of_missing {ctx : Context}
    {descend : Option (TypeId → InstantiateM TypeId)} {declared : TypeId}
    {s : State} (hn : s.graph.node? declared = none) :
    resolveStep ctx descend declared s
      = .error (.missing declared s.graph.size) s := by
  have hread : onWork (.node declared) s
      = .error (.missing declared s.graph.size) s := by
    unfold onWork
    rw [WorkM.node_fault hn]
    rfl
  exact bind_of_fault hread

/-- A level at a marker gives what the parameter is bound to, or the
missing type. -/
theorem resolveStep_of_marker {ctx : Context}
    {descend : Option (TypeId → InstantiateM TypeId)} {declared : TypeId}
    {node : Node} {key : MarkerKey} {s : State}
    (hn : s.graph.node? declared = some node)
    (hkey : node.markerKey? = some key) :
    resolveStep ctx descend declared s
      = .ok ((ctx.env.lookup? key).getD .noType) s := by
  have hread : onWork (.node declared) s = .ok node s :=
    onWork_run.mpr ⟨s.work, WorkM.node_run.mpr ⟨hn, rfl⟩, rfl⟩
  unfold resolveStep
  rw [bind_of_run hread, hkey]
  rfl

-- =========================================================== all levels

/-- A type is resolved, through however many levels. -/
def Resolves (ctx : Context) (declared : TypeId) (s : State)
    (y : TypeId) (s' : State) : Prop :=
  ∃ depth, resolve ctx depth declared s = .ok y s'

/-- What holds of a level if it holds of the levels below it holds of
all instantiations. -/
theorem resolve_induction {ctx : Context}
    {motive : TypeId → State → TypeId → State → Prop}
    (level : ∀ declared node s y s',
      s.graph.node? declared = some node →
      Resolves ctx declared s y s' →
      Ending ctx (fun d s y s' =>
        Resolves ctx d s y s' ∧ motive d s y s') declared node s y s' →
      motive declared s y s')
    {declared y : TypeId} {s s' : State}
    (h : Resolves ctx declared s y s') : motive declared s y s' := by
  obtain ⟨depth, h⟩ := h
  induction depth generalizing declared s y s' with
  | zero =>
      obtain ⟨node, hn, hend⟩ := resolveStep_ending h
      refine level _ node _ _ _ hn ⟨0, h⟩ (hend.mono ?_)
      rintro d s y s' ⟨f, hf, -⟩
      cases hf
  | succ depth ih =>
      obtain ⟨node, hn, hend⟩ := resolveStep_ending h
      refine level _ node _ _ _ hn ⟨depth + 1, h⟩ (hend.mono ?_)
      rintro d s y s' ⟨f, hf, hrun⟩
      cases hf
      exact ⟨⟨depth, hrun⟩, ih hrun⟩

end TypeParams.Instantiation
