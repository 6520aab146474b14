/-
The calls of a resolution, as runs of the walks behind them.

Each call starts a walk on the resolution's workspace and takes over
what the walk leaves behind. The lemmas here open the calls once: a call
that succeeds is a walk that does, from the state in which the call
starts it (`Resolution.matching`, `Resolution.instantiation`), and what
is left of the resolution afterwards is its workspace, and for an
argument its bindings.

# The limit

`WithinLimit` says that no diagnostic about the depth was added in
between; such a walk has never met its last level, since a walk that
does reports it once (`Workspace.Records`). It can be decided from the
two logs.

# Runs

`Call` lists what can be called on a resolution, and `Run` is calls one
after the other. A call may be refused, with an error that it gives
back, and the resolution goes on; only a fault ends a run.
`Call.perform` forgets what is given back, which is all that an
invariant needs, and `Call.ask` keeps it.
-/
import TypeParams.Proofs.Instantiation.Growth
import TypeParams.Resolution

namespace TypeParams.Resolution

variable {r r' : Resolution}

/-- No diagnostic added between the two says that a type was too
deep. -/
def WithinLimit (r r' : Resolution) : Prop :=
  ∀ d ∈ r'.diagnostics.drop r.diagnostics.length,
    ProblemKind.of? d ≠ some .tooDeep

instance (r r' : Resolution) : Decidable (r.WithinLimit r') :=
  inferInstanceAs (Decidable (∀ d ∈ _, _))

/-- A walk within the limit has not met its last level. -/
theorem WithinLimit.limitReported {work : Workspace}
    (hrecords : r.workspace.Records work)
    (h : r.WithinLimit (r.withWork work)) : work.limitReported = false := by
  obtain ⟨-, added, hlog, -, hlimit⟩ := hrecords
  by_contra hflag
  rcases hlimit (by simpa using hflag) with hstart | ⟨d, hd, hkind⟩
  · cases hstart
  · refine h d ?_ hkind
    have hadded : (r.withWork work).diagnostics
        = r.diagnostics ++ added := hlog
    rw [hadded, List.drop_left]
    exact hd

-- ======================================================== instantiation

/-- The state in which the instantiation of a type starts. -/
def instantiation (r : Resolution) : Instantiation.State :=
  { work := r.workspace }

/-- An instantiation starts with no frames. -/
theorem instantiation_tidy (r : Resolution) : r.instantiation.Tidy := by
  refine ⟨List.Pairwise.nil, ?_, ?_⟩
  · intro f hf
    cases hf
  · intro f hf
    cases hf

/-- Instantiating a type is resolving it, with what is left in the
workspace. -/
theorem instantiate_eq (declared : TypeId) (span : Span)
    (r : Resolution) :
    instantiate declared span r
      = match Instantiation.resolve ⟨r.env, r.config, span⟩
          r.config.maxDepth declared r.instantiation with
        | .ok id s => .ok id (r.withWork s.work)
        | .error fault s => .error fault (r.withWork s.work) := rfl

/-- An instantiation that succeeds has resolved the type. -/
theorem instantiate_eq_ok {declared id : TypeId} {span : Span} :
    instantiate declared span r = .ok id r' ↔
      ∃ s, Instantiation.resolve ⟨r.env, r.config, span⟩
          r.config.maxDepth declared r.instantiation = .ok id s ∧
        r' = r.withWork s.work := by
  rw [instantiate_eq]
  cases Instantiation.resolve ⟨r.env, r.config, span⟩
      r.config.maxDepth declared r.instantiation with
  | error fault s => simp
  | ok id' s => grind

/-- The same, through however many levels. -/
theorem instantiate_run {declared id : TypeId} {span : Span}
    (h : instantiate declared span r = .ok id r') :
    ∃ s, Instantiation.Resolves ⟨r.env, r.config, span⟩ declared
        r.instantiation id s ∧ r' = r.withWork s.work := by
  obtain ⟨s, hrun, rfl⟩ := instantiate_eq_ok.mp h
  exact ⟨s, ⟨_, hrun⟩, rfl⟩

/-- Only a type that is there is instantiated. -/
theorem instantiate_lt {declared id : TypeId} {span : Span}
    (h : instantiate declared span r = .ok id r') :
    declared.index < r.types.graph.size := by
  obtain ⟨s, hrun, -⟩ := instantiate_run h
  refine Instantiation.resolve_induction
    (motive := fun d s _ _ => d.index < s.graph.size) ?_ hrun
  intro d node s y s' hn _ _
  exact Graph.index_lt_of_node? hn

/-- A type of a closed set can be instantiated. -/
theorem instantiate_succeeds {P : TypeId → Prop}
    (hP : r.types.graph.ClosedOn P) {declared : TypeId}
    (hdeclared : P declared) (span : Span) :
    Succeeds (instantiate declared span) r := by
  obtain ⟨id, s, hrun⟩ := Instantiation.resolve_succeeds
    ⟨r.env, r.config, span⟩ r.config.maxDepth r.instantiation_tidy hP
    hdeclared
  exact ⟨id, _, instantiate_eq_ok.mpr ⟨s, hrun, rfl⟩⟩

/-- Instantiating changes neither the bindings nor a node. -/
theorem instantiate_grows {declared id : TypeId} {span : Span}
    (h : instantiate declared span r = .ok id r') :
    r'.env = r.env ∧ r.types.graph.Extends r'.types.graph := by
  obtain ⟨s, hrun, rfl⟩ := instantiate_run h
  exact ⟨rfl, (hrun.grows r.instantiation_tidy).nodes⟩

-- ============================================================= matching

/-- The state in which matching an argument starts. -/
def matching (q : Resolution) : Matching.State :=
  { work := q.workspace, env := q.env }

/-- Matching an argument is a match, with what is left in the workspace
and the bindings. -/
theorem matchArgument_eq (declared actual : TypeId) (span : Span)
    (q : Resolution) :
    matchArgument declared actual span q
      = match Matching.matchTypes ⟨q.checker, q.config, span⟩
          q.config.maxDepth declared actual .covariant q.matching with
        | .ok () s => .ok () { q.withWork s.work with env := s.env }
        | .error fault s =>
            .error fault { q.withWork s.work with env := s.env } := rfl

/-- An argument that is matched is a match that succeeds. -/
theorem matchArgument_eq_ok {q q' : Resolution} {declared actual : TypeId}
    {span : Span} :
    matchArgument declared actual span q = .ok () q' ↔
      ∃ s, Matching.matchTypes ⟨q.checker, q.config, span⟩
          q.config.maxDepth declared actual .covariant q.matching
          = .ok () s ∧
        q' = { q.withWork s.work with env := s.env } := by
  rw [matchArgument_eq]
  cases Matching.matchTypes ⟨q.checker, q.config, span⟩
      q.config.maxDepth declared actual .covariant q.matching with
  | error fault s => simp
  | ok u s => grind

/-- An action on the workspace, within a resolution. -/
theorem onWork_run {α : Type} {action : WorkM α} {a : α} :
    onWork action r = .ok a r' ↔
      ∃ work, action r.workspace = .ok a work ∧ r' = r.withWork work := by
  unfold onWork
  cases action r.workspace with
  | error fault work => simp
  | ok b work => grind

/-- It causes no fault in a resolution if it causes none by itself. -/
theorem onWork_succeeds {α : Type} {action : WorkM α}
    (h : Succeeds action r.workspace) : Succeeds (onWork action) r := by
  obtain ⟨a, work, ha⟩ := h
  exact ⟨a, _, onWork_run.mpr ⟨work, ha, rfl⟩⟩

/-- Whether a type is matched depends on its mentioning a marker. -/
theorem bindArgument_eq_ok {declared actual : TypeId} {span : Span} :
    bindArgument declared actual span r = .ok () r' ↔
      (r.types.graph.containsMarker declared = .ok false ∧ r' = r) ∨
      (r.types.graph.containsMarker declared = .ok true ∧
        matchArgument declared actual span r = .ok () r') := by
  unfold bindArgument
  rw [bind_run]
  constructor
  · rintro ⟨b, r₁, hscan, h⟩
    obtain ⟨work, hinspect, rfl⟩ := onWork_run.mp hscan
    obtain ⟨hb, rfl⟩ := WorkM.inspect_run.mp hinspect
    cases b with
    | false =>
        obtain ⟨-, rfl⟩ := pure_run.mp h
        exact .inl ⟨hb, rfl⟩
    | true => exact .inr ⟨hb, h⟩
  · have hscan : ∀ {b}, r.types.graph.containsMarker declared = .ok b →
        onWork (.inspect (·.containsMarker declared)) r = .ok b r :=
      fun hb => onWork_run.mpr
        ⟨_, WorkM.inspect_run.mpr ⟨hb, rfl⟩, rfl⟩
    rintro (⟨hb, rfl⟩ | ⟨hb, h⟩)
    · exact ⟨false, _, hscan hb, rfl⟩
    · exact ⟨true, _, hscan hb, h⟩

-- ========================================================= whole calls

/-- Looking a signature up changes nothing. -/
theorem signature_run {id : TypeId} {result : Except Error Signature}
    (h : signature id r = .ok result r') : r = r' := by
  obtain ⟨work, hlook, rfl⟩ := onWork_run.mp h
  obtain ⟨node, work₁, hread, hlook⟩ := bind_run.mp hlook
  obtain ⟨-, rfl⟩ := WorkM.node_run.mp hread
  cases hkind : node.kind with
  | function signature =>
      rw [hkind] at hlook
      cases hlook
      rfl
  | leaf | array | tuple | map | record | union | error | stream | table
  | object | typedesc | xml =>
      rw [hkind] at hlook
      obtain ⟨text, work₂, hrender, hlook⟩ := bind_run.mp hlook
      obtain ⟨-, rfl⟩ := WorkM.inspect_run.mp hrender
      cases hlook
      rfl

/-- A signature that is found is that of the type. -/
theorem signature_kind {id : TypeId} {found : Signature}
    (h : signature id r = .ok (.ok found) r') :
    ∃ node, r.types.graph.node? id = some node ∧
      node.kind = .function found := by
  obtain ⟨work, hlook, -⟩ := onWork_run.mp h
  obtain ⟨node, work₁, hread, hlook⟩ := bind_run.mp hlook
  obtain ⟨hn, rfl⟩ := WorkM.node_run.mp hread
  refine ⟨node, hn, ?_⟩
  cases hkind : node.kind with
  | function signature =>
      rw [hkind] at hlook
      cases hlook
      rfl
  | leaf | array | tuple | map | record | union | error | stream | table
  | object | typedesc | xml =>
      rw [hkind] at hlook
      obtain ⟨text, work₂, -, hlook⟩ := bind_run.mp hlook
      cases hlook

/-- What binding the arguments of a call does with a signature. -/
def bindArguments (id : TypeId) (signature : Signature)
    (args : List TypeId) (span : Span) : ResolveM (Except Error Unit) := do
  (signature.argumentPairs args).forM fun (declared, actual) =>
    bindArgument declared actual span
  let ignored := signature.ignoredCount args
  if 0 < ignored then
    onWork (.tell fun g =>
      return .argumentsIgnored ignored (← g.render id))
  return .ok ()

/-- Binding the arguments of a call looks the signature up first; what
is no function is refused. -/
theorem bindCall_eq (id : TypeId) (args : List TypeId) (span : Span) :
    bindCall id args span = (do
      match ← signature id with
      | .error error => return .error error
      | .ok signature => bindArguments id signature args span) := by
  unfold bindCall
  refine bind_congr fun found => ?_
  cases found with
  | error error => rfl
  | ok signature =>
      exact congrArg (· >>= _) (forIn_eq_forM
        (signature.argumentPairs args)
        fun pair => bindArgument pair.1 pair.2 span)

/-- Binding the arguments of a call binds them one by one, and may then
tell that some were ignored. -/
theorem bindCall_run {id : TypeId} {args : List TypeId} {span : Span}
    {result : Except Error Unit}
    (h : bindCall id args span r = .ok result r') :
    r' = r ∨ ∃ (signature : Signature) (r₁ : Resolution) (work : Workspace),
      (∃ node, r.types.graph.node? id = some node ∧
        node.kind = .function signature) ∧
      Sweeps (fun pair r r' => bindArgument pair.1 pair.2 span r = .ok () r')
        (signature.argumentPairs args) r r₁ ∧
      r₁.workspace.Tells work ∧ r' = r₁.withWork work := by
  rw [bindCall_eq] at h
  obtain ⟨found, r₀, hfound, h⟩ := bind_run.mp h
  cases signature_run hfound
  cases found with
  | error error =>
      cases h
      exact .inl rfl
  | ok signature =>
      obtain ⟨_, r₁, hloop, h⟩ := bind_run.mp h
      have hkind := signature_kind hfound
      refine .inr ⟨signature, r₁, ?_⟩
      have hpairs := forM_run.mp hloop
      by_cases hignored : 0 < signature.ignoredCount args
      · rw [if_pos hignored] at h
        obtain ⟨_, r₂, htell, h⟩ := bind_run.mp h
        obtain ⟨work, htell', rfl⟩ := onWork_run.mp htell
        cases h
        refine ⟨work, hkind, hpairs, WorkM.tell_run ?_ htell', rfl⟩
        intro g e he
        obtain ⟨_, -, he⟩ := bind_eq_ok.mp he
        cases pure_eq_ok.mp he
        simp [Event.level]
      · rw [if_neg hignored] at h
        cases h
        exact ⟨_, hkind, hpairs, .refl _, rfl⟩

-- ================================================================== runs

/-- A call on a resolution. -/
inductive Call where
  | bindArgument (declared actual : TypeId) (span : Span)
  | bindCall (id : TypeId) (args : List TypeId) (span : Span)
  | instantiate (declared : TypeId) (span : Span)
  | instantiateSignature (id : TypeId)

/-- The call, whatever comes of it. -/
def Call.perform : Call → ResolveM Unit
  | .bindArgument declared actual span =>
      Resolution.bindArgument declared actual span
  | .bindCall id args span => do
      let _ ← Resolution.bindCall id args span
      return
  | .instantiate declared span => do
      let _ ← Resolution.instantiate declared span
      return
  | .instantiateSignature id => do
      let _ ← Resolution.instantiateSignature id
      return

/-- A call, with what it gives back: a refusal, or the id of a type if it
was to make one. -/
def Call.ask : Call → ResolveM (Except Error (Option TypeId))
  | .bindArgument declared actual span => do
      Resolution.bindArgument declared actual span
      return .ok none
  | .bindCall id args span => do
      let done ← Resolution.bindCall id args span
      return done.map fun _ => none
  | .instantiate declared span => do
      let id ← Resolution.instantiate declared span
      return .ok (some id)
  | .instantiateSignature id => do
      let made ← Resolution.instantiateSignature id
      return made.map some

/-- Calls one after the other, as long as none ends in a fault. -/
inductive Run (start : Resolution) : Resolution → Prop where
  | refl : Run start start
  | call {r r' : Resolution} (call : Call) : Run start r →
      call.perform r = .ok () r' → Run start r'

end TypeParams.Resolution
