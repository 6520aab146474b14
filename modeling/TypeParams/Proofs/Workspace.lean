/-
What the actions on a workspace do.

Each action has a lemma that says when it succeeds and what it leaves
behind: `inspect` and `node` leave everything as it was, `tell` changes
nothing but the events (`Workspace.Tells`), `alloc` and `unionOf` change
nothing but the types. Later proofs take actions apart with these
lemmas, and do not look into their definitions.

# What was told and reported

An event of the level of an error is an alarm; `Workspace.Calm` says
that none was told, and the relations below all include it.
`Workspace.Records` relates two workspaces by what was reported between
them: diagnostics are only added, and a walk that has met its last level
has said so. A walk that adds no such diagnostic has therefore never met
its last level. `Workspace.Reports` is one step of this, a single
diagnostic of a given sort.

# What was added

`Workspace.Keeps` says that types were added to the layer at most: the
store below is the same, and so are the ids that are reserved and not
yet defined. Everything but defining a reserved id keeps them.

# Silence

A walk that is quiet (`Workspace.Quiet`) was quiet at every step: what
is reported is never taken back, so a log that is the same at the end
was the same all the time (`Quiet.split`). This is how a statement about
the log at the end of a call becomes one about every level of it.
-/
import TypeParams.Proofs.Actions
import TypeParams.Proofs.Layer
import TypeParams.Workspace

namespace TypeParams

-- ========================================================== diagnostics

/-- A diagnostic tells which sort of problem it was made for. -/
theorem ProblemKind.of?_diagnostic (problem : Problem) (span : Span) :
    ProblemKind.of? (problem.diagnostic span) = some problem.kind := by
  have hcode : (problem.diagnostic span).code
      = some problem.kind.code := by
    unfold Problem.diagnostic Diagnostic.withSpan
    split <;> rfl
  unfold ProblemKind.of?
  rw [hcode]
  cases problem.kind <;> decide

/-- Softening a diagnostic keeps the sort of problem. -/
theorem ProblemKind.of?_softened (diagnostic : Diagnostic) :
    ProblemKind.of? diagnostic.softened = ProblemKind.of? diagnostic := by
  have hcode : diagnostic.softened.code = diagnostic.code := by
    unfold Diagnostic.softened
    split <;> rfl
  unfold ProblemKind.of?
  rw [hcode]

namespace Workspace

-- ========================================================== two workspaces

/-- Events were added at most, and none of them is an alarm. -/
def Calm (w w' : Workspace) : Prop :=
  ∃ told, w'.journal.events = w.journal.events ++ told ∧
    ∀ e ∈ told, e.level ≠ .error

/-- Nothing but events was told. -/
def Tells (w w' : Workspace) : Prop :=
  w.Calm w' ∧ ∃ events, w' = { w with
    journal := { w.journal with events } }

/-- Diagnostics were added at most, and one that says so if the last
level was met meanwhile. -/
def Records (w w' : Workspace) : Prop :=
  w.Calm w' ∧
  ∃ added, w'.journal.log.entries = w.journal.log.entries ++ added ∧
    (w.limitReported = true → w'.limitReported = true) ∧
    (w'.limitReported = true → w.limitReported = true ∨
      ∃ d ∈ added, ProblemKind.of? d = some .tooDeep)

/-- One diagnostic was added, about a problem of that sort. -/
structure Reports (w : Workspace) (kind : ProblemKind) (w' : Workspace) :
    Prop where
  added : ∃ d, ProblemKind.of? d = some kind ∧
    w'.journal.log.entries = w.journal.log.entries ++ [d]
  types : w'.types = w.types
  limitReported : w'.limitReported = w.limitReported
  calm : w.Calm w'

variable {w w' w'' : Workspace}

/-- Where no event is added. -/
theorem Calm.of_eq (h : w'.journal.events = w.journal.events) :
    w.Calm w' :=
  ⟨[], by rw [h, List.append_nil], by simp⟩

/-- Calm that lasts from one walk to the next. -/
theorem Calm.trans (h : w.Calm w') (h' : w'.Calm w'') : w.Calm w'' := by
  obtain ⟨told, hevents, hcalm⟩ := h
  obtain ⟨told', hevents', hcalm'⟩ := h'
  refine ⟨told ++ told', ?_, ?_⟩
  · rw [hevents', hevents, List.append_assoc]
  · rw [List.forall_mem_append]
    exact ⟨hcalm, hcalm'⟩

theorem Tells.refl (w : Workspace) : w.Tells w :=
  ⟨.of_eq rfl, w.journal.events, rfl⟩

/-- Telling events changes no types. -/
theorem Tells.types (h : w.Tells w') : w'.types = w.types := by
  obtain ⟨-, events, rfl⟩ := h
  rfl

/-- It adds no diagnostic. -/
theorem Tells.log (h : w.Tells w') : w'.journal.log = w.journal.log := by
  obtain ⟨-, events, rfl⟩ := h
  rfl

/-- It is not running out of levels. -/
theorem Tells.limitReported (h : w.Tells w') :
    w'.limitReported = w.limitReported := by
  obtain ⟨-, events, rfl⟩ := h
  rfl

/-- Nothing is recorded where log and flag stay the same. -/
theorem Records.of_eq (hcalm : w.Calm w')
    (hlog : w'.journal.log = w.journal.log)
    (hflag : w'.limitReported = w.limitReported) : w.Records w' := by
  refine ⟨hcalm, [], by rw [hlog, List.append_nil], ?_, ?_⟩
  · exact fun h => hflag.trans h
  · exact fun h => .inl (hflag.symm.trans h)

/-- Nothing is recorded where only the types change. -/
theorem Records.of_journal (hjournal : w'.journal = w.journal)
    (hflag : w'.limitReported = w.limitReported) : w.Records w' :=
  .of_eq (.of_eq (congrArg Journal.events hjournal))
    (congrArg Journal.log hjournal) hflag

theorem Records.refl (w : Workspace) : w.Records w := .of_journal rfl rfl

/-- What two walks report, one after the other. -/
theorem Records.trans (h : w.Records w') (h' : w'.Records w'') :
    w.Records w'' := by
  obtain ⟨hcalm, added, hlog, hkept, hlimit⟩ := h
  obtain ⟨hcalm', added', hlog', hkept', hlimit'⟩ := h'
  refine ⟨hcalm.trans hcalm', added ++ added', ?_,
    fun hw => hkept' (hkept hw), ?_⟩
  · rw [hlog', hlog, List.append_assoc]
  · intro hw''
    rcases hlimit' hw'' with hw' | ⟨d, hd, hkind⟩
    · rcases hlimit hw' with hw | ⟨d, hd, hkind⟩
      · exact .inl hw
      · exact .inr ⟨d, List.mem_append_left _ hd, hkind⟩
    · exact .inr ⟨d, List.mem_append_right _ hd, hkind⟩

/-- Had the last level been met before, it would still be known. -/
theorem Records.limitReported_eq_false (h : w.Records w')
    (hw' : w'.limitReported = false) : w.limitReported = false := by
  obtain ⟨-, -, -, hkept, -⟩ := h
  cases hw : w.limitReported with
  | false => rfl
  | true => exact (hkept hw).symm.trans hw'

/-- Telling events reports nothing. -/
theorem Tells.records (h : w.Tells w') : w.Records w' :=
  .of_eq h.1 h.log h.limitReported

/-- An event before a report is part of it. -/
theorem Tells.reports {kind : ProblemKind} (h : w.Tells w')
    (h' : w'.Reports kind w'') : w.Reports kind w'' where
  added := by
    rw [← h.log]
    exact h'.added
  types := h'.types.trans h.types
  limitReported := h'.limitReported.trans h.limitReported
  calm := h.1.trans h'.calm

/-- One report is among the things that may be recorded. -/
theorem Reports.records {kind : ProblemKind} (h : w.Reports kind w') :
    w.Records w' := by
  obtain ⟨d, -, hlog⟩ := h.added
  refine ⟨h.calm, [d], hlog, fun hw => h.limitReported.trans hw, fun hw => ?_⟩
  exact .inl (h.limitReported.symm.trans hw)

-- =============================================================== layers

/-- Nodes were added at most: the store below and the reserved ids are
the same, and no alarm was told. -/
structure Keeps (w w' : Workspace) : Prop where
  base : w'.types.base = w.types.base
  pending : w'.types.pending = w.types.pending
  calm : w.Calm w'

/-- Where no types are added. -/
theorem Keeps.of_types (htypes : w'.types = w.types) (hcalm : w.Calm w') :
    w.Keeps w' :=
  ⟨by rw [htypes], by rw [htypes], hcalm⟩

theorem Keeps.refl (w : Workspace) : w.Keeps w :=
  .of_types rfl (.of_eq rfl)

/-- What two walks add, one after the other. -/
theorem Keeps.trans (h : w.Keeps w') (h' : w'.Keeps w'') : w.Keeps w'' :=
  ⟨h'.base.trans h.base, h'.pending.trans h.pending, h.calm.trans h'.calm⟩

-- ============================================================== silence

/-- Nothing was reported, and the last level was not met. -/
structure Quiet (w w' : Workspace) : Prop where
  entries : w'.journal.log.entries = w.journal.log.entries
  limitReported : w'.limitReported = false

/-- What was quiet was so all the time. -/
theorem Quiet.split (h : w.Quiet w'') (h₁ : w.Records w')
    (h₂ : w'.Records w'') : w.Quiet w' ∧ w'.Quiet w'' := by
  have hlimit := h₂.limitReported_eq_false h.limitReported
  obtain ⟨-, added₁, hlog₁, -⟩ := h₁
  obtain ⟨-, added₂, hlog₂, -⟩ := h₂
  have hnone : added₁ ++ added₂ = [] := by
    have hlog := h.entries
    rw [hlog₂, hlog₁, List.append_assoc] at hlog
    exact List.append_right_eq_self.mp hlog
  obtain ⟨rfl, rfl⟩ := List.append_eq_nil_iff.mp hnone
  rw [List.append_nil] at hlog₁ hlog₂
  exact ⟨⟨hlog₁, hlimit⟩, ⟨hlog₂, h.limitReported⟩⟩

/-- A report breaks the silence. -/
theorem Reports.not_quiet {kind : ProblemKind}
    (h : w.Reports kind w') : ¬ w.Quiet w' := by
  intro hquiet
  obtain ⟨d, -, hlog⟩ := h.added
  rw [hquiet.entries] at hlog
  simp at hlog

end Workspace

-- ============================================================== actions

namespace WorkM

open Workspace

variable {w w' : Workspace}

/-- Looking at the types: the result is what is seen, and nothing
changes. -/
theorem inspect_run {α : Type} {f : Graph → Except Fault α} {a : α} :
    inspect f w = .ok a w' ↔ f w.types.graph = .ok a ∧ w = w' := by
  unfold inspect
  cases f w.types.graph with
  | error fault => simp
  | ok b => simp

/-- Looking up a node. -/
theorem node_run {id : TypeId} {node : Node} :
    WorkM.node id w = .ok node w' ↔
      w.types.graph.node? id = some node ∧ w = w' := by
  rw [← Graph.node_eq_ok, Layer.node_graph]
  unfold WorkM.node
  cases w.types.node id with
  | error fault => simp
  | ok b => simp

/-- A look that fails makes the action fail, in the state it was run in. -/
theorem inspect_fault {α : Type} {f : Graph → Except Fault α}
    {fault : Fault} (h : f w.types.graph = .error fault) :
    inspect f w = .error fault w := by
  unfold inspect
  rw [h]

/-- An id without a node cannot be looked up. -/
theorem node_fault {id : TypeId} (h : w.types.graph.node? id = none) :
    WorkM.node id w = .error (.missing id w.types.graph.size) w := by
  unfold WorkM.node
  rw [← Layer.node_graph, Graph.node_eq_error h]

/-- A new node gets the next id. -/
theorem alloc_run {node : Node} {id : TypeId} :
    WorkM.alloc node w = .ok id w' ↔
      id = w.types.nextId ∧
        w' = { w with types := (w.types.alloc node).2 } := by
  unfold WorkM.alloc
  constructor
  · intro h
    cases h
    exact ⟨rfl, rfl⟩
  · rintro ⟨rfl, rfl⟩
    rfl

/-- A union is built by the layer, and nothing else changes. -/
theorem unionOf_run {ids : List TypeId} {id : TypeId} :
    WorkM.unionOf ids w = .ok id w' ↔
      ∃ types, w.types.unionOf ids = .ok (id, types) ∧
        w' = { w with types } := by
  unfold WorkM.unionOf
  cases w.types.unionOf ids with
  | error fault => simp
  | ok result =>
      obtain ⟨id', types⟩ := result
      constructor
      · intro h
        cases h
        exact ⟨types, rfl, rfl⟩
      · rintro ⟨types', h, rfl⟩
        cases h
        rfl

/-- Whatever is told is no alarm. -/
def Harmless (event : Graph → Except Fault Event) : Prop :=
  ∀ g e, event g = .ok e → e.level ≠ .error

/-- Telling an event that is no alarm. -/
theorem tell_run {event : Graph → Except Fault Event} {u : Unit}
    (hevent : Harmless event) (h : WorkM.tell event w = .ok u w') :
    w.Tells w' := by
  unfold WorkM.tell at h
  split at h
  · split at h
    next e he =>
      cases h
      refine ⟨⟨[e], rfl, ?_⟩, _, rfl⟩
      rw [List.forall_mem_singleton]
      exact hevent _ e he
    next => cases h
  · cases h
    exact .refl w

/-- Telling any event changes no types. -/
theorem tell_types {event : Graph → Except Fault Event} {u : Unit}
    (h : WorkM.tell event w = .ok u w') : w'.types = w.types := by
  unfold WorkM.tell at h
  split at h
  · split at h
    · cases h
      rfl
    · cases h
  · cases h
    rfl

/-- An event can be told if its text can be written. -/
theorem tell_succeeds {event : Graph → Except Fault Event}
    (h : Returns (event w.types.graph)) :
    Succeeds (WorkM.tell event) w := by
  obtain ⟨e, he⟩ := h
  unfold Succeeds WorkM.tell
  split
  · rw [he]
    exact ⟨_, _, rfl⟩
  · exact ⟨_, _, rfl⟩

/-- A look that returns makes the action succeed. -/
theorem inspect_succeeds {α : Type} {f : Graph → Except Fault α}
    (h : Returns (f w.types.graph)) : Succeeds (WorkM.inspect f) w := by
  obtain ⟨a, ha⟩ := h
  exact ⟨a, w, inspect_run.mpr ⟨ha, rfl⟩⟩

/-- A problem is reported by one more diagnostic of its sort. -/
theorem report_run {config : Config} {span : Span}
    {problem : Graph → Except Fault Problem} {u : Unit}
    (h : WorkM.report config span problem w = .ok u w') :
    ∃ p d, problem w.types.graph = .ok p ∧
      ProblemKind.of? d = some p.kind ∧
      w' = { w with
        journal := { w.journal with log := w.journal.log.report d } } := by
  obtain ⟨p, w₁, hinspect, h⟩ := bind_run.mp h
  obtain ⟨hp, rfl⟩ := inspect_run.mp hinspect
  cases modify_run.mp h
  refine ⟨p, _, hp, ?_, rfl⟩
  split
  · rw [ProblemKind.of?_softened, ProblemKind.of?_diagnostic]
  · exact ProblemKind.of?_diagnostic p span

/-- A problem of a known sort. -/
theorem report_reports {config : Config} {span : Span}
    {problem : Graph → Except Fault Problem} {kind : ProblemKind}
    {u : Unit}
    (hkind : ∀ p, problem w.types.graph = .ok p → p.kind = kind)
    (h : WorkM.report config span problem w = .ok u w') :
    w.Reports kind w' := by
  obtain ⟨p, d, hp, hd, rfl⟩ := report_run h
  exact ⟨⟨d, hkind p hp ▸ hd, rfl⟩, rfl, rfl, .of_eq rfl⟩

/-- A problem can be reported if its text can be written. -/
theorem report_succeeds {config : Config} {span : Span}
    {problem : Graph → Except Fault Problem}
    (h : Returns (problem w.types.graph)) :
    Succeeds (WorkM.report config span problem) w :=
  (inspect_succeeds h).bind fun _ _ _ => ⟨_, _, rfl⟩

/-- Having met the last level is recorded, and changes no types. -/
theorem reportLimit_run {config : Config} {span : Span}
    {event : Nat → Event} {id : TypeId} {u : Unit}
    (hevent : (event config.maxDepth).level ≠ .error)
    (h : WorkM.reportLimit config span event id w = .ok u w') :
    w.Records w' ∧ w'.limitReported = true ∧ w'.types = w.types := by
  obtain ⟨w₁, w₂, hget, h⟩ := bind_run.mp h
  obtain ⟨rfl, rfl⟩ := get_run.mp hget
  cases hflag : w.limitReported with
  | true =>
      simp only [hflag, Bool.not_true, Bool.false_eq_true, if_false] at h
      obtain ⟨-, rfl⟩ := pure_run.mp h
      exact ⟨.refl w, hflag, rfl⟩
  | false =>
      simp only [hflag, Bool.not_false, if_true] at h
      obtain ⟨_, w₁, hmodify, h⟩ := bind_run.mp h
      cases modify_run.mp hmodify
      obtain ⟨_, w₂, htell, h⟩ := bind_run.mp h
      obtain ⟨hcalm, events, rfl⟩ := tell_run (fun _ _ he =>
        Except.ok.inj he ▸ hevent) htell
      obtain ⟨p, d, hp, hd, rfl⟩ := report_run h
      obtain ⟨text, -, hp⟩ := bind_eq_ok.mp hp
      cases pure_eq_ok.mp hp
      refine ⟨⟨hcalm, [d], rfl, fun _ => rfl, fun _ => .inr ⟨d, ?_, hd⟩⟩,
        rfl, rfl⟩
      exact List.mem_singleton.mpr rfl

/-- Running out of levels can be reported if the type can be written. -/
theorem reportLimit_succeeds {config : Config} {span : Span}
    {event : Nat → Event} {id : TypeId}
    (h : Returns (w.types.graph.render id)) :
    Succeeds (WorkM.reportLimit config span event id) w := by
  refine Succeeds.bind ⟨w, w, rfl⟩ fun w₁ w₂ hget => ?_
  obtain ⟨rfl, rfl⟩ := get_run.mp hget
  split
  · refine Succeeds.bind ⟨_, _, rfl⟩ fun _ w₁ hmodify => ?_
    cases modify_run.mp hmodify
    refine (tell_succeeds (.ok _)).bind fun _ w₂ htell => ?_
    refine report_succeeds ?_
    rw [tell_types htell]
    exact h.bind fun _ _ => .pure _
  · exact .pure _ _

end WorkM

end TypeParams
