/-
A resolution with lossy settings.

# Where settings are looked at

The settings are looked at in one place only, where a diagnostic is
added to the log (`WorkM.report`), and nothing looks at the log. So a
resolution with lossy settings does what it does without them, and the
log has the same diagnostics, with errors made warnings.

`Softens` says this of an action with lossy settings and the action with
strict ones, for each of the three walks over a state that has a log in
it. The states are related by a function, which softens the log; that
makes it an equation between actions, and such equations go together
along an action's steps (`Shadows`). It also says that strict settings
grade the log (`Diagnostic.Graded`): what is an error can be told by its
code.

The lemmas follow the layers of the program. An action on a workspace
that reports nothing softens with itself, since it leaves the log alone;
reporting is the one case where the two sides differ. A level of a match
or of a copy softens if the levels below do, so a whole walk does by
induction on its levels, and the calls of a resolution are made of such
walks.

# What it comes to

What is shown in the end does not mention the function.
`Diagnostic.Eases` lists what two diagnostics have in common and what
they do not, field by field: message, code, span and suggestions are the
same, the strict one is an error exactly if its code is one of the two
that errors have, and the lossy one is a warning. `Eases` does the like
for two resolutions.
-/
import TypeParams.Proofs.Commuting
import TypeParams.Proofs.Instantiation.Levels
import TypeParams.Proofs.Matching.Sources
import TypeParams.Proofs.Resolution

namespace TypeParams

-- ========================================================== diagnostics

namespace Diagnostic

/-- The diagnostic is an error exactly if its code is one of those of
errors. -/
def Graded (d : Diagnostic) : Prop :=
  d.isError = true ↔ d.code = some "E-TP001" ∨ d.code = some "E-TP002"

/-- A diagnostic of a strict resolution and the one in its place of a
lossy one: an error is a warning there, and all else is the same. -/
structure Eases (strict lossy : Diagnostic) : Prop where
  severity : lossy.severity
    = if strict.severity = .error then .warning else strict.severity
  message : lossy.message = strict.message
  span : lossy.span = strict.span
  suggestions : lossy.suggestions = strict.suggestions
  code : lossy.code = strict.code

/-- Softening keeps everything but the severity. -/
theorem eases_softened (d : Diagnostic) : d.Eases d.softened := by
  unfold softened
  by_cases h : d.severity = .error
  · have herror : d.isError = true := beq_iff_eq.mpr h
    rw [if_pos herror]
    exact ⟨(if_pos h).symm, rfl, rfl, rfl, rfl⟩
  · have herror : ¬ d.isError = true := fun herror => h (beq_iff_eq.mp herror)
    rw [if_neg herror]
    exact ⟨(if_neg h).symm, rfl, rfl, rfl, rfl⟩

/-- What is softened is no error. -/
theorem isError_softened (d : Diagnostic) : d.softened.isError = false := by
  unfold softened
  by_cases h : d.isError = true
  · rw [if_pos h]
    rfl
  · rw [if_neg h]
    exact Bool.eq_false_iff.mpr h

end Diagnostic

/-- Whether a problem is an error can be told by its code. -/
theorem Problem.diagnostic_graded (problem : Problem) (span : Span) :
    (problem.diagnostic span).Graded := by
  have hspan : ∀ d : Diagnostic, d.Graded → (d.withSpan span).Graded := by
    intro d hd
    unfold Diagnostic.withSpan
    split
    · exact hd
    · exact hd
  apply hspan
  cases problem <;> simp [Diagnostic.Graded, Diagnostic.isError,
    Problem.kind, ProblemKind.severity, ProblemKind.code]

/-- The log with its errors made warnings. -/
def Log.softened (log : Log) : Log := ⟨log.entries.map (·.softened)⟩

/-- Every diagnostic of the log can be told by its code. -/
def Log.Graded (log : Log) : Prop := ∀ d ∈ log.entries, d.Graded

namespace Log

variable {log : Log}

/-- Softening goes on as the log grows. -/
theorem report_softened (log : Log) (d : Diagnostic) :
    (log.report d).softened = log.softened.report d.softened :=
  congrArg Log.mk List.map_append

/-- A log stays graded when a graded diagnostic is added. -/
theorem Graded.report (h : log.Graded) {d : Diagnostic} (hd : d.Graded) :
    (log.report d).Graded := by
  show ∀ d' ∈ log.entries ++ [d], d'.Graded
  rw [List.forall_mem_append, List.forall_mem_singleton]
  exact ⟨h, hd⟩

/-- The diagnostics of a softened log are those of the log, in the same
order, each in its place. -/
theorem eases_softened (log : Log) :
    List.Forall₂ Diagnostic.Eases log.entries log.softened.entries :=
  List.forall₂_map_right_iff.mpr
    (List.forall₂_same.mpr fun d _ => d.eases_softened)

/-- There are no errors in a softened log. -/
theorem hasErrors_softened (log : Log) : log.softened.hasErrors = false := by
  show (log.entries.map (·.softened)).any (·.isError) = false
  rw [List.any_map, List.any_eq_false]
  intro d _
  simp [d.isError_softened]

/-- A graded log has errors if a diagnostic has the code of one. -/
theorem Graded.hasErrors_iff (h : log.Graded) :
    log.hasErrors = true ↔ ∃ d ∈ log.entries,
      d.code = some "E-TP001" ∨ d.code = some "E-TP002" := by
  show log.entries.any (·.isError) = true ↔ _
  rw [List.any_eq_true]
  constructor
  · intro hany
    obtain ⟨d, hd, herror⟩ := hany
    exact ⟨d, hd, (h d hd).mp herror⟩
  · intro hany
    obtain ⟨d, hd, hcode⟩ := hany
    exact ⟨d, hd, (h d hd).mpr hcode⟩

end Log

-- ============================================================ workspaces

/-- The same settings, and lossy. -/
def Config.lossily (config : Config) : Config :=
  { config with lossy := true }

/-- The journal with its log softened; its events stay. -/
def Journal.softened (journal : Journal) : Journal :=
  { journal with log := journal.log.softened }

namespace Workspace

/-- The workspace with its log softened; its types stay. -/
def softened (w : Workspace) : Workspace :=
  { w with journal := w.journal.softened }

theorem softened_types (w : Workspace) : w.softened.types = w.types := rfl

/-- The log of the workspace is graded. -/
def Graded (w : Workspace) : Prop := w.journal.log.Graded

end Workspace

namespace WorkM

variable {α : Type} {config : Config} {span : Span}

/-- The second action does with a softened log what the first does with
the log, which stays graded. -/
abbrev Softens (x y : WorkM α) : Prop :=
  Shadows Workspace.softened Workspace.Graded x y fun _ =>
    Workspace.Graded

/-- An action that leaves the log alone. -/
theorem softens_self {x : WorkM α}
    (h : ∀ w, Commutes Workspace.softened x w)
    (hlog : ∀ w a w', x w = .ok a w' → w'.journal.log = w.journal.log) :
    Softens x x := by
  intro w hw
  refine ⟨h w, ?_⟩
  intro a w' hrun
  show w'.journal.log.Graded
  rw [hlog w a w' hrun]
  exact hw

/-- Looking at the types leaves the log alone. -/
theorem inspect_softens (f : Graph → Except Fault α) :
    Softens (inspect f) (inspect f) := by
  apply softens_self
  · intro w
    unfold Commutes inspect
    rw [Workspace.softened_types]
    cases f w.types.graph <;> rfl
  · intro w a w' hrun
    obtain ⟨-, rfl⟩ := inspect_run.mp hrun
    rfl

theorem node_softens (id : TypeId) : Softens (node id) (node id) := by
  apply softens_self
  · intro w
    unfold Commutes node
    rw [Workspace.softened_types]
    cases w.types.node id <;> rfl
  · intro w a w' hrun
    obtain ⟨-, rfl⟩ := node_run.mp hrun
    rfl

/-- So does allocating a node. -/
theorem alloc_softens (node : Node) :
    Softens (alloc node) (alloc node) := by
  apply softens_self
  · intro w
    rfl
  · intro w a w' hrun
    cases hrun
    rfl

/-- So does building a union. -/
theorem unionOf_softens (ids : List TypeId) :
    Softens (unionOf ids) (unionOf ids) := by
  apply softens_self
  · intro w
    unfold Commutes unionOf
    rw [Workspace.softened_types]
    cases w.types.unionOf ids <;> rfl
  · intro w a w' hrun
    unfold unionOf at hrun
    split at hrun
    · cases hrun
      rfl
    · cases hrun

/-- Events are told apart from the log. -/
theorem tell_softens (event : Graph → Except Fault Event) :
    Softens (tell event) (tell event) := by
  apply softens_self
  · intro w
    have hlisten : w.softened.journal.listening
        = w.journal.listening := rfl
    unfold Commutes tell
    rw [Workspace.softened_types, hlisten]
    cases w.journal.listening with
    | false => rfl
    | true => cases event w.types.graph <;> rfl
  · intro w a w' hrun
    unfold tell at hrun
    split at hrun
    · split at hrun
      · cases hrun
        rfl
      · cases hrun
    · cases hrun
      rfl

/-- The one place where the settings make a difference. -/
theorem report_softens (hstrict : config.lossy = false)
    (problem : Graph → Except Fault Problem) :
    Softens (report config span problem)
      (report config.lossily span problem) := by
  refine (inspect_softens problem).bind fun problem => .update ?_
  intro w hw
  rw [hstrict]
  constructor
  · show _ = ({ w with journal := { w.journal with
      log := (w.journal.log.report (problem.diagnostic span)).softened } }
      : Workspace)
    rw [Log.report_softened]
    rfl
  · exact hw.report (problem.diagnostic_graded span)

/-- Running out of levels is reported once, whatever the settings are. -/
theorem reportLimit_softens (hstrict : config.lossy = false)
    (event : Nat → Event) (id : TypeId) :
    Softens (reportLimit config span event id)
      (reportLimit config.lossily span event id) := by
  refine .read fun w _ => ?_
  show Softens (if !w.limitReported then _ else _)
    (if !w.limitReported then _ else _)
  by_cases hlimit : (!w.limitReported) = true
  · rw [if_pos hlimit, if_pos hlimit]
    refine .bind (Q := fun _ => Workspace.Graded)
      (.update fun w hw => ⟨rfl, hw⟩) fun _ => ?_
    exact (tell_softens _).bind fun _ => report_softens hstrict _
  · rw [if_neg hlimit, if_neg hlimit]
    exact .pure fun _ hw => hw

end WorkM

-- ============================================================== matching

namespace Matching

variable {α : Type} {ctx : Context}

/-- The state of a match with its log softened. -/
def State.softened (s : State) : State :=
  { s with work := s.work.softened }

/-- The log of the match is graded. -/
def State.Graded (s : State) : Prop := s.work.Graded

/-- The same match, with lossy settings. -/
def Context.lossily (ctx : Context) : Context :=
  { ctx with config := ctx.config.lossily }

/-- A match does the same with a softened log. -/
abbrev Softens (x y : MatchM α) : Prop :=
  Shadows State.softened State.Graded x y fun _ => State.Graded

/-- An action on the workspace, within a match. -/
theorem onWork_softens {x y : WorkM α} (h : WorkM.Softens x y) :
    Softens (onWork x) (onWork y) := by
  intro s hs
  obtain ⟨heq, hpost⟩ := h s.work hs
  constructor
  · have hsame : y s.softened.work = _ := heq
    unfold onWork
    rw [hsame]
    cases x s.work <;> rfl
  · intro a s' hrun
    obtain ⟨work, hwork, rfl⟩ := onWork_run.mp hrun
    exact hpost a work hwork

/-- The actual type of a pairing is made without a report. -/
theorem Source.resolve_softens (source : Source) :
    WorkM.Softens source.resolve source.resolve := by
  cases source with
  | given id => exact .pure fun _ hw => hw
  | unionOf ids =>
      exact (WorkM.unionOf_softens ids).bind fun _ => .pure fun _ hw => hw
  | keyOf table =>
      rw [resolve_keyOf_eq]
      split
      · exact .pure fun _ hw => hw
      · unfold keyOfRow
        split
        · exact .pure fun _ hw => hw
        · refine (WorkM.node_softens _).bind fun row => ?_
          split
          · split
            · unfold keyOfFields
              split
              · exact .pure fun _ hw => hw
              · exact (WorkM.alloc_softens _).bind fun _ =>
                  .pure fun _ hw => hw
            · exact .pure fun _ hw => hw
          · exact .pure fun _ hw => hw

section Levels

variable (hstrict : ctx.config.lossy = false)
include hstrict

/-- A parameter that cannot be inferred is reported in both settings. -/
theorem reportUninferred_softens (marker : TypeId) :
    Softens (reportUninferred ctx marker)
      (reportUninferred ctx.lossily marker) :=
  onWork_softens (WorkM.report_softens hstrict _)

/-- A marker meets its type in the same way: what is bound, and whether
two types clash, does not depend on the settings. -/
theorem bindMarker_softens (marker : TypeId) (key : MarkerKey)
    (actual : TypeId) (variance : Variance) :
    Softens (bindMarker ctx marker key actual variance)
      (bindMarker ctx.lossily marker key actual variance) := by
  refine .read fun s _ => ?_
  have henv : s.softened.env = s.env := rfl
  rw [henv]
  cases s.env.lookup? key with
  | none =>
      by_cases hactual : actual = .noType
      · simp only [if_pos hactual]
        exact reportUninferred_softens hstrict marker
      · simp only [if_neg hactual]
        refine (onWork_softens (WorkM.tell_softens _)).bind fun _ => ?_
        exact .update fun s hs => ⟨rfl, hs⟩
  | some bound =>
      by_cases hactual : actual ≠ .noType
      · simp only [if_pos hactual]
        refine (onWork_softens (WorkM.inspect_softens _)).bind
          fun compatible => ?_
        cases compatible with
        | true => exact .pure fun _ hs => hs
        | false =>
            exact (onWork_softens (WorkM.tell_softens _)).bind fun _ =>
              onWork_softens (WorkM.report_softens hstrict _)
      · simp only [if_neg hactual]
        exact .pure fun _ hs => hs

/-- Markers that meet no type are reported one by one in both settings. -/
theorem reportUnbound_softens (expected : TypeId) :
    Softens (reportUnbound ctx expected)
      (reportUnbound ctx.lossily expected) := by
  rw [reportUnbound_eq, reportUnbound_eq]
  refine (onWork_softens (WorkM.inspect_softens _)).bind fun keyed => ?_
  refine .read fun s _ => .forM fun marker _ => ?_
  exact reportUninferred_softens hstrict marker.2

omit hstrict in
/-- A plan is followed in both settings, if the levels below are. -/
theorem followPlan_softens
    {descend descend' : TypeId → TypeId → Variance → MatchM Unit}
    (hdescend : ∀ e a v, Softens (descend e a v) (descend' e a v))
    (expected actual : TypeId) (plan : Plan) :
    Softens (followPlan descend expected actual plan)
      (followPlan descend' expected actual plan) := by
  cases plan with
  | generalUnions => exact onWork_softens (WorkM.tell_softens _)
  | unpaired => exact onWork_softens (WorkM.tell_softens _)
  | pairs pairings =>
      refine .forM fun pairing _ => ?_
      refine (onWork_softens pairing.source.resolve_softens).bind
        fun made => ?_
      cases made with
      | none => exact .pure fun _ hs => hs
      | some actual => exact hdescend _ _ _

/-- One level with lossy settings, if the levels below are with them
too. -/
theorem matchStep_softens
    {descend descend' : Option (TypeId → TypeId → Variance → MatchM Unit)}
    (hdescend : Option.Rel
      (fun f f' => ∀ e a v, Softens (f e a v) (f' e a v)) descend descend')
    (expected actual : TypeId) (variance : Variance) :
    Softens (matchStep ctx descend expected actual variance)
      (matchStep ctx.lossily descend' expected actual variance) := by
  refine .read fun s _ => ?_
  show Softens (if expected ∈ s.visited then _ else _)
    (if expected ∈ s.visited then _ else _)
  by_cases hvisited : expected ∈ s.visited
  · rw [if_pos hvisited, if_pos hvisited]
    exact onWork_softens (WorkM.tell_softens _)
  · rw [if_neg hvisited, if_neg hvisited]
    refine (onWork_softens (WorkM.node_softens _)).bind fun node => ?_
    cases node.markerKey? with
    | some key => exact bindMarker_softens hstrict _ _ _ _
    | none =>
        by_cases hactual : actual = .noType
        · simp only [if_pos hactual]
          exact reportUnbound_softens hstrict _
        · simp only [if_neg hactual]
          by_cases hleaf : node.kind.isLeaf = true
          · simp only [if_pos hleaf]
            exact .pure fun _ hs => hs
          · simp only [if_neg hleaf]
            cases hdescend with
            | none =>
                exact onWork_softens (WorkM.reportLimit_softens hstrict _ _)
            | some hdescend =>
                refine .bind (Q := fun _ => State.Graded)
                  (.update fun s hs => ⟨rfl, hs⟩) fun _ => ?_
                refine (onWork_softens (WorkM.inspect_softens _)).bind
                  fun plan => ?_
                exact followPlan_softens hdescend _ _ plan

/-- A whole match, by induction on its levels. -/
theorem matchTypes_softens (depth : Nat) (expected actual : TypeId)
    (variance : Variance) :
    Softens (matchTypes ctx depth expected actual variance)
      (matchTypes ctx.lossily depth expected actual variance) := by
  induction depth generalizing expected actual variance with
  | zero => exact matchStep_softens hstrict .none _ _ _
  | succ depth ih => exact matchStep_softens hstrict (.some ih) _ _ _

end Levels

end Matching

-- ========================================================= instantiation

namespace Instantiation

variable {α : Type} {ctx : Context}

/-- The state of a copy with its log softened. -/
def State.softened (s : State) : State :=
  { s with work := s.work.softened }

theorem State.softened_frames (s : State) :
    s.softened.frames = s.frames := rfl

/-- The log of the copy is graded. -/
def State.Graded (s : State) : Prop := s.work.Graded

/-- The same copy, with lossy settings. -/
def Context.lossily (ctx : Context) : Context :=
  { ctx with config := ctx.config.lossily }

/-- A copy does the same with a softened log. -/
abbrev Softens (x y : InstantiateM α) : Prop :=
  Shadows State.softened State.Graded x y fun _ => State.Graded

/-- An action on the workspace, within a copy. -/
theorem onWork_softens {x y : WorkM α} (h : WorkM.Softens x y) :
    Softens (onWork x) (onWork y) := by
  intro s hs
  obtain ⟨heq, hpost⟩ := h s.work hs
  constructor
  · have hsame : y s.softened.work = _ := heq
    unfold onWork
    rw [hsame]
    cases x s.work <;> rfl
  · intro a s' hrun
    obtain ⟨work, hwork, rfl⟩ := onWork_run.mp hrun
    exact hpost a work hwork

/-- Finding that a type is being copied already involves no report. -/
theorem cycleSlot_softens (declared : TypeId) :
    Softens (cycleSlot declared) (cycleSlot declared) := by
  intro s hs
  unfold cycleSlot
  rw [State.softened_frames]
  cases (s.frames.find? (·.declared == declared)).bind (·.slot) with
  | some id =>
      refine ⟨rfl, fun a s' hrun => ?_⟩
      cases hrun
      exact hs
  | none =>
      refine ⟨rfl, fun a s' hrun => ?_⟩
      cases hrun
      exact hs

/-- Nor does leaving a type again. -/
theorem leave_softens : Softens leave leave := by
  intro s hs
  unfold leave
  rw [State.softened_frames]
  cases s.frames with
  | nil =>
      refine ⟨rfl, fun a s' hrun => ?_⟩
      cases hrun
      exact hs
  | cons frame frames =>
      refine ⟨rfl, fun a s' hrun => ?_⟩
      cases hrun
      exact hs

/-- Nor does writing the copy down, in its reserved id or a new one. -/
theorem place_softens (slot : Option TypeId) (node : Node) :
    WorkM.Softens (place slot node) (place slot node) := by
  cases slot with
  | none => exact WorkM.alloc_softens node
  | some id =>
      refine .read fun w _ => ?_
      rw [Workspace.softened_types]
      cases w.types.define id node with
      | ok types =>
          refine .bind (Q := fun _ => Workspace.Graded)
            (.update fun w hw => ⟨rfl, hw⟩) fun _ => ?_
          exact .pure fun _ hw => hw
      | error error =>
          refine (WorkM.tell_softens _).bind fun _ => ?_
          exact .pure fun _ hw => hw

/-- Whether a type is its own copy is a matter of the types alone. -/
theorem standsForItself_softens (id : TypeId) (kind : Kind) :
    WorkM.Softens (standsForItself id kind) (standsForItself id kind) := by
  unfold standsForItself
  split
  · exact .pure fun _ hw => hw
  · exact .pure fun _ hw => hw
  · exact (WorkM.inspect_softens _).bind fun _ => .pure fun _ hw => hw
  · exact .pure fun _ hw => hw

theorem keepsName_softens (id : TypeId) (node : Node) :
    WorkM.Softens (keepsName id node) (keepsName id node) := by
  unfold keepsName
  split
  · exact (WorkM.inspect_softens _).bind fun _ => .pure fun _ hw => hw
  · exact .pure fun _ hw => hw

/-- A type is rebuilt in both settings, if its parts are. -/
theorem rebuild_softens {descend descend' : TypeId → InstantiateM TypeId}
    (hdescend : ∀ part, Softens (descend part) (descend' part))
    (declared : TypeId) (node : Node) :
    Softens (rebuild descend declared node)
      (rebuild descend' declared node) := by
  rw [rebuild_eq, rebuild_eq]
  refine (onWork_softens (keepsName_softens _ _)).bind fun keeps => ?_
  refine .bind (Q := fun _ => State.Graded)
    (.update fun s hs => ⟨rfl, hs⟩) fun _ => ?_
  refine .bind (.mapM fun part _ => hdescend part) fun parts => ?_
  refine leave_softens.bind fun slot => ?_
  obtain ⟨member, -, -, hsettle⟩ | ⟨-, hsettle⟩ :=
    settle_cases slot (rebuiltNode node keeps parts)
  · rw [hsettle]
    exact .pure fun _ hs => hs
  · rw [hsettle]
    exact onWork_softens (place_softens _ _)

section Levels

variable (hstrict : ctx.config.lossy = false)
include hstrict

/-- One level of a copy, if the levels below, where there are any, do
the same. -/
theorem resolveStep_softens
    {descend descend' : Option (TypeId → InstantiateM TypeId)}
    (hdescend : Option.Rel
      (fun f f' => ∀ part, Softens (f part) (f' part)) descend descend')
    (declared : TypeId) :
    Softens (resolveStep ctx descend declared)
      (resolveStep ctx.lossily descend' declared) := by
  refine (onWork_softens (WorkM.node_softens _)).bind fun node => ?_
  cases node.markerKey? with
  | some key => exact .pure fun _ hs => hs
  | none =>
      refine .read fun s _ => ?_
      show Softens (if s.frames.any (·.declared == declared) then _ else _)
        (if s.frames.any (·.declared == declared) then _ else _)
      by_cases hopen : s.frames.any (·.declared == declared) = true
      · rw [if_pos hopen, if_pos hopen]
        exact (onWork_softens (WorkM.tell_softens _)).bind fun _ =>
          cycleSlot_softens declared
      · rw [if_neg hopen, if_neg hopen]
        refine (onWork_softens (standsForItself_softens _ _)).bind
          fun stands => ?_
        cases stands with
        | true => exact .pure fun _ hs => hs
        | false =>
            cases hdescend with
            | some hdescend => exact rebuild_softens hdescend _ _
            | none =>
                refine (onWork_softens
                  (WorkM.reportLimit_softens hstrict _ _)).bind fun _ => ?_
                exact .pure fun _ hs => hs

/-- A whole copy, by induction on its levels. -/
theorem resolve_softens (depth : Nat) (declared : TypeId) :
    Softens (resolve ctx depth declared)
      (resolve ctx.lossily depth declared) := by
  induction depth generalizing declared with
  | zero => exact resolveStep_softens hstrict .none _
  | succ depth ih => exact resolveStep_softens hstrict (.some ih) _

end Levels

end Instantiation

-- ============================================================ resolution

namespace Resolution

/-- The resolution with lossy settings and the log softened. -/
def softened (r : Resolution) : Resolution :=
  { r with config := r.config.lossily, journal := r.journal.softened }

/-- The settings are strict, and the log is graded. -/
def Strict (r : Resolution) : Prop :=
  r.config.lossy = false ∧ r.journal.log.Graded

/-- An action does the same with lossy settings. -/
abbrev Softens {α : Type} (x : ResolveM α) : Prop :=
  Shadows softened Strict x x fun _ => Strict

/-- An action on the workspace of a resolution, with settings that it
does not look at. -/
theorem onWork_softens {α : Type} {x : WorkM α} (h : WorkM.Softens x x) :
    Softens (onWork x) := by
  intro r hr
  obtain ⟨heq, hpost⟩ := h r.workspace hr.2
  constructor
  · have hsame : x r.softened.workspace = _ := heq
    unfold onWork
    rw [hsame]
    cases x r.workspace <;> rfl
  · intro a r' hrun
    obtain ⟨work, hwork, rfl⟩ := onWork_run.mp hrun
    exact ⟨hr.1, hpost a work hwork⟩

/-- Matching an argument: the match softens, and the environment is
kept. -/
theorem matchArgument_softens (declared actual : TypeId) (span : Span) :
    Softens (matchArgument declared actual span) := by
  intro r hr
  let ctx : Matching.Context := ⟨r.checker, r.config, span⟩
  have hstrict : ctx.config.lossy = false := hr.1
  obtain ⟨heq, hpost⟩ := Matching.matchTypes_softens hstrict
    r.config.maxDepth declared actual .covariant r.matching hr.2
  have hrun : Matching.matchTypes
      ⟨r.softened.checker, r.softened.config, span⟩
      r.softened.config.maxDepth declared actual .covariant
      r.softened.matching = _ := heq
  constructor
  · rw [matchArgument_eq, matchArgument_eq, hrun]
    cases Matching.matchTypes ctx r.config.maxDepth declared actual
      .covariant r.matching <;> rfl
  · intro u r' hrun
    obtain ⟨s, hs, rfl⟩ := matchArgument_eq_ok.mp hrun
    exact ⟨hr.1, hpost () s hs⟩

/-- Binding an argument does the same with lossy settings. -/
theorem bindArgument_softens (declared actual : TypeId) (span : Span) :
    Softens (bindArgument declared actual span) := by
  refine (onWork_softens (WorkM.inspect_softens _)).bind fun mentions => ?_
  cases mentions with
  | true => exact matchArgument_softens _ _ _
  | false => exact .pure fun _ hr => hr

theorem signature_softens (id : TypeId) : Softens (signature id) := by
  refine onWork_softens ((WorkM.node_softens id).bind fun node => ?_)
  split
  · exact .pure fun _ hw => hw
  · exact (WorkM.inspect_softens _).bind fun _ => .pure fun _ hw => hw

/-- Copying a type does. -/
theorem instantiate_softens (declared : TypeId) (span : Span) :
    Softens (instantiate declared span) := by
  intro r hr
  let ctx : Instantiation.Context := ⟨r.env, r.config, span⟩
  have hstrict : ctx.config.lossy = false := hr.1
  obtain ⟨heq, hpost⟩ := Instantiation.resolve_softens hstrict
    r.config.maxDepth declared r.instantiation hr.2
  have hrun : Instantiation.resolve
      ⟨r.softened.env, r.softened.config, span⟩
      r.softened.config.maxDepth declared r.softened.instantiation = _ :=
    heq
  constructor
  · rw [instantiate_eq, instantiate_eq, hrun]
    cases Instantiation.resolve ctx r.config.maxDepth declared
      r.instantiation <;> rfl
  · intro id r' hrun
    obtain ⟨s, hs, rfl⟩ := instantiate_eq_ok.mp hrun
    exact ⟨hr.1, hpost id s hs⟩

/-- Binding the arguments of a call does, one by one. -/
theorem bindCall_softens (id : TypeId) (args : List TypeId) (span : Span) :
    Softens (bindCall id args span) := by
  rw [bindCall_eq]
  refine (signature_softens id).bind fun found => ?_
  cases found with
  | error error => exact .pure fun _ hr => hr
  | ok signature =>
      refine .bind (.forM fun pair _ => bindArgument_softens _ _ _)
        fun _ => ?_
      by_cases hignored : 0 < signature.ignoredCount args
      · simp only [if_pos hignored]
        exact (onWork_softens (WorkM.tell_softens _)).bind fun _ =>
          .pure fun _ hr => hr
      · simp only [if_neg hignored]
        exact .pure fun _ hr => hr

/-- So does copying a signature. -/
theorem instantiateSignature_softens (id : TypeId) :
    Softens (instantiateSignature id) := by
  refine (signature_softens id).bind fun found => ?_
  cases found with
  | error error => exact .pure fun _ hr => hr
  | ok signature =>
      exact (instantiate_softens id .null).bind fun _ => .pure fun _ hr => hr

/-- So does every call on a resolution. -/
theorem Call.ask_softens (call : Call) : Softens call.ask := by
  cases call with
  | bindArgument declared actual span =>
      exact (bindArgument_softens _ _ _).bind fun _ => .pure fun _ hr => hr
  | bindCall id args span =>
      exact (bindCall_softens _ _ _).bind fun _ => .pure fun _ hr => hr
  | instantiate declared span =>
      exact (instantiate_softens _ _).bind fun _ => .pure fun _ hr => hr
  | instantiateSignature id =>
      exact (instantiateSignature_softens _).bind fun _ =>
        .pure fun _ hr => hr

/-- A strict resolution and the lossy one after the same calls: the
bindings, the types and what was told are the same, and so are the
diagnostics but for errors, of which the lossy one has none. -/
structure Eases (strict lossy : Resolution) : Prop where
  checker : lossy.checker = strict.checker
  maxDepth : lossy.config.maxDepth = strict.config.maxDepth
  types : lossy.types = strict.types
  env : lossy.env = strict.env
  events : lossy.journal.events = strict.journal.events
  listening : lossy.journal.listening = strict.journal.listening
  diagnostics : List.Forall₂ Diagnostic.Eases strict.diagnostics
    lossy.diagnostics
  errorFree : lossy.hasErrors = false

/-- A resolution and its softened form are related field by field. -/
theorem eases_softened (r : Resolution) : r.Eases r.softened where
  checker := rfl
  maxDepth := rfl
  types := rfl
  env := rfl
  events := rfl
  listening := rfl
  diagnostics := r.journal.log.eases_softened
  errorFree := r.journal.log.hasErrors_softened

/-- Lossy settings change severities and nothing else. Whatever calls are
made, with lossy settings they give back what they give back with strict
ones, or end in the same fault, and leave behind the same bindings, types
and events, and as many diagnostics. Each of these has the same message,
span, suggestions and code, and is a warning where the strict one is an
error. With lossy settings there are never errors, and with strict ones
there are some exactly if a parameter could not be inferred or types did
not agree; and the two resolutions finish alike. -/
theorem lossy_softens (checker : Checker) (maxDepth : Nat) (store : Store)
    (listening : Bool) (calls : List Call) :
    (∀ replies r,
      calls.mapM Call.ask (begin checker ⟨maxDepth, false⟩ store listening)
        = .ok replies r →
      ∃ r', calls.mapM Call.ask
          (begin checker ⟨maxDepth, true⟩ store listening)
          = .ok replies r' ∧ r.Eases r' ∧
        (r.hasErrors = true ↔ ∃ d ∈ r.diagnostics,
          d.code = some "E-TP001" ∨ d.code = some "E-TP002") ∧
        r'.finish.env = r.finish.env ∧
        r'.finish.detached = r.finish.detached ∧
        List.Forall₂ Diagnostic.Eases r.finish.diagnostics
          r'.finish.diagnostics ∧
        r'.finish.hasErrors = false ∧
        r.finish.hasErrors = r.hasErrors) ∧
    ∀ fault r,
      calls.mapM Call.ask (begin checker ⟨maxDepth, false⟩ store listening)
        = .error fault r →
      ∃ r', calls.mapM Call.ask
          (begin checker ⟨maxDepth, true⟩ store listening)
          = .error fault r' ∧ r.Eases r' := by
  have hstart :
      (begin checker ⟨maxDepth, false⟩ store listening).Strict := by
    refine ⟨rfl, ?_⟩
    intro d hd
    cases hd
  obtain ⟨heq, hpost⟩ :=
    Shadows.mapM (fun call _ => Call.ask_softens call) _ hstart
  -- to begin with nothing is in the log that could be softened
  have hlossy : calls.mapM Call.ask
      (begin checker ⟨maxDepth, true⟩ store listening) = _ := heq
  constructor
  · intro replies r hrun
    have heases := r.eases_softened
    refine ⟨r.softened, ?_, heases, (hpost replies r hrun).2.hasErrors_iff,
      heases.env, congrArg Layer.detach heases.types, heases.diagnostics,
      heases.errorFree, rfl⟩
    rw [hlossy, hrun]
    rfl
  · intro fault r hrun
    refine ⟨r.softened, ?_, r.eases_softened⟩
    rw [hlossy, hrun]
    rfl

/-- Two parameters (21, 22), an array of arrays of the first (24), and
one of integers (26). -/
def twoParameters : Store where
  graph := ⟨Graph.builtin.nodes ++ #[
    .marker "T" ⟨1⟩ (.leaf .anydata),
    .marker "U" ⟨1⟩ (.leaf .anydata),
    .anonymous (.array ⟨21⟩),
    .anonymous (.array ⟨23⟩),
    .anonymous (.array .int),
    .anonymous (.array ⟨25⟩)]⟩

/-- A parameter that meets two types, one that meets none, and a type
below the last level. -/
def troubledCalls : List Call :=
  [.bindArgument ⟨21⟩ .int .null, .bindArgument ⟨21⟩ .string .null,
   .bindArgument ⟨22⟩ .noType .null, .bindArgument ⟨24⟩ ⟨26⟩ .null,
   .instantiate ⟨23⟩ .null]

/-- Two errors and a warning become three warnings. -/
theorem troubled_softens :
    ∃ replies r r',
      troubledCalls.mapM Call.ask
        (begin .structural ⟨1, false⟩ twoParameters true) = .ok replies r ∧
      r.diagnostics.map (fun d => (d.code, d.severity))
        = [(some "E-TP002", .error), (some "E-TP001", .error),
           (some "W-TP003", .warning)] ∧
      troubledCalls.mapM Call.ask
        (begin .structural ⟨1, true⟩ twoParameters true) = .ok replies r' ∧
      r'.diagnostics.map (fun d => (d.code, d.severity))
        = [(some "E-TP002", .warning), (some "E-TP001", .warning),
           (some "W-TP003", .warning)] ∧
      r.Eases r' ∧ r.hasErrors = true ∧ r'.hasErrors = false := by
  obtain ⟨hsame, -⟩ :=
    lossy_softens .structural 1 twoParameters true troubledCalls
  have hstrict : endsWith (fun _ r => decide
      (r.diagnostics.map (fun d => (d.code, d.severity))
        = [(some "E-TP002", .error), (some "E-TP001", .error),
           (some "W-TP003", .warning)] ∧ r.hasErrors = true))
      (troubledCalls.mapM Call.ask
        (begin .structural ⟨1, false⟩ twoParameters true)) = true := by
    decide +kernel
  have hlossy : endsWith (fun _ r => decide
      (r.diagnostics.map (fun d => (d.code, d.severity))
        = [(some "E-TP002", .warning), (some "E-TP001", .warning),
           (some "W-TP003", .warning)]))
      (troubledCalls.mapM Call.ask
        (begin .structural ⟨1, true⟩ twoParameters true)) = true := by
    decide +kernel
  obtain ⟨replies, r, hrun, hdecided⟩ := of_endsWith hstrict
  obtain ⟨hcodes, herrors⟩ := of_decide_eq_true hdecided
  obtain ⟨r', hrun', heases, -⟩ := hsame replies r hrun
  rw [hrun'] at hlossy
  exact ⟨replies, r, r', hrun, hcodes, hrun', of_decide_eq_true hlossy,
    heases, herrors, heases.errorFree⟩

end Resolution

end TypeParams
