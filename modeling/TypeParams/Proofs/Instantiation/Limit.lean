/-
The limit on the depth of an instantiation.

# Retracing

An instantiation with more levels does the same as one with fewer,
unless the one with fewer met its last level (`resolve_retraces`).
`Retraced` states this for one action: if the shorter one comes out
without the report that a type is too deep, the longer one comes out the
same, and where there is that report nothing is said of the other.
Nothing else that an instantiation does could be reported, and
`Workspace.Tallies` counts that this is reported once at most.

# How many levels are enough

It meets its last level only if it would have to be inside of more types
than it has levels. The types that it is inside of have parts, are
different, and are among what the declared type is made of; so levels
for all of these are enough. In the statement this is the proposition
`roomy`, under which the last level is not met. It need not hold, so one
induction shows both that more levels make no difference and that enough
of them are never used up.
-/
import TypeParams.Proofs.Instantiation.Nesting
import TypeParams.Proofs.Limit

namespace TypeParams.Instantiation

variable {ctx ctx' : Context} {g : Graph} {declared id : TypeId}
variable {node : Node} {s : State} {roomy : Prop}

/-- An instantiation reports nothing but that a type is too deep. -/
abbrev Retraced (roomy : Prop) (x y : InstantiateM TypeId) (s : State) :
    Prop :=
  Retraces State.work (· = .tooDeep) roomy x y s

section Steps

variable {sorts : ProblemKind → Prop} {s' : State} {y : TypeId}

/-- Placing a rebuilt type reports nothing. -/
theorem place_tallies {slot : Option TypeId} {w w' : Workspace}
    (h : place slot node w = .ok y w') : w.Tallies sorts roomy w' := by
  cases slot with
  | none =>
      obtain ⟨-, rfl⟩ := WorkM.alloc_run.mp h
      exact .of_eq rfl rfl
  | some j =>
      obtain ⟨w₁, w₂, hget, h⟩ := bind_run.mp h
      obtain ⟨rfl, rfl⟩ := get_run.mp hget
      cases hdefine : w.types.define j node with
      | ok types =>
          rw [hdefine] at h
          cases h
          exact .of_eq rfl rfl
      | error error =>
          rw [hdefine] at h
          obtain ⟨_, w₁, htell, h⟩ := bind_run.mp h
          obtain ⟨-, rfl⟩ := pure_run.mp h
          exact WorkM.tell_tallies htell

/-- Nor does ending its frame and placing it. -/
theorem settle_tallies {slot : Option TypeId}
    (h : settle slot node s = .ok y s') :
    s.work.Tallies sorts roomy s'.work := by
  rcases settle_cases slot node with
    ⟨member, -, -, hsettle⟩ | ⟨-, hsettle⟩
  · rw [hsettle] at h
    obtain ⟨-, rfl⟩ := pure_run.mp h
    exact .refl _
  · rw [hsettle] at h
    obtain ⟨work, hplace, rfl⟩ := onWork_run.mp h
    exact place_tallies hplace

/-- Nor does ending a frame. -/
theorem leave_tallies {slot : Option TypeId}
    (h : leave s = .ok slot s') : s.work.Tallies sorts roomy s'.work := by
  unfold leave at h
  split at h
  · cases h
    exact .refl _
  · cases h
    exact .refl _

/-- Nor does giving an id to a frame. -/
theorem cycleSlot_tallies (h : cycleSlot id s = .ok y s') :
    s.work.Tallies sorts roomy s'.work := by
  unfold cycleSlot at h
  split at h
  · cases h
    exact .refl _
  · cases h
    exact .of_eq rfl rfl

end Steps

-- ============================================================ one level

/-- Rebuilding a type, if resolving its parts is retraced. -/
theorem rebuild_retraces {f f' : TypeId → InstantiateM TypeId}
    {I : State → Prop}
    (hparts : ∀ part ∈ node.kind.children, ∀ s, I s →
      Retraced roomy (f part) (f' part) s)
    (hI : ∀ part ∈ node.kind.children, ∀ s y s', I s →
      f part s = .ok y s' → I s')
    (hs : I { s with frames := { declared := id } :: s.frames }) :
    Retraced roomy (rebuild f id node) (rebuild f' id node) s := by
  rw [rebuild_eq, rebuild_eq]
  apply Retraces.look (P := fun _ => True)
  · intro keeps s' hname
    obtain ⟨work, hscan, rfl⟩ := onWork_run.mp hname
    obtain ⟨rfl, -⟩ := keepsName_run hscan
    exact ⟨rfl, trivial⟩
  intro keeps _
  apply Retraces.bind
  · apply Retraces.of_eq rfl
    intro u s' henter
    cases modify_run.mp henter
    exact .refl _
  intro u s₁ henter
  cases modify_run.mp henter
  apply (Retraces.mapM hparts hI hs).bind
  intro parts s₂ _
  apply (Retraces.of_eq rfl fun slot s' => leave_tallies).bind
  intro slot s₃ _
  exact .of_eq rfl fun y s' => settle_tallies

/-- One level, if the levels below it are retraced, and if it is not the
last one where there is room. -/
theorem resolveStep_retraces (henv : ctx'.env = ctx.env)
    {descend descend' : Option (TypeId → InstantiateM TypeId)}
    (hlast : ∀ node, s.graph.node? id = some node →
      (∀ f ∈ s.frames, f.declared ≠ id) →
      ¬ StandsForItself s.graph id node → descend = none → ¬ roomy)
    (hdown : ∀ node, s.graph.node? id = some node →
      (∀ f ∈ s.frames, f.declared ≠ id) →
      ¬ StandsForItself s.graph id node →
      ∀ f ∈ descend, ∃ f' ∈ descend',
        Retraced roomy (rebuild f id node) (rebuild f' id node) s) :
    Retraced roomy (resolveStep ctx descend id)
      (resolveStep ctx' descend' id) s := by
  unfold resolveStep
  rw [henv]
  apply Retraces.look (P := fun node => s.graph.node? id = some node)
  · intro node s' hrun
    obtain ⟨work, hnode, rfl⟩ := onWork_run.mp hrun
    obtain ⟨hn, rfl⟩ := WorkM.node_run.mp hnode
    exact ⟨rfl, hn⟩
  intro node hn
  cases node.markerKey? with
  | some key => exact .pure _
  | none =>
      apply Retraces.look (P := (s = ·))
      · intro s₁ s₂ hget
        obtain ⟨rfl, rfl⟩ := get_run.mp hget
        exact ⟨rfl, rfl⟩
      intro s₁ heq
      subst heq
      by_cases hopen : s.frames.any (·.declared == id) = true
      · simp only [if_pos hopen]
        apply Retraces.bind
        · apply Retraces.of_eq rfl
          intro u s₁ htell
          obtain ⟨work, htell', rfl⟩ := onWork_run.mp htell
          exact WorkM.tell_tallies htell'
        intro u s₁ _
        exact .of_eq rfl fun y s₂ => cycleSlot_tallies
      · simp only [if_neg hopen]
        have hfresh : ∀ f ∈ s.frames, f.declared ≠ id := by
          simpa using hopen
        apply Retraces.look (P := fun itself =>
          itself = true ↔ StandsForItself s.graph id node)
        · intro itself s₁ hrun
          obtain ⟨work, htest, rfl⟩ := onWork_run.mp hrun
          obtain ⟨rfl, hself⟩ := standsForItself_run htest
          exact ⟨rfl, hself⟩
        intro itself hself
        cases itself with
        | true => exact .pure _
        | false =>
            have hself : ¬ StandsForItself s.graph id node :=
              fun hs => Bool.false_ne_true (hself.mpr hs)
            cases descend with
            | none =>
                -- the last level of the shorter walk: nothing is said of
                -- the other
                apply Retraces.of_limit
                intro y s₂ hrun
                obtain ⟨u, s₃, hlimit, hrun⟩ := bind_run.mp hrun
                obtain ⟨-, rfl⟩ := pure_run.mp hrun
                obtain ⟨work, hlimit', rfl⟩ := onWork_run.mp hlimit
                exact WorkM.reportLimit_tallies (by simp [Event.level])
                  hlimit' rfl (hlast node hn hfresh hself rfl)
            | some f =>
                obtain ⟨f', hf', hrebuild⟩ :=
                  hdown node hn hfresh hself f rfl
                cases hf'
                exact hrebuild

-- =========================================================== all levels

/-- An instantiation with fewer levels is retraced by one with more, and
does not meet its last level if that leaves room for all that it can be
inside of. -/
theorem resolve_retraces (hg : g.Closed)
    (hdeclared : declared.index < g.size) (henv : ctx'.env = ctx.env)
    {depth depth' : Nat} (hle : depth ≤ depth')
    (hinside : roomy → s.Room g declared (depth + 1) ∧
      g.Reaches declared id) :
    Retraced roomy (resolve ctx depth id) (resolve ctx' depth' id) s := by
  induction depth generalizing depth' id s with
  | zero =>
      obtain ⟨descend', hform⟩ : ∃ descend', resolve ctx' depth' id
          = resolveStep ctx' descend' id := by
        cases depth' <;> exact ⟨_, rfl⟩
      rw [hform]
      refine resolveStep_retraces henv ?_ (fun _ _ _ _ f hf => nomatch hf)
      intro node hn hopen hself _ hroomy
      -- the frames with this one would be more than there can be
      obtain ⟨hroom, hreach⟩ := hinside hroomy
      have hfull := hroom.enter hg hdeclared hreach hopen hn hself
      have hle := hfull.length_le
      have hmany := hfull.room
      omega
  | succ depth ih =>
      obtain ⟨depth', rfl⟩ : ∃ d, depth' = d + 1 :=
        ⟨depth' - 1, by omega⟩
      refine resolveStep_retraces henv (fun _ _ _ _ h => nomatch h) ?_
      intro node hn hopen hself f hf
      cases hf
      refine ⟨_, rfl, ?_⟩
      refine rebuild_retraces
        (I := fun s => roomy → s.Room g declared (depth + 1)) ?_ ?_ ?_
      · intro part hpart s₁ hs₁
        refine ih (by omega) fun hroomy => ⟨hs₁ hroomy, ?_⟩
        obtain ⟨hroom, hreach⟩ := hinside hroomy
        rw [hroom.graph.node?_eq (hg.reaches hdeclared hreach)] at hn
        exact hreach.step ⟨node, hn, hpart⟩
      · intro part _ s₁ y s₂ hs₁ hrun hroomy
        exact (hs₁ hroomy).grow
          (Resolves.grows ⟨depth, hrun⟩ (hs₁ hroomy).tidy)
      · intro hroomy
        obtain ⟨hroom, hreach⟩ := hinside hroomy
        exact hroom.enter hg hdeclared hreach hopen hn hself

end TypeParams.Instantiation
