/-
The types that a match follows, on record.

A match looks up in its state whether a declared type was followed
before. To say how often it follows one, a record is kept beside the
state, to which a type is added each time, and which nothing looks at.
The match is not affected, and the types that its state has as visited
turn out to be the record, from the first to the last
(`matchRecorded_eq`). So no type is left out of the state or taken out
of it again, and none is followed twice.

# Two programs, one result

`matchRecorded` is the match with one more component in its state. It is
defined again, level by level, because what is to be said is when a type
is followed and not what the state says about it; the state's list of
visited types could be dropped or cut and the record would not be.
`Records` relates the two: started with the visited types for a record,
they end so, with the same result. It is an instance of `Shadows`, so it
goes together along the steps of an action.

# What a level adds

Only one step of a level follows a type. All the others (binding a
marker, reporting, making the actual type of a pairing) are run without
looking at the record (`unrecorded`), and leave the visited types alone
(`FollowsNone`).
-/
import TypeParams.Proofs.Commuting
import TypeParams.Proofs.Matching.Levels

namespace TypeParams.Matching

variable {α β : Type} {ctx : Context}

/-- Actions of a match with a record, latest first. -/
abbrev RecordM := EStateM Fault (State × List TypeId)

/-- An action of a match that follows no type. -/
def unrecorded (x : MatchM α) : RecordM α := fun t =>
  match x t.1 with
  | .ok a s => .ok a (s, t.2)
  | .error fault s => .error fault (s, t.2)

/-- Following a plan, with a record. -/
def followRecorded (descend : TypeId → TypeId → Variance → RecordM Unit)
    (expected actual : TypeId) : Plan → RecordM Unit
  | .pairs pairings =>
      pairings.forM fun pairing => do
        if let some actual ← unrecorded (onWork pairing.source.resolve) then
          descend pairing.expected actual pairing.variance
  | .generalUnions =>
      unrecorded (onWork (.tell fun _ => .ok .unionsSkipped))
  | .unpaired =>
      unrecorded (onWork (.tell fun g =>
        return .unpaired (← g.render expected) (← g.render actual)))

/-- One level of a match, with a record. -/
def recordedStep (ctx : Context)
    (descend : Option (TypeId → TypeId → Variance → RecordM Unit))
    (expected actual : TypeId) (variance : Variance) : RecordM Unit := do
  if expected ∈ (← get).1.visited then
    unrecorded (onWork (.tell fun _ => .ok (.alreadyMatched expected)))
  else
    let node ← unrecorded (onWork (.node expected))
    match node.markerKey? with
    | some key =>
        unrecorded (bindMarker ctx expected key actual variance)
    | none =>
        if actual = .noType then unrecorded (reportUnbound ctx expected)
        else if node.kind.isLeaf then return
        else
          match descend with
          | none =>
              unrecorded (onWork (.reportLimit ctx.config ctx.span
                .matchingStopped expected))
          | some descend =>
              modify fun (s, record) =>
                ({ s with visited := expected :: s.visited },
                 expected :: record)
              let plan ← unrecorded (onWork (.inspect fun g => do
                plan g ctx.checker ctx.config.maxDepth variance expected
                  node.kind actual (← g.kind actual)))
              followRecorded descend expected actual plan

/-- Matching, with a record of the declared types that are followed. -/
def matchRecorded (ctx : Context) :
    Nat → TypeId → TypeId → Variance → RecordM Unit
  | 0 => recordedStep ctx none
  | depth + 1 => recordedStep ctx (some (matchRecorded ctx depth))

-- ============================================================ no record

/-- Leaving the record alone is leaving it alone at each step. -/
theorem unrecorded_bind (x : MatchM α) (f : α → MatchM β) :
    unrecorded (x >>= f) = unrecorded x >>= fun a => unrecorded (f a) := by
  funext t
  show (match EStateM.bind x f t.1 with | .ok _ _ => _ | .error _ _ => _)
    = EStateM.bind (unrecorded x) (fun a => unrecorded (f a)) t
  unfold EStateM.bind unrecorded
  cases x t.1 <;> rfl

/-- So it is along a list. -/
theorem unrecorded_forM {f : α → MatchM PUnit} (as : List α) :
    unrecorded (as.forM f) = as.forM fun a => unrecorded (f a) := by
  induction as with
  | nil => rfl
  | cons a as ih =>
      show unrecorded (f a >>= fun _ => as.forM f) = _
      rw [unrecorded_bind, ih]
      rfl

/-- The state with the visited types for a record. -/
def onRecord (t : State × List TypeId) : State × List TypeId :=
  (t.1, t.1.visited)

/-- Where the visited types are the record, they are so after the second
action, and it does to the state what the first does. -/
abbrev Records (x : MatchM α) (y : RecordM α) : Prop :=
  Shadows onRecord (fun _ => True) (unrecorded x) y fun _ _ => True

namespace Records

theorem pure (a : α) : Records (Pure.pure a) (Pure.pure a) :=
  fun _ _ => ⟨rfl, fun _ _ _ => trivial⟩

/-- The record is kept from one action to the next. -/
theorem bind {x : MatchM α} {y : RecordM α} {f : α → MatchM β}
    {g : α → RecordM β} (hx : Records x y)
    (hf : ∀ a, Records (f a) (g a)) : Records (x >>= f) (y >>= g) := by
  unfold Records
  rw [unrecorded_bind]
  exact Shadows.bind hx hf

/-- What is read off the state is read off the state beside the record. -/
theorem read {f : State → MatchM β} {g : State × List TypeId → RecordM β}
    (h : ∀ t, Records (f t.1) (g (onRecord t))) :
    Records (get >>= f) (get >>= g) :=
  fun t _ => h t t trivial

/-- The record is kept along a list. -/
theorem forM {f : α → MatchM PUnit} {g : α → RecordM PUnit} {as : List α}
    (h : ∀ a ∈ as, Records (f a) (g a)) :
    Records (as.forM f) (as.forM g) := by
  unfold Records
  rw [unrecorded_forM]
  exact Shadows.forM h

end Records

/-- The action follows no type, and leaves the visited ones alone. -/
abbrev FollowsNone (x : MatchM α) : Prop := Records x (unrecorded x)

namespace FollowsNone

/-- An action on the workspace follows no type. -/
theorem onWork (x : WorkM α) : FollowsNone (Matching.onWork x) := by
  intro t _
  refine ⟨?_, fun _ _ _ => trivial⟩
  show unrecorded (Matching.onWork x) (t.1, t.1.visited)
    = mapState onRecord (unrecorded (Matching.onWork x) t)
  unfold unrecorded Matching.onWork
  cases x t.1.work <;> rfl

/-- Nor does a change to the rest of the state. -/
theorem update {f : State → State}
    (h : ∀ s, (f s).visited = s.visited) :
    FollowsNone (modify f : MatchM PUnit) := by
  intro t _
  refine ⟨?_, fun _ _ _ => trivial⟩
  show EStateM.Result.ok PUnit.unit (f t.1, t.1.visited)
    = .ok PUnit.unit (f t.1, (f t.1).visited)
  rw [h]

/-- Two actions that follow no type, one after the other. -/
theorem bind {x : MatchM α} {f : α → MatchM β} (hx : FollowsNone x)
    (hf : ∀ a, FollowsNone (f a)) : FollowsNone (x >>= f) := by
  have h := Records.bind hx hf
  rw [← unrecorded_bind] at h
  exact h

theorem read {f : State → MatchM β} (h : ∀ s, FollowsNone (f s)) :
    FollowsNone (get >>= f) :=
  fun t _ => h t.1 t trivial

theorem forM {f : α → MatchM PUnit} {as : List α}
    (h : ∀ a ∈ as, FollowsNone (f a)) : FollowsNone (as.forM f) := by
  have h := Records.forM h
  rw [← unrecorded_forM] at h
  exact h

end FollowsNone

-- ================================================================ levels

/-- Binding a marker follows no type. -/
theorem bindMarker_followsNone (marker : TypeId) (key : MarkerKey)
    (actual : TypeId) (variance : Variance) :
    FollowsNone (bindMarker ctx marker key actual variance) := by
  refine .read fun s => ?_
  cases s.env.lookup? key with
  | none =>
      by_cases hactual : actual = .noType
      · simp only [if_pos hactual]
        exact .onWork _
      · simp only [if_neg hactual]
        exact .bind (.onWork _) fun _ => .update fun _ => rfl
  | some bound =>
      by_cases hactual : actual ≠ .noType
      · simp only [if_pos hactual]
        refine .bind (.onWork _) fun compatible => ?_
        cases compatible with
        | true => exact .pure _
        | false => exact .bind (.onWork _) fun _ => .onWork _
      · simp only [if_neg hactual]
        exact .pure _

/-- Nor does reporting the markers that meet none. -/
theorem reportUnbound_followsNone (expected : TypeId) :
    FollowsNone (reportUnbound ctx expected) := by
  rw [reportUnbound_eq]
  refine .bind (.onWork _) fun keyed => .read fun s => ?_
  exact .forM fun marker _ => .onWork _

/-- Following a plan keeps the record, if the levels below do. -/
theorem followPlan_records
    {descend : TypeId → TypeId → Variance → MatchM Unit}
    {descend' : TypeId → TypeId → Variance → RecordM Unit}
    (hdescend : ∀ e a v, Records (descend e a v) (descend' e a v))
    (expected actual : TypeId) (plan : Plan) :
    Records (followPlan descend expected actual plan)
      (followRecorded descend' expected actual plan) := by
  cases plan with
  | generalUnions => exact FollowsNone.onWork _
  | unpaired => exact FollowsNone.onWork _
  | pairs pairings =>
      refine Records.forM fun pairing _ => ?_
      refine Records.bind (FollowsNone.onWork _) fun made => ?_
      cases made with
      | none => exact .pure _
      | some actual => exact hdescend _ _ _

/-- One level keeps its record, if the levels below do. -/
theorem matchStep_records
    {descend : Option (TypeId → TypeId → Variance → MatchM Unit)}
    {descend' : Option (TypeId → TypeId → Variance → RecordM Unit)}
    (hdescend : Option.Rel
      (fun f f' => ∀ e a v, Records (f e a v) (f' e a v)) descend descend')
    (expected actual : TypeId) (variance : Variance) :
    Records (matchStep ctx descend expected actual variance)
      (recordedStep ctx descend' expected actual variance) := by
  refine Records.read fun t => ?_
  show Records (if expected ∈ t.1.visited then _ else _)
    (if expected ∈ t.1.visited then _ else _)
  by_cases hvisited : expected ∈ t.1.visited
  · rw [if_pos hvisited, if_pos hvisited]
    exact FollowsNone.onWork _
  · rw [if_neg hvisited, if_neg hvisited]
    refine Records.bind (FollowsNone.onWork _) fun node => ?_
    cases node.markerKey? with
    | some key => exact bindMarker_followsNone _ _ _ _
    | none =>
        by_cases hactual : actual = .noType
        · simp only [if_pos hactual]
          exact reportUnbound_followsNone _
        · simp only [if_neg hactual]
          by_cases hleaf : node.kind.isLeaf = true
          · simp only [if_pos hleaf]
            exact .pure _
          · simp only [if_neg hleaf]
            cases hdescend with
            | none => exact FollowsNone.onWork _
            | some hdescend =>
                refine Records.bind ?_ fun _ => ?_
                · exact fun t _ => ⟨rfl, fun _ _ _ => trivial⟩
                refine Records.bind (FollowsNone.onWork _) fun plan => ?_
                exact followPlan_records hdescend _ _ plan

/-- A whole match keeps its record, by induction on its levels. -/
theorem matchTypes_records (depth : Nat) (expected actual : TypeId)
    (variance : Variance) :
    Records (matchTypes ctx depth expected actual variance)
      (matchRecorded ctx depth expected actual variance) := by
  induction depth generalizing expected actual variance with
  | zero => exact matchStep_records .none _ _ _
  | succ depth ih => exact matchStep_records (.some ih) _ _ _

/-- A match that begins with nothing followed ends with its record for
the visited types. -/
theorem matchRecorded_eq {depth : Nat} {expected actual : TypeId}
    {variance : Variance} {s s' : State} (hs : s.visited = [])
    (h : matchTypes ctx depth expected actual variance s = .ok () s') :
    matchRecorded ctx depth expected actual variance (s, [])
      = .ok () (s', s'.visited) := by
  have hrecords : Records (matchTypes ctx depth expected actual variance)
      (matchRecorded ctx depth expected actual variance) :=
    matchTypes_records depth expected actual variance
  obtain ⟨hboth, -⟩ := hrecords (s, []) trivial
  unfold unrecorded onRecord at hboth
  simp only [hs, h] at hboth
  exact hboth

end TypeParams.Matching
