/-
`Graph.isData` decides `Graph.Data`.

The relation says that everything a type has to be made of is of a form
that data has. The procedure keeps the ids it is inside of and passes
those it meets again; the relation knows no such thing.

# The cut

That passing them is right comes from a cut (`isDataWithin_cut`): a type
found to be data inside another is data outside of it, if that other one
is data itself. So what the procedure accepts is closed under the parts
it looks at (`isData_of_dataReaches`), and everything that is reached
from an accepted type is accepted. The other direction is plain: where
everything below is of a form that data has, nothing is refused, inside
whatever types it stands.

Unlike the search for assignability the procedure remembers nothing from
one part to the next, so no more has to be said of what it has found
before.
-/
import TypeParams.Proofs.Fallible
import TypeParams.Proofs.Graph
import TypeParams.Subtype.Relation

namespace TypeParams

/-- What has to be data for a type to be is among its parts. -/
theorem Kind.mem_children_of_mem_dataParts {kind : Kind}
    {parts : List TypeId} (h : kind.dataParts? = some parts) {p : TypeId}
    (hp : p ∈ parts) : p ∈ kind.children := by
  cases kind with
  | leaf form =>
      simp only [dataParts?] at h
      split at h
      · cases h
        cases hp
      · cases h
  | table shape =>
      simp only [dataParts?, Option.some.injEq] at h
      subst h
      exact List.mem_append_left _ hp
  | xml constraint =>
      cases h
      cases hp
  | array | tuple | map | record | union =>
      cases h
      exact hp
  | error | stream | function | object | typedesc => cases h

namespace Graph

variable {g : Graph}

-- ========================================================= one level

/-- A type that is met inside itself is passed. -/
theorem isDataWithin_of_mem {path : List TypeId} {id : TypeId}
    (h : id ∈ path) : g.isDataWithin path id = .ok true := by
  rw [isDataWithin, dif_pos h]

/-- Outside of the path the parts decide. -/
theorem isDataWithin_of_notMem {path : List TypeId} {id : TypeId}
    {node : Node} (h : id ∉ path) (hn : g.node? id = some node) :
    g.isDataWithin path id =
      match node.kind.dataParts? with
      | none => .ok false
      | some parts => parts.allM fun p => g.isDataWithin (id :: path) p := by
  rw [isDataWithin, dif_neg h]
  split
  next hn' =>
    rw [hn] at hn'
    cases hn'
  next node' hn' =>
    rw [hn] at hn'
    cases hn'
    rfl

/-- What it takes for a type outside of the path to be accepted. -/
theorem isDataWithin_eq_true_iff {path : List TypeId} {id : TypeId}
    (h : id ∉ path) :
    g.isDataWithin path id = .ok true ↔
      ∃ node parts, g.node? id = some node ∧
        node.kind.dataParts? = some parts ∧
        ∀ p ∈ parts, g.isDataWithin (id :: path) p = .ok true := by
  cases hn : g.node? id with
  | none =>
      rw [isDataWithin, dif_neg h]
      split
      · simp
      next node hn' =>
        rw [hn] at hn'
        cases hn'
  | some node =>
      rw [isDataWithin_of_notMem h hn]
      cases hp : node.kind.dataParts? with
      | none => simp [hp]
      | some parts => simp [allM_eq_ok_true, hp]

-- ============================================================ the cut

/-- The more types it stands inside of, the sooner a type is
accepted. -/
theorem isDataWithin_mono {path path' : List TypeId} {id : TypeId}
    (hsub : path ⊆ path') (h : g.isDataWithin path id = .ok true) :
    g.isDataWithin path' id = .ok true := by
  induction path', id using isDataWithin.induct g generalizing path with
  | case1 path' id hmem => exact isDataWithin_of_mem hmem
  | case2 path' id hmem hn =>
      obtain ⟨node, _, hn', _⟩ :=
        (isDataWithin_eq_true_iff fun hid => hmem (hsub hid)).mp h
      rw [hn] at hn'
      cases hn'
  | case3 path' id hmem node hn hparts =>
      obtain ⟨node', _, hn', hparts', _⟩ :=
        (isDataWithin_eq_true_iff fun hid => hmem (hsub hid)).mp h
      rw [hn] at hn'
      cases hn'
      rw [hparts] at hparts'
      cases hparts'
  | case4 path' id hmem node hn parts hparts ih =>
      obtain ⟨node', parts', hn', hparts', hall⟩ :=
        (isDataWithin_eq_true_iff fun hid => hmem (hsub hid)).mp h
      refine (isDataWithin_eq_true_iff hmem).mpr
        ⟨node', parts', hn', hparts', fun p hp => ?_⟩
      exact ih p (List.cons_subset_cons id hsub) (hall p hp)

/-- A type that is data inside another is data outside of it, if the
other is. -/
theorem isDataWithin_cut {path : List TypeId} {a id : TypeId}
    (ha : g.isDataWithin path a = .ok true)
    (h : g.isDataWithin (a :: path) id = .ok true) :
    g.isDataWithin path id = .ok true := by
  induction path, id using isDataWithin.induct g generalizing a with
  | case1 path id hmem => exact isDataWithin_of_mem hmem
  | case2 path id hmem hn =>
      by_cases hid : id = a
      · exact hid ▸ ha
      · obtain ⟨node, _, hn', _⟩ :=
          (isDataWithin_eq_true_iff (by simp [hid, hmem])).mp h
        rw [hn] at hn'
        cases hn'
  | case3 path id hmem node hn hparts =>
      by_cases hid : id = a
      · exact hid ▸ ha
      · obtain ⟨node', _, hn', hparts', _⟩ :=
          (isDataWithin_eq_true_iff (by simp [hid, hmem])).mp h
        rw [hn] at hn'
        cases hn'
        rw [hparts] at hparts'
        cases hparts'
  | case4 path id hmem node hn parts hparts ih =>
      by_cases hid : id = a
      · exact hid ▸ ha
      · obtain ⟨node', parts', hn', hparts', hall⟩ :=
          (isDataWithin_eq_true_iff (by simp [hid, hmem])).mp h
        refine (isDataWithin_eq_true_iff hmem).mpr
          ⟨node', parts', hn', hparts', fun p hp => ?_⟩
        -- both premises one level down, with the two ids swapped
        have ha' : g.isDataWithin (id :: path) a = .ok true :=
          isDataWithin_mono (List.subset_cons_self id path) ha
        have hp' : g.isDataWithin (a :: id :: path) p = .ok true := by
          refine isDataWithin_mono ?_ (hall p hp)
          intro x hx
          simp only [List.mem_cons] at hx ⊢
          tauto
        exact ih p ha' hp'

-- ====================================================== the decision

/-- Everything that an accepted type has to be made of is accepted. -/
theorem isData_of_dataReaches {a b : TypeId}
    (ha : g.isData a = .ok true) (h : g.DataReaches a b) :
    g.isData b = .ok true := by
  induction h with
  | refl => exact ha
  | @step b c node parts _ hn hparts hc ih =>
      obtain ⟨node', parts', hn', hparts', hall⟩ :=
        (isDataWithin_eq_true_iff List.not_mem_nil).mp ih
      rw [hn] at hn'
      cases hn'
      rw [hparts] at hparts'
      cases hparts'
      exact isDataWithin_cut ih (hall c hc)

/-- What has to be data below a part has to be data below the type. -/
theorem DataReaches.head {a b c : TypeId} {node : Node}
    {parts : List TypeId} (hn : g.node? a = some node)
    (hparts : node.kind.dataParts? = some parts) (hb : b ∈ parts)
    (h : g.DataReaches b c) : g.DataReaches a c := by
  induction h with
  | refl => exact .step .refl hn hparts hb
  | step _ hn' hparts' hc ih => exact .step ih hn' hparts' hc

/-- A type of data is accepted inside whatever types it stands. -/
theorem isDataWithin_of_data {path : List TypeId} {id : TypeId}
    (h : g.Data id) : g.isDataWithin path id = .ok true := by
  induction path, id using isDataWithin.induct g with
  | case1 path id hmem => exact isDataWithin_of_mem hmem
  | case2 path id hmem hn =>
      obtain ⟨node, hn', _⟩ := h id .refl
      rw [hn] at hn'
      cases hn'
  | case3 path id hmem node hn hparts =>
      obtain ⟨node', hn', hsome⟩ := h id .refl
      rw [hn] at hn'
      cases hn'
      rw [hparts] at hsome
      cases hsome
  | case4 path id hmem node hn parts hparts ih =>
      refine (isDataWithin_eq_true_iff hmem).mpr
        ⟨node, parts, hn, hparts, fun p hp => ih p ?_⟩
      exact fun b hb => h b (hb.head hn hparts hp)

/-- The procedure accepts just the types of data. -/
theorem isData_eq_true_iff {id : TypeId} :
    g.isData id = .ok true ↔ g.Data id := by
  constructor
  · intro h b hb
    have hb := isData_of_dataReaches h hb
    obtain ⟨node, parts, hn, hparts, -⟩ :=
      (isDataWithin_eq_true_iff List.not_mem_nil).mp hb
    exact ⟨node, hn, by rw [hparts]; rfl⟩
  · exact isDataWithin_of_data

/-- The procedure gives an answer for the ids of a closed set. -/
theorem isDataWithin_returns {P : TypeId → Prop} (hP : g.ClosedOn P)
    {path : List TypeId} {id : TypeId} (hid : P id) :
    Returns (g.isDataWithin path id) := by
  induction path, id using isDataWithin.induct g with
  | case1 path id hmem => exact ⟨true, isDataWithin_of_mem hmem⟩
  | case2 path id hmem hn =>
      obtain ⟨node, hn', _⟩ := hP id hid
      rw [hn] at hn'
      cases hn'
  | case3 path id hmem node hn hparts =>
      rw [isDataWithin_of_notMem hmem hn, hparts]
      exact .ok false
  | case4 path id hmem node hn parts hparts ih =>
      rw [isDataWithin_of_notMem hmem hn, hparts]
      refine Returns.allM fun p hp => ih p ?_
      exact hP.child hid hn p
        (Kind.mem_children_of_mem_dataParts hparts hp)

end Graph

end TypeParams
