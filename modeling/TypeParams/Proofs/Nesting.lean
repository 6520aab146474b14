/-
How deep walks over a graph nest.

# Caps

That a walk does not nest deeper than some number of calls is said by
running it under a cap. The capped walk is the walk down to that many
calls inside each other, and below them it does something else, which it
is given. If that is never seen, whatever it is, there is nothing below.

A walk that is kept from going round in circles by the ids that it is
inside of enters each of them once, so it nests no deeper than there are
ids (`Graph.renderCapped_eq`). One that is not kept from it needs a graph
without such circles (`Trail`), as the search for what xml holds does.

# Walks without an end

The walk that tells error types is not kept from going round. It has a
fault for unions that it would go round in for ever, and caps say what
that means. The capped walk has no regard for the unions that it is
inside of. Where there is a result, or an id without a node is come
across, it agrees with the walk under any cap above the number of ids
(`Graph.onlyErrorsCapped_eq`). Where the walk has the fault, there is no
cap that is not used up (`Graph.onlyErrorsCapped_of_endless`). So the
fault stands for a walk without an end, and for no other
(`Graph.onlyErrors_endless_iff`).

# What walks go through

`Graph.composites` are the types with parts that a type is made of. They
are what matching and instantiation go through.
-/
import Mathlib.Data.Set.Card
import Mathlib.Logic.Relation
import TypeParams.Matching.Plan
import TypeParams.Proofs.Loops

namespace TypeParams

/-- Different entries of a finite set are no more than it has. -/
theorem length_le_ncard {α : Type} {S : Set α} (hS : S.Finite)
    {as : List α} (hnodup : as.Nodup) (h : ∀ a ∈ as, a ∈ S) :
    as.length ≤ S.ncard := by
  classical
  rw [← List.toFinset_card_of_nodup hnodup, ← Set.ncard_coe_finset]
  refine Set.ncard_le_ncard ?_ hS
  intro a ha
  exact h a (List.mem_toFinset.mp ha)

namespace Graph

variable {g : Graph} {path : List TypeId} {id : TypeId}

/-- Different ids are no more than there are nodes. -/
theorem length_le_size (hnodup : path.Nodup)
    (hpath : ∀ p ∈ path, p.index < g.size) : path.length ≤ g.size := by
  have hsub : path ⊆ g.ids := fun p hp => mem_ids.mpr (hpath p hp)
  have hle := (hnodup.subperm hsub).length_le
  unfold ids at hle
  rw [List.length_map, List.length_range] at hle
  exact hle

-- ================================================== parts with parts

/-- The types with parts that a type is made of, itself included. -/
def composites (g : Graph) (a : TypeId) : Set TypeId :=
  { id | g.Reaches a id ∧
    ∃ node, g.node? id = some node ∧ node.kind.isLeaf = false }

/-- Ids that have nodes are finitely many. -/
theorem finite_of_lt {S : Set TypeId} (h : ∀ id ∈ S, id.index < g.size) :
    S.Finite := by
  refine Set.Finite.subset g.ids.toFinset.finite_toSet ?_
  intro id hid
  exact List.mem_toFinset.mpr (mem_ids.mpr (h id hid))

/-- A type is made of finitely many types with parts. -/
theorem composites_finite (g : Graph) (a : TypeId) :
    (g.composites a).Finite := by
  refine finite_of_lt (g := g) ?_
  intro id hid
  obtain ⟨-, node, hn, -⟩ := hid
  exact index_lt_of_node? hn

-- ============================================================ rendering

/-- One type as text, given how to write its parts. -/
def renderStep (g : Graph)
    (render : List TypeId → Bool → TypeId → Except Fault String)
    (path : List TypeId) (top : Bool) (id : TypeId) :
    Except Fault String :=
  match g.node? id with
  | none => .ok ("<invalid " ++ id.label ++ ">")
  | some node =>
      match node.shownName? top with
      | some name => .ok name
      | none =>
          if id ∈ path then .ok "..."
          else g.kindText (render (id :: path) false) id node.kind

/-- Writing writes one type by writing its parts. -/
theorem renderWithin_eq (path : List TypeId) (top : Bool) (id : TypeId) :
    g.renderWithin path top id
      = g.renderStep g.renderWithin path top id := by
  unfold renderStep
  cases hn : g.node? id with
  | none => exact renderWithin_of_none hn
  | some node => exact renderWithin_of_node hn

/-- Writing a type under a cap. -/
def renderCapped (g : Graph)
    (deeper : List TypeId → Bool → TypeId → Except Fault String) :
    Nat → List TypeId → Bool → TypeId → Except Fault String
  | 0 => deeper
  | cap + 1 => g.renderStep (g.renderCapped deeper cap)

/-- Writing nests no deeper than there are ids: each call is inside of
ids that are all different, so a cap that leaves room for all of them is
not seen. -/
theorem renderCapped_eq
    (deeper : List TypeId → Bool → TypeId → Except Fault String)
    {cap : Nat} (hnodup : path.Nodup)
    (hpath : ∀ p ∈ path, p.index < g.size)
    (hcap : g.size + 1 ≤ path.length + cap) (top : Bool) (id : TypeId) :
    g.renderCapped deeper cap path top id = g.renderWithin path top id := by
  induction cap generalizing path top id with
  | zero =>
      have hle := length_le_size hnodup hpath
      omega
  | succ cap ih =>
      rw [renderWithin_eq]
      show g.renderStep (g.renderCapped deeper cap) path top id = _
      unfold renderStep
      cases hn : g.node? id with
      | none => rfl
      | some node =>
          by_cases hmem : id ∈ path
          · simp only [if_pos hmem]
          · have hchild : g.renderCapped deeper cap (id :: path) false
                = g.renderWithin (id :: path) false := by
              funext part
              refine ih (List.nodup_cons.mpr ⟨hmem, hnodup⟩) ?_ ?_ _ _
              · rw [List.forall_mem_cons]
                exact ⟨index_lt_of_node? hn, hpath⟩
              · rw [List.length_cons]
                omega
            simp only [if_neg hmem, hchild]

-- =========================================================== error types

/-- Telling error types under a cap, and without regard to the unions
that one is inside of. -/
def onlyErrorsCapped (g : Graph) (deeper : TypeId → Except Fault Bool) :
    Nat → TypeId → Except Fault Bool
  | 0, id => deeper id
  | cap + 1, id => do
      match ← g.kind id with
      | .error _ => return true
      | .union members =>
          if members.isEmpty then return false
          else members.allM (g.onlyErrorsCapped deeper cap)
      | _ => return false

/-- The form of an id without a node cannot be looked up. -/
theorem kind_of_none (hn : g.node? id = none) :
    g.kind id = .error (.missing id g.size) := by
  unfold kind
  rw [node_eq_error hn]
  rfl

/-- A walk that has an end inside of some ids nests no deeper than there
are ids left. -/
theorem onlyErrorsCapped_eq_within (deeper : TypeId → Except Fault Bool)
    {cap : Nat} (hnodup : path.Nodup)
    (hpath : ∀ p ∈ path, p.index < g.size)
    (hcap : g.size + 1 ≤ path.length + cap)
    (hends : ∀ fault, (∃ u, fault = .endless u) →
      g.onlyErrorsWithin path id ≠ .error fault) :
    g.onlyErrorsCapped deeper cap id = g.onlyErrorsWithin path id := by
  induction cap generalizing path id with
  | zero =>
      have hle := length_le_size hnodup hpath
      omega
  | succ cap ih =>
      unfold onlyErrorsCapped
      cases hn : g.node? id with
      | none =>
          rw [onlyErrorsWithin_of_none hn, kind_of_none hn]
          rfl
      | some node =>
          rw [onlyErrorsWithin_of_node hn] at hends ⊢
          -- coming back to an id that the walk is inside of would be the
          -- fault
          have hmem : id ∉ path := fun hmem =>
            hends _ ⟨id, rfl⟩ (if_pos hmem)
          rw [if_neg hmem] at hends ⊢
          rw [kind_of_node hn]
          have hnodup' : (id :: path).Nodup :=
            List.nodup_cons.mpr ⟨hmem, hnodup⟩
          have hpath' : ∀ p ∈ id :: path, p.index < g.size :=
            List.forall_mem_cons.mpr ⟨index_lt_of_node? hn, hpath⟩
          cases hkind : node.kind with
          | union members =>
              rw [hkind] at hends
              show (if members.isEmpty = true then Except.ok false
                else members.allM _) = _
              by_cases hempty : members.isEmpty = true
              · simp only [if_pos hempty]
              · simp only [if_neg hempty] at hends ⊢
                refine allM_congr_of_ne (fun m _ hm => ih hnodup' hpath' ?_
                  hm) hends
                rw [List.length_cons]
                omega
          | error | leaf | array | tuple | map | record | stream | table
          | function | object | typedesc | xml => rfl

/-- A walk that has an end nests no deeper than there are ids. -/
theorem onlyErrorsCapped_eq (deeper : TypeId → Except Fault Bool)
    {cap : Nat} (hcap : g.size < cap)
    (hends : ∀ u, g.onlyErrors id ≠ .error (.endless u)) :
    g.onlyErrorsCapped deeper cap id = g.onlyErrors id := by
  refine onlyErrorsCapped_eq_within deeper .nil (by simp) ?_ ?_
  · rw [List.length_nil]
    omega
  · rintro fault ⟨u, rfl⟩
    exact hends u

/-- A result is the same under a cap, or the cap is used up. -/
theorem onlyErrorsCapped_of_ok (stop : Fault) {answer : Bool}
    (h : g.onlyErrorsWithin path id = .ok answer) (cap : Nat) :
    g.onlyErrorsCapped (fun _ => .error stop) cap id = .ok answer ∨
      g.onlyErrorsCapped (fun _ => .error stop) cap id = .error stop := by
  induction cap generalizing path id answer with
  | zero => exact .inr rfl
  | succ cap ih =>
      unfold onlyErrorsCapped
      cases hn : g.node? id with
      | none =>
          rw [onlyErrorsWithin_of_none hn] at h
          cases h
      | some node =>
          rw [onlyErrorsWithin_of_node hn] at h
          split at h
          · cases h
          · rw [kind_of_node hn]
            cases hkind : node.kind with
            | union members =>
                rw [hkind] at h
                show (if members.isEmpty = true then Except.ok false
                  else members.allM _) = _ ∨ (if members.isEmpty = true
                    then Except.ok false else members.allM _) = _
                by_cases hempty : members.isEmpty = true
                · simp only [if_pos hempty] at h ⊢
                  exact .inl h
                · simp only [if_neg hempty] at h ⊢
                  exact allM_ok_or (fun m _ b hm => ih hm) h
            | error | leaf | array | tuple | map | record | stream | table
            | function | object | typedesc | xml =>
                rw [hkind] at h
                exact .inl h

/-- A union uses up its cap if a member that it asks for does. -/
theorem Asks.uses_up {u m : TypeId} (h : g.Asks u m) {stop : Fault}
    {cap : Nat}
    (hm : g.onlyErrorsCapped (fun _ => .error stop) cap m = .error stop) :
    g.onlyErrorsCapped (fun _ => .error stop) (cap + 1) u
      = .error stop := by
  obtain ⟨node, before, behind, hn, hkind, hbefore⟩ := h
  have hsome : (before ++ m :: behind).isEmpty = false := by
    cases before <;> rfl
  have hall : (before ++ m :: behind).allM
      (g.onlyErrorsCapped (fun _ => .error stop) cap) = .error stop := by
    clear hkind hsome
    induction before with
    | nil =>
        rw [List.nil_append, List.allM_cons, hm]
        rfl
    | cons b before ih =>
        rw [List.forall_mem_cons] at hbefore
        obtain ⟨⟨path, hb⟩, hbefore⟩ := hbefore
        rw [List.cons_append, List.allM_cons]
        rcases onlyErrorsCapped_of_ok stop hb cap with hturn | hturn
        · rw [hturn]
          exact ih hbefore
        · rw [hturn]
          rfl
  unfold onlyErrorsCapped
  rw [kind_of_node hn, hkind]
  show (if (before ++ m :: behind).isEmpty = true then Except.ok false
    else (before ++ m :: behind).allM _) = _
  rw [hsome, hall]
  rfl

/-- A walk that has the fault for want of an end uses up every cap. -/
theorem onlyErrorsCapped_of_endless {u : TypeId}
    (h : g.onlyErrors id = .error (.endless u)) (stop : Fault)
    (cap : Nat) :
    g.onlyErrorsCapped (fun _ => .error stop) cap id = .error stop := by
  rcases onlyErrors_fault h with ⟨x, hmissing, -⟩ | ⟨u', -, hreach, hloop⟩
  · cases hmissing
  · -- whatever leads to the union asks for something that leads to it
    have hnext : ∀ {x}, Relation.ReflTransGen g.Asks x u' →
        ∃ y, g.Asks x y ∧ Relation.ReflTransGen g.Asks y u' := by
      intro x hx
      rcases hx.cases_head with rfl | ⟨y, hxy, hy⟩
      · exact Relation.TransGen.head'_iff.mp hloop
      · exact ⟨y, hxy, hy⟩
    clear h
    induction cap generalizing id with
    | zero => rfl
    | succ cap ih =>
        obtain ⟨y, hasks, hy⟩ := hnext hreach
        exact hasks.uses_up (ih hy)

/-- The fault stands for a walk without an end: it is given if and only
if there is no cap that is not used up. -/
theorem onlyErrors_endless_iff :
    (∃ u, g.onlyErrors id = .error (.endless u)) ↔
      ∀ stop cap, g.onlyErrorsCapped (fun _ => .error stop) cap id
        = .error stop := by
  constructor
  · rintro ⟨u, h⟩ stop cap
    exact onlyErrorsCapped_of_endless h stop cap
  · intro h
    by_contra hends
    rw [not_exists] at hends
    have hcapped := onlyErrorsCapped_eq (fun _ => .error (.endless id))
      (Nat.lt_succ_self g.size) hends
    rw [h] at hcapped
    exact hends id hcapped.symm

/-- Where no union is among its own members there is an end. -/
theorem Unlooped.ends (h : g.Unlooped) (u : TypeId) :
    g.onlyErrors id ≠ .error (.endless u) := by
  intro hfault
  rcases onlyErrors_fault hfault with ⟨x, hmissing, -⟩ | ⟨u', -, -, hloop⟩
  · cases hmissing
  · exact h u' (Relation.TransGen.mono (fun _ _ => Asks.member) u' u' hloop)

-- ================================================ walks without circles

/-- A walk that is inside of some ids, each of which leads to the next
by a relation. -/
structure Trail (g : Graph) (E : TypeId → TypeId → Prop)
    (path : List TypeId) (id : TypeId) : Prop where
  nodup : path.Nodup
  inside : ∀ p ∈ path, p.index < g.size
  leads : ∀ p ∈ path, Relation.TransGen E p id

variable {E : TypeId → TypeId → Prop}

theorem Trail.nil (id : TypeId) : Trail g E [] id := by
  refine ⟨.nil, ?_, ?_⟩
  · intro p hp
    cases hp
  · intro p hp
    cases hp

/-- A walk that cannot go in circles does not come back to where it is. -/
theorem Trail.not_mem (h : Trail g E path id)
    (hE : ∀ u, ¬ Relation.TransGen E u u) : id ∉ path :=
  fun hmem => hE id (h.leads id hmem)

/-- One step further. -/
theorem Trail.step (h : Trail g E path id)
    (hE : ∀ u, ¬ Relation.TransGen E u u) (hid : id.index < g.size)
    {next : TypeId} (hnext : E id next) :
    Trail g E (id :: path) next := by
  refine ⟨List.nodup_cons.mpr ⟨h.not_mem hE, h.nodup⟩, ?_, ?_⟩
  · rw [List.forall_mem_cons]
    exact ⟨hid, h.inside⟩
  · rw [List.forall_mem_cons]
    exact ⟨.single hnext, fun p hp => (h.leads p hp).tail hnext⟩

/-- A type is what xml holds. -/
def Holds (g : Graph) (a b : TypeId) : Prop :=
  ∃ node, g.node? a = some node ∧ node.kind = .xml b

/-- What xml holds is found after as many steps as there are ids. -/
theorem xmlContent_eq_of_trail
    (hE : ∀ u, ¬ Relation.TransGen g.Holds u u) {n m : Nat}
    (h : Trail g g.Holds path id) (hn : g.size + 1 ≤ path.length + n)
    (hm : g.size + 1 ≤ path.length + m) :
    Matching.xmlContent g n id = Matching.xmlContent g m id := by
  have hle := length_le_size h.nodup h.inside
  induction n generalizing path id m with
  | zero => omega
  | succ n ih =>
      obtain ⟨m, rfl⟩ : ∃ k, m = k + 1 := ⟨m - 1, by omega⟩
      unfold Matching.xmlContent
      cases hnode : g.node? id with
      | none =>
          rw [kind_of_none hnode]
          rfl
      | some node =>
          rw [kind_of_node hnode]
          cases hkind : node.kind with
          | xml constraint =>
              have hstep := h.step hE (index_lt_of_node? hnode)
                ⟨node, hnode, hkind⟩
              refine ih hstep ?_ ?_
                (length_le_size hstep.nodup hstep.inside)
              · rw [List.length_cons]
                omega
              · rw [List.length_cons]
                omega
          | error | leaf | array | tuple | map | record | stream | table
          | function | object | typedesc | union => rfl

/-- Where xml does not hold itself, looking further than there are ids
finds the same. -/
theorem xmlContent_eq (hE : ∀ u, ¬ Relation.TransGen g.Holds u u)
    {depth : Nat} (hdepth : g.size < depth) (id : TypeId) :
    Matching.xmlContent g depth id
      = Matching.xmlContent g (g.size + 1) id := by
  refine xmlContent_eq_of_trail hE (.nil id) ?_ ?_
  · rw [List.length_nil]
    omega
  · rw [List.length_nil]
    omega

end Graph

end TypeParams
