/-
The actual types of a match, as far as they matter.

A match starts with an actual type and goes on with its parts, and with
unions and tuples that it makes of these. So whatever holds of the
actual type and everything below it, as a closed set (`T`), holds of
what the match meets: that is of the set, or a new union or tuple of
types of the set (`Graph.Drawn`). Plans for such a type draw on the set
(`plan_draws_drawn`), and what is made from the set is such a type again
(`Source.resolve_drawn`).

# What is not asked

Nothing is asked of what is bound, or of what else was added to the
graph meanwhile. That makes it a property of the actual side of one
match alone, which is kept from level to level whatever other matches
did before. It is one level deep and no more: the parts of a type that
is drawn are in the set itself, since a match never makes a type of
types that it has made.
-/
import TypeParams.Proofs.Matching.Twins

namespace TypeParams

/-- The forms in which a match puts types together. -/
def Kind.gathers : Kind → Bool
  | .union _ | .tuple _ _ => true
  | _ => false

/-- Unions and tuples are no leaves. -/
theorem Kind.isLeaf_of_gathers {kind : Kind} (h : kind.gathers = true) :
    kind.isLeaf = false := by
  cases kind with
  | union | tuple => rfl
  | leaf | array | map | record | error | stream | table | function
  | object | typedesc | xml => cases h

namespace Graph

variable {g g' : Graph} {T : TypeId → Prop} {a : TypeId}

/-- A type of the set, or a union or tuple of such. -/
def Drawn (T : TypeId → Prop) (g : Graph) (a : TypeId) : Prop :=
  T a ∨ ∃ node, g.node? a = some node ∧ node.kind.gathers = true ∧
    ∀ c ∈ node.kind.children, T c

/-- A type that is drawn from the set is so in a larger graph. -/
theorem Drawn.extends (h : g.Drawn T a) (hgg' : g.Extends g') :
    g'.Drawn T a := by
  rcases h with ha | ⟨node, hn, hgathers, hparts⟩
  · exact .inl ha
  · exact .inr ⟨node, hgg' _ _ hn, hgathers, hparts⟩

/-- The parts of such a type are of the set. It is so itself if it has
none, or no form that a match could have given it. -/
theorem Drawn.node (hT : g.ClosedOn T) (h : g.Drawn T a) :
    ∃ node, g.node? a = some node ∧ (∀ c ∈ node.kind.children, T c) ∧
      (node.kind.gathers = false → T a) := by
  rcases h with ha | ⟨node, hn, hgathers, hparts⟩
  · obtain ⟨node, hn, hparts⟩ := hT a ha
    exact ⟨node, hn, hparts, fun _ => ha⟩
  · refine ⟨node, hn, hparts, fun hnot => ?_⟩
    rw [hgathers] at hnot
    cases hnot

end Graph

namespace Matching

variable {g : Graph} {T : TypeId → Prop} {w w' : Workspace}

/-- What is made of key fields is a tuple. -/
theorem ofFields_gathers {fields : List Field} {node : Node}
    (h : Draft.ofFields fields = .new node) : node.kind.gathers = true := by
  match fields with
  | [] | _ :: _ :: _ =>
      cases h
      rfl
  | [_] => cases h

/-- What is made for the key of a table is a tuple. -/
theorem rowDraft_gathers {table : TableType} {node : Node}
    (h : rowDraft g table = .ok (.new node)) : node.kind.gathers = true := by
  unfold rowDraft at h
  by_cases hempty : table.keyFields.isEmpty = true
  · rw [if_pos hempty] at h
    cases h
  · rw [if_neg hempty] at h
    obtain ⟨kind, -, h⟩ := bind_eq_ok.mp h
    have hnew := pure_eq_ok.mp h
    cases kind with
    | record shape =>
        simp only [Draft.ofRow] at hnew
        cases hmap : table.keyFields.mapM shape.field? with
        | none =>
            rw [hmap] at hnew
            cases hnew
        | some fields =>
            rw [hmap] at hnew
            exact ofFields_gathers hnew
    | leaf | array | tuple | map | union | error | stream | table
    | function | object | typedesc | xml => cases hnew

/-- What is new is a union or a tuple. -/
theorem Source.draft_gathers {source : Source} {node : Node}
    (h : source.draft g = .ok (.new node)) : node.kind.gathers = true := by
  cases source with
  | given id => cases h
  | unionOf ids =>
      obtain ⟨members, -, h⟩ := bind_eq_ok.mp h
      have hnew := pure_eq_ok.mp h
      match members with
      | [] | [_] => cases hnew
      | _ :: _ :: _ =>
          cases hnew
          rfl
  | keyOf table =>
      simp only [Source.draft] at h
      cases hkey : table.key with
      | some key =>
          rw [hkey] at h
          cases h
      | none =>
          rw [hkey] at h
          exact rowDraft_gathers h

/-- What is made from types of the set is drawn from it. -/
theorem Source.resolve_drawn (hT : w.types.graph.ClosedOn T)
    (hnever : T .never) {source : Source}
    (hids : ∀ id ∈ source.ids, T id) {made : Option TypeId}
    (h : source.resolve w = .ok made w') :
    ∀ a ∈ made, w'.types.graph.Drawn T a := by
  intro a ha
  obtain ⟨draft, hdraft, hmake⟩ := Source.resolve_draft h
  have hon := Source.draft_on hT hnever hids hdraft
  cases draft with
  | unknown =>
      cases hmake
      cases ha
  | there id =>
      cases hmake
      cases ha
      exact .inl hon
  | new node =>
      obtain ⟨id, w₁, halloc, hmake⟩ := bind_run.mp hmake
      obtain ⟨rfl, rfl⟩ := WorkM.alloc_run.mp halloc
      cases hmake
      cases ha
      refine .inr ⟨node, ?_, Source.draft_gathers hdraft, hon.2⟩
      rw [Layer.graph_alloc_eq, Layer.nextId_eq]
      exact Graph.node?_push_self _ _

/-- Plans for a type that is drawn from a set draw on the set. -/
theorem plan_draws_drawn (hT : g.ClosedOn T) (hnil : T .nil)
    (hdata : T .anydata) (hdetail : T .errorDetail) {checker : Checker}
    {maxDepth : Nat} {variance : Variance} {expected actual : TypeId}
    {kind : Kind} {actualNode : Node} (hactual : g.Drawn T actual)
    (hnode : g.node? actual = some actualNode) {pairings : List Pairing}
    (h : plan g checker maxDepth variance expected kind actual
      actualNode.kind = .ok (.pairs pairings)) : Draws T pairings := by
  obtain ⟨node, hn, hparts, hself⟩ := hactual.node hT
  rw [hnode] at hn
  cases hn
  refine plan_draws_on_parts hT hnil hdata hdetail hnode hparts ?_ h
  intro hleaf
  apply hself
  apply Bool.eq_false_iff.mpr
  intro hgathers
  rw [Kind.isLeaf_of_gathers hgathers] at hleaf
  cases hleaf

end Matching

end TypeParams
