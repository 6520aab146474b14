/-
How deep a search for assignability nests.

A search looks into pairs of types inside each other. It enters no pair
that it is inside of, and what it has found before only saves it further
pairs, so nothing is lost when that is forgotten: at any time the pairs
that it is inside of are different ones.

# Stand-ins

They are pairs of what the two types are made of, but for the builtin
types that stand in for what is not written, which may be part of
neither. Once a search has come to such a type it stays with it, and
only goes through the members of unions on the other side. So it is
inside of no more pairs with a stand-in than there are types, which is
how many pairs of one type there are; and those it never enters. Hence a
search nests no deeper than there are pairs of types, and one call more
(`relateCapped_eq`).

`countedFor` puts the count into a map from the pairs that a search is
inside of to pairs of parts, one to one: a pair with a stand-in counts
for the pair of the other type with itself.

# Caps

The bound is stated by a capped search, as for the other walks over a
graph. `relateStep` looks into one pair, given how to look into others;
the search is its fixed point (`relate_eq`), and the capped search runs
it so many times, with anything at all below. `Room` is the invariant
that leads from the pair where a search starts to any that it comes to.
-/
import TypeParams.Proofs.Nesting
import TypeParams.Proofs.Subtype.Decision

namespace TypeParams

-- ============================================================ stand-ins

/-- A builtin type that stands in for what is not written. -/
def StandIn (id : TypeId) : Prop :=
  id = .anydata ∨ id = .nil

/-- The forms of the stand-ins. -/
def Kind.StandsIn (kind : Kind) : Prop :=
  kind = .leaf .anydata ∨ kind = .leaf .nil

/-- Stand-ins have no parts. -/
theorem Kind.StandsIn.children_eq {kind : Kind} (h : kind.StandsIn) :
    kind.children = [] := by
  rcases h with rfl | rfl
  · rfl
  · rfl

/-- In a graph of types the stand-ins have their forms. -/
theorem Graph.WellFormed.standsIn {g : Graph} (hg : g.WellFormed)
    {id : TypeId} (h : StandIn id) {node : Node}
    (hn : g.node? id = some node) : node.kind.StandsIn := by
  rcases h with rfl | rfl
  · rw [hg.node?_anydata] at hn
    cases hn
    exact .inl rfl
  · rw [hg.node?_nil] at hn
    cases hn
    exact .inr rfl

section Premises

variable {a b x y : TypeId} {s t : Node}

/-- The rule for a leaf asks for no other pair where either side is a
stand-in. -/
theorem Leaf.not_sub_mem_rule {form : Leaf}
    (h : s.kind.StandsIn ∨ (Kind.leaf form).StandsIn) :
    .sub x y ∉ (form.rule a s b).premises := by
  cases form with
  | xmlItem item =>
      rcases h with (h | h) | (h | h)
      · simp [Leaf.rule, Rule.premises, Rule.decided, h]
      · simp [Leaf.rule, Rule.premises, Rule.decided, h]
      · cases h
      · cases h
  | any | anydata | noType | nil | never | int | float | decimal
  | string | boolean | byte | readonly =>
      simp [Leaf.rule, Rule.premises, Rule.decided]

/-- Before a stand-in only the members of unions are looked into. -/
theorem Rule.sub_before_standIn (ht : t.kind.StandsIn)
    (h : .sub x y ∈ (Rule.of a s b t).premises) :
    x ∈ s.kind.children ∧ y = b := by
  unfold Rule.of at h
  split at h
  next => simp [Rule.decided, Rule.premises] at h
  next => simp [Rule.decided, Rule.premises] at h
  next => simp [Rule.decided, Rule.premises] at h
  next members hkind _ =>
    rw [hkind]
    obtain ⟨m, hm, heq⟩ := List.mem_map.mp h
    cases heq
    exact ⟨hm, rfl⟩
  next members hkind _ _ _ =>
    rw [hkind] at ht
    rcases ht with ht | ht
    · cases ht
    · cases ht
  next form _ hkind _ _ _ =>
    rw [hkind] at ht
    exact absurd h (Leaf.not_sub_mem_rule (.inr ht))
  next hleaf =>
    rcases ht with ht | ht
    · exact absurd ht (hleaf _)
    · exact absurd ht (hleaf _)

/-- And so they are after one. -/
theorem Rule.sub_after_standIn (hs : s.kind.StandsIn)
    (h : .sub x y ∈ (Rule.of a s b t).premises) :
    x = a ∧ y ∈ t.kind.children := by
  unfold Rule.of at h
  split at h
  next => simp [Rule.decided, Rule.premises] at h
  next => simp [Rule.decided, Rule.premises] at h
  next => simp [Rule.decided, Rule.premises] at h
  next members hkind _ =>
    rw [hkind] at hs
    rcases hs with hs | hs
    · cases hs
    · cases hs
  next members hkind _ _ _ =>
    rw [hkind]
    obtain ⟨m, hm, heq⟩ := List.mem_map.mp h
    cases heq
    exact ⟨rfl, hm⟩
  next => exact absurd h (Leaf.not_sub_mem_rule (.inl hs))
  next =>
    rcases hs with hs | hs
    · simp [hs, Kind.premises, Rule.premises] at h
    · simp [hs, Kind.premises, Rule.premises] at h

end Premises

-- ============================================================= congruence

section Congruence

variable {g : Graph}
  {sub sub' : Pairs → TypeId → TypeId → Except Fault (Option Pairs)}

/-- How a premise is searched depends on the pair that it mentions. -/
theorem Premise.search_congr {premise : Premise}
    (h : ∀ x y, premise = .sub x y → ∀ proved,
      sub proved x y = sub' proved x y) (proved : Pairs) :
    premise.search g sub proved = premise.search g sub' proved := by
  cases premise with
  | sub x y => exact h x y rfl proved
  | fact | data | notOnlyErrors => rfl

/-- How a rule is searched depends on the pairs that it mentions. -/
theorem Rule.search_congr {rule : Rule}
    (h : ∀ x y, .sub x y ∈ rule.premises → ∀ proved,
      sub proved x y = sub' proved x y) (proved : Pairs) :
    rule.search g sub proved = rule.search g sub' proved := by
  cases rule with
  | all premises =>
      show searchAll g sub proved premises = searchAll g sub' proved premises
      induction premises generalizing proved with
      | nil => rfl
      | cons premise premises ih =>
          unfold searchAll
          rw [Premise.search_congr fun x y heq =>
            h x y (heq ▸ List.mem_cons_self)]
          congr 1
          funext answer
          cases answer with
          | none => rfl
          | some proved =>
              exact ih proved fun x y hmem => h x y (.tail _ hmem)
  | any premises =>
      show searchAny g sub proved premises = searchAny g sub' proved premises
      induction premises with
      | nil => rfl
      | cons premise premises ih =>
          unfold searchAny
          rw [Premise.search_congr fun x y heq =>
            h x y (heq ▸ List.mem_cons_self)]
          congr 1
          funext answer
          cases answer with
          | some proved => rfl
          | none => exact ih fun x y hmem => h x y (.tail _ hmem)

end Congruence

namespace Graph

variable {g : Graph} {path : Pairs} {source target a b : TypeId}

-- ================================================= searching under a cap

/-- Looks into one pair, given how to look into others. -/
def relateStep (g : Graph)
    (relate : Pairs → Pairs → TypeId → TypeId →
      Except Fault (Option Pairs))
    (path proved : Pairs) (source target : TypeId) :
    Except Fault (Option Pairs) :=
  if source = target then .ok (some proved)
  else if (source, target) ∈ path then .ok (some proved)
  else if (source, target) ∈ proved then .ok (some proved)
  else
    match g.node? source with
    | none => .error (.missing source g.size)
    | some s =>
        match g.node? target with
        | none => .error (.missing target g.size)
        | some t => do
            let found ← (Rule.of source s target t).search g
              (relate ((source, target) :: path)) proved
            return found.map ((source, target) :: ·)

/-- A search looks into a pair by searching others. -/
theorem relate_eq (path proved : Pairs) (source target : TypeId) :
    g.relate path proved source target
      = g.relateStep g.relate path proved source target := by
  unfold relateStep
  by_cases heq : source = target
  · rw [if_pos heq, heq, relate_of_eq]
  by_cases hpath : (source, target) ∈ path
  · rw [if_neg heq, if_pos hpath, relate_of_mem_path hpath]
  by_cases hproved : (source, target) ∈ proved
  · rw [if_neg heq, if_neg hpath, if_pos hproved,
      relate_of_mem_found hproved]
  rw [relate, if_neg heq, dif_neg hpath, if_neg hproved, if_neg heq,
    if_neg hpath, if_neg hproved]
  split
  next hs => rw [hs]
  next s hs =>
    rw [hs]
    split
    next ht => rw [ht]
    next t ht => rw [ht]

/-- Searching under a cap. -/
def relateCapped (g : Graph)
    (deeper : Pairs → Pairs → TypeId → TypeId →
      Except Fault (Option Pairs)) :
    Nat → Pairs → Pairs → TypeId → TypeId → Except Fault (Option Pairs)
  | 0 => deeper
  | cap + 1 => g.relateStep (g.relateCapped deeper cap)

-- ================================================ the pairs of a search

/-- What two types are made of, themselves included. -/
def parts (g : Graph) (source target : TypeId) : Set TypeId :=
  { id | g.Reaches source id ∨ g.Reaches target id }

/-- Parts of what two types are made of are among it. -/
theorem parts_child (h : a ∈ g.parts source target) {node : Node}
    (hn : g.node? a = some node) {c : TypeId}
    (hc : c ∈ node.kind.children) : c ∈ g.parts source target := by
  rcases h with h | h
  · exact .inl (h.step ⟨node, hn, hc⟩)
  · exact .inr (h.step ⟨node, hn, hc⟩)

/-- Two types of a closed graph are made of finitely many. -/
theorem Closed.parts_finite (hg : g.Closed)
    (hsource : source.index < g.size) (htarget : target.index < g.size) :
    (g.parts source target).Finite := by
  refine finite_of_lt (g := g) ?_
  intro id hid
  rcases hid with hid | hid
  · exact hg.reaches hsource hid
  · exact hg.reaches htarget hid

/-- A search has come to a pair. The pairs that it is inside of are of
different parts; or one side of the pair is a stand-in, and they may
have it on that side. The cap leaves room for all others, and one call
more. -/
structure Room (R : Set TypeId) (cap : Nat) (path : Pairs)
    (a b : TypeId) : Prop where
  nodup : path.Nodup
  inside : ∀ p ∈ path, p.1 ≠ p.2 ∧
    (p.1 ∈ R ∧ p.2 ∈ R ∨
      (p.1 ∈ R ∧ p.2 = b) ∧ a ∈ R ∧ b ∉ R ∨
      (p.1 = a ∧ p.2 ∈ R) ∧ a ∉ R ∧ b ∈ R)
  left : a ∈ R ∨ StandIn a
  right : b ∈ R ∨ StandIn b
  room : R.ncard * R.ncard + 1 ≤ path.length + cap

open Classical in
/-- The pair of parts that a pair counts for: with a stand-in, that of
the other side with itself. -/
noncomputable def countedFor (R : Set TypeId) (p : TypeId × TypeId) :
    TypeId × TypeId :=
  if p.2 ∉ R then (p.1, p.1) else if p.1 ∉ R then (p.2, p.2) else p

/-- A search is inside of no more pairs than there are pairs of parts. -/
theorem Room.length_le {R : Set TypeId} {cap : Nat} (hfin : R.Finite)
    (h : Room R cap path a b) : path.length ≤ R.ncard * R.ncard := by
  have hnodup : (path.map (countedFor R)).Nodup := by
    refine h.nodup.map_on ?_
    intro p hp q hq heq
    have hp := h.inside p hp
    have hq := h.inside q hq
    unfold countedFor at heq
    grind
  have hmem : ∀ p ∈ path.map (countedFor R), p ∈ R ×ˢ R := by
    rw [List.forall_mem_map]
    intro p hp
    have hp := h.inside p hp
    unfold countedFor
    grind
  rw [← Set.ncard_prod, ← List.length_map (countedFor R)]
  exact length_le_ncard (hfin.prod hfin) hnodup hmem

section Search

variable (hg : g.WellFormed)
include hg

/-- From a pair, a search comes to those that its rule mentions. -/
theorem Room.step {cap : Nat}
    (h : Room (g.parts source target) (cap + 1) path a b) (hne : a ≠ b)
    (hpath : (a, b) ∉ path) {s t : Node} (hs : g.node? a = some s)
    (ht : g.node? b = some t) {x y : TypeId}
    (hsub : .sub x y ∈ (Rule.of a s b t).premises) :
    Room (g.parts source target) cap ((a, b) :: path) x y := by
  have hnodup := List.nodup_cons.mpr ⟨hpath, h.nodup⟩
  have hroom := h.room
  have hroom' : (g.parts source target).ncard
      * (g.parts source target).ncard + 1
      ≤ ((a, b) :: path).length + cap := by
    rw [List.length_cons]
    omega
  by_cases ha : a ∈ g.parts source target
  · by_cases hb : b ∈ g.parts source target
    · -- no stand-in so far: the rule may bring one in
      have hon := Rule.on_of
        (P := fun id => id ∈ g.parts source target ∨ StandIn id)
        hs (.inl ha) (.inl hb)
        (fun c hc => .inl (parts_child ha hs hc))
        (fun c hc => .inl (parts_child hb ht hc)) (.inr (.inl rfl))
        (.inr (.inr rfl)) _ hsub
      rw [Premise.on_sub] at hon
      refine ⟨hnodup, ?_, hon.1, hon.2, hroom'⟩
      rw [List.forall_mem_cons]
      refine ⟨⟨hne, .inl ⟨ha, hb⟩⟩, fun p hp => ?_⟩
      have hp := h.inside p hp
      grind
    · have hstand := hg.standsIn (h.right.resolve_left hb) ht
      -- the target is a stand-in and stays it
      obtain ⟨hx, rfl⟩ := Rule.sub_before_standIn hstand hsub
      have hx' := parts_child ha hs hx
      refine ⟨hnodup, ?_, .inl hx', h.right, hroom'⟩
      rw [List.forall_mem_cons]
      refine ⟨⟨hne, .inr (.inl ⟨⟨ha, rfl⟩, hx', hb⟩)⟩, fun p hp => ?_⟩
      have hp := h.inside p hp
      grind
  · have hstand := hg.standsIn (h.left.resolve_left ha) hs
    -- the source is a stand-in and stays it
    obtain ⟨rfl, hy⟩ := Rule.sub_after_standIn hstand hsub
    by_cases hb : b ∈ g.parts source target
    · have hy' := parts_child hb ht hy
      refine ⟨hnodup, ?_, h.left, .inl hy', hroom'⟩
      rw [List.forall_mem_cons]
      refine ⟨⟨hne, .inr (.inr ⟨⟨rfl, hb⟩, ha, hy'⟩)⟩, fun p hp => ?_⟩
      have hp := h.inside p hp
      grind
    · -- two stand-ins have no rule that mentions a pair
      have hleaf := hg.standsIn (h.right.resolve_left hb) ht
      rw [hleaf.children_eq] at hy
      cases hy

/-- A search under a cap that leaves room for all pairs that it can come
to is the search, whatever it has found before. -/
theorem relateCapped_eq
    (deeper : Pairs → Pairs → TypeId → TypeId →
      Except Fault (Option Pairs))
    (hfin : (g.parts source target).Finite) {cap : Nat}
    (h : Room (g.parts source target) cap path a b) (proved : Pairs) :
    g.relateCapped deeper cap path proved a b
      = g.relate path proved a b := by
  induction cap generalizing path proved a b with
  | zero =>
      have hle := h.length_le hfin
      have hroom := h.room
      omega
  | succ cap ih =>
      rw [relate_eq]
      show g.relateStep (g.relateCapped deeper cap) path proved a b = _
      unfold relateStep
      by_cases heq : a = b
      · rw [if_pos heq, if_pos heq]
      by_cases hpath : (a, b) ∈ path
      · rw [if_neg heq, if_neg heq, if_pos hpath, if_pos hpath]
      cases hs : g.node? a with
      | none => rfl
      | some s =>
          cases ht : g.node? b with
          | none => rfl
          | some t =>
              have hsearch : (Rule.of a s b t).search g
                  (g.relateCapped deeper cap ((a, b) :: path)) proved
                  = (Rule.of a s b t).search g
                    (g.relate ((a, b) :: path)) proved := by
                refine Rule.search_congr (fun x y hsub proved => ?_) proved
                exact ih (h.step hg heq hpath hs ht hsub) proved
              simp only [hsearch]

end Search

/-- A search of its own nests no deeper than there are pairs of parts,
and one call more. -/
theorem Room.start (source target : TypeId) :
    Room (g.parts source target) ((g.parts source target).ncard
      * (g.parts source target).ncard + 1) [] source target := by
  refine ⟨.nil, ?_, .inl (.inl .refl), .inl (.inr .refl), ?_⟩
  · intro p hp
    cases hp
  · omega

end Graph

end TypeParams
