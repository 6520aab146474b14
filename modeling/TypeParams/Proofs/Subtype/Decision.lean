/-
`Graph.assignable` decides `Graph.Assignable`.

# Soundness

A search takes pairs for granted: those it is inside of, and those it
has found related. The ones found are `Backed`: each goes by its rule,
given the others and the pairs the search is inside of. When the search
of a pair succeeds, the pair joins those found, backed by what was just
looked into (`relate_backed`); when it fails, what was found on the way
is dropped, so nothing that rested on the pair is left behind. At the
top the search is inside of nothing, and the pairs found are a relation
all of whose pairs go by their rule.

# Completeness

Rules are monotone. So a pair of the largest relation is never refused,
whatever else is taken for granted (`relate_ne_none`): its premises hold
of the largest relation, hence none of those that must hold is refused
in turn.

Both hold of a search that starts from any pairs that are in fact
related, and neither looks at the order of premises; the answer
depends on neither.
-/
import TypeParams.Proofs.Subtype.Data
import TypeParams.Proofs.Subtype.Mentions
import TypeParams.Proofs.Walks

namespace TypeParams

-- ======================================================= backed pairs

/-- What a search may use: pairs of one type, pairs assumed, pairs
found. -/
def Within (assumed : TypeId → TypeId → Prop) (found : Pairs)
    (a b : TypeId) : Prop :=
  a = b ∨ assumed a b ∨ (a, b) ∈ found

/-- Each pair found is assumed as well, or goes by its rule, given the
others. -/
def Backed (g : Graph) (assumed : TypeId → TypeId → Prop)
    (found : Pairs) : Prop :=
  ∀ a b, (a, b) ∈ found →
    assumed a b ∨ g.Step (Within assumed found) a b

/-- A search of pairs finds more, keeps what is found backed, and finds
the pair it was asked for. -/
def Backs (g : Graph) (assumed : TypeId → TypeId → Prop)
    (sub : Pairs → TypeId → TypeId → Except Fault (Option Pairs)) :
    Prop :=
  ∀ found found' a b, sub found a b = .ok (some found') →
    Backed g assumed found →
    found ⊆ found' ∧ Backed g assumed found' ∧ Within assumed found' a b

/-- More pairs found, more may be used. -/
theorem Within.mono {assumed : TypeId → TypeId → Prop}
    {found found' : Pairs} (hsub : found ⊆ found') {a b : TypeId}
    (h : Within assumed found a b) : Within assumed found' a b := by
  rcases h with h | h | h
  · exact .inl h
  · exact .inr (.inl h)
  · exact .inr (.inr (hsub h))

-- ============================================ searches are sound

section Sound

variable {g : Graph} {assumed : TypeId → TypeId → Prop}
  {sub : Pairs → TypeId → TypeId → Except Fault (Option Pairs)}
  {found found' : Pairs}

/-- A premise that a search finds to hold does hold of what the search
may use by then. -/
theorem Premise.search_backed (hsub : Backs g assumed sub)
    {premise : Premise} (hb : Backed g assumed found)
    (h : premise.search g sub found = .ok (some found')) :
    found ⊆ found' ∧ Backed g assumed found' ∧
      premise.Holds g (Within assumed found') := by
  cases premise with
  | fact holds =>
      cases holds with
      | false => simp [Premise.search, pure, Except.pure] at h
      | true =>
          simp only [Premise.search, if_true, pure_eq_ok,
            Option.some.injEq] at h
          subst h
          exact ⟨List.Subset.refl _, hb, rfl⟩
  | sub source target => exact hsub found found' source target h hb
  | data id =>
      obtain ⟨answer, hanswer, h⟩ := bind_eq_ok.mp h
      cases answer with
      | false => simp [pure, Except.pure] at h
      | true =>
          simp only [if_true, pure_eq_ok, Option.some.injEq] at h
          subst h
          exact ⟨List.Subset.refl _, hb,
            Graph.isData_eq_true_iff.mp hanswer⟩
  | notOnlyErrors id =>
      obtain ⟨answer, hanswer, h⟩ := bind_eq_ok.mp h
      cases answer with
      | true => simp [pure, Except.pure] at h
      | false =>
          simp only [Bool.false_eq_true, if_false, pure_eq_ok,
            Option.some.injEq] at h
          subst h
          exact ⟨List.Subset.refl _, hb, hanswer⟩

/-- So do premises that are searched one after the other: what the first
ones rest on is still there when the last is found. -/
theorem searchAll_backed (hsub : Backs g assumed sub)
    {premises : List Premise} (hb : Backed g assumed found)
    (h : searchAll g sub found premises = .ok (some found')) :
    found ⊆ found' ∧ Backed g assumed found' ∧
      ∀ p ∈ premises, p.Holds g (Within assumed found') := by
  induction premises generalizing found with
  | nil =>
      simp only [searchAll, Except.ok.injEq, Option.some.injEq] at h
      subst h
      exact ⟨List.Subset.refl _, hb, by simp⟩
  | cons premise premises ih =>
      obtain ⟨answer, hanswer, h⟩ := bind_eq_ok.mp h
      cases answer with
      | none => simp [pure, Except.pure] at h
      | some found₁ =>
          obtain ⟨hsub₁, hb₁, hholds⟩ :=
            Premise.search_backed hsub hb hanswer
          obtain ⟨hsub₂, hb₂, hall⟩ := ih hb₁ h
          refine ⟨List.Subset.trans hsub₁ hsub₂, hb₂, ?_⟩
          rw [List.forall_mem_cons]
          exact ⟨hholds.mono fun _ _ => Within.mono hsub₂, hall⟩

/-- Of premises one of which is enough, one holds. What was found while
others failed is dropped. -/
theorem searchAny_backed (hsub : Backs g assumed sub)
    {premises : List Premise} (hb : Backed g assumed found)
    (h : searchAny g sub found premises = .ok (some found')) :
    found ⊆ found' ∧ Backed g assumed found' ∧
      ∃ p ∈ premises, p.Holds g (Within assumed found') := by
  induction premises with
  | nil => simp [searchAny] at h
  | cons premise premises ih =>
      obtain ⟨answer, hanswer, h⟩ := bind_eq_ok.mp h
      cases answer with
      | none =>
          -- nothing of a premise that fails is kept
          obtain ⟨hsub', hb', p, hp, hholds⟩ := ih h
          exact ⟨hsub', hb', p, List.mem_cons_of_mem _ hp, hholds⟩
      | some found₁ =>
          simp only [pure_eq_ok, Option.some.injEq] at h
          subst h
          obtain ⟨hsub₁, hb₁, hholds⟩ :=
            Premise.search_backed hsub hb hanswer
          exact ⟨hsub₁, hb₁, premise, List.mem_cons_self, hholds⟩

/-- A rule that a search finds to hold does hold. -/
theorem Rule.search_backed (hsub : Backs g assumed sub) {rule : Rule}
    (hb : Backed g assumed found)
    (h : rule.search g sub found = .ok (some found')) :
    found ⊆ found' ∧ Backed g assumed found' ∧
      rule.Holds g (Within assumed found') := by
  cases rule with
  | all premises => exact searchAll_backed hsub hb h
  | any premises => exact searchAny_backed hsub hb h

end Sound

namespace Graph

variable {g : Graph} {path found : Pairs} {source target : TypeId}

/-- Past what is taken for granted, a pair is looked into by its rule,
from inside of itself. -/
theorem relate_of_nodes {s t : Node} (hne : source ≠ target)
    (hpath : (source, target) ∉ path) (hfound : (source, target) ∉ found)
    (hs : g.node? source = some s) (ht : g.node? target = some t) :
    g.relate path found source target = (do
      let found ← (Rule.of source s target t).search g
        (fun found a b => g.relate ((source, target) :: path) found a b)
        found
      return found.map ((source, target) :: ·)) := by
  rw [relate, if_neg hne, dif_neg hpath, if_neg hfound]
  split
  next hs' => simp [hs] at hs'
  next s' hs' =>
    rw [hs] at hs'
    cases hs'
    split
    next ht' => simp [ht] at ht'
    next t' ht' =>
      rw [ht] at ht'
      cases ht'
      rfl

/-- A type is related to itself, without a look at its node. -/
theorem relate_of_eq : g.relate path found source source
    = .ok (some found) := by
  rw [relate, if_pos rfl]

/-- A pair that the search is inside of is taken for granted. -/
theorem relate_of_mem_path (h : (source, target) ∈ path) :
    g.relate path found source target = .ok (some found) := by
  rw [relate]
  by_cases hne : source = target
  · rw [if_pos hne]
  · rw [if_neg hne, dif_pos h]

/-- So is a pair that was found before. -/
theorem relate_of_mem_found (h : (source, target) ∈ found) :
    g.relate path found source target = .ok (some found) := by
  rw [relate]
  by_cases hne : source = target
  · rw [if_pos hne]
  · rw [if_neg hne]
    by_cases hpath : (source, target) ∈ path
    · rw [dif_pos hpath]
    · rw [dif_neg hpath, if_pos h]

/-- Closing a pair: once its rule holds it need not be assumed any
more, being found. -/
private theorem Backed.close {assumed : TypeId → TypeId → Prop} {s t : Node}
    (hs : g.node? source = some s) (ht : g.node? target = some t)
    (hb : Backed g (fun a b => assumed a b ∨ (a, b) = (source, target))
      found)
    (hr : (Rule.of source s target t).Holds g
      (Within (fun a b => assumed a b ∨ (a, b) = (source, target))
        found)) :
    Backed g assumed ((source, target) :: found) := by
  have hwithin : ∀ a b,
      Within (fun a b => assumed a b ∨ (a, b) = (source, target)) found
        a b → Within assumed ((source, target) :: found) a b := by
    rintro a b (h | (h | h) | h)
    · exact .inl h
    · exact .inr (.inl h)
    · exact .inr (.inr (h ▸ List.mem_cons_self))
    · exact .inr (.inr (List.mem_cons_of_mem _ h))
  have hstep : g.Step (Within assumed ((source, target) :: found))
      source target := ⟨s, t, hs, ht, hr.mono hwithin⟩
  intro a b hab
  rcases List.mem_cons.mp hab with hab | hab
  · cases hab
    exact .inr hstep
  · rcases hb a b hab with (h | h) | h
    · exact .inl h
    · cases h
      exact .inr hstep
    · exact .inr (h.mono hwithin)

/-- A search that succeeds keeps what is found backed. -/
theorem relate_backed {assumed : TypeId → TypeId → Prop}
    {found' : Pairs} (hpath : ∀ a b, (a, b) ∈ path → assumed a b)
    (hb : Backed g assumed found)
    (h : g.relate path found source target = .ok (some found')) :
    found ⊆ found' ∧ Backed g assumed found' ∧
      Within assumed found' source target := by
  induction path, found, source, target using relate.induct g
    generalizing assumed found' with
  | case1 path found target =>
      rw [relate_of_eq, Except.ok.injEq, Option.some.injEq] at h
      subst h
      exact ⟨List.Subset.refl _, hb, .inl rfl⟩
  | case2 path found source target hne hmem =>
      rw [relate_of_mem_path hmem, Except.ok.injEq,
        Option.some.injEq] at h
      subst h
      exact ⟨List.Subset.refl _, hb, .inr (.inl (hpath _ _ hmem))⟩
  | case3 path found source target hne hmem hfound =>
      rw [relate_of_mem_found hfound, Except.ok.injEq,
        Option.some.injEq] at h
      subst h
      exact ⟨List.Subset.refl _, hb, .inr (.inr hfound)⟩
  | case4 path found source target hne hmem hfound hs =>
      rw [relate, if_neg hne, dif_neg hmem, if_neg hfound] at h
      split at h
      · cases h
      next s hs' => simp [hs] at hs'
  | case5 path found source target hne hmem hfound s hs ht =>
      rw [relate, if_neg hne, dif_neg hmem, if_neg hfound] at h
      split at h
      · cases h
      · split at h
        · cases h
        next t ht' => simp [ht] at ht'
  | case6 path found source target hne hmem hfound s hs t ht ih =>
      rw [relate_of_nodes hne hmem hfound hs ht] at h
      obtain ⟨answer, hanswer, h⟩ := bind_eq_ok.mp h
      cases answer with
      | none => simp [pure, Except.pure] at h
      | some found₁ =>
          simp only [Option.map_some, pure_eq_ok, Option.some.injEq] at h
          subst h
          -- inside, the pair itself is assumed
          have hb₀ : Backed g (fun a b => assumed a b ∨
              (a, b) = (source, target)) found := by
            intro a b hab
            rcases hb a b hab with h | h
            · exact .inl (.inl h)
            · refine .inr (h.mono fun x y hxy => ?_)
              rcases hxy with hxy | hxy | hxy
              · exact .inl hxy
              · exact .inr (.inl (.inl hxy))
              · exact .inr (.inr hxy)
          have hsub : Backs g (fun a b => assumed a b ∨
              (a, b) = (source, target))
              (fun found a b =>
                g.relate ((source, target) :: path) found a b) := by
            intro found found' a b h hb
            refine ih found a b ?_ hb h
            intro x y hxy
            rcases List.mem_cons.mp hxy with hxy | hxy
            · exact .inr hxy
            · exact .inl (hpath x y hxy)
          obtain ⟨hsub₁, hb₁, hholds⟩ :=
            Rule.search_backed hsub hb₀ hanswer
          exact ⟨fun p hp => List.mem_cons_of_mem _ (hsub₁ hp),
            Backed.close hs ht hb₁ hholds,
            .inr (.inr List.mem_cons_self)⟩

end Graph

-- ======================================= searches are complete

section Complete

variable {g : Graph} {R : TypeId → TypeId → Prop}
  {sub : Pairs → TypeId → TypeId → Except Fault (Option Pairs)}

/-- A premise that holds of the relation is not refused, if no pair of
the relation is. -/
theorem Premise.search_ne_none
    (hsub : ∀ found a b, R a b → sub found a b ≠ .ok none)
    {premise : Premise} (hp : premise.Holds g R) (found : Pairs) :
    premise.search g sub found ≠ .ok none := by
  cases premise with
  | fact holds =>
      cases hp
      simp [Premise.search, pure, Except.pure]
  | sub source target => exact hsub found source target hp
  | data id =>
      have hdata := Graph.isData_eq_true_iff.mpr hp
      simp [Premise.search, hdata, bind, Except.bind, pure, Except.pure]
  | notOnlyErrors id =>
      have herrors : g.onlyErrors id = .ok false := hp
      simp [Premise.search, herrors, bind, Except.bind, pure, Except.pure]

/-- Nor are several that all hold. -/
theorem searchAll_ne_none
    (hsub : ∀ found a b, R a b → sub found a b ≠ .ok none)
    {premises : List Premise} (hp : ∀ p ∈ premises, p.Holds g R)
    (found : Pairs) : searchAll g sub found premises ≠ .ok none := by
  induction premises generalizing found with
  | nil => simp [searchAll]
  | cons premise premises ih =>
      rw [List.forall_mem_cons] at hp
      intro h
      obtain ⟨answer, hanswer, h⟩ := bind_eq_ok.mp h
      cases answer with
      | none => exact Premise.search_ne_none hsub hp.1 found hanswer
      | some found₁ => exact ih hp.2 found₁ h

/-- Nor are several one of which holds. -/
theorem searchAny_ne_none
    (hsub : ∀ found a b, R a b → sub found a b ≠ .ok none)
    {premises : List Premise} (hp : ∃ p ∈ premises, p.Holds g R)
    (found : Pairs) : searchAny g sub found premises ≠ .ok none := by
  induction premises with
  | nil =>
      obtain ⟨p, hmem, -⟩ := hp
      cases hmem
  | cons premise premises ih =>
      intro h
      obtain ⟨answer, hanswer, h⟩ := bind_eq_ok.mp h
      cases answer with
      | some found₁ => simp [pure, Except.pure] at h
      | none =>
          obtain ⟨p, hmem, hholds⟩ := hp
          rcases List.mem_cons.mp hmem with rfl | hmem
          · exact Premise.search_ne_none hsub hholds found hanswer
          · exact ih ⟨p, hmem, hholds⟩ h

/-- Nor is a rule that holds. -/
theorem Rule.search_ne_none
    (hsub : ∀ found a b, R a b → sub found a b ≠ .ok none) {rule : Rule}
    (hr : rule.Holds g R) (found : Pairs) :
    rule.search g sub found ≠ .ok none := by
  cases rule with
  | all premises => exact searchAll_ne_none hsub hr found
  | any premises => exact searchAny_ne_none hsub hr found

/-- Related types are never refused, whatever is taken for granted. -/
theorem Graph.relate_ne_none {path found : Pairs}
    {source target : TypeId} (h : g.Assignable source target) :
    g.relate path found source target ≠ .ok none := by
  induction path, found, source, target using Graph.relate.induct g with
  | case1 path found target => simp [Graph.relate_of_eq]
  | case2 path found source target hne hmem =>
      simp [Graph.relate_of_mem_path hmem]
  | case3 path found source target hne hmem hfound =>
      simp [Graph.relate_of_mem_found hfound]
  | case4 path found source target hne hmem hfound hs =>
      obtain ⟨s, t, hs', -⟩ :=
        (g.consistent_assignable source target h).resolve_left hne
      rw [hs] at hs'
      cases hs'
  | case5 path found source target hne hmem hfound s hs ht =>
      obtain ⟨s', t, -, ht', -⟩ :=
        (g.consistent_assignable source target h).resolve_left hne
      rw [ht] at ht'
      cases ht'
  | case6 path found source target hne hmem hfound s hs t ht ih =>
      obtain ⟨s', t', hs', ht', hr⟩ :=
        (g.consistent_assignable source target h).resolve_left hne
      rw [hs] at hs'
      rw [ht] at ht'
      cases hs'
      cases ht'
      rw [Graph.relate_of_nodes hne hmem hfound hs ht]
      intro hnone
      obtain ⟨answer, hanswer, hnone⟩ := bind_eq_ok.mp hnone
      cases answer with
      | some found₁ => simp [pure, Except.pure] at hnone
      | none =>
          refine Rule.search_ne_none ?_ hr found hanswer
          exact fun found a b hab => ih found a b hab

end Complete

-- ======================================= searches give an answer

section Answers

variable {g : Graph} {P : TypeId → Prop}
  {sub : Pairs → TypeId → TypeId → Except Fault (Option Pairs)}

/-- A premise about types of a closed set is searched without a fault.
Error types are told without a walk, since no union is asked for them. -/
theorem Premise.search_returns (hP : g.ClosedOn P)
    (hsub : ∀ found a b, P a → P b → Returns (sub found a b))
    {premise : Premise} (hp : premise.On g P) (found : Pairs) :
    Returns (premise.search g sub found) := by
  cases premise with
  | fact holds => exact .pure _
  | sub source target =>
      rw [Premise.on_sub] at hp
      exact hsub found source target hp.1 hp.2
  | data id =>
      rw [Premise.on_data] at hp
      exact (Graph.isDataWithin_returns hP hp).bind fun _ _ => .pure _
  | notOnlyErrors id =>
      obtain ⟨-, node, hn, hunion⟩ := Premise.on_notOnlyErrors.mp hp
      exact (Graph.onlyErrors_returns_of_node hn hunion).bind
        fun _ _ => .pure _

/-- So is a rule. -/
theorem Rule.search_returns (hP : g.ClosedOn P)
    (hsub : ∀ found a b, P a → P b → Returns (sub found a b))
    {rule : Rule} (hr : ∀ p ∈ rule.premises, p.On g P) (found : Pairs) :
    Returns (rule.search g sub found) := by
  cases rule with
  | all premises =>
      change Returns (searchAll g sub found premises)
      change ∀ p ∈ premises, p.On g P at hr
      induction premises generalizing found with
      | nil => exact .ok _
      | cons premise premises ih =>
          rw [List.forall_mem_cons] at hr
          refine (Premise.search_returns hP hsub hr.1 found).bind ?_
          intro answer _
          cases answer with
          | none => exact .pure none
          | some found₁ => exact ih found₁ hr.2
  | any premises =>
      change Returns (searchAny g sub found premises)
      change ∀ p ∈ premises, p.On g P at hr
      induction premises with
      | nil => exact .ok _
      | cons premise premises ih =>
          rw [List.forall_mem_cons] at hr
          refine (Premise.search_returns hP hsub hr.1 found).bind ?_
          intro answer _
          cases answer with
          | none => exact ih hr.2
          | some found₁ => exact .pure _

/-- A search inside a closed set that has anydata and nil gives an
answer. -/
theorem Graph.relate_returns (hP : g.ClosedOn P) (hdata : P .anydata)
    (hnil : P .nil) (path found : Pairs) {source target : TypeId}
    (hs : P source) (ht : P target) :
    Returns (g.relate path found source target) := by
  induction path, found, source, target using Graph.relate.induct g with
  | case1 path found target => exact ⟨_, Graph.relate_of_eq⟩
  | case2 path found source target hne hmem =>
      exact ⟨_, Graph.relate_of_mem_path hmem⟩
  | case3 path found source target hne hmem hfound =>
      exact ⟨_, Graph.relate_of_mem_found hfound⟩
  | case4 path found source target hne hmem hfound hnone =>
      obtain ⟨node, hn, -⟩ := hP source hs
      rw [hnone] at hn
      cases hn
  | case5 path found source target hne hmem hfound s hsn hnone =>
      obtain ⟨node, hn, -⟩ := hP target ht
      rw [hnone] at hn
      cases hn
  | case6 path found source target hne hmem hfound s hsn t htn ih =>
      rw [Graph.relate_of_nodes hne hmem hfound hsn htn]
      have hmentions := Rule.on_of (t := t) hsn hs ht
        (hP.child hs hsn) (hP.child ht htn) hdata hnil
      refine (Rule.search_returns hP ?_ hmentions found).bind
        fun _ _ => .pure _
      exact fun found a b ha hb => ih found a b ha hb

end Answers

-- ========================================================= the decision

namespace Graph

variable {g : Graph} {P : TypeId → Prop} {source target : TypeId}

/-- A search from pairs that are related finds only related pairs. -/
theorem assignable_of_relate {path found found' : Pairs}
    (hassumed : ∀ p ∈ path ++ found, g.Assignable p.1 p.2)
    (h : g.relate path found source target = .ok (some found')) :
    g.Assignable source target := by
  have hpath : ∀ a b, (a, b) ∈ path → g.Assignable a b :=
    fun a b hab => hassumed (a, b) (List.mem_append_left _ hab)
  have hfound : Backed g g.Assignable found :=
    fun a b hab => .inl (hassumed (a, b) (List.mem_append_right _ hab))
  obtain ⟨-, hb, hwithin⟩ := relate_backed hpath hfound h
  -- what the search could use in the end is a consistent relation
  refine ⟨Within g.Assignable found', ?_, hwithin⟩
  have hstep : ∀ a b, g.Assignable a b →
      a = b ∨ g.Step (Within g.Assignable found') a b := by
    intro a b hab
    rcases g.consistent_assignable a b hab with h | h
    · exact .inl h
    · exact .inr (h.mono fun x y hxy => .inr (.inl hxy))
  rintro a b (hab | hab | hab)
  · exact .inl hab
  · exact hstep a b hab
  · rcases hb a b hab with h | h
    · exact hstep a b h
    · exact .inr h

/-- From pairs that are related, a search succeeds just for types that
are. -/
theorem relate_answers (hP : g.ClosedOn P) (hdata : P .anydata)
    (hnil : P .nil) (hs : P source) (ht : P target) {path found : Pairs}
    (hassumed : ∀ p ∈ path ++ found, g.Assignable p.1 p.2) :
    ∃ found', g.relate path found source target = .ok found' ∧
      (found'.isSome = true ↔ g.Assignable source target) := by
  obtain ⟨found', h⟩ := relate_returns hP hdata hnil path found hs ht
  refine ⟨found', h, ?_, ?_⟩
  · intro hsome
    obtain ⟨found₁, rfl⟩ := Option.isSome_iff_exists.mp hsome
    exact assignable_of_relate hassumed h
  · intro hassignable
    cases found' with
    | none => exact absurd h (relate_ne_none hassignable)
    | some found₁ => rfl

/-- The procedure gives an answer for any two types of a closed set that
has anydata and nil, and it is the right one. -/
theorem assignable_answers (hP : g.ClosedOn P) (hdata : P .anydata)
    (hnil : P .nil) (hs : P source) (ht : P target) :
    ∃ answer, g.assignable source target = .ok answer ∧
      (answer = true ↔ g.Assignable source target) := by
  have hnone : ∀ p ∈ ([] ++ [] : Pairs), g.Assignable p.1 p.2 := by simp
  obtain ⟨found, h, hiff⟩ := relate_answers hP hdata hnil hs ht hnone
  exact ⟨found.isSome, bind_eq_ok.mpr ⟨found, h, rfl⟩, hiff⟩

end Graph

end TypeParams
