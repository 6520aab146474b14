/-
How much is left to visit. A walk over a finite collection that marks
what it has seen stops because the weight of the unseen part goes down;
`remaining` is that weight.
-/
namespace TypeParams

variable {α : Type} [DecidableEq α]

/-- The summed weight of the entries of a list that are not among those
seen. -/
def remaining (weight : α → Nat) : List α → List α → Nat
  | [], _ => 0
  | a :: all, seen =>
      (if a ∈ seen then 0 else weight a) + remaining weight all seen

theorem remaining_cons_le (weight : α → Nat) (all seen : List α) (a : α) :
    remaining weight all (a :: seen) ≤ remaining weight all seen := by
  induction all with
  | nil => simp [remaining]
  | cons b all ih =>
      simp only [remaining]
      refine Nat.add_le_add ?_ ih
      by_cases hb : b ∈ seen <;> simp [hb]
      split <;> omega

/-- Seeing an entry takes its weight off. -/
theorem remaining_cons_add_le (weight : α → Nat) {all seen : List α}
    {a : α} (ha : a ∈ all) (hs : a ∉ seen) :
    remaining weight all (a :: seen) + weight a
      ≤ remaining weight all seen := by
  induction all with
  | nil => simp at ha
  | cons b all ih =>
      have hle := remaining_cons_le weight all seen a
      simp only [remaining]
      by_cases hab : b = a
      · subst hab
        simp only [hs, List.mem_cons_self, if_true, if_false]
        omega
      · have hmem : a ∈ all :=
          (List.mem_cons.mp ha).resolve_left (Ne.symm hab)
        have := ih hmem
        simp only [List.mem_cons, hab, false_or] at this ⊢
        omega

/-- Counting entries, there is less left after one more is seen. -/
theorem remaining_cons_lt {all seen : List α} {a : α} (ha : a ∈ all)
    (hs : a ∉ seen) :
    remaining (fun _ => 1) all (a :: seen)
      < remaining (fun _ => 1) all seen :=
  remaining_cons_add_le (fun _ => 1) ha hs

end TypeParams
