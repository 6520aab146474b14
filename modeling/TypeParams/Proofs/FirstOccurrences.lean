/-
Lists without their repetitions.

Walks that list what they meet, and unions that list their members, keep
each entry where it comes first. `FirstOccurrences` says so of two
lists, without saying how the one was made from the other, and leaves no
choice (`FirstOccurrences.unique`). Statements about the program use it
in place of a function, so that they do not depend on which function the
program happens to use.

It is what `List.eraseDups` gives (`firstOccurrences_eraseDups`); the
lemmas about that function go by the last entry of a list, which is kept
or dropped (`eraseDups_concat`). The library defines it by an
accumulator, from the front; from the back it has a plain recursion.

# Dropping repetitions early

A walk may drop repetitions as it goes along and an action may do so
again at the end. The last lemmas say that this comes to the same as
dropping them once: in front, behind, before a filter, and before a map
that may lose entries.
-/
import Mathlib.Data.List.Basic
import Mathlib.Data.List.Induction
import Mathlib.Data.List.Pairwise

namespace TypeParams

variable {α β : Type} [DecidableEq α] [DecidableEq β]

/-- The entries of the first list, each once, in the order in which they
come first there. -/
structure FirstOccurrences (all firsts : List α) : Prop where
  mem_iff : ∀ a, a ∈ firsts ↔ a ∈ all
  order : firsts.Pairwise fun a b => all.idxOf a < all.idxOf b

/-- No entry is kept twice. -/
theorem FirstOccurrences.nodup {all firsts : List α}
    (h : FirstOccurrences all firsts) : firsts.Nodup := by
  refine h.order.imp ?_
  rintro a b hlt rfl
  exact Nat.lt_irrefl _ hlt

/-- There is one such list. -/
theorem FirstOccurrences.unique {all firsts firsts' : List α}
    (h : FirstOccurrences all firsts) (h' : FirstOccurrences all firsts') :
    firsts = firsts' := by
  refine List.Perm.eq_of_pairwise ?_ h.order h'.order ?_
  · intro a b _ _ hab hba
    exact absurd hba (Nat.lt_asymm hab)
  · refine (List.perm_ext_iff_of_nodup h.nodup h'.nodup).mpr fun a => ?_
    rw [h.mem_iff, h'.mem_iff]

-- =================================================== entry after entry

/-- A last entry is dropped if it came before. -/
theorem eraseDups_concat (l : List α) (a : α) :
    (l ++ [a]).eraseDups
      = if a ∈ l then l.eraseDups else l.eraseDups ++ [a] := by
  rw [List.eraseDups_append]
  by_cases ha : a ∈ l <;> simp [List.removeAll, List.eraseDups_cons, ha]

/-- Erasing repetitions keeps each entry where it comes first. -/
theorem firstOccurrences_eraseDups (l : List α) :
    FirstOccurrences l l.eraseDups := by
  refine ⟨fun a => List.mem_eraseDups, ?_⟩
  induction l using List.reverseRecOn with
  | nil => exact .nil
  | append_singleton l a ih =>
      -- entries that were there keep their place
      have hbefore : ∀ b ∈ l, (l ++ [a]).idxOf b = l.idxOf b := by
        intro b hb
        rw [List.idxOf_append, if_pos hb]
      have hkept : l.eraseDups.Pairwise
          fun b c => (l ++ [a]).idxOf b < (l ++ [a]).idxOf c := by
        refine ih.imp_of_mem fun hb hc hlt => ?_
        rw [hbefore _ (List.mem_eraseDups.mp hb),
          hbefore _ (List.mem_eraseDups.mp hc)]
        exact hlt
      rw [eraseDups_concat]
      by_cases ha : a ∈ l
      · rw [if_pos ha]
        exact hkept
      · rw [if_neg ha, List.pairwise_append]
        refine ⟨hkept, List.pairwise_singleton _ _, ?_⟩
        intro b hb c hc
        have hb := List.mem_eraseDups.mp hb
        rw [List.mem_singleton.mp hc, hbefore b hb, List.idxOf_append,
          if_neg ha]
        exact Nat.lt_of_lt_of_le (List.idxOf_lt_length_of_mem hb)
          (Nat.le_add_left _ _)

/-- Where nothing is repeated nothing is erased. -/
theorem eraseDups_of_nodup {l : List α} (h : l.Nodup) :
    l.eraseDups = l := by
  induction l using List.reverseRecOn with
  | nil => rfl
  | append_singleton l a ih =>
      obtain ⟨hl, -, hdisjoint⟩ := List.nodup_append.mp h
      have ha : a ∉ l := fun ha =>
        hdisjoint a ha a (List.mem_singleton.mpr rfl) rfl
      rw [eraseDups_concat, if_neg ha, ih hl]

-- ============================================ repetitions dropped before

/-- Nothing changes if repetitions in front were dropped before. -/
theorem eraseDups_eraseDups_append (l m : List α) :
    (l.eraseDups ++ m).eraseDups = (l ++ m).eraseDups := by
  induction m using List.reverseRecOn with
  | nil =>
      rw [List.append_nil, List.append_nil]
      exact eraseDups_of_nodup (firstOccurrences_eraseDups l).nodup
  | append_singleton m a ih =>
      rw [← List.append_assoc, ← List.append_assoc, eraseDups_concat,
        eraseDups_concat, ih]
      simp only [List.mem_append, List.mem_eraseDups]

/-- Repetitions behind are dropped. -/
theorem eraseDups_append_of_subset {l m : List α} (h : m ⊆ l) :
    (l ++ m).eraseDups = l.eraseDups := by
  induction m using List.reverseRecOn with
  | nil => rw [List.append_nil]
  | append_singleton m a ih =>
      rw [List.append_subset, List.cons_subset] at h
      rw [← List.append_assoc, eraseDups_concat,
        if_pos (List.mem_append_left _ h.2.1), ih h.1]

/-- Erasing repetitions and filtering can be done in either order. -/
theorem eraseDups_filter (p : α → Bool) (l : List α) :
    (l.filter p).eraseDups = l.eraseDups.filter p := by
  induction l using List.reverseRecOn with
  | nil => rfl
  | append_singleton l a ih =>
      rw [List.filter_append, eraseDups_concat]
      by_cases hp : p a = true
      · rw [List.filter_cons_of_pos hp, List.filter_nil,
          eraseDups_concat, ih]
        by_cases ha : a ∈ l <;> simp [ha, hp]
      · rw [List.filter_cons_of_neg hp, List.filter_nil,
          List.append_nil, ih]
        by_cases ha : a ∈ l <;> simp [ha, hp]

/-- Nothing changes if repetitions are erased before a map as well,
since what the map makes of a repetition is a repetition. -/
theorem eraseDups_filterMap_eraseDups (f : α → Option β) (l : List α) :
    (l.eraseDups.filterMap f).eraseDups = (l.filterMap f).eraseDups := by
  induction l using List.reverseRecOn with
  | nil => rfl
  | append_singleton l a ih =>
      rw [List.filterMap_append, eraseDups_concat]
      cases hf : f a with
      | none =>
          rw [List.filterMap_cons_none hf, List.filterMap_nil,
            List.append_nil, ← ih]
          by_cases ha : a ∈ l <;> simp [ha, hf]
      | some b =>
          have hmem : b ∈ l.eraseDups.filterMap f ↔ b ∈ l.filterMap f := by
            simp only [List.mem_filterMap, List.mem_eraseDups]
          rw [List.filterMap_cons_some hf, List.filterMap_nil,
            eraseDups_concat]
          by_cases ha : a ∈ l
          · -- what comes of an entry came of it before
            have hb : b ∈ l.filterMap f :=
              List.mem_filterMap.mpr ⟨a, ha, hf⟩
            rw [if_pos ha, if_pos hb, ih]
          · rw [if_neg ha, List.filterMap_append,
              List.filterMap_cons_some hf, List.filterMap_nil,
              eraseDups_concat, ih]
            simp only [hmem]

end TypeParams
