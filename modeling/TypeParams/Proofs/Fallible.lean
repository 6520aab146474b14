/-
Computations that may run into a fault, opened up.

# Results, step by step

An `Except` computation that gives a result gave one at every step it is
made of (`bind_eq_ok`, `mapM_eq_ok`, `allM_eq_ok_true`). Loops over a
list are read off as relations along the list, so that later proofs go
by induction on the relation and do not unfold the loop. For a loop that
stops early only the entries up to the one it stops at are known to have
given a result; `exists_of_allM_error` says so for the fault that it
stops with.

# Equal step by step

Two computations are equal if their steps are, where a step needs to be
compared only for results that the one before it gives
(`bind_congr_ok`), and a turn of a loop only for entries of the list.

# Giving a result

The other way round, a computation all of whose steps give a result
gives one; `Returns` says that it does, and the `Returns` lemmas take a
computation apart along its steps. Where a fault is possible but not
every fault, `ReturnsOr` says which.
-/
import Mathlib.Data.List.Forall2

namespace TypeParams

variable {ε α β γ : Type}

-- ================================================= results, step by step

/-- A sequence gives a result if both of its steps do. -/
theorem bind_eq_ok {x : Except ε α} {f : α → Except ε β} {b : β} :
    (x >>= f) = .ok b ↔ ∃ a, x = .ok a ∧ f a = .ok b := by
  cases x with
  | error e => simp [bind, Except.bind]
  | ok a => simp [bind, Except.bind]

theorem pure_eq_ok {a b : α} :
    (pure a : Except ε α) = .ok b ↔ a = b := by
  simp [pure, Except.pure]

/-- A loop that collects results has one for each entry. -/
theorem mapM_eq_ok {f : α → Except ε β} {as : List α} {bs : List β} :
    as.mapM f = .ok bs ↔ List.Forall₂ (fun a b => f a = .ok b) as bs := by
  induction as generalizing bs with
  | nil =>
      rw [List.mapM_nil, pure_eq_ok, List.forall₂_nil_left_iff, eq_comm]
  | cons a as ih =>
      rw [List.mapM_cons, bind_eq_ok, List.forall₂_cons_left_iff]
      constructor
      · rintro ⟨b, hb, h⟩
        obtain ⟨bs', hbs, h⟩ := bind_eq_ok.mp h
        exact ⟨b, bs', hb, ih.mp hbs, (pure_eq_ok.mp h).symm⟩
      · rintro ⟨b, bs', hb, hbs, rfl⟩
        exact ⟨b, hb, bind_eq_ok.mpr ⟨bs', ih.mpr hbs, rfl⟩⟩

/-- Every result of a loop comes from one of its entries. -/
theorem exists_of_mem_mapM {f : α → Except ε β} {as : List α}
    {bs : List β} (h : as.mapM f = .ok bs) {b : β} (hb : b ∈ bs) :
    ∃ a ∈ as, f a = .ok b := by
  rw [mapM_eq_ok] at h
  induction h with
  | nil => cases hb
  | cons hhead _ ih =>
      rcases List.mem_cons.mp hb with rfl | hb
      · exact ⟨_, List.mem_cons_self, hhead⟩
      · obtain ⟨a, ha, hf⟩ := ih hb
        exact ⟨a, List.mem_cons_of_mem _ ha, hf⟩

/-- All entries pass just if each of them does. -/
theorem allM_eq_ok_true {f : α → Except ε Bool} {as : List α} :
    as.allM f = .ok true ↔ ∀ a ∈ as, f a = .ok true := by
  induction as with
  | nil => simp [pure, Except.pure]
  | cons a as ih =>
      rw [List.allM_cons, bind_eq_ok, List.forall_mem_cons]
      constructor
      · rintro ⟨b, hb, h⟩
        cases b with
        | false => simp [pure, Except.pure] at h
        | true => exact ⟨hb, ih.mp h⟩
      · rintro ⟨ha, has⟩
        exact ⟨true, ha, ih.mpr has⟩

/-- What every turn of a fold keeps, the fold keeps. -/
theorem foldlM_invariant {f : β → α → Except ε β} {as : List α}
    {I : β → Prop}
    (hstep : ∀ a ∈ as, ∀ b b', I b → f b a = .ok b' → I b')
    {b b' : β} (hb : I b) (h : as.foldlM f b = .ok b') : I b' := by
  induction as generalizing b with
  | nil =>
      rw [List.foldlM_nil, pure_eq_ok] at h
      exact h ▸ hb
  | cons a as ih =>
      rw [List.foldlM_cons, bind_eq_ok] at h
      obtain ⟨b₁, hb₁, h⟩ := h
      rw [List.forall_mem_cons] at hstep
      exact ih hstep.2 (hstep.1 b b₁ hb hb₁) h

/-- A loop that ends in a fault does so at an entry. The entries before
it pass. -/
theorem exists_of_allM_error {f : α → Except ε Bool} {as : List α}
    {e : ε} (h : as.allM f = .error e) :
    ∃ before a behind, as = before ++ a :: behind ∧
      (∀ b ∈ before, f b = .ok true) ∧ f a = .error e := by
  induction as with
  | nil => cases h
  | cons a as ih =>
      rw [List.allM_cons] at h
      cases hturn : f a with
      | error e' =>
          rw [hturn] at h
          cases h
          exact ⟨[], a, as, rfl, by simp, hturn⟩
      | ok passed =>
          rw [hturn] at h
          cases passed with
          | false => cases h
          | true =>
              obtain ⟨before, b, behind, rfl, hbefore, hb⟩ := ih h
              refine ⟨a :: before, b, behind, rfl, ?_, hb⟩
              exact List.forall_mem_cons.mpr ⟨hturn, hbefore⟩

-- ==================================================== equal step by step

/-- Sequences are equal if they go on alike after each result. -/
theorem bind_congr_ok {x : Except ε α} {f f' : α → Except ε β}
    (h : ∀ a, x = .ok a → f a = f' a) : (x >>= f) = (x >>= f') := by
  cases x with
  | error e => rfl
  | ok a => exact h a rfl

/-- Loops are equal if their turns are. -/
theorem mapM_congr {f f' : α → Except ε β} {as : List α}
    (h : ∀ a ∈ as, f a = f' a) : as.mapM f = as.mapM f' := by
  induction as with
  | nil => rfl
  | cons a as ih =>
      rw [List.forall_mem_cons] at h
      rw [List.mapM_cons, List.mapM_cons, h.1, ih h.2]

/-- Loops over two lists are equal if their turns are, place by place. -/
theorem mapM_of_forall₂ {f : α → Except ε γ}
    {f' : β → Except ε γ} {as : List α} {bs : List β}
    (h : List.Forall₂ (fun a b => f' b = f a) as bs) :
    bs.mapM f' = as.mapM f := by
  induction h with
  | nil => rfl
  | cons hab _ ih => rw [List.mapM_cons, List.mapM_cons, hab, ih]

/-- Tests of a list are equal if those of its entries are. -/
theorem allM_congr {f f' : α → Except ε Bool} {as : List α}
    (h : ∀ a ∈ as, f a = f' a) : as.allM f = as.allM f' := by
  induction as with
  | nil => rfl
  | cons a as ih =>
      rw [List.forall_mem_cons] at h
      rw [List.allM_cons, List.allM_cons, h.1, ih h.2]

/-- Loops are equal if their turns are, as long as no turn ends in some
fault. A loop does not look at entries after such a turn. -/
theorem allM_congr_of_ne {F : ε → Prop} {f f' : α → Except ε Bool}
    {as : List α}
    (h : ∀ a ∈ as, (∀ e, F e → f a ≠ .error e) → f' a = f a)
    (hne : ∀ e, F e → as.allM f ≠ .error e) :
    as.allM f' = as.allM f := by
  induction as with
  | nil => rfl
  | cons a as ih =>
      rw [List.forall_mem_cons] at h
      have hturn : f' a = f a := by
        refine h.1 fun e he hfault => hne e he ?_
        rw [List.allM_cons, hfault]
        rfl
      rw [List.allM_cons, List.allM_cons, hturn]
      refine bind_congr_ok fun passed hpassed => ?_
      cases passed with
      | false => rfl
      | true =>
          refine ih h.2 fun e he hfault => hne e he ?_
          rw [List.allM_cons, hpassed]
          exact hfault

/-- A loop that gives a result gives the same with other turns, unless
one of these ends in the given fault. -/
theorem allM_ok_or {f f' : α → Except ε Bool} {as : List α} {e : ε}
    (h : ∀ a ∈ as, ∀ b, f a = .ok b → f' a = .ok b ∨ f' a = .error e)
    {b : Bool} (hall : as.allM f = .ok b) :
    as.allM f' = .ok b ∨ as.allM f' = .error e := by
  induction as with
  | nil => exact .inl hall
  | cons a as ih =>
      rw [List.forall_mem_cons] at h
      rw [List.allM_cons] at hall ⊢
      obtain ⟨passed, hpassed, hall⟩ := bind_eq_ok.mp hall
      rcases h.1 passed hpassed with hturn | hturn
      · rw [hturn]
        cases passed with
        | false => exact .inl hall
        | true => exact ih h.2 hall
      · rw [hturn]
        exact .inr rfl

/-- So they are where one entry is enough. -/
theorem anyM_congr {f f' : α → Except ε Bool} {as : List α}
    (h : ∀ a ∈ as, f a = f' a) : as.anyM f = as.anyM f' := by
  induction as with
  | nil => rfl
  | cons a as ih =>
      rw [List.forall_mem_cons] at h
      rw [List.anyM_cons, List.anyM_cons, h.1, ih h.2]

/-- A test that is passed is passed by an entry. -/
theorem exists_of_anyM {f : α → Except ε Bool} {as : List α}
    (h : as.anyM f = .ok true) : ∃ a ∈ as, f a = .ok true := by
  induction as with
  | nil => cases h
  | cons a as ih =>
      rw [List.anyM_cons] at h
      obtain ⟨passed, hpassed, h⟩ := bind_eq_ok.mp h
      cases passed with
      | true => exact ⟨a, List.mem_cons_self, hpassed⟩
      | false =>
          obtain ⟨b, hb, hf⟩ := ih h
          exact ⟨b, List.mem_cons_of_mem a hb, hf⟩

/-- Folds are equal if their turns are that start with what the turns
before them may give. -/
theorem foldlM_congr {f f' : β → α → Except ε β} {as : List α}
    {I : β → Prop} (hstep : ∀ a ∈ as, ∀ b, I b → f b a = f' b a)
    (hI : ∀ a ∈ as, ∀ b b', I b → f b a = .ok b' → I b') {b : β}
    (hb : I b) : as.foldlM f b = as.foldlM f' b := by
  induction as generalizing b with
  | nil => rfl
  | cons a as ih =>
      rw [List.forall_mem_cons] at hstep hI
      rw [List.foldlM_cons, List.foldlM_cons, ← hstep.1 b hb]
      cases hturn : f b a with
      | error e => rfl
      | ok b' => exact ih hstep.2 hI.2 (hI.1 b b' hb hturn)

-- ======================================================= giving a result

/-- The computation gives a result. -/
def Returns (x : Except ε α) : Prop := ∃ a, x = .ok a

namespace Returns

theorem ok (a : α) : Returns (.ok a : Except ε α) := ⟨a, rfl⟩

theorem pure (a : α) : Returns (Pure.pure a : Except ε α) := ⟨a, rfl⟩

/-- A sequence gives a result if the second step does after each result
of the first. -/
theorem bind {x : Except ε α} {f : α → Except ε β} (hx : Returns x)
    (hf : ∀ a, x = .ok a → Returns (f a)) : Returns (x >>= f) := by
  obtain ⟨a, ha⟩ := hx
  obtain ⟨b, hb⟩ := hf a ha
  exact ⟨b, bind_eq_ok.mpr ⟨a, ha, hb⟩⟩

/-- A loop gives a result if its turns do. -/
theorem mapM {f : α → Except ε β} {as : List α}
    (h : ∀ a ∈ as, Returns (f a)) : Returns (as.mapM f) := by
  induction as with
  | nil => exact pure []
  | cons a as ih =>
      rw [List.forall_mem_cons] at h
      rw [List.mapM_cons]
      exact h.1.bind fun b _ => (ih h.2).bind fun bs _ => pure (b :: bs)

/-- So does a test of all entries. -/
theorem allM {f : α → Except ε Bool} {as : List α}
    (h : ∀ a ∈ as, Returns (f a)) : Returns (as.allM f) := by
  induction as with
  | nil => exact pure true
  | cons a as ih =>
      rw [List.forall_mem_cons] at h
      rw [List.allM_cons]
      refine h.1.bind fun b _ => ?_
      cases b with
      | false => exact pure false
      | true => exact ih h.2

/-- So does a test for any of them. -/
theorem anyM {f : α → Except ε Bool} {as : List α}
    (h : ∀ a ∈ as, Returns (f a)) : Returns (as.anyM f) := by
  induction as with
  | nil => exact pure false
  | cons a as ih =>
      rw [List.forall_mem_cons] at h
      rw [List.anyM_cons]
      refine h.1.bind fun b _ => ?_
      cases b with
      | true => exact pure true
      | false => exact ih h.2

/-- A fold gives a result if every turn does that starts with what the
turns before it may give. -/
theorem foldlM {f : β → α → Except ε β} {as : List α} {I : β → Prop}
    (hstep : ∀ a ∈ as, ∀ b, I b → Returns (f b a))
    (hI : ∀ a ∈ as, ∀ b b', I b → f b a = .ok b' → I b') {b : β}
    (hb : I b) : Returns (as.foldlM f b) := by
  induction as generalizing b with
  | nil => exact pure b
  | cons a as ih =>
      rw [List.forall_mem_cons] at hstep hI
      rw [List.foldlM_cons]
      refine (hstep.1 b hb).bind fun b' hb' => ?_
      exact ih hstep.2 hI.2 (hI.1 b b' hb hb')

end Returns

/-- The computation gives a result, or it ends in one of some faults. -/
def ReturnsOr (F : ε → Prop) (x : Except ε α) : Prop :=
  Returns x ∨ ∃ e, x = .error e ∧ F e

namespace ReturnsOr

variable {F F' : ε → Prop}

/-- More faults may be allowed for. -/
theorem mono {x : Except ε α} (h : ReturnsOr F x)
    (hF : ∀ e, F e → F' e) : ReturnsOr F' x := by
  rcases h with hx | ⟨e, he, hfault⟩
  · exact .inl hx
  · exact .inr ⟨e, he, hF e hfault⟩

/-- The faults of a sequence are those of its steps. -/
theorem bind {x : Except ε α} {f : α → Except ε β} (hx : ReturnsOr F x)
    (hf : ∀ a, x = .ok a → ReturnsOr F (f a)) :
    ReturnsOr F (x >>= f) := by
  rcases hx with ⟨a, ha⟩ | ⟨e, he, hfault⟩
  · have hrest := hf a ha
    rw [ha]
    exact hrest
  · rw [he]
    exact .inr ⟨e, rfl, hfault⟩

end ReturnsOr

end TypeParams
