import Mathlib

/-!
# Places that hold resources

A pool of resources, some of them in use, and places that each hold at most
one of them.  `Exclusive` says that what is held is in use and held once;
`Covered` says that what is in use is exempt or held at a counted place.

A place can acquire a fresh resource, be vacated while its resource stays in
use, or surrender its resource to the pool.
-/

namespace Zeos.Library

universe u v

@[ext]
structure Holdings (π : Type u) (ρ : Type v) where
  held : π → Option ρ
  used : ρ → Prop

namespace Holdings

variable {π : Type u} {ρ : Type v} [DecidableEq π] {h h' : Holdings π ρ}
  {p q : π} {r : ρ}

/-- A place receives a resource, which is in use from now on. -/
def acquire (h : Holdings π ρ) (p : π) (r : ρ) : Holdings π ρ where
  held := Function.update h.held p (some r)
  used x := x = r ∨ h.used x

/-- A place is emptied; what it held stays in use. -/
def vacate (h : Holdings π ρ) (p : π) : Holdings π ρ where
  held := Function.update h.held p none
  used := h.used

/-- A place is emptied, and what it held goes back to the pool. -/
def surrender (h : Holdings π ρ) (p : π) : Holdings π ρ where
  held := Function.update h.held p none
  used x := h.used x ∧ h.held p ≠ some x

def vacateAll (places : List π) (h : Holdings π ρ) : Holdings π ρ :=
  places.foldl vacate h

def surrenderAll (places : List π) (h : Holdings π ρ) : Holdings π ρ :=
  places.foldl surrender h

@[simp]
theorem acquire_self : (h.acquire p r).held p = some r := by
  simp [acquire]

theorem acquire_of_ne (different : q ≠ p) :
    (h.acquire p r).held q = h.held q := by
  simp [acquire, different]

@[simp]
theorem vacate_self : (h.vacate p).held p = none := by
  simp [vacate]

theorem vacate_of_ne (different : q ≠ p) : (h.vacate p).held q = h.held q := by
  simp [vacate, different]

theorem vacateAll_cons (places : List π) :
    vacateAll (p :: places) h = vacateAll places (h.vacate p) :=
  rfl

theorem surrenderAll_cons (places : List π) :
    surrenderAll (p :: places) h = surrenderAll places (h.surrender p) :=
  rfl

theorem vacateAll_held (places : List π) (h : Holdings π ρ) (q : π) :
    (vacateAll places h).held q = if q ∈ places then none else h.held q := by
  induction places generalizing h with
  | nil => simp [vacateAll]
  | cons p places inductionHypothesis =>
      rw [vacateAll_cons, inductionHypothesis]
      by_cases same : q = p
      · subst same
        simp
      · simp [same, vacate_of_ne]

theorem vacateAll_used (places : List π) (h : Holdings π ρ) :
    (vacateAll places h).used = h.used := by
  induction places generalizing h with
  | nil => rfl
  | cons p places inductionHypothesis => exact inductionHypothesis (h.vacate p)

theorem surrenderAll_held (places : List π) (h : Holdings π ρ) (q : π) :
    (surrenderAll places h).held q = if q ∈ places then none else h.held q := by
  induction places generalizing h with
  | nil => simp [surrenderAll]
  | cons p places inductionHypothesis =>
      rw [surrenderAll_cons, inductionHypothesis]
      by_cases same : q = p
      · subst same
        simp [surrender]
      · simp [same, surrender]

/-- What was held at the surrendered places is free afterwards. -/
theorem surrenderAll_used (places : List π) (h : Holdings π ρ) (r : ρ) :
    (surrenderAll places h).used r ↔
      h.used r ∧ ∀ p ∈ places, h.held p ≠ some r := by
  induction places generalizing h with
  | nil => simp [surrenderAll]
  | cons p places inductionHypothesis =>
      rw [surrenderAll_cons, inductionHypothesis]
      have others : ∀ q, q ≠ p → (h.surrender p).held q = h.held q := by
        intro q different
        simp [surrender, different]
      constructor
      · rintro ⟨⟨used, own⟩, rest⟩
        refine ⟨used, List.forall_mem_cons.mpr ⟨own, fun q member holds => ?_⟩⟩
        by_cases same : q = p
        · exact own (same ▸ holds)
        · exact rest q member ((others q same).trans holds)
      · rintro ⟨used, all⟩
        have own := all p List.mem_cons_self
        refine ⟨⟨used, own⟩, fun q member holds => ?_⟩
        by_cases same : q = p
        · subst same
          simp [surrender] at holds
        · apply all q (List.mem_cons_of_mem p member)
          exact (others q same).symm.trans holds

/-! ## Exclusive holdings -/

structure Exclusive (h : Holdings π ρ) : Prop where
  valid : ∀ p r, h.held p = some r → h.used r
  single : ∀ p q r, h.held p = some r → h.held q = some r → p = q

namespace Exclusive

omit [DecidableEq π] in
/-- Holdings that lost places and lost no resource that is still held. -/
theorem mono (exclusive : h.Exclusive)
    (held : ∀ p r, h'.held p = some r → h.held p = some r)
    (used : ∀ p r, h'.held p = some r → h.used r → h'.used r) :
    h'.Exclusive where
  valid p r holds := used p r holds (exclusive.valid p r (held p r holds))
  single p q r first second :=
    exclusive.single p q r (held p r first) (held q r second)

theorem acquire (exclusive : h.Exclusive) (fresh : ¬ h.used r) (p : π) :
    (h.acquire p r).Exclusive := by
  have notHeld : ∀ q, h.held q ≠ some r := fun q holds =>
    fresh (exclusive.valid q r holds)
  constructor
  · intro q x holds
    by_cases same : q = p
    · subst same
      rw [acquire_self, Option.some_inj] at holds
      exact Or.inl holds.symm
    · rw [acquire_of_ne same] at holds
      exact Or.inr (exclusive.valid q x holds)
  · intro q q' x first second
    by_cases same : q = p
    · subst same
      rw [acquire_self, Option.some_inj] at first
      subst first
      by_contra different
      rw [acquire_of_ne (Ne.symm different)] at second
      exact notHeld q' second
    · rw [acquire_of_ne same] at first
      by_cases same' : q' = p
      · subst same'
        rw [acquire_self, Option.some_inj] at second
        subst second
        exact absurd first (notHeld q)
      · rw [acquire_of_ne same'] at second
        exact exclusive.single q q' x first second

theorem vacateAll (exclusive : h.Exclusive) (places : List π) :
    (vacateAll places h).Exclusive := by
  apply exclusive.mono
  · intro p r holds
    rw [vacateAll_held] at holds
    split_ifs at holds
    exact holds
  · intro p r _ used
    rw [vacateAll_used]
    exact used

theorem surrenderAll (exclusive : h.Exclusive) (places : List π) :
    (surrenderAll places h).Exclusive := by
  have held : ∀ p r, (Holdings.surrenderAll places h).held p = some r →
      p ∉ places ∧ h.held p = some r := by
    intro p r holds
    rw [surrenderAll_held] at holds
    split_ifs at holds with member
    exact ⟨member, holds⟩
  apply exclusive.mono
  · intro p r holds
    exact (held p r holds).2
  · intro p r holds used
    obtain ⟨outside, before⟩ := held p r holds
    rw [surrenderAll_used]
    refine ⟨used, fun q member other => outside ?_⟩
    rw [exclusive.single p q r before other]
    exact member

end Exclusive

/-! ## Reserved resources -/

/-- In use and held nowhere. -/
def Reserved (h : Holdings π ρ) (r : ρ) : Prop :=
  h.used r ∧ ∀ p, h.held p ≠ some r

namespace Reserved

omit [DecidableEq π] in
/-- What becomes held was held or free, so it was not reserved. -/
theorem mono (reserved : h.Reserved r) (used : h.used r → h'.used r)
    (held : ∀ p, h'.held p = some r → h.held p = some r ∨ ¬ h.used r) :
    h'.Reserved r := by
  refine ⟨used reserved.1, fun p holds => ?_⟩
  rcases held p holds with before | free
  · exact reserved.2 p before
  · exact free reserved.1

theorem vacateAll (reserved : h.Reserved r) (places : List π) :
    (vacateAll places h).Reserved r := by
  refine reserved.mono (fun used => by rwa [vacateAll_used]) fun p holds => Or.inl ?_
  rw [vacateAll_held] at holds
  split_ifs at holds
  exact holds

/-- Only what is held goes back to the pool. -/
theorem surrenderAll (reserved : h.Reserved r) (places : List π) :
    (surrenderAll places h).Reserved r := by
  refine reserved.mono (fun used => ?_) fun p holds => Or.inl ?_
  · exact (surrenderAll_used places h r).mpr ⟨used, fun p _ => reserved.2 p⟩
  · rw [surrenderAll_held] at holds
    split_ifs at holds
    exact holds

end Reserved

/-! ## Covered holdings -/

/-- Every resource in use is exempt or held at a counted place. -/
def Covered (h : Holdings π ρ) (counted : π → Prop) (exempt : ρ → Prop) : Prop :=
  ∀ r, h.used r → exempt r ∨ ∃ p, counted p ∧ h.held p = some r

/-- What is held at a dropped place is also held at a counted place that is
not dropped. -/
def Spared (h : Holdings π ρ) (counted dropped : π → Prop) : Prop :=
  ∀ p r, dropped p → h.held p = some r → h.used r →
    ∃ q, counted q ∧ ¬ dropped q ∧ h.held q = some r

omit [DecidableEq π] in
/-- A step keeps resources covered when the places it drops are spared, the
other places keep what stays in use, and what it takes into use is held. -/
theorem Covered.step {counted counted' dropped : π → Prop} {exempt : ρ → Prop}
    (covered : h.Covered counted exempt) (spared : h.Spared counted dropped)
    (kept : ∀ p r, counted p → ¬ dropped p → h.held p = some r → h'.used r →
      counted' p ∧ h'.held p = some r)
    (fresh : ∀ r, h'.used r → ¬ h.used r →
      ∃ p, counted' p ∧ h'.held p = some r) :
    h'.Covered counted' exempt := by
  intro r used
  by_cases before : h.used r
  · rcases covered r before with isExempt | ⟨p, isCounted, holds⟩
    · exact Or.inl isExempt
    · by_cases isDropped : dropped p
      · obtain ⟨q, qCounted, qKept, qHolds⟩ := spared p r isDropped holds before
        exact Or.inr ⟨q, kept q r qCounted qKept qHolds used⟩
      · exact Or.inr ⟨p, kept p r isCounted isDropped holds used⟩
  · exact Or.inr (fresh r used before)

end Holdings

end Zeos.Library
