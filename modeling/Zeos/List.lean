import Zeos.Library.Rings

/-!
# `list.c`

The list functions of the kernel over a memory of links, with a null pointer
where the C code would dereference one (`none`), and what they do to a family
of disjoint rings.
-/

namespace Zeos

open Library Links

universe u v

variable {ν : Type u} [DecidableEq ν]

/-- `INIT_LIST_HEAD`. -/
def initListHead (m : Links ν) (list : ν) : Links ν :=
  m.selfLoop list

/-- `list_add`: `__list_add(new, head, head->next)`. -/
def listAdd (m : Links ν) (new head : ν) : Option (Links ν) :=
  (m.next head).map fun next => m.splice new head next

/-- `list_add_tail`: `__list_add(new, head->prev, head)`. -/
def listAddTail (m : Links ν) (new head : ν) : Option (Links ν) :=
  (m.prev head).map fun prev => m.splice new prev head

/-- `list_del`. -/
def listDel (m : Links ν) (entry : ν) : Option (Links ν) := do
  let prev ← m.prev entry
  let next ← m.next entry
  pure (m.bypass entry prev next)

/-- `list_empty`. -/
def listEmpty (m : Links ν) (head : ν) : Bool :=
  m.next head = some head

/-- `list_first`. -/
def listFirst (m : Links ν) (head : ν) : Option ν :=
  m.next head

section Family

variable {κ : Type v} [DecidableEq κ] {m : Links ν} {active : κ → Prop}
  {head : κ → ν} {items : κ → List ν} {name : κ} {node : ν}

omit [DecidableEq κ] in
theorem listEmpty_iff (family : m.Family active head items)
    (nameActive : active name) :
    listEmpty m (head name) = true ↔ items name = [] := by
  have ring := family.ring name nameActive
  simpa [listEmpty] using ring.next_head_eq_iff

omit [DecidableEq ν] [DecidableEq κ] in
theorem listFirst_cons {rest : List ν} (family : m.Family active head items)
    (nameActive : active name) (shape : items name = node :: rest) :
    listFirst m (head name) = some node := by
  have first := (family.ring name nameActive).next_head
  rwa [shape] at first

/-- `list_add` puts an unlinked node at the front of one sequence. -/
theorem listAdd_family (family : m.Family active head items)
    (nameActive : active name)
    (fresh : ∀ other, active other → node ∉ head other :: items other) :
    ∃ m', listAdd m node (head name) = some m' ∧
      m'.Family active head
        (Function.update items name (node :: items name)) ∧
      ∀ tested, tested ≠ node → tested ∉ head name :: items name →
        m.SameAt m' tested := by
  have ring := family.ring name nameActive
  refine ⟨_, by rw [listAdd, ring.next_head]; rfl, ?_, ?_⟩
  · exact family.splice nameActive
      (show items name = [] ++ items name from rfl) fresh
  · intro tested notNode notRing
    refine Ring.sameAt_splice notNode ?_ ?_
    · rintro rfl
      exact notRing List.mem_cons_self
    · rintro rfl
      exact notRing (Ring.firstOf_mem (items name) (head name))

/-- `list_add_tail` puts an unlinked node at the back of one sequence. -/
theorem listAddTail_family (family : m.Family active head items)
    (nameActive : active name)
    (fresh : ∀ other, active other → node ∉ head other :: items other) :
    ∃ m', listAddTail m node (head name) = some m' ∧
      m'.Family active head
        (Function.update items name (items name ++ [node])) ∧
      ∀ tested, tested ≠ node → tested ∉ head name :: items name →
        m.SameAt m' tested := by
  have ring := family.ring name nameActive
  refine ⟨_, by rw [listAddTail, ring.prev_head]; rfl, ?_, ?_⟩
  · exact family.splice nameActive
      (show items name = items name ++ [] from (List.append_nil _).symm) fresh
  · intro tested notNode notRing
    refine Ring.sameAt_splice notNode ?_ ?_
    · rintro rfl
      exact notRing (lastOf_mem (head name) (items name))
    · rintro rfl
      exact notRing List.mem_cons_self

/-- `list_del` removes a linked node from its sequence and clears its
pointers. -/
theorem listDel_family (family : m.Family active head items)
    (nameActive : active name) (member : node ∈ items name) :
    ∃ m', listDel m node = some m' ∧
      m'.Family active head
        (Function.update items name ((items name).erase node)) ∧
      (m'.next node = none ∧ m'.prev node = none) ∧
      ∀ tested, tested ≠ node → tested ∉ head name :: items name →
        m.SameAt m' tested := by
  have ring := family.ring name nameActive
  obtain ⟨front, back, shape⟩ := List.append_of_mem member
  have nodup := (List.nodup_cons.mp ring.nodup).2
  rw [shape] at ring nodup
  have notFront : node ∉ front := by
    intro inFront
    exact (List.nodup_append'.mp nodup).2.2 inFront List.mem_cons_self
  have erased : (items name).erase node = front ++ back := by
    rw [shape, List.erase_append_right _ notFront, List.erase_cons_head]
  obtain ⟨previous, following⟩ := ring.neighbours
  refine ⟨m.bypass node (lastOf (head name) front)
    (firstOf back (head name)), ?_, ?_, ?_, ?_⟩
  · rw [listDel, previous, following]
    rfl
  · rw [erased]
    exact family.bypass nameActive shape
  · constructor <;> simp [bypass]
  · intro tested notNode notRing
    rw [shape] at notRing
    refine Ring.sameAt_bypass notNode ?_ ?_
    · rintro rfl
      apply notRing
      have last := lastOf_mem (head name) front
      simp only [List.mem_cons, List.mem_append] at last ⊢
      tauto
    · rintro rfl
      apply notRing
      have first := Ring.firstOf_mem back (head name)
      simp only [List.mem_cons, List.mem_append] at first ⊢
      tauto

end Family

end Zeos
