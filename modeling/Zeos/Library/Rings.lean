import Mathlib.Data.List.Nodup
import Mathlib.Data.List.Basic
import Mathlib.Logic.Function.Basic

/-!
# Circular doubly linked lists

A memory of links gives every node a nullable `next` and a nullable `prev`
pointer.  A *ring* is a node, its head, followed by the nodes of a list and
back to the head, with `next` and `prev` inverse to each other all the way
round.  The two pointer operations below (splice a node into an edge, bypass
a node) are the only ones a list library needs; each of them is shown to act
on the sequence of one ring and to leave every ring it does not meet alone.

Nothing here depends on what the nodes are.
-/

namespace Zeos.Library

universe u v

/-- A memory of doubly linked nodes; `none` is the null pointer. -/
structure Links (ν : Type u) where
  next : ν → Option ν
  prev : ν → Option ν

namespace Links

variable {ν : Type u} [DecidableEq ν]

/-- Store to the `next` field of a node. -/
def setNext (m : Links ν) (node : ν) (value : Option ν) : Links ν :=
  { m with next := Function.update m.next node value }

/-- Store to the `prev` field of a node. -/
def setPrev (m : Links ν) (node : ν) (value : Option ν) : Links ν :=
  { m with prev := Function.update m.prev node value }

@[simp]
theorem setNext_next (m : Links ν) (node tested : ν) (value : Option ν) :
    (m.setNext node value).next tested =
      if tested = node then value else m.next tested := by
  simp [setNext, Function.update_apply]

@[simp]
theorem setNext_prev (m : Links ν) (node : ν) (value : Option ν) :
    (m.setNext node value).prev = m.prev := rfl

@[simp]
theorem setPrev_prev (m : Links ν) (node tested : ν) (value : Option ν) :
    (m.setPrev node value).prev tested =
      if tested = node then value else m.prev tested := by
  simp [setPrev, Function.update_apply]

@[simp]
theorem setPrev_next (m : Links ν) (node : ν) (value : Option ν) :
    (m.setPrev node value).next = m.next := rfl

/-- Splice `node` between the consecutive nodes `before` and `after`. -/
def splice (m : Links ν) (node before after : ν) : Links ν :=
  (((m.setPrev after (some node)).setNext node (some after)).setPrev
    node (some before)).setNext before (some node)

/-- Make `before` and `after` point at each other and clear the pointers of
the node that stood between them. -/
def bypass (m : Links ν) (node before after : ν) : Links ν :=
  (((m.setPrev after (some before)).setNext before (some after)).setNext
    node none).setPrev node none

/-- A node that points at itself in both directions. -/
def selfLoop (m : Links ν) (head : ν) : Links ν :=
  (m.setNext head (some head)).setPrev head (some head)

/-! ## Paths -/

omit [DecidableEq ν] in
/-- `left` and `right` are neighbours, in both directions. -/
def Edge (m : Links ν) (left right : ν) : Prop :=
  m.next left = some right ∧ m.prev right = some left

/-- The nodes `items` lie in order on the way from `start` to `stop`. -/
def Path (m : Links ν) : ν → List ν → ν → Prop
  | start, [], stop => m.Edge start stop
  | start, item :: items, stop => m.Edge start item ∧ m.Path item items stop

/-- The last node before the end of a path. -/
def lastOf (start : ν) : List ν → ν
  | [] => start
  | item :: items => lastOf item items

/-- The first node after the start of a path. -/
def firstOf (items : List ν) (stop : ν) : ν :=
  items.headD stop

section Paths

omit [DecidableEq ν]

theorem path_append {m : Links ν} {middle stop : ν} {back : List ν} :
    ∀ {start : ν} {front : List ν},
      m.Path start (front ++ middle :: back) stop ↔
        m.Path start front middle ∧ m.Path middle back stop
  | start, [] => Iff.rfl
  | start, item :: items => by
      have rest : m.Path item (items ++ middle :: back) stop ↔
          m.Path item items middle ∧ m.Path middle back stop := path_append
      simp only [List.cons_append, Path, rest, and_assoc]

theorem Path.next_start {m : Links ν} {start stop : ν} {items : List ν}
    (path : m.Path start items stop) :
    m.next start = some (firstOf items stop) := by
  cases items with
  | nil => exact path.1
  | cons item items => exact path.1.1

theorem Path.prev_stop {m : Links ν} {stop : ν} :
    ∀ {start : ν} {items : List ν},
      m.Path start items stop → m.prev stop = some (lastOf start items)
  | _, [], path => path.2
  | _, item :: items, path => by
      have rest : m.Path item items stop := path.2
      exact rest.prev_stop

theorem lastOf_mem (start : ν) (items : List ν) :
    lastOf start items ∈ start :: items := by
  induction items generalizing start with
  | nil => exact List.mem_singleton.mpr rfl
  | cons item items inductionHypothesis =>
      exact List.mem_cons_of_mem start (inductionHypothesis item)

/-- A path only reads the `next` field of its nodes and the `prev` field of
its nodes and its end. -/
theorem Path.congr {m m' : Links ν} {stop : ν} :
    ∀ {start : ν} {items : List ν},
      m.Path start items stop →
      (∀ node ∈ start :: items, m'.next node = m.next node) →
      (∀ node ∈ items, m'.prev node = m.prev node) →
      m'.prev stop = m.prev stop →
      m'.Path start items stop
  | start, [], path, sameNext, _, sameStop =>
      ⟨(sameNext start (List.mem_singleton.mpr rfl)).trans path.1,
        sameStop.trans path.2⟩
  | start, item :: items, path, sameNext, samePrev, sameStop => by
      refine ⟨⟨(sameNext start List.mem_cons_self).trans path.1.1,
        (samePrev item List.mem_cons_self).trans path.1.2⟩, ?_⟩
      exact Path.congr path.2
        (fun node member => sameNext node (List.mem_cons_of_mem start member))
        (fun node member => samePrev node (List.mem_cons_of_mem item member))
        sameStop

/-- Redirect the end of a path: only the edge into the old end changes. -/
theorem Path.redirect {m m' : Links ν} {stop stop' : ν} :
    ∀ {start : ν} {items : List ν},
      m.Path start items stop →
      (start :: items).Nodup →
      m'.next (lastOf start items) = some stop' →
      m'.prev stop' = some (lastOf start items) →
      (∀ node ∈ start :: items, node ≠ lastOf start items →
        m'.next node = m.next node) →
      (∀ node ∈ items, m'.prev node = m.prev node) →
      m'.Path start items stop'
  | _, [], _, _, newNext, newPrev, _, _ => ⟨newNext, newPrev⟩
  | start, item :: items, path, nodup, newNext, newPrev, sameNext, samePrev => by
      have startFresh : start ∉ item :: items := (List.nodup_cons.mp nodup).1
      have startNotLast : start ≠ lastOf item items := by
        intro same
        exact startFresh (same ▸ lastOf_mem item items)
      refine ⟨⟨?_, ?_⟩, ?_⟩
      · exact (sameNext start List.mem_cons_self startNotLast).trans path.1.1
      · exact (samePrev item List.mem_cons_self).trans path.1.2
      · exact Path.redirect path.2 (List.nodup_cons.mp nodup).2 newNext newPrev
          (fun node member =>
            sameNext node (List.mem_cons_of_mem start member))
          (fun node member =>
            samePrev node (List.mem_cons_of_mem item member))

end Paths

/-! ## Rings -/

/-- `items` is the sequence of the well-formed circular list with head
`head`. -/
structure Ring (m : Links ν) (head : ν) (items : List ν) : Prop where
  path : m.Path head items head
  nodup : (head :: items).Nodup

/-- The two memories agree on both pointers of a node. -/
def SameAt (m m' : Links ν) (node : ν) : Prop :=
  m'.next node = m.next node ∧ m'.prev node = m.prev node

namespace Ring

variable {m m' : Links ν} {head : ν} {items front back : List ν} {node : ν}

omit [DecidableEq ν] in
theorem frame (ring : m.Ring head items)
    (same : ∀ tested ∈ head :: items, m.SameAt m' tested) :
    m'.Ring head items :=
  ⟨ring.path.congr (fun tested member => (same tested member).1)
    (fun tested member => (same tested (List.mem_cons_of_mem head member)).2)
    (same head List.mem_cons_self).2, ring.nodup⟩

omit [DecidableEq ν] in
theorem next_head (ring : m.Ring head items) :
    m.next head = some (firstOf items head) :=
  ring.path.next_start

omit [DecidableEq ν] in
theorem prev_head (ring : m.Ring head items) :
    m.prev head = some (lastOf head items) :=
  ring.path.prev_stop

omit [DecidableEq ν] in
/-- The head of a ring points at itself exactly when the ring is empty. -/
theorem next_head_eq_iff (ring : m.Ring head items) :
    m.next head = some head ↔ items = [] := by
  rw [ring.next_head]
  cases items with
  | nil => simp [firstOf]
  | cons item rest =>
      have different : item ≠ head := by
        have headFresh := (List.nodup_cons.mp ring.nodup).1
        exact fun same => headFresh (same ▸ List.mem_cons_self)
      simp [firstOf, different]

omit [DecidableEq ν] in
/-- Every node of a ring has both pointers set. -/
theorem neighbours (ring : m.Ring head (front ++ node :: back)) :
    m.prev node = some (lastOf head front) ∧
      m.next node = some (firstOf back head) := by
  have parts := path_append.mp ring.path
  exact ⟨parts.1.prev_stop, parts.2.next_start⟩

theorem selfLoop_ring (m : Links ν) (head : ν) :
    (m.selfLoop head).Ring head [] :=
  ⟨⟨by simp [selfLoop], by simp [selfLoop]⟩, List.nodup_singleton head⟩

theorem sameAt_selfLoop (different : node ≠ head) :
    m.SameAt (m.selfLoop head) node := by
  simp [SameAt, selfLoop, different]

theorem sameAt_splice {before after tested : ν}
    (notNode : tested ≠ node) (notBefore : tested ≠ before)
    (notAfter : tested ≠ after) :
    m.SameAt (m.splice node before after) tested := by
  simp [SameAt, splice, notNode, notBefore, notAfter]

theorem sameAt_bypass {before after tested : ν}
    (notNode : tested ≠ node) (notBefore : tested ≠ before)
    (notAfter : tested ≠ after) :
    m.SameAt (m.bypass node before after) tested := by
  simp [SameAt, bypass, notNode, notBefore, notAfter]

omit [DecidableEq ν] in
theorem firstOf_mem (items : List ν) (head : ν) :
    firstOf items head ∈ head :: items := by
  cases items with
  | nil => exact List.mem_cons_self
  | cons item rest => exact List.mem_cons_of_mem head List.mem_cons_self

/-- Splicing a fresh node into the edge after `front` inserts it there. -/
theorem splice_ring (ring : m.Ring head (front ++ back))
    (fresh : node ∉ head :: (front ++ back)) :
    (m.splice node (lastOf head front) (firstOf back head)).Ring head
      (front ++ node :: back) := by
  have nodup : (head :: (front ++ back)).Nodup := ring.nodup
  have headFrontNodup : (head :: front).Nodup :=
    nodup.sublist (List.cons_sublist_cons.mpr (List.sublist_append_left front back))
  have lastMember := lastOf_mem head front
  have firstMember := firstOf_mem back head
  have nodeNotLast : node ≠ lastOf head front := by
    intro same
    apply fresh
    rw [same]
    simp only [List.mem_cons, List.mem_append] at lastMember ⊢
    tauto
  have nodeNotFirst : node ≠ firstOf back head := by
    intro same
    apply fresh
    rw [same]
    simp only [List.mem_cons, List.mem_append] at firstMember ⊢
    tauto
  have nodeNotFront : node ∉ head :: front := by
    intro member
    apply fresh
    simp only [List.mem_cons, List.mem_append] at member ⊢
    tauto
  have frontNotFirst : ∀ tested ∈ front, tested ≠ firstOf back head := by
    intro tested member same
    have disjoint := (List.nodup_append'.mp (List.nodup_cons.mp nodup).2).2.2
    have headFresh := (List.nodup_cons.mp nodup).1
    rw [← same] at firstMember
    rcases List.mem_cons.mp firstMember with atHead | inBack
    · exact headFresh (List.mem_append_left back (atHead ▸ member))
    · exact disjoint member inBack
  -- the front part of the ring now ends in the new node
  have redirected : ∀ stop, m.Path head front stop →
      (m.splice node (lastOf head front) (firstOf back head)).Path
        head front node := by
    intro stop path
    refine path.redirect headFrontNodup ?_ ?_ ?_ ?_
    · simp [splice]
    · simp [splice]
    · intro tested member notLast
      have notNode : tested ≠ node := fun same => nodeNotFront (same ▸ member)
      simp [splice, notLast, notNode]
    · intro tested member
      have notNode : tested ≠ node := fun same =>
        nodeNotFront (same ▸ List.mem_cons_of_mem head member)
      simp [splice, notNode, frontNotFirst tested member]
  refine ⟨path_append.mpr ?_, ?_⟩
  · cases back with
    | nil =>
        have path : m.Path head front head := by simpa using ring.path
        refine ⟨redirected head path, ?_, ?_⟩
        · simp [splice, firstOf, nodeNotLast]
        · have headNotNode : head ≠ node := fun same => fresh (by simp [same])
          simp [splice, firstOf, headNotNode]
    | cons item rest =>
        have parts := path_append.mp ring.path
        have itemNotNode : item ≠ node := fun same => fresh (by simp [same])
        refine ⟨redirected item parts.1, ⟨?_, ?_⟩, ?_⟩
        · simp [splice, nodeNotLast, firstOf]
        · simp [splice, firstOf, itemNotNode]
        · refine parts.2.congr ?_ ?_ ?_
          · intro tested member
            have notNode : tested ≠ node := fun same => fresh (by
              simp only [List.mem_cons, List.mem_append] at member ⊢
              rw [← same]
              tauto)
            have notLast : tested ≠ lastOf head front := by
              intro same
              rw [← same] at lastMember
              rcases List.mem_cons.mp lastMember with atHead | inFront
              · exact (List.nodup_cons.mp nodup).1
                  (List.mem_append_right front (atHead ▸ member))
              · exact (List.nodup_append'.mp (List.nodup_cons.mp nodup).2).2.2
                  inFront member
            simp [splice, notNode, notLast]
          · intro tested member
            have backNodup : (item :: rest).Nodup :=
              (List.nodup_append'.mp (List.nodup_cons.mp nodup).2).2.1
            have notItem : tested ≠ item := fun same =>
              (List.nodup_cons.mp backNodup).1 (same ▸ member)
            have notNode : tested ≠ node := fun same => fresh (by
              simp only [List.mem_cons, List.mem_append]
              rw [← same]
              tauto)
            simp [splice, firstOf, notNode, notItem]
          · have headNotItem : head ≠ item := fun same =>
              (List.nodup_cons.mp nodup).1 (by simp [same])
            have headNotNode : head ≠ node := fun same => fresh (by simp [same])
            simp [splice, firstOf, headNotNode, headNotItem]
  · have permutation :
        (head :: (front ++ node :: back)).Perm (node :: head :: (front ++ back)) :=
      (List.Perm.cons head List.perm_middle).trans (List.Perm.swap node head _)
    exact permutation.nodup_iff.mpr (List.nodup_cons.mpr ⟨fresh, nodup⟩)

/-- Bypassing a node of a ring removes it from the sequence. -/
theorem bypass_ring (ring : m.Ring head (front ++ node :: back)) :
    (m.bypass node (lastOf head front) (firstOf back head)).Ring head
      (front ++ back) := by
  have parts := path_append.mp ring.path
  have permutation :
      (head :: (front ++ node :: back)).Perm (node :: head :: (front ++ back)) :=
    (List.Perm.cons head List.perm_middle).trans (List.Perm.swap node head _)
  have exposed := List.nodup_cons.mp (permutation.nodup_iff.mp ring.nodup)
  have fresh : node ∉ head :: (front ++ back) := exposed.1
  have nodup : (head :: (front ++ back)).Nodup := exposed.2
  have headFrontNodup : (head :: front).Nodup :=
    nodup.sublist (List.cons_sublist_cons.mpr (List.sublist_append_left front back))
  have split := List.nodup_append'.mp (List.nodup_cons.mp nodup).2
  have headFresh := (List.nodup_cons.mp nodup).1
  have lastMember := lastOf_mem head front
  have firstMember := firstOf_mem back head
  have inRing : ∀ tested, tested ∈ head :: front ∨ tested ∈ back →
      tested ≠ node := by
    rintro tested member rfl
    apply fresh
    simp only [List.mem_cons, List.mem_append] at member ⊢
    tauto
  have lastNotNode : lastOf head front ≠ node := inRing _ (Or.inl lastMember)
  have firstNotNode : firstOf back head ≠ node := by
    rcases List.mem_cons.mp firstMember with atHead | inBack
    · exact inRing _ (Or.inl (by simp [atHead]))
    · exact inRing _ (Or.inr inBack)
  have redirected :
      (m.bypass node (lastOf head front) (firstOf back head)).Path
        head front (firstOf back head) := by
    refine parts.1.redirect headFrontNodup ?_ ?_ ?_ ?_
    · simp [bypass, lastNotNode]
    · simp [bypass, firstNotNode]
    · intro tested member notLast
      simp [bypass, notLast, inRing tested (Or.inl member)]
    · intro tested member
      have notNode := inRing tested (Or.inl (List.mem_cons_of_mem head member))
      have notFirst : tested ≠ firstOf back head := by
        intro same
        rw [← same] at firstMember
        rcases List.mem_cons.mp firstMember with atHead | inBack
        · exact headFresh (List.mem_append_left back (atHead ▸ member))
        · exact split.2.2 member inBack
      simp [bypass, notNode, notFirst]
  refine ⟨?_, nodup⟩
  cases back with
  | nil => simpa [firstOf] using redirected
  | cons item rest =>
      refine path_append.mpr ⟨redirected, parts.2.2.congr ?_ ?_ ?_⟩
      · intro tested member
        have notLast : tested ≠ lastOf head front := by
          intro same
          rw [← same] at lastMember
          rcases List.mem_cons.mp lastMember with atHead | inFront
          · exact headFresh (List.mem_append_right front (atHead ▸ member))
          · exact split.2.2 inFront member
        simp [bypass, notLast, inRing tested (Or.inr member)]
      · intro tested member
        have notItem : tested ≠ item := fun same =>
          (List.nodup_cons.mp split.2.1).1 (same ▸ member)
        have notNode :=
          inRing tested (Or.inr (List.mem_cons_of_mem item member))
        simp [bypass, firstOf, notItem, notNode]
      · have headNotItem : head ≠ item := fun same =>
          headFresh (by simp [same])
        simp [bypass, firstOf, headNotItem,
          inRing head (Or.inl List.mem_cons_self)]

end Ring

/-! ## Families of rings -/

/-- Pairwise disjoint rings, one for each active name. -/
structure Family {κ : Type v} (m : Links ν) (active : κ → Prop)
    (head : κ → ν) (items : κ → List ν) : Prop where
  ring : ∀ name, active name → m.Ring (head name) (items name)
  apart : ∀ name other, active name → active other → name ≠ other →
    (head name :: items name).Disjoint (head other :: items other)

namespace Family

variable {κ : Type v} [DecidableEq κ] {m m' : Links ν} {active : κ → Prop}
  {head : κ → ν} {items : κ → List ν} {name : κ} {node : ν}
  {front back after : List ν}

omit [DecidableEq ν] [DecidableEq κ] in
/-- Fewer rings are a family as well. -/
theorem mono {fewer : κ → Prop} (family : m.Family active head items)
    (implies : ∀ tested, fewer tested → active tested) :
    m.Family fewer head items :=
  ⟨fun tested isActive => family.ring tested (implies tested isActive),
    fun left right leftActive rightActive =>
      family.apart left right (implies left leftActive)
        (implies right rightActive)⟩

omit [DecidableEq ν] in
/-- A change of one ring, by an operation that touches no node outside it
except a fresh one, leaves a family. -/
theorem replace (family : m.Family active head items) (node : ν)
    (nameActive : active name) (ring : m'.Ring (head name) after)
    (origin : ∀ tested ∈ after, tested = node ∨ tested ∈ items name)
    (fresh : ∀ other, active other → other ≠ name →
      node ∉ head other :: items other)
    (same : ∀ tested, tested ≠ node → tested ∉ head name :: items name →
      m.SameAt m' tested) :
    m'.Family active head (Function.update items name after) := by
  have outside : ∀ other, active other → other ≠ name →
      ∀ tested ∈ head other :: items other,
        tested ≠ node ∧ tested ∉ head name :: items name := by
    intro other otherActive different tested member
    refine ⟨?_, family.apart other name otherActive nameActive different member⟩
    rintro rfl
    exact fresh other otherActive different member
  have disjoint : ∀ other, active other → other ≠ name →
      (head name :: after).Disjoint (head other :: items other) := by
    intro other otherActive different tested inName inOther
    have apart := outside other otherActive different tested inOther
    rcases List.mem_cons.mp inName with atHead | inAfter
    · exact apart.2 (atHead ▸ List.mem_cons_self)
    · rcases origin tested inAfter with isNode | wasItem
      · exact apart.1 isNode
      · exact apart.2 (List.mem_cons_of_mem (head name) wasItem)
  refine ⟨?_, ?_⟩
  · intro other otherActive
    by_cases equal : other = name
    · subst other
      simpa using ring
    · rw [Function.update_of_ne equal]
      exact (family.ring other otherActive).frame fun tested member =>
        have apart := outside other otherActive equal tested member
        same tested apart.1 apart.2
  · intro left right leftActive rightActive different
    by_cases leftEqual : left = name
    · subst left
      rw [Function.update_self, Function.update_of_ne different.symm]
      exact disjoint right rightActive different.symm
    · by_cases rightEqual : right = name
      · subst right
        rw [Function.update_self, Function.update_of_ne leftEqual]
        exact fun tested inLeft inName =>
          disjoint left leftActive leftEqual inName inLeft
      · rw [Function.update_of_ne leftEqual, Function.update_of_ne rightEqual]
        exact family.apart left right leftActive rightActive different

theorem splice (family : m.Family active head items)
    (nameActive : active name) (shape : items name = front ++ back)
    (fresh : ∀ other, active other → node ∉ head other :: items other) :
    (m.splice node (lastOf (head name) front)
        (firstOf back (head name))).Family active head
      (Function.update items name (front ++ node :: back)) := by
  have ring := family.ring name nameActive
  have nodeFresh := fresh name nameActive
  rw [shape] at ring nodeFresh
  refine family.replace node nameActive
    (ring.splice_ring nodeFresh) ?_
    (fun other otherActive _ => fresh other otherActive) ?_
  · intro tested member
    rw [shape]
    simp only [List.mem_append, List.mem_cons] at member ⊢
    tauto
  · intro tested notNode notRing
    rw [shape] at notRing
    refine Ring.sameAt_splice notNode ?_ ?_
    · rintro rfl
      apply notRing
      have member := lastOf_mem (head name) front
      simp only [List.mem_cons, List.mem_append] at member ⊢
      tauto
    · rintro rfl
      apply notRing
      have member := Ring.firstOf_mem back (head name)
      simp only [List.mem_cons, List.mem_append] at member ⊢
      tauto

theorem bypass (family : m.Family active head items)
    (nameActive : active name) (shape : items name = front ++ node :: back) :
    (m.bypass node (lastOf (head name) front)
        (firstOf back (head name))).Family active head
      (Function.update items name (front ++ back)) := by
  have ring := family.ring name nameActive
  have member : node ∈ head name :: items name := by simp [shape]
  rw [shape] at ring
  refine family.replace node nameActive ring.bypass_ring ?_ ?_ ?_
  · intro tested inAfter
    rw [shape]
    simp only [List.mem_append, List.mem_cons] at inAfter ⊢
    tauto
  · intro other otherActive different inOther
    exact family.apart other name otherActive nameActive different inOther member
  · intro tested notNode notRing
    rw [shape] at notRing
    refine Ring.sameAt_bypass notNode ?_ ?_
    · rintro rfl
      apply notRing
      have last := lastOf_mem (head name) front
      simp only [List.mem_cons, List.mem_append] at last ⊢
      tauto
    · rintro rfl
      apply notRing
      have first := Ring.firstOf_mem back (head name)
      simp only [List.mem_cons, List.mem_append] at first ⊢
      tauto

/-- Turning a node that is in no ring into an empty ring adds it. -/
theorem selfLoop (family : m.Family active head items) (name : κ)
    (fresh : ∀ other, active other → other ≠ name →
      head name ∉ head other :: items other) :
    (m.selfLoop (head name)).Family
      (fun tested => active tested ∨ tested = name) head
      (Function.update items name []) := by
  have empty := Ring.selfLoop_ring m (head name)
  refine ⟨?_, ?_⟩
  · intro other otherActive
    by_cases equal : other = name
    · subst other
      simpa using empty
    · rw [Function.update_of_ne equal]
      have wasActive := otherActive.resolve_right equal
      refine (family.ring other wasActive).frame fun tested member =>
        Ring.sameAt_selfLoop ?_
      rintro rfl
      exact fresh other wasActive equal member
  · intro left right leftActive rightActive different
    by_cases leftEqual : left = name
    · subst left
      rw [Function.update_self, Function.update_of_ne different.symm]
      have wasActive := rightActive.resolve_right different.symm
      simpa using fresh right wasActive different.symm
    · have leftWas := leftActive.resolve_right leftEqual
      by_cases rightEqual : right = name
      · subst right
        rw [Function.update_self, Function.update_of_ne leftEqual]
        intro tested inLeft inRight
        rw [List.mem_singleton.mp inRight] at inLeft
        exact fresh left leftWas leftEqual inLeft
      · rw [Function.update_of_ne leftEqual, Function.update_of_ne rightEqual]
        exact family.apart left right leftWas
          (rightActive.resolve_right rightEqual) different

end Family

end Links

end Zeos.Library
