import Zeos.Kernel
import Zeos.Sched.View

/-!
# Linked queues as sequences

`Threads` is the invariant of the link fields: each queue that exists is a
ring, the rings are disjoint, and a PCB in no queue has null pointers.  Under
it every list function of the kernel acts on one sequence and leaves the
others alone.
-/

namespace Zeos

open Library Links

namespace Kernel

/-- The queues that exist: the global ones, and those of the initialised
semaphores. -/
def Active (semaphores : SemId → Semaphore) : Queue → Prop
  | .semaphore n => 0 ≤ (semaphores n).ownerPID
  | _ => True

/-- The link fields thread the PCBs on disjoint rings. -/
structure Threads (links : Links Node) (semaphores : SemId → Semaphore)
    (fault : Bool) : Prop where
  family : links.Family (Active semaphores) Node.head fun q =>
    (sequence links q).map Node.pcb
  dormant : ∀ q, ¬ Active semaphores q → sequence links q = []
  loose : ∀ t, (∀ q, t ∉ sequence links q) →
    links.next (.pcb t) = none ∧ links.prev (.pcb t) = none
  noFault : fault = false

/-! ## The sequence of a list head -/

theorem walk_path {m : Links Node} {q : Queue} :
    ∀ {tasks : List TaskId} {start : Node} {fuel : Nat},
      m.Path start (tasks.map Node.pcb) (.head q) → tasks.length ≤ fuel →
      walk m fuel (m.next start) = tasks
  | [], start, fuel, path, _ => by
      rw [path.1]
      cases fuel <;> rfl
  | t :: tasks, start, fuel + 1, path, enough => by
      rw [path.1.1]
      exact congrArg (List.cons t)
        (walk_path path.2 (Nat.le_of_succ_le_succ enough))

theorem map_pcb_nodup {tasks : List TaskId} :
    (tasks.map Node.pcb).Nodup ↔ tasks.Nodup :=
  List.nodup_map_iff fun _ _ same => Node.pcb.inj same

theorem length_le_nrTasks {tasks : List TaskId} (nodup : tasks.Nodup) :
    tasks.length ≤ nrTasks := by
  simpa using nodup.length_le_card

theorem sequence_ring {m : Links Node} {q : Queue} {tasks : List TaskId}
    (ring : m.Ring (.head q) (tasks.map Node.pcb)) : sequence m q = tasks :=
  walk_path ring.path
    (length_le_nrTasks (map_pcb_nodup.mp (List.nodup_cons.mp ring.nodup).2))

/-- An empty walk stays empty when the head's pointer stays. -/
theorem sequence_nil_congr {m m' : Links Node} {q : Queue}
    (empty : sequence m q = [])
    (same : m'.next (.head q) = m.next (.head q)) : sequence m' q = [] := by
  unfold sequence at empty ⊢
  rw [same]
  cases pointer : m.next (.head q) with
  | none => rfl
  | some node =>
      cases node with
      | head r => rfl
      | pcb t =>
          rw [pointer] at empty
          cases empty

namespace Threads

variable {links links' : Links Node} {semaphores : SemId → Semaphore}
  {fault : Bool} {q : Queue} {t : TaskId} {tasks : List TaskId}

theorem active_of_mem (threads : Threads links semaphores fault)
    (member : t ∈ sequence links q) : Active semaphores q := by
  by_contra dormant
  rw [threads.dormant q dormant] at member
  cases member

/-- A PCB in no sequence is in no ring. -/
theorem fresh (loose : ∀ r, t ∉ sequence links r) (other : Queue) :
    Node.pcb t ∉ Node.head other :: (sequence links other).map Node.pcb := by
  simpa using loose other

/-- The rule behind the list operations: a change of one ring that moves at
most the PCB `t` changes one sequence. -/
theorem replace (threads : Threads links semaphores fault) (t : TaskId)
    (tasks : List TaskId)
    (family : links'.Family (Active semaphores) Node.head
      (Function.update (fun r => (sequence links r).map Node.pcb) q
        (tasks.map Node.pcb)))
    (same : ∀ node, node ≠ .pcb t →
      node ∉ Node.head q :: (sequence links q).map Node.pcb →
      links.SameAt links' node)
    (active : Active semaphores q)
    (others : ∀ u ∈ sequence links q, u = t ∨ u ∈ tasks)
    (moved : t ∈ tasks ∨
      (links'.next (.pcb t) = none ∧ links'.prev (.pcb t) = none)) :
    Threads links' semaphores false ∧
      sequence links' = Function.update (sequence links) q tasks := by
  have items : Function.update (fun r => (sequence links r).map Node.pcb) q
      (tasks.map Node.pcb) =
        fun r => (Function.update (sequence links) q tasks r).map Node.pcb := by
    funext r
    by_cases isQueue : r = q
    · simp [isQueue]
    · simp [Function.update_of_ne isQueue]
  rw [items] at family
  have sequences : sequence links' = Function.update (sequence links) q tasks := by
    funext r
    by_cases rActive : Active semaphores r
    · exact sequence_ring (family.ring r rActive)
    · have notQueue : r ≠ q := fun isQueue => rActive (isQueue ▸ active)
      rw [Function.update_of_ne notQueue, threads.dormant r rActive]
      exact sequence_nil_congr (threads.dormant r rActive)
        (same (.head r) (by simp) (by simp [notQueue])).1
  refine ⟨⟨?_, ?_, ?_, rfl⟩, sequences⟩
  · rw [sequences]
    exact family
  · intro r rDormant
    have notQueue : r ≠ q := fun isQueue => rDormant (isQueue ▸ active)
    rw [sequences, Function.update_of_ne notQueue, threads.dormant r rDormant]
  · intro u uLoose
    rw [sequences] at uLoose
    have notTasks : u ∉ tasks := by simpa using uLoose q
    by_cases isTask : u = t
    · subst isTask
      exact moved.resolve_left notTasks
    · have notQueue : u ∉ sequence links q := fun member =>
        (others u member).elim isTask notTasks
      have looseBefore : ∀ r, u ∉ sequence links r := by
        intro r
        by_cases isQueue : r = q
        · exact isQueue ▸ notQueue
        · simpa [Function.update_of_ne isQueue] using uLoose r
      have kept := same (.pcb u) (by simpa using isTask) (by simpa using notQueue)
      have before := threads.loose u looseBefore
      exact ⟨kept.1.trans before.1, kept.2.trans before.2⟩

end Threads

/-! ## The list functions on the sequences -/

/-- The scheduler's data with sequences for queues. -/
def view (s : Kernel) : View where
  queue := s.queue
  status t := (s.task t).execStatus
  context := s.context
  live := s.live
  current := s.current
  idle := s.idleTask

/-- The linked memory of `s` is in order and stands for the sequences of
`v`. -/
structure Refines (s : Kernel) (v : View) : Prop where
  threads : Threads s.links s.semaphores s.listFault
  view : s.view = v

namespace Refines

variable {s : Kernel} {v : View} {q : Queue} {t : TaskId} {rest : List TaskId}

theorem queue (refines : s.Refines v) : s.queue = v.queue :=
  congrArg View.queue refines.view

theorem self (refines : s.Refines v) : s.Refines s.view :=
  ⟨refines.threads, rfl⟩

theorem active_of_mem (refines : s.Refines v) (member : t ∈ v.queue q) :
    Active s.semaphores q := by
  rw [← refines.queue] at member
  exact refines.threads.active_of_mem member

theorem listEmpty_iff (refines : s.Refines v) (active : Active s.semaphores q) :
    s.listEmpty q = true ↔ v.queue q = [] := by
  have meaning := Zeos.listEmpty_iff refines.threads.family active
  rw [← refines.queue]
  simpa [Kernel.listEmpty, Kernel.queue] using meaning

theorem listFirst (refines : s.Refines v) (shape : v.queue q = t :: rest) :
    s.listFirst q = some t := by
  have active : Active s.semaphores q :=
    refines.active_of_mem (t := t) (by simp [shape])
  rw [← refines.queue] at shape
  have items : (sequence s.links q).map Node.pcb =
      Node.pcb t :: rest.map Node.pcb := by
    rw [show sequence s.links q = t :: rest from shape]
    rfl
  have first := Zeos.listFirst_cons refines.threads.family active items
  simp [Kernel.listFirst, first]

theorem unlinked (refines : s.Refines v) (loose : v.Loose t) :
    s.linked t = false := by
  have pointers := refines.threads.loose t fun r => by
    have notMember := loose r
    rwa [← refines.queue] at notMember
  simp [Kernel.linked, pointers]

/-- Give the queues new sequences. -/
theorem withLinks {links : Links Node} {queue : Queue → List TaskId}
    (refines : s.Refines v) (threads : Threads links s.semaphores false)
    (sequences : sequence links = queue) :
    ({ s with links := links, listFault := false } : Kernel).Refines
      { v with queue := queue } :=
  ⟨threads, by rw [← refines.view, ← sequences]; rfl⟩

theorem listAdd (refines : s.Refines v) (active : Active s.semaphores q)
    (loose : v.Loose t) :
    (s.listAdd t q).Refines
      { v with queue := Function.update v.queue q (t :: v.queue q) } := by
  have unlinked := refines.unlinked loose
  rw [← refines.queue]
  have fresh : ∀ r, t ∉ sequence s.links r := fun r => by
    have notMember := loose r
    rwa [← refines.queue] at notMember
  obtain ⟨links', result, family, same⟩ :=
    Zeos.listAdd_family refines.threads.family active
      fun other _ => Threads.fresh fresh other
  obtain ⟨threads, sequences⟩ := refines.threads.replace t
    (t :: sequence s.links q) family same active
    (fun u member => Or.inr (List.mem_cons_of_mem t member))
    (Or.inl List.mem_cons_self)
  have state : s.listAdd t q = { s with links := links', listFault := false } := by
    simp [Kernel.listAdd, result, unlinked, refines.threads.noFault]
  rw [state]
  exact refines.withLinks threads sequences

theorem listAddTail (refines : s.Refines v) (active : Active s.semaphores q)
    (loose : v.Loose t) :
    (s.listAddTail t q).Refines
      { v with queue := Function.update v.queue q (v.queue q ++ [t]) } := by
  have unlinked := refines.unlinked loose
  rw [← refines.queue]
  have fresh : ∀ r, t ∉ sequence s.links r := fun r => by
    have notMember := loose r
    rwa [← refines.queue] at notMember
  obtain ⟨links', result, family, same⟩ :=
    Zeos.listAddTail_family refines.threads.family active
      fun other _ => Threads.fresh fresh other
  have items : (sequence s.links q).map Node.pcb ++ [Node.pcb t] =
      (sequence s.links q ++ [t]).map Node.pcb := by simp
  rw [items] at family
  obtain ⟨threads, sequences⟩ := refines.threads.replace t
    (sequence s.links q ++ [t]) family same active
    (fun u member => Or.inr (List.mem_append_left [t] member))
    (Or.inl (by simp))
  have state : s.listAddTail t q =
      { s with links := links', listFault := false } := by
    simp [Kernel.listAddTail, result, unlinked, refines.threads.noFault]
  rw [state]
  exact refines.withLinks threads sequences

theorem listDel (refines : s.Refines v) (member : t ∈ v.queue q) :
    (s.listDel t).Refines (v.remove t q) := by
  have active := refines.active_of_mem member
  unfold View.remove
  rw [← refines.queue] at member ⊢
  have nodeMember : Node.pcb t ∈ (sequence s.links q).map Node.pcb :=
    List.mem_map_of_mem member
  obtain ⟨links', result, family, cleared, same⟩ :=
    Zeos.listDel_family refines.threads.family active nodeMember
  have items : ((sequence s.links q).map Node.pcb).erase (Node.pcb t) =
      ((sequence s.links q).erase t).map Node.pcb := by
    rw [List.map_erase fun _ _ same => Node.pcb.inj same]
  rw [items] at family
  obtain ⟨threads, sequences⟩ := refines.threads.replace t
    ((sequence s.links q).erase t) family same active
    (fun u uMember => by
      by_cases isTask : u = t
      · exact Or.inl isTask
      · exact Or.inr ((List.mem_erase_of_ne isTask).mpr uMember))
    (Or.inr cleared)
  have state : s.listDel t = { s with links := links', listFault := false } := by
    simp [Kernel.listDel, result, refines.threads.noFault]
  rw [state]
  exact refines.withLinks threads sequences

end Refines

end Kernel

end Zeos
