import Zeos.Sched.Turns

/-!
# One slot of the semaphore table

What a step does to one semaphore and to its queue.
-/

namespace Zeos

namespace View

variable {v : View} {q : Queue} {t child : TaskId} {st : State}
  {context : Context} {n : SemId}

theorem dispatch_semaphore :
    (v.dispatch context).queue (.semaphore n) = v.queue (.semaphore n) := by
  simp [dispatch]

theorem yield_semaphore :
    (v.yield q st context).queue (.semaphore n) =
      if q = .semaphore n then v.queue (.semaphore n) ++ [v.current]
      else v.queue (.semaphore n) := by
  unfold yield
  rw [dispatch_semaphore]
  by_cases same : q = .semaphore n
  · simp [place, same]
  · simp [place, same, Ne.symm same]

theorem serve_semaphore :
    (v.serve t).queue (.semaphore n) = v.queue (.semaphore n) := by
  simp [serve, dispatch, wake, place, remove]

theorem comeBack_semaphore :
    (v.comeBack context).queue (.semaphore n) = v.queue (.semaphore n) := by
  simp [comeBack, dispatch, place]

theorem create_semaphore :
    (v.create child context).queue (.semaphore n) = v.queue (.semaphore n) := by
  simp [create, place, remove]

theorem recycle_semaphore :
    (v.recycle child st context).queue (.semaphore n) =
      v.queue (.semaphore n) := by
  simp [recycle]

theorem retire_semaphore :
    v.retire.queue (.semaphore n) = v.queue (.semaphore n) := by
  simp [retire, place]

theorem wake_semaphore {m : SemId} :
    (v.wake t (.semaphore m)).queue (.semaphore n) =
      if n = m then (v.queue (.semaphore n)).erase t
      else v.queue (.semaphore n) := by
  by_cases same : n = m
  · simp [wake, place, remove, same]
  · simp [wake, place, remove, same]

end View

namespace Kernel

variable {s s' : Kernel} {event : Event} {n : SemId}

/-- The effect of an event on the semaphore `n` and on its queue. -/
inductive SlotTurn (s : Kernel) (n : SemId) : Event → Kernel → Prop
  | untouched {event : Event} {s' : Kernel} :
      (∀ nSem, event = .syscall (.semSignal nSem) → semIndex nSem = some n →
        (s.semaphores n).ownerPID < 0) →
      s'.semaphores n = s.semaphores n →
      s'.queue (.semaphore n) = s.queue (.semaphore n) →
      SlotTurn s n event s'
  | took {nSem : Int32} {s' : Kernel} :
      semIndex nSem = some n →
      0 ≤ (s.semaphores n).ownerPID →
      0 < (s.semaphores n).counter →
      s'.semaphores n = { s.semaphores n with
        counter := (s.semaphores n).counter - 1 } →
      s'.queue (.semaphore n) = s.queue (.semaphore n) →
      SlotTurn s n (.syscall (.semWait nSem)) s'
  | waited {nSem : Int32} {s' : Kernel} :
      semIndex nSem = some n →
      0 ≤ (s.semaphores n).ownerPID →
      (s.semaphores n).counter ≤ 0 →
      s'.semaphores n = s.semaphores n →
      s'.queue (.semaphore n) = s.queue (.semaphore n) ++ [s.current] →
      s'.context s.current = .semWait n (s.semaphores n).semID →
      SlotTurn s n (.syscall (.semWait nSem)) s'
  | raised {nSem : Int32} {s' : Kernel} :
      semIndex nSem = some n →
      0 ≤ (s.semaphores n).ownerPID →
      s.queue (.semaphore n) = [] →
      s'.semaphores n = { s.semaphores n with
        counter := int32 ((s.semaphores n).counter + 1) } →
      s'.queue (.semaphore n) = [] →
      SlotTurn s n (.syscall (.semSignal nSem)) s'
  | woke {nSem : Int32} {t : TaskId} {s' : Kernel} :
      semIndex nSem = some n →
      0 ≤ (s.semaphores n).ownerPID →
      s.queue (.semaphore n) = t :: s'.queue (.semaphore n) →
      s'.semaphores n = s.semaphores n →
      SlotTurn s n (.syscall (.semSignal nSem)) s'
  | opened {nSem : Int32} {value : UInt32} {s' : Kernel} :
      (s.semaphores n).ownerPID < 0 →
      s'.semaphores n = ⟨s.currentTask.pid, int32 value.toNat,
        int32 (s.globalSemID + 1)⟩ →
      s'.queue (.semaphore n) = [] →
      s'.globalSemID = int32 (s.globalSemID + 1) →
      SlotTurn s n (.syscall (.semInit nSem value)) s'
  | closed {event : Event} {s' : Kernel} :
      (∀ nSem, event ≠ .syscall (.semSignal nSem)) →
      0 ≤ (s.semaphores n).ownerPID →
      (s'.semaphores n).ownerPID < 0 →
      s'.queue (.semaphore n) = [] →
      SlotTurn s n event s'

/-- A step that is no signal leaves an untouched semaphore as it was. -/
theorem SlotTurn.away (notSignal : ∀ nSem, event ≠ .syscall (.semSignal nSem))
    (semaphore : s'.semaphores n = s.semaphores n)
    (queue : s'.queue (.semaphore n) = s.queue (.semaphore n)) :
    SlotTurn s n event s' :=
  .untouched (fun nSem isSignal => absurd isSignal (notSignal nSem)) semaphore
    queue

/-- The ID of a slot stays while its owner does, unless the slot is opened or
closed. -/
theorem SlotTurn.semID (turn : SlotTurn s n event s') :
    ((s'.semaphores n).semID = (s.semaphores n).semID ∧
        (s'.semaphores n).ownerPID = (s.semaphores n).ownerPID) ∨
      ((s.semaphores n).ownerPID < 0 ∧
        (s'.semaphores n).semID = int32 (s.globalSemID + 1) ∧
        s'.globalSemID = int32 (s.globalSemID + 1)) ∨
      (0 ≤ (s.semaphores n).ownerPID ∧ (s'.semaphores n).ownerPID < 0) := by
  have kept : s'.semaphores n = s.semaphores n →
      (s'.semaphores n).semID = (s.semaphores n).semID ∧
        (s'.semaphores n).ownerPID = (s.semaphores n).ownerPID := by
    intro semaphore
    rw [semaphore]
    exact ⟨rfl, rfl⟩
  cases turn with
  | untouched _ semaphore _ => exact Or.inl (kept semaphore)
  | took _ _ _ semaphore _ => exact Or.inl (by rw [semaphore]; exact ⟨rfl, rfl⟩)
  | waited _ _ _ semaphore _ _ => exact Or.inl (kept semaphore)
  | raised _ _ _ semaphore _ => exact Or.inl (by rw [semaphore]; exact ⟨rfl, rfl⟩)
  | woke _ _ _ semaphore => exact Or.inl (kept semaphore)
  | opened unused semaphore _ incremented =>
      exact Or.inr (Or.inl ⟨unused, by rw [semaphore], incremented⟩)
  | closed _ used unused _ => exact Or.inr (Or.inr ⟨used, unused⟩)

/-- Every step is one of these for each slot. -/
theorem Turn.slot (turn : Turn s event s') (orderly : s.Orderly) (n : SemId) :
    SlotTurn s n event s' := by
  have queueOf : ∀ {v : View}, s'.view = v →
      s'.queue (.semaphore n) = v.queue (.semaphore n) := fun view =>
    congrFun (congrArg View.queue view) _
  have semOf : s.KeepsSems s' → s'.semaphores n = s.semaphores n := fun kept =>
    congrFun kept.semaphores n
  cases turn with
  | stays silent view kept _ =>
      apply SlotTurn.untouched _ (semOf kept) (queueOf view)
      rintro nSem rfl slot
      exact silent n slot
  | preempted _ view kept _ =>
      apply SlotTurn.away (by simp) (semOf kept)
      rw [queueOf view, View.yield_semaphore, if_neg (by simp)]
      rfl
  | served _ view kept _ =>
      apply SlotTurn.away (by simp) (semOf kept)
      rw [queueOf view, View.serve_semaphore]
      rfl
  | asked _ _ view kept _ =>
      apply SlotTurn.away (by simp) (semOf kept)
      rw [queueOf view, View.arrive, View.yield_semaphore, if_neg (by simp)]
      rfl
  | again _ _ _ view kept _ =>
      apply SlotTurn.away (by simp) (semOf kept)
      rw [queueOf view, View.comeBack_semaphore]
      rfl
  | @took nSem m _ slot used positive view sets _ _ =>
      have semaphore := congrFun sets.semaphores n
      by_cases same : n = m
      · subst same
        rw [Function.update_self] at semaphore
        exact .took slot used positive semaphore (queueOf view)
      · rw [Function.update_of_ne same] at semaphore
        exact .away (by simp) semaphore (queueOf view)
  | @waited nSem m _ slot _ used short view kept _ =>
      have queue := queueOf view
      rw [View.yield_semaphore] at queue
      by_cases same : n = m
      · subst same
        rw [if_pos rfl] at queue
        apply SlotTurn.waited slot used short (semOf kept) queue
        have context := congrArg View.context view
        exact (congrFun context s.current).trans (Function.update_self _ _ _)
      · rw [if_neg (by simpa using Ne.symm same)] at queue
        exact .away (by simp) (semOf kept) queue
  | @raised nSem m _ slot used empty view sets _ _ =>
      have semaphore := congrFun sets.semaphores n
      by_cases same : n = m
      · subst same
        rw [Function.update_self] at semaphore
        exact .raised slot used empty semaphore ((queueOf view).trans empty)
      · rw [Function.update_of_ne same] at semaphore
        apply SlotTurn.untouched _ semaphore (queueOf view)
        intro _ isSignal sameSlot
        cases isSignal
        rw [slot] at sameSlot
        cases sameSlot
        exact absurd rfl same
  | @woke nSem m t rest _ slot _ used shape view kept _ =>
      have queue := queueOf view
      rw [View.wake_semaphore] at queue
      by_cases same : n = m
      · subst same
        have before : s.view.queue (.semaphore n) = t :: rest := shape
        rw [if_pos rfl, before, List.erase_cons_head] at queue
        have taken : s.queue (.semaphore n) = t :: s'.queue (.semaphore n) := by
          rw [queue]
          exact shape
        exact .woke slot used taken (semOf kept)
      · rw [if_neg same] at queue
        apply SlotTurn.untouched _ (semOf kept) queue
        intro _ isSignal sameSlot
        cases isSignal
        rw [slot] at sameSlot
        cases sameSlot
        exact absurd rfl same
  | @opened nSem m value _ slot unused view sets globalSemID _ =>
      have semaphore := congrFun sets.semaphores n
      by_cases same : n = m
      · subst same
        rw [Function.update_self] at semaphore
        refine SlotTurn.opened unused semaphore ?_ globalSemID
        rw [queueOf view]
        apply orderly.refines.threads.dormant
        change ¬ 0 ≤ (s.semaphores n).ownerPID
        omega
      · rw [Function.update_of_ne same] at semaphore
        exact .away (by simp) semaphore (queueOf view)
  | @destroyed nSem m _ slot _ used _ released sets _ _ =>
      have semaphore := congrFun sets.semaphores n
      by_cases same : n = m
      · subst same
        rw [Function.update_self] at semaphore
        apply SlotTurn.closed (by simp) used _ (released.emptied n rfl)
        rw [semaphore]
        exact (by decide : (-1 : Int) < 0)
      · rw [Function.update_of_ne same] at semaphore
        apply SlotTurn.away (by simp) semaphore
        apply released.others _ (by simp)
        rintro k rfl isSame
        cases isSame
        exact same rfl
  | @exited v _ _ released view semaphores _ _ _ _ =>
      have queue := queueOf view
      rw [View.dispatch_semaphore, View.retire_semaphore] at queue
      have semaphore := semaphores n
      by_cases owned : s.Owned n
      · rw [if_pos owned] at semaphore
        apply SlotTurn.closed (by simp) owned.1 _ (queue.trans (released.emptied n owned))
        rw [semaphore]
        exact (by decide : (-1 : Int) < 0)
      · rw [if_neg owned] at semaphore
        apply SlotTurn.away (by simp) semaphore
        rw [queue, released.others _ (by simp)]
        · rfl
        · rintro k isOwned isSame
          cases isSame
          exact owned isOwned
  | @created call child _ creates _ _ view semaphores _ _ _ _ =>
      apply SlotTurn.away _ (congrFun semaphores n)
      · rw [queueOf view, View.create_semaphore]
        rfl
      · intro nSem isSignal
        cases isSignal
        exact creates
  | recycled _ _ view semaphores _ _ _ _ =>
      apply SlotTurn.away (by simp) (congrFun semaphores n)
      rw [queueOf view, View.recycle_semaphore]
      rfl

end Kernel

end Zeos
