import Zeos.Types

/-!
# The scheduler over sequences

What the scheduler is for, with sequences in place of linked memory: every
task is in at most one queue, the tasks that exist are told apart from the
free PCBs by their queue, and the status of a task says which kind of queue
it is in.

`Parked` holds between the moment the running task was put in a queue and the
dispatch of the next one; `Settled` holds when a task has been dispatched.
-/

namespace Zeos

/-- The scheduler's data with sequences for queues. -/
structure View where
  queue : Queue → List TaskId
  status : TaskId → State
  context : TaskId → Context
  live : TaskId → Bool
  current : TaskId
  idle : TaskId

/-- The queues of blocked processes. -/
def Waiting (q : Queue) : Prop :=
  q = .keyboardqueue ∨ ∃ n, q = .semaphore n

/-- The status that goes with being in a queue. -/
def StatusOf (q : Queue) (st : State) : Prop :=
  (q = .readyqueue ∧ st = .stReady) ∨ (Waiting q ∧ st = .stBlocked)

namespace View

/-- A task is in no queue. -/
def Loose (v : View) (t : TaskId) : Prop := ∀ q, t ∉ v.queue q

/-- Give a queue a new sequence and a task a new status. -/
def place (v : View) (t : TaskId) (q : Queue) (tasks : List TaskId)
    (st : State) : View :=
  { v with
    queue := Function.update v.queue q tasks
    status := Function.update v.status t st }

def remove (v : View) (t : TaskId) (q : Queue) : View :=
  { v with queue := Function.update v.queue q ((v.queue q).erase t) }

/-- The task that round robin picks. -/
def next (v : View) : TaskId :=
  ((v.queue .readyqueue).head?).getD v.idle

/-- Run the task that round robin picks; the old one keeps `context`. -/
def dispatch (v : View) (context : Context) : View :=
  { v with
    queue := Function.update v.queue .readyqueue (v.queue .readyqueue).tail
    status := Function.update v.status v.next .stRun
    context := Function.update v.context v.current context
    current := v.next }

/-- Move a task from the queue where it waits to the front of the ready
queue. -/
def wake (v : View) (t : TaskId) (q : Queue) : View :=
  (v.remove t q).place t .readyqueue
    (t :: (v.remove t q).queue .readyqueue) .stReady

structure Parked (v : View) : Prop where
  nodup : ∀ q, (v.queue q).Nodup
  exclusive : ∀ t q r, t ∈ v.queue q → t ∈ v.queue r → q = r
  unused : v.queue .blocked = []
  idleLive : v.live v.idle = true
  idleLoose : v.Loose v.idle
  free : ∀ t, t ∈ v.queue .freequeue ↔ v.live t = false
  ready : ∀ t, v.live t = true → t ≠ v.idle →
    (v.status t = .stReady ↔ t ∈ v.queue .readyqueue)
  blocked : ∀ t, v.live t = true → t ≠ v.idle →
    (v.status t = .stBlocked ↔ ∃ q, Waiting q ∧ t ∈ v.queue q)

structure Settled (v : View) : Prop extends Parked v where
  currentLive : v.live v.current = true
  currentRun : v.status v.current = .stRun
  currentLoose : v.Loose v.current
  idleAlone : v.current = v.idle → v.queue .readyqueue = []

/-- No process is lost: each one that exists runs or is in a queue. -/
def Lossless (v : View) : Prop :=
  ∀ t, v.live t = true → t ≠ v.idle →
    t = v.current ∨ ∃ q, q ≠ .freequeue ∧ t ∈ v.queue q

/-- The same while nothing runs. -/
def Queued (v : View) : Prop :=
  ∀ t, v.live t = true → t ≠ v.idle → ∃ q, q ≠ .freequeue ∧ t ∈ v.queue q

variable {v : View} {t : TaskId} {q : Queue} {tasks : List TaskId} {st : State}
  {context : Context}

theorem Settled.away (settled : v.Settled) (member : t ∈ v.queue q) :
    t ≠ v.current := by
  rintro rfl
  exact settled.currentLoose q member

@[simp]
theorem place_queue_self : (v.place t q tasks st).queue q = tasks := by
  simp [place]

theorem mem_place_of_ne {tested : TaskId} {r : Queue} (different : r ≠ q) :
    tested ∈ (v.place t q tasks st).queue r ↔ tested ∈ v.queue r := by
  simp [place, Function.update_of_ne different]

/-! ## Dispatch -/

theorem next_cases (v : View) :
    (v.queue .readyqueue = [] ∧ v.next = v.idle) ∨
      ∃ rest, v.queue .readyqueue = v.next :: rest := by
  unfold next
  cases shape : v.queue .readyqueue with
  | nil => exact Or.inl ⟨rfl, rfl⟩
  | cons first rest => exact Or.inr ⟨rest, rfl⟩

theorem mem_dispatch_of_ne {tested : TaskId} {r : Queue}
    (different : r ≠ .readyqueue) :
    tested ∈ (v.dispatch context).queue r ↔ tested ∈ v.queue r := by
  simp [dispatch, Function.update_of_ne different]

theorem mem_dispatch_ready {tested : TaskId} (parked : v.Parked) :
    tested ∈ (v.dispatch context).queue .readyqueue ↔
      tested ∈ v.queue .readyqueue ∧ tested ≠ v.next := by
  have nodup := parked.nodup .readyqueue
  rcases v.next_cases with ⟨empty, _⟩ | ⟨rest, shape⟩
  · simp [dispatch, empty]
  · rw [shape] at nodup
    have fresh := (List.nodup_cons.mp nodup).1
    simp only [dispatch, Function.update_self, shape, List.tail_cons,
      List.mem_cons]
    constructor
    · intro member
      exact ⟨Or.inr member, fun same => fresh (same ▸ member)⟩
    · rintro ⟨same | member, different⟩
      · exact absurd same different
      · exact member

theorem next_mem_unless_idle (different : v.next ≠ v.idle) :
    v.next ∈ v.queue .readyqueue := by
  rcases v.next_cases with ⟨_, same⟩ | ⟨rest, shape⟩
  · exact absurd same different
  · rw [shape]
    exact List.mem_cons_self

theorem dispatch_subset {tested : TaskId} {r : Queue}
    (parked : v.Parked) (member : tested ∈ (v.dispatch context).queue r) :
    tested ∈ v.queue r := by
  by_cases isReady : r = .readyqueue
  · subst isReady
    exact ((mem_dispatch_ready parked).mp member).1
  · exact (mem_dispatch_of_ne isReady).mp member

theorem Parked.next_live (parked : v.Parked) : v.live v.next = true := by
  by_cases isIdle : v.next = v.idle
  · rw [isIdle]
    exact parked.idleLive
  · have member := next_mem_unless_idle isIdle
    by_contra dead
    have isFree := (parked.free v.next).mpr (by simpa using dead)
    cases parked.exclusive _ _ _ member isFree

theorem Parked.dispatch (parked : v.Parked) (context : Context) :
    (v.dispatch context).Settled where
  nodup r := by
    by_cases isReady : r = .readyqueue
    · subst isReady
      simpa [View.dispatch] using (parked.nodup .readyqueue).tail
    · simpa [View.dispatch, Function.update_of_ne isReady] using parked.nodup r
  exclusive tested r r' inFirst inSecond :=
    parked.exclusive tested r r' (dispatch_subset parked inFirst)
      (dispatch_subset parked inSecond)
  unused := by
    simpa [View.dispatch] using parked.unused
  idleLive := parked.idleLive
  idleLoose r member := parked.idleLoose r (dispatch_subset parked member)
  free tested := by
    rw [mem_dispatch_of_ne (by decide)]
    exact parked.free tested
  ready tested live notIdle := by
    rw [mem_dispatch_ready parked]
    by_cases isNext : tested = v.next
    · simp [View.dispatch, isNext]
    · simpa [View.dispatch, isNext] using parked.ready tested live notIdle
  blocked tested live notIdle := by
    by_cases isNext : tested = v.next
    · subst isNext
      have inReady := next_mem_unless_idle notIdle
      refine iff_of_false (by simp [View.dispatch]) ?_
      rintro ⟨r, waiting, member⟩
      have same := parked.exclusive _ _ _ inReady (dispatch_subset parked member)
      rcases waiting with isKeyboard | ⟨n, isSemaphore⟩
      · cases same.trans isKeyboard
      · cases same.trans isSemaphore
    · have before := parked.blocked tested live notIdle
      simp only [View.dispatch, Function.update_of_ne isNext]
      rw [before]
      refine exists_congr fun r => and_congr_right fun waiting => ?_
      have notReady : r ≠ .readyqueue := by
        rcases waiting with isKeyboard | ⟨n, isSemaphore⟩
        · simp [isKeyboard]
        · simp [isSemaphore]
      rw [Function.update_of_ne notReady]
  currentLive := parked.next_live
  currentRun := by simp [View.dispatch]
  currentLoose r member := by
    by_cases isReady : r = .readyqueue
    · subst isReady
      exact ((mem_dispatch_ready parked).mp member).2 rfl
    · have before := (mem_dispatch_of_ne isReady).mp member
      by_cases isIdle : v.next = v.idle
      · apply parked.idleLoose r
        rw [← isIdle]
        exact before
      · exact isReady
          (parked.exclusive _ _ _ (next_mem_unless_idle isIdle) before).symm
  idleAlone isIdle := by
    change v.next = v.idle at isIdle
    rcases v.next_cases with ⟨empty, _⟩ | ⟨rest, shape⟩
    · simp [View.dispatch, empty]
    · refine absurd ?_ (parked.idleLoose .readyqueue)
      rw [shape, isIdle]
      exact List.mem_cons_self

theorem Queued.dispatch (parked : v.Parked) (queued : v.Queued)
    (context : Context) : (v.dispatch context).Lossless := by
  intro tested live notIdle
  obtain ⟨r, notFree, member⟩ := queued tested live notIdle
  by_cases isReady : r = .readyqueue
  · subst isReady
    by_cases isNext : tested = v.next
    · exact Or.inl isNext
    · exact Or.inr ⟨.readyqueue, notFree,
        (mem_dispatch_ready parked).mpr ⟨member, isNext⟩⟩
  · exact Or.inr ⟨r, notFree, (mem_dispatch_of_ne isReady).mpr member⟩

/-! ## Putting a task in a queue -/

theorem Parked.place (parked : v.Parked) (live : v.live t = true)
    (notIdle : t ≠ v.idle) (loose : v.Loose t)
    (permutation : tasks.Perm (t :: v.queue q)) (status : StatusOf q st) :
    (v.place t q tasks st).Parked := by
  have notFree : q ≠ .freequeue := by
    rcases status with ⟨isReady, _⟩ | ⟨isKeyboard | ⟨n, isSemaphore⟩, _⟩ <;>
      simp [*]
  have notUnused : q ≠ .blocked := by
    rcases status with ⟨isReady, _⟩ | ⟨isKeyboard | ⟨n, isSemaphore⟩, _⟩ <;>
      simp [*]
  have members : ∀ tested r, tested ∈ (v.place t q tasks st).queue r ↔
      (tested = t ∧ r = q) ∨ tested ∈ v.queue r := by
    intro tested r
    by_cases same : r = q
    · subst same
      simp [permutation.mem_iff]
    · simp [mem_place_of_ne same, same]
  refine
    { nodup := ?_, exclusive := ?_, unused := ?_, idleLive := parked.idleLive,
      idleLoose := ?_, free := ?_, ready := ?_, blocked := ?_ }
  · intro r
    by_cases same : r = q
    · subst same
      rw [place_queue_self]
      exact permutation.nodup_iff.mpr
        (List.nodup_cons.mpr ⟨loose r, parked.nodup r⟩)
    · simpa [View.place, Function.update_of_ne same] using parked.nodup r
  · intro tested r r' inFirst inSecond
    rw [members] at inFirst inSecond
    rcases inFirst with ⟨isTask, first⟩ | inFirst
    · rcases inSecond with ⟨_, second⟩ | inSecond
      · rw [first, second]
      · exact absurd (isTask ▸ inSecond) (loose r')
    · rcases inSecond with ⟨isTask, second⟩ | inSecond
      · exact absurd (isTask ▸ inFirst) (loose r)
      · exact parked.exclusive tested r r' inFirst inSecond
  · simpa [View.place, Function.update_of_ne notUnused.symm] using parked.unused
  · intro r member
    rcases (members _ _).mp member with ⟨isTask, _⟩ | before
    · exact notIdle isTask.symm
    · exact parked.idleLoose r before
  · intro tested
    rw [mem_place_of_ne notFree.symm]
    exact parked.free tested
  · intro tested testedLive testedNotIdle
    rw [members]
    by_cases isTask : tested = t
    · subst isTask
      have notReady := loose .readyqueue
      simp only [View.place, Function.update_self, true_and, notReady, or_false]
      rcases status with ⟨isReady, isStatus⟩ | ⟨waiting, isStatus⟩
      · simp [isReady, isStatus]
      · rw [isStatus]
        refine iff_of_false (by simp) ?_
        rcases waiting with isKeyboard | ⟨n, isSemaphore⟩ <;> simp [*]
    · simpa [View.place, isTask] using parked.ready tested testedLive testedNotIdle
  · intro tested testedLive testedNotIdle
    simp only [members]
    by_cases isTask : tested = t
    · subst isTask
      simp only [View.place, Function.update_self, true_and]
      rcases status with ⟨isReady, isStatus⟩ | ⟨waiting, isStatus⟩
      · rw [isStatus]
        refine iff_of_false (by simp) ?_
        rintro ⟨r, waiting, isQueue | member⟩
        · rcases waiting with isKeyboard | ⟨n, isSemaphore⟩ <;> simp_all
        · exact loose r member
      · exact iff_of_true isStatus ⟨q, waiting, Or.inl rfl⟩
    · simpa [View.place, isTask] using
        parked.blocked tested testedLive testedNotIdle

theorem mem_place_self_of_perm (permutation : tasks.Perm (t :: v.queue q)) :
    t ∈ (v.place t q tasks st).queue q := by
  rw [place_queue_self]
  exact permutation.mem_iff.mpr List.mem_cons_self

theorem mem_place_of_mem {tested : TaskId} {r : Queue}
    (permutation : tasks.Perm (t :: v.queue q)) (member : tested ∈ v.queue r) :
    tested ∈ (v.place t q tasks st).queue r := by
  by_cases same : r = q
  · subst same
    rw [place_queue_self]
    exact permutation.mem_iff.mpr (List.mem_cons_of_mem t member)
  · exact (mem_place_of_ne same).mpr member

/-- Queueing the running process loses nobody. -/
theorem Lossless.place (lossless : v.Lossless) (notFree : q ≠ .freequeue)
    (permutation : tasks.Perm (v.current :: v.queue q)) :
    (v.place v.current q tasks st).Queued := by
  intro tested live notIdle
  rcases lossless tested live notIdle with isCurrent | ⟨r, rNotFree, member⟩
  · subst isCurrent
    exact ⟨q, notFree, mem_place_self_of_perm permutation⟩
  · exact ⟨r, rNotFree, mem_place_of_mem permutation member⟩

/-! ## Waking a task -/

theorem wake_queue_ready :
    (v.wake t q).queue .readyqueue =
      t :: (v.remove t q).queue .readyqueue := by
  simp [wake]

theorem mem_wake {tested : TaskId} {r : Queue} (parked : v.Parked)
    (member : t ∈ v.queue q) (waiting : Waiting q) :
    tested ∈ (v.wake t q).queue r ↔
      (tested = t ∧ r = .readyqueue) ∨ (tested ≠ t ∧ tested ∈ v.queue r) := by
  have notReady : q ≠ .readyqueue := by
    rcases waiting with isKeyboard | ⟨n, isSemaphore⟩ <;> simp [*]
  have readySame : (v.remove t q).queue .readyqueue = v.queue .readyqueue := by
    simp [remove, Function.update_of_ne notReady.symm]
  by_cases isReady : r = .readyqueue
  · subst isReady
    have notIn : t ∉ v.queue .readyqueue := fun inReady =>
      notReady (parked.exclusive _ _ _ member inReady)
    rw [wake_queue_ready, readySame, List.mem_cons]
    by_cases isTask : tested = t
    · simp [isTask]
    · simp [isTask]
  · have shape : (v.wake t q).queue r = (v.remove t q).queue r := by
      simp [wake, place, Function.update_of_ne isReady]
    rw [shape]
    by_cases same : r = q
    · subst same
      simp only [remove, Function.update_self, isReady, and_false, false_or]
      rw [(parked.nodup r).mem_erase_iff]
    · have notIn : t ∉ v.queue r := fun inOther =>
        same (parked.exclusive _ _ _ member inOther).symm
      simp only [remove, Function.update_of_ne same, isReady, and_false, false_or]
      refine ⟨fun inOther => ⟨fun isTask => notIn (isTask ▸ inOther), inOther⟩,
        fun both => both.2⟩

theorem Parked.wake (parked : v.Parked) (member : t ∈ v.queue q)
    (waiting : Waiting q) : (v.wake t q).Parked := by
  have notIdle : t ≠ v.idle := fun same =>
    parked.idleLoose q (same ▸ member)
  have notReady : q ≠ .readyqueue := by
    rcases waiting with isKeyboard | ⟨n, isSemaphore⟩ <;> simp [*]
  have notFree : q ≠ .freequeue := by
    rcases waiting with isKeyboard | ⟨n, isSemaphore⟩ <;> simp [*]
  have taskLive : v.live t = true := by
    by_contra dead
    have isFree := (parked.free t).mpr (by simpa using dead)
    exact notFree (parked.exclusive _ _ _ member isFree)
  have members : ∀ tested r, tested ∈ (v.wake t q).queue r ↔
      (tested = t ∧ r = .readyqueue) ∨ (tested ≠ t ∧ tested ∈ v.queue r) :=
    fun tested r => mem_wake parked member waiting
  refine
    { nodup := ?_, exclusive := ?_, unused := ?_, idleLive := parked.idleLive,
      idleLoose := ?_, free := ?_, ready := ?_, blocked := ?_ }
  · intro r
    by_cases isReady : r = .readyqueue
    · subst isReady
      rw [wake_queue_ready, List.nodup_cons]
      simp only [remove, Function.update_of_ne notReady.symm]
      exact ⟨fun inReady => notReady (parked.exclusive _ _ _ member inReady),
        parked.nodup .readyqueue⟩
    · have sublist : ((v.wake t q).queue r).Sublist (v.queue r) := by
        by_cases same : r = q
        · subst same
          simpa [View.wake, View.place, remove, isReady] using List.erase_sublist
        · simp [View.wake, View.place, remove, isReady, same]
      exact (parked.nodup r).sublist sublist
  · intro tested r r' inFirst inSecond
    rw [members] at inFirst inSecond
    rcases inFirst with ⟨isTask, first⟩ | ⟨notTask, inFirst⟩
    · rcases inSecond with ⟨_, second⟩ | ⟨notTask, _⟩
      · rw [first, second]
      · exact absurd isTask notTask
    · rcases inSecond with ⟨isTask, _⟩ | ⟨_, inSecond⟩
      · exact absurd isTask notTask
      · exact parked.exclusive tested r r' inFirst inSecond
  · rw [List.eq_nil_iff_forall_not_mem]
    intro tested inUnused
    rcases (members _ _).mp inUnused with ⟨_, isReady⟩ | ⟨_, before⟩
    · cases isReady
    · rw [parked.unused] at before
      cases before
  · intro r inQueue
    rcases (members _ _).mp inQueue with ⟨isTask, _⟩ | ⟨_, before⟩
    · exact notIdle isTask.symm
    · exact parked.idleLoose r before
  · intro tested
    rw [members]
    by_cases isTask : tested = t
    · subst isTask
      simp [View.wake, View.place, remove, taskLive]
    · simpa [View.wake, View.place, remove, isTask] using parked.free tested
  · intro tested live testedNotIdle
    rw [members]
    by_cases isTask : tested = t
    · subst isTask
      simp [View.wake, View.place]
    · simpa [View.wake, View.place, remove, isTask] using
        parked.ready tested live testedNotIdle
  · intro tested live testedNotIdle
    simp only [members]
    by_cases isTask : tested = t
    · subst isTask
      refine iff_of_false (by simp [View.wake, View.place]) ?_
      rintro ⟨r, rWaiting, ⟨_, isReady⟩ | ⟨notTask, _⟩⟩
      · subst isReady
        rcases rWaiting with isKeyboard | ⟨n, isSemaphore⟩ <;> simp_all
      · exact notTask rfl
    · simpa [View.wake, View.place, remove, isTask] using
        parked.blocked tested live testedNotIdle

/-- A wake-up while a process other than idle runs. -/
theorem Settled.wake (settled : v.Settled) (member : t ∈ v.queue q)
    (waiting : Waiting q) (busy : v.current ≠ v.idle) :
    (v.wake t q).Settled where
  toParked := settled.toParked.wake member waiting
  currentLive := settled.currentLive
  currentRun := by
    have notCurrent : v.current ≠ t := fun same =>
      settled.currentLoose q (same ▸ member)
    simpa [View.wake, View.place, remove, notCurrent] using settled.currentRun
  currentLoose r inQueue := by
    rcases (mem_wake settled.toParked member waiting).mp inQueue with
      ⟨isTask, _⟩ | ⟨_, before⟩
    · exact settled.currentLoose q (isTask ▸ member)
    · exact settled.currentLoose r before
  idleAlone isIdle := absurd isIdle busy

/-- A wake-up loses nobody. -/
theorem Lossless.wake (parked : v.Parked) (lossless : v.Lossless)
    (member : t ∈ v.queue q) (waiting : Waiting q) : (v.wake t q).Lossless := by
  intro tested live notIdle
  by_cases isTask : tested = t
  · exact Or.inr ⟨.readyqueue, by decide,
      (mem_wake parked member waiting).mpr (Or.inl ⟨isTask, rfl⟩)⟩
  · rcases lossless tested live notIdle with isCurrent | ⟨r, notFree, inQueue⟩
    · exact Or.inl isCurrent
    · exact Or.inr ⟨r, notFree,
        (mem_wake parked member waiting).mpr (Or.inr ⟨isTask, inQueue⟩)⟩

/-- The task that was woken last is the next to run, and the ready queue is
then what it was before the wake-up. -/
theorem wake_dispatch (waiting : Waiting q) :
    (v.wake t q).dispatch context =
      { v with
        queue := Function.update v.queue q ((v.queue q).erase t)
        status := Function.update v.status t .stRun
        context := Function.update v.context v.current context
        current := t } := by
  have notReady : Queue.readyqueue ≠ q := by
    rcases waiting with isKeyboard | ⟨n, isSemaphore⟩ <;> simp [*]
  have isNext : (v.wake t q).next = t := by
    simp [next, wake_queue_ready]
  unfold dispatch
  rw [isNext]
  simp only [View.wake, View.place, remove, Function.update_self,
    List.tail_cons, Function.update_idem, Function.update_of_ne notReady]
  have unchanged : Function.update (Function.update v.queue q
        ((v.queue q).erase t)) .readyqueue (v.queue .readyqueue) =
      Function.update v.queue q ((v.queue q).erase t) := by
    rw [Function.update_eq_self_iff, Function.update_of_ne notReady]
  rw [unchanged]

/-! ## Creation and exit -/

/-- A free PCB becomes a process that is ready to run. -/
def create (v : View) (child : TaskId) (context : Context) : View :=
  { (v.remove child .freequeue).place child .readyqueue
      (v.queue .readyqueue ++ [child]) .stReady with
    context := Function.update v.context child context
    live := Function.update v.live child true }

/-- The running process becomes a free PCB. -/
def retire (v : View) : View :=
  { v.place v.current .freequeue (v.queue .freequeue ++ [v.current])
      .stBlocked with
    live := Function.update v.live v.current false }

/-- A free PCB goes to the back of its queue, with another status and
context. -/
def recycle (v : View) (child : TaskId) (st : State) (context : Context) :
    View :=
  { v with
    queue := Function.update v.queue .freequeue
      ((v.queue .freequeue).erase child ++ [child])
    status := Function.update v.status child st
    context := Function.update v.context child context }

variable {child : TaskId}

theorem mem_create {tested : TaskId} {r : Queue} (parked : v.Parked)
    (member : child ∈ v.queue .freequeue) :
    tested ∈ (v.create child context).queue r ↔
      (tested = child ∧ r = .readyqueue) ∨
        (tested ≠ child ∧ tested ∈ v.queue r) := by
  by_cases isReady : r = .readyqueue
  · subst isReady
    have notIn : child ∉ v.queue .readyqueue := fun inReady => by
      cases parked.exclusive _ _ _ member inReady
    by_cases isChild : tested = child
    · simp [create, isChild]
    · simp [create, isChild]
  · by_cases isFree : r = .freequeue
    · subst isFree
      simp only [create, place, remove, isReady, and_false, false_or, ne_eq,
        not_false_eq_true, Function.update_of_ne, Function.update_self]
      rw [(parked.nodup .freequeue).mem_erase_iff]
    · have notIn : child ∉ v.queue r := fun inOther =>
        isFree (parked.exclusive _ _ _ inOther member)
      simp only [create, place, remove, Function.update_of_ne isReady,
        Function.update_of_ne isFree, isReady, and_false, false_or]
      exact ⟨fun inOther => ⟨fun isChild => notIn (isChild ▸ inOther), inOther⟩,
        fun both => both.2⟩

theorem Settled.create (settled : v.Settled)
    (member : child ∈ v.queue .freequeue) (busy : v.current ≠ v.idle)
    (context : Context) : (v.create child context).Settled := by
  have members : ∀ tested r, tested ∈ (v.create child context).queue r ↔
      (tested = child ∧ r = .readyqueue) ∨
        (tested ≠ child ∧ tested ∈ v.queue r) :=
    fun tested r => mem_create settled.toParked member
  have notCurrent : v.current ≠ child := (settled.away member).symm
  have notIdle : v.idle ≠ child := fun same =>
    settled.idleLoose .freequeue (same ▸ member)
  refine
    { nodup := ?_, exclusive := ?_, unused := ?_, idleLive := ?_,
      idleLoose := ?_, free := ?_, ready := ?_, blocked := ?_,
      currentLive := ?_, currentRun := ?_, currentLoose := ?_,
      idleAlone := fun isIdle => absurd isIdle busy }
  · intro r
    by_cases isReady : r = .readyqueue
    · subst isReady
      have notIn : child ∉ v.queue .readyqueue := fun inReady => by
        cases settled.exclusive _ _ _ member inReady
      simp only [View.create, place_queue_self]
      exact List.nodup_append'.mpr ⟨settled.nodup _, List.nodup_singleton _,
        by simpa using notIn⟩
    · have sublist :
          ((v.create child context).queue r).Sublist (v.queue r) := by
        by_cases isFree : r = .freequeue
        · subst isFree
          simpa [View.create, View.place, remove] using List.erase_sublist
        · simp [View.create, View.place, remove, isReady, isFree]
      exact (settled.nodup r).sublist sublist
  · intro tested r r' inFirst inSecond
    rw [members] at inFirst inSecond
    rcases inFirst with ⟨isChild, first⟩ | ⟨notChild, inFirst⟩
    · rcases inSecond with ⟨_, second⟩ | ⟨notChild, _⟩
      · rw [first, second]
      · exact absurd isChild notChild
    · rcases inSecond with ⟨isChild, _⟩ | ⟨_, inSecond⟩
      · exact absurd isChild notChild
      · exact settled.exclusive tested r r' inFirst inSecond
  · simpa [View.create, View.place, remove] using settled.unused
  · simpa [View.create, View.place, remove, notIdle] using settled.idleLive
  · intro r inQueue
    rcases (members _ _).mp inQueue with ⟨isChild, _⟩ | ⟨_, before⟩
    · exact notIdle isChild
    · exact settled.idleLoose r before
  · intro tested
    rw [members]
    by_cases isChild : tested = child
    · subst isChild
      simp [View.create]
    · simpa [View.create, View.place, isChild] using settled.free tested
  · intro tested live testedNotIdle
    rw [members]
    by_cases isChild : tested = child
    · subst isChild
      simp [View.create, View.place]
    · have before : v.live tested = true := by
        simpa [View.create, isChild] using live
      simpa [View.create, View.place, isChild, remove] using
        settled.ready tested before testedNotIdle
  · intro tested live testedNotIdle
    simp only [members]
    by_cases isChild : tested = child
    · subst isChild
      refine iff_of_false (by simp [View.create, View.place]) ?_
      rintro ⟨r, waiting, ⟨_, isReady⟩ | ⟨notChild, _⟩⟩
      · subst isReady
        rcases waiting with isKeyboard | ⟨n, isSemaphore⟩ <;> simp_all
      · exact notChild rfl
    · have before : v.live tested = true := by
        simpa [View.create, isChild] using live
      simpa [View.create, View.place, isChild, remove] using
        settled.blocked tested before testedNotIdle
  · simpa [View.create, View.place, remove, notCurrent] using
      settled.currentLive
  · simpa [View.create, View.place, remove, notCurrent] using
      settled.currentRun
  · intro r inQueue
    rcases (members _ _).mp inQueue with ⟨isChild, _⟩ | ⟨_, before⟩
    · exact notCurrent isChild
    · exact settled.currentLoose r before

/-- A new process is not lost, and loses nobody. -/
theorem Lossless.create (parked : v.Parked) (lossless : v.Lossless)
    (member : child ∈ v.queue .freequeue) :
    (v.create child context).Lossless := by
  intro tested live notIdle
  by_cases isChild : tested = child
  · exact Or.inr ⟨.readyqueue, by decide,
      (mem_create parked member).mpr (Or.inl ⟨isChild, rfl⟩)⟩
  · have before : v.live tested = true := by
      simpa [View.create, isChild] using live
    rcases lossless tested before notIdle with isCurrent | ⟨r, notFree, inQueue⟩
    · exact Or.inl isCurrent
    · exact Or.inr ⟨r, notFree,
        (mem_create parked member).mpr (Or.inr ⟨isChild, inQueue⟩)⟩

theorem mem_retire {tested : TaskId} {r : Queue} :
    tested ∈ v.retire.queue r ↔
      (tested = v.current ∧ r = .freequeue) ∨ tested ∈ v.queue r := by
  by_cases isFree : r = .freequeue
  · subst isFree
    simp [retire, or_comm]
  · simp [retire, mem_place_of_ne isFree, isFree]

theorem Settled.retire (settled : v.Settled) (busy : v.current ≠ v.idle) :
    v.retire.Parked := by
  refine
    { nodup := ?_, exclusive := ?_, unused := ?_, idleLive := ?_,
      idleLoose := ?_, free := ?_, ready := ?_, blocked := ?_ }
  · intro r
    by_cases isFree : r = .freequeue
    · subst isFree
      simp only [View.retire, place_queue_self]
      exact List.nodup_append'.mpr ⟨settled.nodup _, List.nodup_singleton _,
        by simpa using settled.currentLoose .freequeue⟩
    · simpa [View.retire, View.place, isFree] using settled.nodup r
  · intro tested r r' inFirst inSecond
    rw [mem_retire] at inFirst inSecond
    rcases inFirst with ⟨isCurrent, first⟩ | inFirst
    · rcases inSecond with ⟨_, second⟩ | inSecond
      · rw [first, second]
      · exact absurd (isCurrent ▸ inSecond) (settled.currentLoose r')
    · rcases inSecond with ⟨isCurrent, _⟩ | inSecond
      · exact absurd (isCurrent ▸ inFirst) (settled.currentLoose r)
      · exact settled.exclusive tested r r' inFirst inSecond
  · simpa [View.retire, View.place] using settled.unused
  · simpa [View.retire, View.place, busy.symm] using settled.idleLive
  · intro r inQueue
    rcases mem_retire.mp inQueue with ⟨isCurrent, _⟩ | before
    · exact busy isCurrent.symm
    · exact settled.idleLoose r before
  · intro tested
    rw [mem_retire]
    by_cases isCurrent : tested = v.current
    · simp [View.retire, isCurrent]
    · simpa [View.retire, View.place, isCurrent] using settled.free tested
  · intro tested live notIdle
    have notCurrent : tested ≠ v.current := by
      rintro rfl
      simp [View.retire] at live
    have before : v.live tested = true := by
      simpa [View.retire, notCurrent] using live
    rw [mem_retire]
    simpa [View.retire, View.place, notCurrent] using
      settled.ready tested before notIdle
  · intro tested live notIdle
    have notCurrent : tested ≠ v.current := by
      rintro rfl
      simp [View.retire] at live
    have before : v.live tested = true := by
      simpa [View.retire, notCurrent] using live
    simp only [mem_retire]
    simpa [View.retire, View.place, notCurrent] using
      settled.blocked tested before notIdle

/-- Only the process that exits leaves the queues and the processor. -/
theorem Lossless.retire (lossless : v.Lossless) : v.retire.Queued := by
  intro tested live notIdle
  have notCurrent : tested ≠ v.current := by
    rintro rfl
    simp [View.retire] at live
  have before : v.live tested = true := by
    simpa [View.retire, notCurrent] using live
  rcases lossless tested before notIdle with isCurrent | ⟨r, notFree, inQueue⟩
  · exact absurd isCurrent notCurrent
  · exact ⟨r, notFree, mem_retire.mpr (Or.inr inQueue)⟩

theorem mem_recycle {tested : TaskId} {r : Queue}
    (member : child ∈ v.queue .freequeue) :
    tested ∈ (v.recycle child st context).queue r ↔ tested ∈ v.queue r := by
  by_cases isFree : r = .freequeue
  · subst isFree
    have permutation :
        ((v.queue .freequeue).erase child ++ [child]).Perm (v.queue .freequeue) :=
      (List.perm_append_singleton _ _).trans (List.perm_cons_erase member).symm
    simp only [recycle, Function.update_self]
    exact permutation.mem_iff
  · simp [recycle, Function.update_of_ne isFree]

theorem Settled.recycle (settled : v.Settled)
    (member : child ∈ v.queue .freequeue) (st : State) (context : Context) :
    (v.recycle child st context).Settled := by
  have dead : v.live child = false := (settled.free child).mp member
  have sameStatus : ∀ tested, v.live tested = true →
      (v.recycle child st context).status tested = v.status tested := by
    intro tested live
    have notChild : tested ≠ child := by
      rintro rfl
      simp [dead] at live
    simp [View.recycle, notChild]
  have members : ∀ tested r,
      tested ∈ (v.recycle child st context).queue r ↔ tested ∈ v.queue r :=
    fun tested r => mem_recycle member
  refine
    { nodup := ?_, exclusive := ?_, unused := ?_, idleLive := settled.idleLive,
      idleLoose := ?_, free := ?_, ready := ?_, blocked := ?_,
      currentLive := settled.currentLive, currentRun := ?_,
      currentLoose := ?_, idleAlone := ?_ }
  · intro r
    by_cases isFree : r = .freequeue
    · subst isFree
      have permutation :
          ((v.queue .freequeue).erase child ++ [child]).Perm
            (v.queue .freequeue) :=
        (List.perm_append_singleton _ _).trans (List.perm_cons_erase member).symm
      simp only [View.recycle, Function.update_self]
      exact permutation.nodup_iff.mpr (settled.nodup _)
    · simpa [View.recycle, isFree] using settled.nodup r
  · intro tested r r' inFirst inSecond
    rw [members] at inFirst inSecond
    exact settled.exclusive tested r r' inFirst inSecond
  · simpa [View.recycle] using settled.unused
  · intro r inQueue
    exact settled.idleLoose r ((members _ _).mp inQueue)
  · intro tested
    rw [members]
    exact settled.free tested
  · intro tested live notIdle
    rw [members, sameStatus tested live]
    exact settled.ready tested live notIdle
  · intro tested live notIdle
    simp only [members]
    rw [sameStatus tested live]
    exact settled.blocked tested live notIdle
  · exact (sameStatus v.current settled.currentLive).trans settled.currentRun
  · intro r inQueue
    exact settled.currentLoose r ((members _ _).mp inQueue)
  · intro isIdle
    simpa [View.recycle] using settled.idleAlone isIdle

theorem Lossless.recycle (lossless : v.Lossless)
    (member : child ∈ v.queue .freequeue) :
    (v.recycle child st context).Lossless := by
  intro tested live notIdle
  rcases lossless tested live notIdle with isCurrent | ⟨r, notFree, inQueue⟩
  · exact Or.inl isCurrent
  · exact Or.inr ⟨r, notFree, (mem_recycle member).mpr inQueue⟩

end View

end Zeos
