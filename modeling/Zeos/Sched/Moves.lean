import Zeos.Sched.View

/-!
# What the scheduler can do

`Move` lists the ways in which queues, status fields and saved contexts change
outside the keyboard driver; the driver adds `arrive`, `comeBack` and `serve`.
Every step of the system is one of the latter or a sequence of the former, so
an invariant of the scheduler is checked against these alone.
-/

namespace Zeos

/-- The process is inside the loop of `sys_read_keyboard`. -/
def Context.Reading : Context → Prop
  | .readKeyboard _ _ _ => True
  | _ => False

theorem Context.reading_readKeyboard (buf : UInt32) (n : Int)
    (stored : List UInt8) : (Context.readKeyboard buf n stored).Reading :=
  trivial

/-- The context with which a process goes into a queue. -/
def ContextOf (context : Context) : Queue → Prop
  | .readyqueue => context = .interrupted
  | .keyboardqueue => context.Reading
  | .semaphore n => ∃ mySemID, context = .semWait n mySemID
  | _ => False

theorem ContextOf.reading_iff {context : Context} {q : Queue}
    (fits : ContextOf context q) : context.Reading ↔ q = .keyboardqueue := by
  cases q with
  | readyqueue => subst fits; simp [Context.Reading]
  | keyboardqueue => exact iff_of_true fits rfl
  | semaphore n =>
      obtain ⟨mySemID, rfl⟩ := fits
      simp [Context.Reading]
  | freequeue => exact fits.elim
  | blocked => exact fits.elim

namespace View

/-- The running process goes to the back of a queue and the next one runs. -/
def yield (v : View) (q : Queue) (st : State) (context : Context) : View :=
  (v.place v.current q (v.queue q ++ [v.current]) st).dispatch context

/-- The running process queues up for the keyboard. -/
def arrive (v : View) (context : Context) : View :=
  v.yield .keyboardqueue .stBlocked context

/-- A reader that still needs characters goes back to the front. -/
def comeBack (v : View) (context : Context) : View :=
  (v.place v.current .keyboardqueue
    (v.current :: v.queue .keyboardqueue) .stBlocked).dispatch context

/-- A key wakes the reader `t` and switches to it. -/
def serve (v : View) (t : TaskId) : View :=
  (v.wake t .keyboardqueue).dispatch .interrupted

/-- The changes that the keyboard driver has no part in. -/
inductive Move (v : View) : View → Prop
  | wake {t : TaskId} {n : SemId} : v.current ≠ v.idle →
      t ∈ v.queue (.semaphore n) → Move v (v.wake t (.semaphore n))
  | yield {q : Queue} {st : State} {context : Context} : v.current ≠ v.idle →
      q ≠ .keyboardqueue → StatusOf q st → ContextOf context q →
      Move v (v.yield q st context)
  | create {child : TaskId} : v.current ≠ v.idle →
      child ∈ v.queue .freequeue → Move v (v.create child .retFromFork)
  | recycle {child : TaskId} {st : State} {context : Context} :
      child ∈ v.queue .freequeue → Move v (v.recycle child st context)
  | exit : v.current ≠ v.idle → Move v (v.retire.dispatch .exited)

abbrev Moves : View → View → Prop := Relation.ReflTransGen Move

/-- Waiting readers are inside `sys_read_keyboard`; no other process that can
be dispatched is. -/
structure Contexts (v : View) : Prop where
  readers : ∀ t ∈ v.queue .keyboardqueue, (v.context t).Reading
  others : ∀ q, q ≠ .keyboardqueue → q ≠ .freequeue → ∀ t ∈ v.queue q,
    ¬ (v.context t).Reading
  idle : ¬ (v.context v.idle).Reading

variable {v v' : View} {t : TaskId} {q : Queue} {tasks : List TaskId}
  {st : State} {context : Context}

/-! ## Queues stay in order -/

theorem Settled.queueCurrent (settled : v.Settled) (busy : v.current ≠ v.idle)
    (status : StatusOf q st) (permutation : tasks.Perm (v.current :: v.queue q)) :
    ((v.place v.current q tasks st).dispatch context).Settled :=
  (settled.toParked.place settled.currentLive busy settled.currentLoose
    permutation status).dispatch context

theorem Settled.yield (settled : v.Settled) (busy : v.current ≠ v.idle)
    (status : StatusOf q st) (context : Context) :
    (v.yield q st context).Settled :=
  settled.queueCurrent busy status (List.perm_append_singleton _ _)

theorem Settled.arrive (settled : v.Settled) (busy : v.current ≠ v.idle)
    (context : Context) : (v.arrive context).Settled :=
  settled.yield busy (Or.inr ⟨Or.inl rfl, rfl⟩) context

theorem Settled.comeBack (settled : v.Settled) (busy : v.current ≠ v.idle)
    (context : Context) : (v.comeBack context).Settled :=
  settled.queueCurrent busy (Or.inr ⟨Or.inl rfl, rfl⟩) (List.Perm.refl _)

theorem Settled.serve (settled : v.Settled)
    (member : t ∈ v.queue .keyboardqueue) : (v.serve t).Settled :=
  (settled.toParked.wake member (Or.inl rfl)).dispatch .interrupted

theorem Settled.move (settled : v.Settled) (move : v.Move v') : v'.Settled := by
  cases move with
  | wake busy member => exact settled.wake member (Or.inr ⟨_, rfl⟩) busy
  | yield busy _ status _ => exact settled.yield busy status _
  | create busy member => exact settled.create member busy _
  | recycle member => exact settled.recycle member _ _
  | exit busy => exact (settled.retire busy).dispatch .exited

theorem Settled.moves (settled : v.Settled) (moves : v.Moves v') :
    v'.Settled := by
  induction moves with
  | refl => exact settled
  | tail _ move inductionHypothesis => exact inductionHypothesis.move move

/-! ## Nobody is lost -/

theorem Lossless.queueCurrent (lossless : v.Lossless) (settled : v.Settled)
    (busy : v.current ≠ v.idle) (status : StatusOf q st)
    (permutation : tasks.Perm (v.current :: v.queue q)) :
    ((v.place v.current q tasks st).dispatch context).Lossless := by
  have notFree : q ≠ .freequeue := by
    rcases status with ⟨isReady, _⟩ | ⟨isKeyboard | ⟨n, isSemaphore⟩, _⟩ <;>
      simp [*]
  exact (lossless.place notFree permutation).dispatch
    (settled.toParked.place settled.currentLive busy settled.currentLoose
      permutation status) context

theorem Lossless.yield (lossless : v.Lossless) (settled : v.Settled)
    (busy : v.current ≠ v.idle) (status : StatusOf q st) (context : Context) :
    (v.yield q st context).Lossless :=
  lossless.queueCurrent settled busy status (List.perm_append_singleton _ _)

theorem Lossless.arrive (lossless : v.Lossless) (settled : v.Settled)
    (busy : v.current ≠ v.idle) (context : Context) :
    (v.arrive context).Lossless :=
  lossless.yield settled busy (Or.inr ⟨Or.inl rfl, rfl⟩) context

theorem Lossless.comeBack (lossless : v.Lossless) (settled : v.Settled)
    (busy : v.current ≠ v.idle) (context : Context) :
    (v.comeBack context).Lossless :=
  lossless.queueCurrent settled busy (Or.inr ⟨Or.inl rfl, rfl⟩)
    (List.Perm.refl _)

/-- Serving a reader loses nobody if only idle was running. -/
theorem Lossless.serve (lossless : v.Lossless) (settled : v.Settled)
    (member : t ∈ v.queue .keyboardqueue) (resting : v.current = v.idle) :
    (v.serve t).Lossless := by
  have waiting : Waiting .keyboardqueue := Or.inl rfl
  have woken := lossless.wake settled.toParked member waiting
  refine Queued.dispatch (settled.toParked.wake member waiting) ?_ .interrupted
  intro tested live notIdle
  rcases woken tested live notIdle with isCurrent | queued
  · exact absurd (isCurrent.trans resting) notIdle
  · exact queued

theorem Lossless.move (lossless : v.Lossless) (settled : v.Settled)
    (move : v.Move v') : v'.Lossless := by
  cases move with
  | wake _ member =>
      exact lossless.wake settled.toParked member (Or.inr ⟨_, rfl⟩)
  | yield busy _ status _ => exact lossless.yield settled busy status _
  | create _ member => exact lossless.create settled.toParked member
  | recycle member => exact lossless.recycle member
  | exit busy => exact lossless.retire.dispatch (settled.retire busy) .exited

theorem Lossless.moves (lossless : v.Lossless) (settled : v.Settled)
    (moves : v.Moves v') : v'.Lossless := by
  induction moves with
  | refl => exact lossless
  | tail earlier move inductionHypothesis =>
      exact inductionHypothesis.move (settled.moves earlier) move

/-! ## Saved contexts fit the queues -/

/-- Dispatching runs a process that is not inside `sys_read_keyboard`. -/
theorem Contexts.dispatch (parked : v.Parked)
    (contexts : Contexts
      { v with context := Function.update v.context v.current context }) :
    (v.dispatch context).Contexts ∧
      ¬ ((v.dispatch context).context v.next).Reading := by
  refine ⟨⟨?_, ?_, contexts.idle⟩, ?_⟩
  · intro t member
    have before := (mem_dispatch_of_ne (v := v) (by decide)).mp member
    exact contexts.readers t before
  · intro r notKeyboard notFree t member
    have before := dispatch_subset parked member
    exact contexts.others r notKeyboard notFree t before
  · by_cases isIdle : v.next = v.idle
    · rw [isIdle]
      exact contexts.idle
    · exact contexts.others .readyqueue (by decide) (by decide) v.next
        (next_mem_unless_idle isIdle)

theorem Contexts.queueCurrent (contexts : v.Contexts) (settled : v.Settled)
    (busy : v.current ≠ v.idle) (fits : ContextOf context q)
    (permutation : tasks.Perm (v.current :: v.queue q)) :
    Contexts { v.place v.current q tasks st with
      context := Function.update v.context v.current context } := by
  have members : ∀ tested r, tested ∈ (v.place v.current q tasks st).queue r →
      (tested = v.current ∧ r = q) ∨ (tested ≠ v.current ∧ tested ∈ v.queue r) := by
    intro tested r member
    by_cases isQueue : r = q
    · subst isQueue
      rw [place_queue_self, permutation.mem_iff, List.mem_cons] at member
      by_cases isCurrent : tested = v.current
      · exact Or.inl ⟨isCurrent, rfl⟩
      · exact Or.inr ⟨isCurrent, member.resolve_left isCurrent⟩
    · rw [mem_place_of_ne isQueue] at member
      refine Or.inr ⟨?_, member⟩
      rintro rfl
      exact settled.currentLoose r member
  refine ⟨?_, ?_, ?_⟩
  · intro tested member
    rcases members tested _ member with ⟨rfl, isQueue⟩ | ⟨notCurrent, before⟩
    · simpa using fits.reading_iff.mpr isQueue.symm
    · simpa [Function.update_of_ne notCurrent] using
        contexts.readers tested before
  · intro r notKeyboard notFree tested member
    rcases members tested _ member with ⟨rfl, isQueue⟩ | ⟨notCurrent, before⟩
    · simpa using fits.reading_iff.not.mpr (isQueue ▸ notKeyboard)
    · simpa [Function.update_of_ne notCurrent] using
        contexts.others r notKeyboard notFree tested before
  · simpa [place, Function.update_of_ne busy.symm] using contexts.idle

/-- What the contexts are after the running process went into a queue. -/
theorem Contexts.yieldTo (contexts : v.Contexts) (settled : v.Settled)
    (busy : v.current ≠ v.idle) (status : StatusOf q st)
    (fits : ContextOf context q)
    (permutation : tasks.Perm (v.current :: v.queue q)) :
    ((v.place v.current q tasks st).dispatch context).Contexts ∧
      ¬ (((v.place v.current q tasks st).dispatch context).context
        (v.place v.current q tasks st).next).Reading :=
  Contexts.dispatch
    (settled.toParked.place settled.currentLive busy settled.currentLoose
      permutation status)
    (contexts.queueCurrent settled busy fits permutation)

/-- A reader that queues up is the only one whose context is about reading. -/
theorem Contexts.arrive (contexts : v.Contexts) (settled : v.Settled)
    (busy : v.current ≠ v.idle) (reading : context.Reading) :
    (v.arrive context).Contexts ∧
      ¬ ((v.arrive context).context (v.arrive context).current).Reading :=
  contexts.yieldTo settled busy (Or.inr ⟨Or.inl rfl, rfl⟩)
    (q := .keyboardqueue) reading (List.perm_append_singleton _ _)

theorem Contexts.comeBack (contexts : v.Contexts) (settled : v.Settled)
    (busy : v.current ≠ v.idle) (reading : context.Reading) :
    (v.comeBack context).Contexts ∧
      ¬ ((v.comeBack context).context (v.comeBack context).current).Reading :=
  contexts.yieldTo settled busy (Or.inr ⟨Or.inl rfl, rfl⟩)
    (q := .keyboardqueue) reading (List.Perm.refl _)

/-- The process that exits leaves no trace in the contexts that matter. -/
theorem Contexts.exit (contexts : v.Contexts) (settled : v.Settled)
    (busy : v.current ≠ v.idle) :
    (v.retire.dispatch .exited).Contexts ∧
      ¬ ((v.retire.dispatch .exited).context v.retire.next).Reading := by
  refine Contexts.dispatch (settled.retire busy) ⟨?_, ?_, ?_⟩
  · intro tested member
    have inRetired : tested ∈ v.retire.queue .keyboardqueue := member
    rcases mem_retire.mp inRetired with ⟨_, isFree⟩ | before
    · cases isFree
    · have notCurrent : tested ≠ v.current := by
        rintro rfl
        exact settled.currentLoose _ before
      simpa [View.retire, place, notCurrent] using contexts.readers tested before
  · intro r notKeyboard notFree tested member
    have inRetired : tested ∈ v.retire.queue r := member
    rcases mem_retire.mp inRetired with ⟨_, isFree⟩ | before
    · exact absurd isFree notFree
    · have notCurrent : tested ≠ v.current := by
        rintro rfl
        exact settled.currentLoose _ before
      simpa [View.retire, place, notCurrent] using
        contexts.others r notKeyboard notFree tested before
  · simpa [View.retire, place, busy.symm] using contexts.idle

theorem Contexts.serve (contexts : v.Contexts) (settled : v.Settled) (t : TaskId) :
    (v.serve t).Contexts := by
  unfold View.serve
  rw [wake_dispatch (Or.inl rfl)]
  have away : ∀ r, ∀ tested ∈ v.queue r, tested ≠ v.current := by
    rintro r tested inQueue rfl
    exact settled.currentLoose r inQueue
  refine ⟨?_, ?_, ?_⟩
  · intro tested inQueue
    have before : tested ∈ v.queue .keyboardqueue := by
      simp only [Function.update_self] at inQueue
      exact List.mem_of_mem_erase inQueue
    simpa [away _ _ before] using contexts.readers tested before
  · intro r notKeyboard notFree tested inQueue
    have before : tested ∈ v.queue r := by
      simpa [Function.update_of_ne notKeyboard] using inQueue
    simpa [away _ _ before] using
      contexts.others r notKeyboard notFree tested before
  · by_cases resting : v.idle = v.current
    · simp [resting, Context.Reading]
    · simpa [resting] using contexts.idle

theorem Contexts.wake {n : SemId} (contexts : v.Contexts) (settled : v.Settled)
    (member : t ∈ v.queue (.semaphore n)) :
    (v.wake t (.semaphore n)).Contexts := by
  have waiting : Waiting (.semaphore n) := Or.inr ⟨n, rfl⟩
  refine ⟨?_, ?_, contexts.idle⟩
  · intro tested inQueue
    rcases (mem_wake settled.toParked member waiting).mp inQueue with
      ⟨_, isReady⟩ | ⟨_, before⟩
    · cases isReady
    · exact contexts.readers tested before
  · intro r notKeyboard notFree tested inQueue
    rcases (mem_wake settled.toParked member waiting).mp inQueue with
      ⟨rfl, _⟩ | ⟨_, before⟩
    · exact contexts.others (.semaphore n) (by simp) (by simp) tested member
    · exact contexts.others r notKeyboard notFree tested before

theorem Contexts.create {child : TaskId} (contexts : v.Contexts)
    (settled : v.Settled) (member : child ∈ v.queue .freequeue) :
    (v.create child .retFromFork).Contexts := by
  have notIdle : v.idle ≠ child := fun same =>
    settled.idleLoose .freequeue (same ▸ member)
  refine ⟨?_, ?_, ?_⟩
  · intro tested inQueue
    rcases (mem_create settled.toParked member).mp inQueue with
      ⟨_, isReady⟩ | ⟨notChild, before⟩
    · cases isReady
    · simpa [View.create, notChild] using contexts.readers tested before
  · intro r notKeyboard notFree tested inQueue
    rcases (mem_create settled.toParked member).mp inQueue with
      ⟨rfl, _⟩ | ⟨notChild, before⟩
    · simp [View.create, Context.Reading]
    · simpa [View.create, notChild] using
        contexts.others r notKeyboard notFree tested before
  · simpa [View.create, place, remove, notIdle] using contexts.idle

theorem Contexts.recycle {child : TaskId} (contexts : v.Contexts)
    (settled : v.Settled) (member : child ∈ v.queue .freequeue) :
    (v.recycle child st context).Contexts := by
  have apart : ∀ r, r ≠ .freequeue → ∀ tested ∈ v.queue r, tested ≠ child := by
    rintro r notFree tested inQueue rfl
    exact notFree (settled.exclusive _ _ _ inQueue member)
  have notIdle : v.idle ≠ child := fun same =>
    settled.idleLoose .freequeue (same ▸ member)
  refine ⟨?_, ?_, ?_⟩
  · intro tested inQueue
    have before := (mem_recycle member).mp inQueue
    simpa [View.recycle, apart _ (by decide) _ before] using
      contexts.readers tested before
  · intro r notKeyboard notFree tested inQueue
    have before := (mem_recycle member).mp inQueue
    simpa [View.recycle, apart _ notFree _ before] using
      contexts.others r notKeyboard notFree tested before
  · simpa [View.recycle, notIdle] using contexts.idle

theorem Contexts.move (contexts : v.Contexts) (settled : v.Settled)
    (move : v.Move v') : v'.Contexts := by
  cases move with
  | wake _ member => exact contexts.wake settled member
  | yield busy _ status fits =>
      exact (contexts.yieldTo settled busy status fits
        (List.perm_append_singleton _ _)).1
  | create _ member => exact contexts.create settled member
  | recycle member => exact contexts.recycle settled member
  | exit busy => exact (contexts.exit settled busy).1

theorem Contexts.moves (contexts : v.Contexts) (settled : v.Settled)
    (moves : v.Moves v') : v'.Contexts := by
  induction moves with
  | refl => exact contexts
  | tail earlier move inductionHypothesis =>
      exact inductionHypothesis.move (settled.moves earlier) move

/-! ## The keyboard queue stays as it is -/

theorem Move.keyboard (settled : v.Settled) (move : v.Move v') :
    v'.queue .keyboardqueue = v.queue .keyboardqueue ∧
      ∀ t ∈ v.queue .keyboardqueue, v'.context t = v.context t := by
  have away : ∀ t ∈ v.queue .keyboardqueue, t ≠ v.current := by
    rintro t inQueue rfl
    exact settled.currentLoose _ inQueue
  have apart : ∀ child ∈ v.queue .freequeue, ∀ t ∈ v.queue .keyboardqueue,
      t ≠ child := by
    rintro child isFree t inQueue rfl
    cases settled.exclusive _ _ _ inQueue isFree
  cases move with
  | wake _ _ => simp [View.wake, place, remove]
  | yield _ notKeyboard _ _ =>
      refine ⟨?_, fun t inQueue => ?_⟩
      · simp [View.yield, View.dispatch, place, notKeyboard.symm]
      · simp [View.yield, View.dispatch, place, away t inQueue]
  | create _ member =>
      refine ⟨by simp [View.create, place, remove], fun t inQueue => ?_⟩
      simp [View.create, apart _ member t inQueue]
  | recycle member =>
      refine ⟨by simp [View.recycle], fun t inQueue => ?_⟩
      simp [View.recycle, apart _ member t inQueue]
  | exit _ =>
      refine ⟨by simp [View.retire, View.dispatch, place], fun t inQueue => ?_⟩
      simp [View.retire, View.dispatch, place, away t inQueue]

theorem Moves.keyboard (settled : v.Settled) (moves : v.Moves v') :
    v'.queue .keyboardqueue = v.queue .keyboardqueue ∧
      ∀ t ∈ v.queue .keyboardqueue, v'.context t = v.context t := by
  induction moves with
  | refl => exact ⟨rfl, fun _ _ => rfl⟩
  | tail earlier move inductionHypothesis =>
      obtain ⟨sameQueue, sameContext⟩ := inductionHypothesis
      have last := Move.keyboard (settled.moves earlier) move
      refine ⟨last.1.trans sameQueue, fun t member => ?_⟩
      rw [last.2 t (sameQueue.symm ▸ member), sameContext t member]

end View

end Zeos
