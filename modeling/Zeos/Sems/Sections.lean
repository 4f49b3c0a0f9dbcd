import Zeos.Sems.Conservation
import Zeos.Sems.Verdicts

/-!
# Critical sections

A semaphore guards a section of code when each process that signals it has
passed a wait before.  Then no more processes are between wait and signal than
`sem_init` allowed, and none waits while another could enter: every unit is in
the counter, with a process inside, or with one that was woken and has not gone
on.
-/

namespace Zeos

namespace Kernel

variable {s s' : Kernel} {event : Event} {n : SemId} {t : TaskId}

/-! ## Where a waiter comes from -/

theorem Turn.idle (turn : Turn s event s') : s'.idleTask = s.idleTask := by
  cases turn with
  | stays _ view _ _ => exact congrArg View.idle view
  | preempted _ view _ _ => exact congrArg View.idle view
  | served _ view _ _ => exact congrArg View.idle view
  | asked _ _ view _ _ => exact congrArg View.idle view
  | again _ _ _ view _ _ => exact congrArg View.idle view
  | took _ _ _ view _ _ _ => exact congrArg View.idle view
  | waited _ _ _ _ view _ _ => exact congrArg View.idle view
  | raised _ _ _ view _ _ _ => exact congrArg View.idle view
  | woke _ _ _ _ view _ _ => exact congrArg View.idle view
  | opened _ _ view _ _ _ => exact congrArg View.idle view
  | destroyed _ _ _ _ released _ _ _ => exact released.idle
  | exited _ released view _ _ _ _ _ => exact (congrArg View.idle view).trans released.idle
  | created _ _ _ view _ _ _ _ _ => exact congrArg View.idle view
  | recycled _ _ view _ _ _ _ _ => exact congrArg View.idle view

/-- The process is saved in the middle of `sys_sem_wait`. -/
def InWait (s : Kernel) (t : TaskId) : Prop := ∃ n mySemID, s.context t = .semWait n mySemID

/-- The idle process never waits for a semaphore. -/
theorem Turn.idle_context (turn : Turn s event s') (orderly : s.Orderly)
    (never : ¬ s.InWait s.idleTask) : ¬ s'.InWait s'.idleTask := by
  rw [turn.idle]
  have contextOf : ∀ {v : View}, s'.view = v → s'.context = v.context :=
    fun view => congrArg View.context view
  have same : s'.context s.idleTask = s.context s.idleTask → ¬ s'.InWait s.idleTask := by
    rintro kept ⟨n, mySemID, waits⟩
    exact never ⟨n, mySemID, kept ▸ waits⟩
  have updated : ∀ {u : TaskId} {context : Context},
      s'.context = Function.update s.context u context →
      u ≠ s.idleTask ∨ (∀ n mySemID, context ≠ .semWait n mySemID) →
        ¬ s'.InWait s.idleTask := by
    rintro u context view (other | plain) ⟨n, mySemID, waits⟩
    · rw [view, Function.update_of_ne (Ne.symm other)] at waits
      exact never ⟨n, mySemID, waits⟩
    · by_cases isIdle : s.idleTask = u
      · rw [view, isIdle, Function.update_self] at waits
        exact plain n mySemID waits
      · rw [view, Function.update_of_ne isIdle] at waits
        exact never ⟨n, mySemID, waits⟩
  have notChild : ∀ child ∈ s.queue .freequeue, child ≠ s.idleTask := by
    rintro child free rfl
    exact orderly.settled.idleLoose .freequeue free
  cases turn with
  | stays _ view _ _ => exact same (congrFun (contextOf view) _)
  | preempted busy view _ _ => exact updated (contextOf view) (Or.inl busy)
  | served _ view _ _ => exact updated (contextOf view) (Or.inr nofun)
  | asked busy _ view _ _ => exact updated (contextOf view) (Or.inl busy)
  | again _ _ reading view _ _ =>
      refine updated (contextOf view) (Or.inr ?_)
      rintro n mySemID rfl
      exact reading
  | took _ _ _ view _ _ _ => exact same (congrFun (contextOf view) _)
  | waited _ busy _ _ view _ _ => exact updated (contextOf view) (Or.inl busy)
  | raised _ _ _ view _ _ _ => exact same (congrFun (contextOf view) _)
  | woke _ _ _ _ view _ _ => exact same (congrFun (contextOf view) _)
  | opened _ _ view _ _ _ => exact same (congrFun (contextOf view) _)
  | destroyed _ _ _ _ released _ _ _ => exact same (congrFun released.context _)
  | @exited v _ _ released view _ _ _ _ _ =>
      have saved : s'.context = Function.update v.context v.current .exited :=
        contextOf view
      rw [released.context] at saved
      exact updated saved (Or.inr nofun)
  | @created _ child _ _ _ free view _ _ _ _ _ =>
      exact updated (contextOf view) (Or.inr nofun)
  | @recycled child _ _ _ _ free view _ _ _ _ _ =>
      exact updated (contextOf view) (Or.inl (notChild child free))

/-- A process that is about to go on was picked from the ready queue, or it is
idle. -/
theorem returning_dispatched {v : View} {context : Context}
    (view : s'.view = v.dispatch context) (returning : Returning t s') :
    t ∈ v.queue .readyqueue ∨ t = v.idle := by
  have ready : s'.queue .readyqueue = (v.queue .readyqueue).tail := by
    have queue : s'.queue .readyqueue = (v.dispatch context).queue .readyqueue :=
      congrFun (congrArg View.queue view) .readyqueue
    rw [queue]
    simp [View.dispatch]
  have current : s'.current = v.next := congrArg View.current view
  rcases returning with waits | ⟨isCurrent, _⟩
  · rw [ready] at waits
    exact Or.inl (List.mem_of_mem_tail waits)
  · rw [← isCurrent, current]
    rcases v.next_cases with ⟨_, isIdle⟩ | ⟨rest, shape⟩
    · exact Or.inr isIdle
    · rw [shape]
      exact Or.inl List.mem_cons_self

theorem not_queued (orderly : s.Orderly) (returning : Returning t s) :
    t ∉ s.queue (.semaphore n) := by
  intro queued
  rcases returning with ready | ⟨isCurrent, _⟩
  · cases orderly.settled.exclusive t _ _ ready queued
  · exact orderly.settled.away queued isCurrent.symm

/-- A step that does not switch leaves the ready queue to those that were there. -/
theorem Returning.inReady (returning : Returning t s) (mode : s.mode = .user) :
    t ∈ s.queue .readyqueue := by
  rcases returning with inQueue | ⟨_, switched⟩
  · exact inQueue
  · rw [mode] at switched
    cases switched

/-- Who is ready after a release was ready, or waited for a semaphore. -/
theorem released_ready {v : View} {closed : SemId → Prop} (released : Released closed s.view v)
    (inQueue : t ∈ v.queue .readyqueue) :
    t ∈ s.queue .readyqueue ∨ ∃ m, t ∈ s.queue (.semaphore m) := by
  obtain ⟨tasks, queue, members⟩ := released.woken
  rw [queue] at inQueue
  rcases List.mem_append.mp inQueue with woken | before
  · obtain ⟨m, _, member⟩ := (members t).mp woken
    exact Or.inr ⟨m, member⟩
  · exact Or.inl before

/-- The process that a switch saves is not the one that is about to go on. -/
theorem waits_before_dispatch {v : View} {context : Context} {mySemID : Int}
    (view : s'.view = v.dispatch context) (idle : v.idle = s.idleTask)
    (current : v.current = s.current) (saved : v.context = s.context)
    (returning : Returning t s') (notIdle : t ≠ s.idleTask)
    (waits : s'.context t = .semWait n mySemID)
    (distinct : t ≠ s.current ∨ ∀ m id, context ≠ .semWait m id) :
    t ≠ s.current ∧ s.context t = .semWait n mySemID ∧ t ∈ v.queue .readyqueue := by
  have update : s'.context = Function.update s.context s.current context := by
    rw [← saved, ← current]
    exact congrArg View.context view
  have other : t ≠ s.current := by
    rcases distinct with other | plain
    · exact other
    · rintro rfl
      rw [update, Function.update_self] at waits
      exact absurd waits (plain n mySemID)
  rw [update, Function.update_of_ne other] at waits
  rcases returning_dispatched view returning with inQueue | isIdle
  · exact ⟨other, waits, inQueue⟩
  · exact absurd (isIdle.trans idle) notIdle

/-- A process that is about to go on in `sys_sem_wait` was about to before, or was
waiting for a semaphore. -/
theorem Turn.returns_from (turn : Turn s event s') (orderly : s.Orderly)
    (after : s'.Orderly) (returning : Returning t s') (notIdle : t ≠ s.idleTask)
    {mySemID : Int} (waits : s'.context t = .semWait n mySemID) :
    s.context t = .semWait n mySemID ∧
      (t ∈ s.queue .readyqueue ∨ ∃ m, t ∈ s.queue (.semaphore m)) := by
  have settled := orderly.settled
  have contextOf : ∀ {v : View}, s'.view = v → s'.context = v.context :=
    fun view => congrArg View.context view
  have stayed : s'.view = s.view → s'.mode = .user →
      s.context t = .semWait n mySemID ∧
        (t ∈ s.queue .readyqueue ∨ ∃ m, t ∈ s.queue (.semaphore m)) := by
    intro view mode
    have inQueue := returning.inReady mode
    change t ∈ s'.view.queue .readyqueue at inQueue
    rw [view] at inQueue
    rw [contextOf view] at waits
    exact ⟨waits, Or.inl inQueue⟩
  cases turn with
  | stays _ view _ mode => exact stayed view mode
  | preempted _ view _ _ =>
      obtain ⟨other, saved, inQueue⟩ := waits_before_dispatch view rfl rfl rfl returning
        notIdle waits (Or.inr nofun)
      rw [View.place_queue_self, List.mem_append, List.mem_singleton] at inQueue
      exact ⟨saved, Or.inl (inQueue.resolve_right other)⟩
  | @served _ _ u rest _ shape view _ _ =>
      obtain ⟨_, saved, inQueue⟩ := waits_before_dispatch view rfl rfl rfl returning
        notIdle waits (Or.inr nofun)
      refine ⟨saved, Or.inl ?_⟩
      have inKeyboard : u ∈ s.view.queue .keyboardqueue := by
        change u ∈ s.queue .keyboardqueue
        rw [shape]
        exact List.mem_cons_self
      rcases (View.mem_wake settled.toParked inKeyboard (Or.inl rfl)).mp inQueue with
        ⟨rfl, _⟩ | ⟨_, before⟩
      · have reading := orderly.contexts.readers t inKeyboard
        change (s.context t).Reading at reading
        rw [saved] at reading
        exact absurd reading id
      · exact before
  | asked _ reading view _ _ =>
      obtain ⟨_, saved, inQueue⟩ := waits_before_dispatch view rfl rfl rfl returning
        notIdle waits (Or.inr fun _ _ isWait => by
          subst isWait
          exact reading)
      exact ⟨saved, Or.inl inQueue⟩
  | again _ _ reading view _ _ =>
      obtain ⟨_, saved, inQueue⟩ := waits_before_dispatch view rfl rfl rfl returning
        notIdle waits (Or.inr fun _ _ isWait => by
          subst isWait
          exact reading)
      exact ⟨saved, Or.inl inQueue⟩
  | took _ _ _ view _ _ mode => exact stayed view mode
  | @waited _ m _ _ _ _ _ view _ _ =>
      have queued : s.current ∈ s'.queue (.semaphore m) := by
        change s.current ∈ s'.view.queue (.semaphore m)
        rw [view, View.yield_semaphore, if_pos rfl]
        exact List.mem_append_right _ List.mem_cons_self
      have other : t ≠ s.current := by
        rintro rfl
        exact not_queued after returning queued
      obtain ⟨_, saved, inQueue⟩ := waits_before_dispatch view rfl rfl rfl returning
        notIdle waits (Or.inl other)
      exact ⟨saved, Or.inl ((View.mem_place_of_ne (by simp)).mp inQueue)⟩
  | raised _ _ _ view _ _ mode => exact stayed view mode
  | @woke _ m u rest _ _ _ _ shape view _ mode =>
      have inQueue := returning.inReady mode
      change t ∈ s'.view.queue .readyqueue at inQueue
      rw [view] at inQueue
      rw [contextOf view] at waits
      refine ⟨waits, ?_⟩
      have waiting : u ∈ s.view.queue (.semaphore m) := by
        change u ∈ s.queue (.semaphore m)
        rw [shape]
        exact List.mem_cons_self
      rcases (View.mem_wake settled.toParked waiting (Or.inr ⟨m, rfl⟩)).mp inQueue with
        ⟨rfl, _⟩ | ⟨_, before⟩
      · exact Or.inr ⟨m, waiting⟩
      · exact Or.inl before
  | opened _ _ view _ _ mode => exact stayed view mode
  | destroyed _ _ _ _ released _ _ mode =>
      rw [show s'.context t = s.context t from congrFun released.context t] at waits
      exact ⟨waits, released_ready released (returning.inReady mode)⟩
  | @exited v _ _ released view _ _ _ _ _ =>
      obtain ⟨_, saved, inQueue⟩ := waits_before_dispatch view released.idle released.current
        released.context returning notIdle waits (Or.inr nofun)
      refine ⟨saved, ?_⟩
      rcases View.mem_retire.mp inQueue with ⟨_, isFree⟩ | inReady
      · cases isFree
      · exact released_ready released inReady
  | @created _ child _ _ _ free view _ _ _ _ mode =>
      have inQueue := returning.inReady mode
      change t ∈ s'.view.queue .readyqueue at inQueue
      rw [view] at inQueue
      rw [contextOf view] at waits
      rcases (View.mem_create settled.toParked free).mp inQueue with
        ⟨rfl, _⟩ | ⟨other, before⟩
      · rw [show (s.view.create t .retFromFork).context t = .retFromFork from
          Function.update_self _ _ _] at waits
        cases waits
      · rw [show (s.view.create child .retFromFork).context t = s.context t from
          Function.update_of_ne other _ _] at waits
        exact ⟨waits, Or.inl before⟩
  | @recycled child _ _ _ _ free view _ _ _ _ mode =>
      have inQueue := returning.inReady mode
      change t ∈ s'.view.queue .readyqueue at inQueue
      rw [view] at inQueue
      rw [contextOf view] at waits
      have before : t ∈ s.queue .readyqueue := (View.mem_recycle free).mp inQueue
      have other : t ≠ child := by
        rintro rfl
        cases settled.exclusive t _ _ before free
      rw [show (s.view.recycle child _ _).context t = s.context t from
        Function.update_of_ne other _ _] at waits
      exact ⟨waits, Or.inl before⟩

/-! ## The observer -/

/-- The semaphore whose wait a process was saved in. -/
def waitsFor (s : Kernel) (t : TaskId) : Option SemId :=
  match s.context t with
  | .semWait n _ => some n
  | _ => none

/-- A semaphore that guards a section: the value that `sem_init` gave it, and the
processes that have passed a wait and not signalled since. -/
structure Door where
  c0 : Int
  inside : List TaskId := []
  deriving DecidableEq

/-- What the observer knows: the number of calls of `sem_init`, and the door. -/
structure Doorkeeper where
  inits : Nat := 0
  door : Option Door := none

/-- The event goes on with a call of `sem_wait` on `n`: it is the call, or the
process that was switched to is a waiter. -/
def OnWait (n : SemId) (s : Kernel) : Event → Prop
  | .syscall (.semWait nSem) => semIndex nSem = some n
  | .resume => s.waitsFor s.current = some n
  | _ => False

/-- The call returns 0 to the process in the step. -/
def Enters (n : SemId) (s : Kernel) (event : Event) (s' : Kernel) : Prop :=
  OnWait n s event ∧ s'.mode = .user ∧ s'.eax s.current = 0

instance (n : SemId) (s : Kernel) : DecidablePred (OnWait n s)
  | .syscall (.semWait nSem) => inferInstanceAs (Decidable (semIndex nSem = some n))
  | .syscall .exit | .syscall .fork | .syscall (.read _ _ _) | .syscall (.write _ _ _)
  | .syscall .gettime | .syscall (.sbrk _) | .syscall (.clone _ _) | .syscall .getpid
  | .syscall (.semInit _ _) | .syscall (.semSignal _) | .syscall (.semDestroy _)
  | .syscall (.getStats _ _) | .syscall .niSyscall => isFalse id
  | .resume => inferInstanceAs (Decidable (s.waitsFor s.current = some n))
  | .clock => isFalse id
  | .keyboard _ _ => isFalse id
  | .badSyscall => isFalse id

instance (n : SemId) (s : Kernel) (event : Event) (s' : Kernel) :
    Decidable (Enters n s event s') :=
  inferInstanceAs (Decidable (_ ∧ _))

/-- The processes inside after the step. -/
def Door.watch (d : Door) (n : SemId) (s : Kernel) (event : Event) (s' : Kernel) : Door :=
  if Enters n s event s' then { d with inside := s.current :: d.inside }
  else if signalsTo n event = 1 then { d with inside := d.inside.erase s.current }
  else d

/-- The observer of the slot `n`: a door is made when the slot is taken, and is
gone when the slot is free again. -/
def watchDoor (n : SemId) (s : Kernel) (event : Event) (s' : Kernel)
    (keeper : Doorkeeper) : Doorkeeper where
  inits := keeper.inits + initsIn event
  door :=
    if (s'.semaphores n).ownerPID < 0 then none
    else if (s.semaphores n).ownerPID < 0 then
      (initialCounter event).map fun c0 => { c0 := c0 }
    else keeper.door.map fun d => d.watch n s event s'

/-- Only processes inside signal. -/
def Orders (n : SemId) (before : Kernel × Doorkeeper) (event : Event) : Prop :=
  signalsTo n event = 1 → ∀ d ∈ before.2.door, before.1.current ∈ d.inside

instance (n : SemId) (before : Kernel × Doorkeeper) (event : Event) :
    Decidable (Orders n before event) := by
  unfold Orders
  infer_instance

instance (t : TaskId) (s : Kernel) : Decidable (Returning t s) := by
  unfold Returning
  infer_instance

/-- The processes that a signal has taken off the queue of `n`, and that have not
gone on. -/
def entering (n : SemId) (s : Kernel) : Finset TaskId :=
  Finset.univ.filter fun t =>
    Returning t s ∧ s.context t = .semWait n (s.semaphores n).semID

theorem mem_entering : t ∈ entering n s ↔
    Returning t s ∧ s.context t = .semWait n (s.semaphores n).semID := by
  simp [entering]

/-- The units of the semaphore are in the counter, with processes inside, and with
those that are entering. -/
structure Guarded (n : SemId) (s : Kernel) (d : Door) : Prop where
  balance : (s.semaphores n).counter + d.inside.length + (entering n s).card = d.c0
  bound : (d.inside.length : Int) ≤ max d.c0 0
  exclusive : d.c0 = 1 → ∀ t ∈ d.inside, ∀ u ∈ d.inside, t = u
  waiting : s.queue (.semaphore n) ≠ [] →
    d.c0 ≤ (d.inside.length : Int) + (entering n s).card

/-! ## What a step does at the door -/

/-- What the door of `n` relies on. -/
structure Kept (n : SemId) (s : Kernel) (d : Door) : Prop where
  balance : (s.semaphores n).counter + d.inside.length + (entering n s).card = d.c0
  low : min d.c0 0 ≤ (s.semaphores n).counter
  short : s.queue (.semaphore n) ≠ [] → (s.semaphores n).counter ≤ 0
  range : -2 ^ 31 ≤ d.c0 ∧ d.c0 < 2 ^ 31

theorem Kept.guarded {d : Door} (kept : Kept n s d) : Guarded n s d := by
  obtain ⟨balance, low, short, _⟩ := kept
  have bound : (d.inside.length : Int) ≤ max d.c0 0 := by omega
  refine ⟨balance, bound, fun isMutex t first u second => ?_, fun waiting => ?_⟩
  · have few : d.inside.length ≤ 1 := by omega
    cases shape : d.inside with
    | nil =>
        rw [shape] at first
        cases first
    | cons only rest =>
        rw [shape, List.length_cons] at few
        have none : rest = [] := List.length_eq_zero_iff.mp (by omega)
        rw [shape, none] at first second
        rw [List.mem_singleton.mp first, List.mem_singleton.mp second]
  · have empty := short waiting
    omega

/-- What the observer relies on: the IDs that waiters have saved were given out
before. -/
structure Attended (n : SemId) (s : Kernel) (keeper : Doorkeeper) : Prop where
  ids : IdsBelow s keeper.inits
  idle : ¬ s.InWait s.idleTask
  queued : ∀ m, ∀ t ∈ s.queue (.semaphore m),
    s.context t = .semWait m (s.semaphores m).semID
  saved : ∀ t, Returning t s → ∀ m mySemID, s.context t = .semWait m mySemID →
    mySemID ≤ s.globalSemID
  door : 0 ≤ (s.semaphores n).ownerPID → ∃ d, keeper.door = some d ∧ Kept n s d

theorem Attended.notIdle {keeper : Doorkeeper} (attended : Attended n s keeper)
    (orderly : s.Orderly) (turn : Turn s event s') {m : SemId} {mySemID : Int}
    (waits : s'.context t = .semWait m mySemID) : t ≠ s.idleTask := by
  rintro rfl
  rw [← turn.idle] at waits
  exact turn.idle_context orderly attended.idle ⟨m, mySemID, waits⟩

/-- The ID that a waiter has saved was given out before the step in which the waiter
is woken. -/
theorem Attended.known {keeper : Doorkeeper} (attended : Attended n s keeper)
    (orderly : s.Orderly) (after : s'.Orderly) (turn : Turn s event s')
    (returning : Returning t s') {m : SemId} {mySemID : Int}
    (waits : s'.context t = .semWait m mySemID) : mySemID ≤ s.globalSemID := by
  obtain ⟨saved, ready | ⟨k, queued⟩⟩ := turn.returns_from orderly after returning
    (attended.notIdle orderly turn waits) waits
  · exact attended.saved t (Or.inl ready) m _ saved
  · have used : 0 ≤ (s.semaphores k).ownerPID :=
      orderly.refines.active_of_mem (q := .semaphore k) queued
    have given := attended.ids.used k used
    have same := attended.queued k t queued
    rw [saved] at same
    injection same with _ ids
    omega

/-- Who enters after a step was entering, or leaves the queue in the step. -/
theorem mem_entering_step {keeper : Doorkeeper} (attended : Attended n s keeper)
    (orderly : s.Orderly) (after : s'.Orderly) (turn : Turn s event s')
    (same : (s'.semaphores n).semID = (s.semaphores n).semID) :
    t ∈ entering n s' ↔ (t ∈ entering n s ∧ s.current ≠ t) ∨
      (t ∈ s.queue (.semaphore n) ∧ t ∉ s'.queue (.semaphore n)) := by
  rw [mem_entering, mem_entering, same]
  constructor
  · rintro ⟨returning, waits⟩
    obtain ⟨saved, ready | ⟨m, queued⟩⟩ := turn.returns_from orderly after returning
      (attended.notIdle orderly turn waits) waits
    · exact Or.inl ⟨⟨Or.inl ready, saved⟩, (orderly.settled.away ready).symm⟩
    · have isN := attended.queued m t queued
      rw [saved] at isN
      cases isN
      exact Or.inr ⟨queued, not_queued after returning⟩
  · rintro (⟨⟨returning, saved⟩, other⟩ | ⟨before, gone⟩)
    · obtain ⟨context, later⟩ := turn.returning orderly returning other
      exact ⟨later, context.trans saved⟩
    · obtain ⟨context, returning⟩ := turn.leaves orderly before gone
      exact ⟨returning, context.trans (attended.queued n t before)⟩

/-- A call of `sem_wait` returns 0 at once exactly if it finds a unit, which it
takes. -/
theorem wait_enters (orderly : s.Orderly) {nSem : Int32}
    (taken : s.step (.syscall (.semWait nSem)) = some s') (slot : semIndex nSem = some n)
    (used : 0 ≤ (s.semaphores n).ownerPID) :
    (Enters n s (.syscall (.semWait nSem)) s' ↔ 0 < (s.semaphores n).counter) ∧
      (0 < (s.semaphores n).counter →
        (s'.semaphores n).counter = (s.semaphores n).counter - 1) := by
  have handled := handle_of_step taken
  rw [handle] at handled
  split_ifs at handled
  cases handled
  have entered := orderly.userToSysStats
  have call : s.systemCall (.semWait nSem) =
      complete (s.userToSysStats.sysSemWait nSem) := rfl
  rw [call]
  unfold sysSemWait
  rw [slot]
  dsimp only
  rw [if_neg (show ¬ (s.userToSysStats.semaphores n).ownerPID < 0 from not_lt.mpr used)]
  by_cases short : (s.semaphores n).counter ≤ 0
  · rw [if_pos (show (s.userToSysStats.semaphores n).counter ≤ 0 from short)]
    have ran := entered.refines.blockAndSwitch (q := .semaphore n)
      entered.settled used (.semWait n (s.semaphores n).semID)
    refine ⟨iff_of_false (fun enters => ?_) (not_lt.mpr short), fun _ => by omega⟩
    have user : Mode.switched = .user := ran.2.symm.trans enters.2.1
    cases user
  · rw [if_neg (show ¬ (s.userToSysStats.semaphores n).counter ≤ 0 from short)]
    refine ⟨iff_of_true ⟨slot, rfl, Function.update_self _ _ _⟩ (not_le.mp short),
      fun _ => ?_⟩
    have semaphore : ∀ m : SemId → Semaphore, ∀ sem : Semaphore,
        (Function.update m n sem n).counter = sem.counter :=
      fun m sem => congrArg Semaphore.counter (Function.update_self n sem m)
    exact semaphore _ _

/-- A waiter that goes on returns 0 exactly if it was entering. -/
theorem resume_enters (taken : s.step .resume = some s')
    (used : 0 ≤ (s.semaphores n).ownerPID) :
    Enters n s .resume s' ↔ s.current ∈ entering n s := by
  have handled := handle_of_step taken
  rw [handle] at handled
  split_ifs at handled with mode
  cases handled
  rw [mem_entering]
  constructor
  · rintro ⟨waits, _, zero⟩
    change s.waitsFor s.current = some n at waits
    unfold waitsFor at waits
    split at waits
    · next m mySemID context =>
        cases waits
        have result := (resume_wait context rfl taken).2
        rw [zero] at result
        unfold semWaitResult at result
        split_ifs at result with stale
        refine ⟨Or.inr ⟨rfl, mode⟩, ?_⟩
        rw [context]
        by_contra other
        exact stale (Or.inr fun same => other (by rw [same]))
    · cases waits
  · rintro ⟨_, context⟩
    obtain ⟨user, result⟩ := resume_wait context rfl taken
    refine ⟨?_, user, result.trans (if_neg ?_)⟩
    · change s.waitsFor s.current = some n
      unfold waitsFor
      rw [context]
    · rintro (unused | other)
      · omega
      · exact other rfl

theorem user_of_step (taken : s.step event = some s') (other : event ≠ .resume) :
    s.mode = .user := by
  have handled := handle_of_step taken
  cases event with
  | clock => exact (Option.ite_none_right_eq_some.mp handled).1
  | keyboard scancode beyond => exact (Option.ite_none_right_eq_some.mp handled).1
  | syscall call => exact (Option.ite_none_right_eq_some.mp handled).1.1
  | badSyscall => exact (Option.ite_none_right_eq_some.mp handled).1.1
  | resume => exact absurd rfl other

theorem current_not_entering (orderly : s.Orderly) (mode : s.mode = .user) :
    s.current ∉ entering n s := by
  rw [mem_entering]
  rintro ⟨ready | ⟨_, switched⟩, _⟩
  · exact orderly.settled.away ready rfl
  · rw [mode] at switched
    cases switched

/-- Without a process that leaves the queue, only the one that runs may stop
entering. -/
theorem entering_kept {keeper : Doorkeeper} (attended : Attended n s keeper)
    (orderly : s.Orderly) (after : s'.Orderly) (turn : Turn s event s')
    (same : (s'.semaphores n).semID = (s.semaphores n).semID)
    (stay : ∀ t ∈ s.queue (.semaphore n), t ∈ s'.queue (.semaphore n)) :
    entering n s' = (entering n s).erase s.current := by
  ext t
  rw [mem_entering_step attended orderly after turn same, Finset.mem_erase, and_comm,
    ne_comm]
  exact or_iff_left fun both => both.2 (stay t both.1)

/-- The process that a signal wakes is entering. -/
theorem entering_woke {keeper : Doorkeeper} (attended : Attended n s keeper)
    (orderly : s.Orderly) (after : s'.Orderly) (turn : Turn s event s')
    (same : (s'.semaphores n).semID = (s.semaphores n).semID) (mode : s.mode = .user)
    (shape : s.queue (.semaphore n) = t :: s'.queue (.semaphore n)) :
    t ∉ entering n s ∧ entering n s' = insert t (entering n s) := by
  have first : t ∈ s.queue (.semaphore n) := by
    rw [shape]
    exact List.mem_cons_self
  have nodup : (s.queue (.semaphore n)).Nodup := orderly.settled.nodup (.semaphore n)
  rw [shape, List.nodup_cons] at nodup
  refine ⟨fun enters => not_queued orderly (mem_entering.mp enters).1 first, ?_⟩
  ext u
  rw [mem_entering_step attended orderly after turn same, Finset.mem_insert, or_comm]
  refine or_congr ?_ ?_
  · rw [shape, List.mem_cons]
    constructor
    · rintro ⟨isFirst | later, gone⟩
      · exact isFirst
      · exact absurd later gone
    · rintro rfl
      exact ⟨Or.inl rfl, nodup.1⟩
  · refine and_iff_left_of_imp fun enters isCurrent => ?_
    rw [← isCurrent] at enters
    exact current_not_entering orderly mode enters

theorem not_enters (other : event ≠ .resume)
    (noWait : ∀ nSem, event = .syscall (.semWait nSem) → semIndex nSem ≠ some n) :
    ¬ Enters n s event s' := by
  rintro ⟨onWait, _⟩
  cases event with
  | syscall call =>
      cases call with
      | semWait nSem => exact noWait nSem rfl onWait
      | _ => exact onWait
  | resume => exact other rfl
  | _ => exact onWait

theorem watch_stays {d : Door} (outside : ¬ Enters n s event s')
    (silent : signalsTo n event = 0) : d.watch n s event s' = d := by
  rw [Door.watch, if_neg outside, if_neg (by omega)]

/-- A step that leaves the semaphore alone may let a waiter in that was woken
before. -/
theorem Kept.untouched {d : Door} {keeper : Doorkeeper} (kept : Kept n s d)
    (attended : Attended n s keeper) (orderly : s.Orderly) (after : s'.Orderly)
    (taken : s.step event = some s') (used : 0 ≤ (s.semaphores n).ownerPID)
    (silent : signalsTo n event = 0) (semaphore : s'.semaphores n = s.semaphores n)
    (queue : s'.queue (.semaphore n) = s.queue (.semaphore n)) :
    Kept n s' (d.watch n s event s') := by
  have turn := turn_of_step orderly taken
  have erased := entering_kept attended orderly after turn (by rw [semaphore])
    fun t member => by rwa [queue]
  obtain ⟨balance, low, short, range⟩ := kept
  by_cases resumed : event = .resume
  · subst resumed
    by_cases enters : Enters n s .resume s'
    · have member := (resume_enters taken used).mp enters
      have count := Finset.card_erase_add_one member
      rw [Door.watch, if_pos enters]
      refine ⟨?_, by rw [semaphore]; exact low, by rw [semaphore, queue]; exact short,
        range⟩
      rw [semaphore, erased]
      dsimp only
      rw [List.length_cons]
      omega
    · have outside := (resume_enters taken used).not.mp enters
      rw [watch_stays enters silent]
      refine ⟨?_, by rw [semaphore]; exact low, by rw [semaphore, queue]; exact short,
        range⟩
      rw [semaphore, erased, Finset.erase_eq_of_notMem outside]
      exact balance
  · have mode := user_of_step taken resumed
    have outside : ¬ Enters n s event s' := by
      intro enters
      by_cases waits : ∃ nSem, event = .syscall (.semWait nSem) ∧ semIndex nSem = some n
      · obtain ⟨nSem, rfl, slot⟩ := waits
        obtain ⟨found, lowered⟩ := wait_enters orderly taken slot used
        have counter := lowered (found.mp enters)
        rw [semaphore] at counter
        omega
      · exact not_enters resumed (fun nSem same slot => waits ⟨nSem, same, slot⟩) enters
    rw [watch_stays outside silent]
    refine ⟨?_, by rw [semaphore]; exact low, by rw [semaphore, queue]; exact short,
      range⟩
    rw [semaphore, erased,
      Finset.erase_eq_of_notMem (current_not_entering orderly mode)]
    exact balance

theorem Kept.step {d : Door} {keeper : Doorkeeper} (kept : Kept n s d)
    (attended : Attended n s keeper) (orderly : s.Orderly) (after : s'.Orderly)
    (taken : s.step event = some s') (used : 0 ≤ (s.semaphores n).ownerPID)
    (still : 0 ≤ (s'.semaphores n).ownerPID)
    (orders : signalsTo n event = 1 → s.current ∈ d.inside) :
    Kept n s' (d.watch n s event s') := by
  have turn := turn_of_step orderly taken
  have slot := turn.slot orderly n
  cases slot with
  | untouched silent semaphore queue =>
      refine kept.untouched attended orderly after taken used ?_ semaphore queue
      unfold signalsTo
      split
      · next nSem =>
          apply if_neg
          intro slot
          have unused := silent nSem rfl slot
          omega
      · rfl
  | @took nSem _ slot before positive semaphore queue =>
      have mode := user_of_step taken (by simp)
      have erased := entering_kept attended orderly after turn (by rw [semaphore])
        fun t member => by rwa [queue]
      have enters := (wait_enters orderly taken slot used).1.mpr positive
      obtain ⟨balance, low, short, range⟩ := kept
      rw [Door.watch, if_pos enters]
      refine ⟨?_, ?_, fun nonempty => ?_, range⟩
      · rw [erased, Finset.erase_eq_of_notMem (current_not_entering orderly mode),
          semaphore]
        dsimp only
        rw [List.length_cons]
        omega
      · rw [semaphore]
        dsimp only
        omega
      · rw [queue] at nonempty
        have none := short nonempty
        omega
  | @waited nSem _ slot before noUnit semaphore queue _ =>
      have mode := user_of_step taken (by simp)
      have erased := entering_kept attended orderly after turn (by rw [semaphore])
        fun t member => by
          rw [queue]
          exact List.mem_append_left _ member
      have outside := (wait_enters orderly taken slot used).1.not.mpr (not_lt.mpr noUnit)
      obtain ⟨balance, low, _, range⟩ := kept
      rw [watch_stays outside rfl]
      refine ⟨?_, by rw [semaphore]; exact low, fun _ => by rw [semaphore]; exact noUnit,
        range⟩
      rw [semaphore, erased,
        Finset.erase_eq_of_notMem (current_not_entering orderly mode)]
      exact balance
  | @raised nSem _ slot before empty semaphore queue =>
      have mode := user_of_step taken (by simp)
      have erased := entering_kept attended orderly after turn (by rw [semaphore])
        fun t member => by
          rw [empty] at member
          cases member
      have signals : signalsTo n (.syscall (.semSignal nSem)) = 1 := if_pos slot
      have member := orders signals
      have inside := List.length_erase_of_mem member
      have some_ := List.length_pos_of_mem member
      obtain ⟨balance, low, _, range⟩ := kept
      have raised : (s'.semaphores n).counter = (s.semaphores n).counter + 1 := by
        rw [semaphore]
        exact int32_of_range (by omega) (by omega)
      rw [Door.watch, if_neg (not_enters (by simp) (by simp)), if_pos signals]
      refine ⟨?_, by rw [raised]; dsimp only; omega, fun nonempty => absurd queue nonempty,
        range⟩
      rw [raised, erased,
        Finset.erase_eq_of_notMem (current_not_entering orderly mode)]
      dsimp only
      omega
  | @woke nSem t _ slot before shape semaphore =>
      have mode := user_of_step taken (by simp)
      obtain ⟨fresh, entered⟩ := entering_woke attended orderly after turn
        (by rw [semaphore]) mode shape
      have signals : signalsTo n (.syscall (.semSignal nSem)) = 1 := if_pos slot
      have member := orders signals
      have inside := List.length_erase_of_mem member
      have some_ := List.length_pos_of_mem member
      obtain ⟨balance, low, short, range⟩ := kept
      rw [Door.watch, if_neg (not_enters (by simp) (by simp)), if_pos signals]
      refine ⟨?_, by rw [semaphore]; exact low, fun _ => ?_, range⟩
      · rw [semaphore, entered, Finset.card_insert_of_notMem fresh]
        dsimp only
        omega
      · rw [semaphore]
        exact short (by rw [shape]; exact List.cons_ne_nil t _)
  | opened unused _ _ _ => omega
  | closed _ _ unused _ => omega

/-- A new semaphore has a closed door, and nobody is entering. -/
theorem Kept.opened {keeper : Doorkeeper} (attended : Attended n s keeper)
    (orderly : s.Orderly) (after : s'.Orderly) (turn : Turn s event s')
    (few : keeper.inits + initsIn event < 2 ^ 31) {value : UInt32}
    (semaphore : s'.semaphores n = ⟨s.currentTask.pid, int32 value.toNat,
      int32 (s.globalSemID + 1)⟩)
    (queue : s'.queue (.semaphore n) = [])
    (incremented : s'.globalSemID = int32 (s.globalSemID + 1)) :
    Kept n s' { c0 := int32 value.toNat } := by
  have nobody : entering n s' = ∅ := by
    rw [Finset.eq_empty_iff_forall_notMem]
    intro t member
    obtain ⟨returning, waits⟩ := mem_entering.mp member
    have later := (attended.ids.turn orderly few turn).2.2 incremented
    have new : (s'.semaphores n).semID = s'.globalSemID := by
      rw [semaphore, incremented]
    have known := attended.known orderly after turn returning waits
    omega
  obtain ⟨lower, upper⟩ := int32_range value.toNat
  have counter : (s'.semaphores n).counter = int32 value.toNat := by rw [semaphore]
  generalize int32 value.toNat = c0 at counter lower upper
  exact {
    balance := by
      rw [nobody, counter]
      simp
    low := by
      rw [counter]
      exact min_le_left c0 0
    short := fun nonempty => absurd queue nonempty
    range := ⟨lower, upper⟩ }

theorem Attended.step {keeper : Doorkeeper} (attended : Attended n s keeper)
    (orderly : s.Orderly) (taken : s.step event = some s')
    (few : keeper.inits + initsIn event < 2 ^ 31) (orders : Orders n (s, keeper) event) :
    Attended n s' (watchDoor n s event s' keeper) := by
  have turn := turn_of_step orderly taken
  have after := orderly.step taken
  obtain ⟨below, monotone, _⟩ := attended.ids.turn orderly few turn
  refine ⟨below, turn.idle_context orderly attended.idle,
    fun m t => waiting_kept orderly turn (attended.queued m t),
    fun t returning m mySemID waits =>
      (attended.known orderly after turn returning waits).trans monotone,
    fun used => ?_⟩
  by_cases before : 0 ≤ (s.semaphores n).ownerPID
  · obtain ⟨d, known, kept⟩ := attended.door before
    refine ⟨d.watch n s event s', ?_, kept.step attended orderly after taken before used
      fun signals => orders signals d known⟩
    unfold watchDoor
    rw [if_neg (not_lt.mpr used), if_neg (not_lt.mpr before), known]
    rfl
  · cases turn.slot orderly n with
    | @opened nSem value _ unused semaphore queue incremented =>
        refine ⟨{ c0 := int32 value.toNat }, ?_, Kept.opened attended orderly after turn few
          semaphore queue incremented⟩
        unfold watchDoor
        rw [if_neg (not_lt.mpr used), if_pos unused]
        rfl
    | untouched _ semaphore _ =>
        rw [semaphore] at used
        exact absurd used before
    | took _ busy _ _ _ => exact absurd busy before
    | waited _ busy _ _ _ _ => exact absurd busy before
    | raised _ busy _ _ _ => exact absurd busy before
    | woke _ busy _ _ => exact absurd busy before
    | closed _ busy _ _ => exact absurd busy before

theorem boot_attended (image : BootImage) : Attended n (boot image) {} := by
  have unused : ∀ m, ((boot image).semaphores m).ownerPID = -1 := fun _ => rfl
  have nextID : (boot image).globalSemID = -1 := rfl
  have contextOf : ∀ t m mySemID, (boot image).context t ≠ .semWait m mySemID := by
    intro t m mySemID waits
    rw [show (boot image).context = Function.update (fun _ => .exited) 0 .cpuIdle from
      congrArg View.context (boot_refines image).view] at waits
    by_cases isIdle : t = 0
    · rw [isIdle, Function.update_self] at waits
      cases waits
    · rw [Function.update_of_ne isIdle] at waits
      cases waits
  refine ⟨⟨by rw [nextID], by rw [nextID]; decide, ?_⟩, ?_, ?_, ?_, ?_⟩
  · intro m used
    have := unused m
    omega
  · rintro ⟨m, mySemID, waits⟩
    exact contextOf _ m mySemID waits
  · intro m t member
    have used : 0 ≤ ((boot image).semaphores m).ownerPID :=
      (boot_orderly image).refines.active_of_mem (q := .semaphore m) member
    have := unused m
    omega
  · intro t _ m mySemID waits
    exact absurd waits (contextOf t m mySemID)
  · intro used
    have := unused n
    omega

/-- In every run in which only processes inside signal, with fewer than `2 ^ 31` calls
of `sem_init`: no more processes are between wait and signal than the initial value,
at most one if it is 1, and somebody waits only while the units are all taken. -/
theorem sections_guarded {image : BootImage} {keeper : Doorkeeper}
    (run : Library.Reach (Library.observed step (watchDoor n)) (Orders n)
      (boot image, {}) (s, keeper)) (few : keeper.inits < 2 ^ 31)
    (used : 0 ≤ (s.semaphores n).ownerPID) :
    ∃ d, keeper.door = some d ∧ Guarded n s d := by
  have attended : keeper.inits < 2 ^ 31 → Attended n s keeper := by
    refine Library.Reach.record_invariant
      (fun s keeper => keeper.inits < 2 ^ 31 → Attended n s keeper)
      (fun _ => boot_attended image) (fun _ plain => orderly_of_reachable plain) ?_ run
    intro before event after seen orderly known orders taken fewer
    have counted : seen.inits + initsIn event < 2 ^ 31 := fewer
    exact (known (by omega)).step orderly taken counted orders
  obtain ⟨d, known, kept⟩ := (attended few).door used
  exact ⟨d, known, kept.guarded⟩

/-- The first process is inside while its child waits; it signals, and the child goes
on inside. -/
theorem sections_guarded_handed :
    let last := Library.lastState (Library.guarded (Library.observed step (watchDoor 3))
      (Orders 3)) (boot sampleImage, {}) [.syscall (.semInit 3 1), .syscall .fork,
        .syscall (.semWait 3), .syscall (.read 0 0x10A000 1), .resume,
        .syscall (.semWait 3), .resume, .keyboard 0x9E 0, .resume,
        .syscall (.semSignal 3), .syscall (.read 0 0x10A000 1), .resume]
    last.2.door = some { c0 := 1, inside := [2] } ∧
      ∃ d, last.2.door = some d ∧ Guarded 3 last.1 d := by
  intro last
  have run : Library.Reach (Library.observed step (watchDoor 3)) (Orders 3)
      (boot sampleImage, {}) (last.1, last.2) := Library.Reach.guardedRecord
  exact ⟨by decide +kernel, sections_guarded run (by decide +kernel) (by decide +kernel)⟩

end Kernel

end Zeos
