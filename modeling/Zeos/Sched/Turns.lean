import Zeos.Sched.Step
import Zeos.Library.Observers

/-!
# What a step does to queues, semaphores and PIDs

`Effect` allows any moves of the queues in a step that the keyboard driver has
no part in.  `Turn` says which ones the step makes, and what becomes of the
semaphore table and of the PIDs.  The invariants of semaphores and the order
of dispatches are derived from it.
-/

namespace Zeos

/-- The waiters of some semaphores were moved to the front of the ready
queue, one after the other. -/
structure Released (closed : SemId → Prop) (v v' : View) : Prop where
  woken : ∃ tasks, v'.queue .readyqueue = tasks ++ v.queue .readyqueue ∧
    ∀ t, t ∈ tasks ↔ ∃ n, closed n ∧ t ∈ v.queue (.semaphore n)
  reversed : ∀ n, closed n → List.Sublist
    ((v.queue (.semaphore n)).reverse ++ v.queue .readyqueue) (v'.queue .readyqueue)
  emptied : ∀ n, closed n → v'.queue (.semaphore n) = []
  others : ∀ q, q ≠ .readyqueue → (∀ n, closed n → q ≠ .semaphore n) →
    v'.queue q = v.queue q
  context : v'.context = v.context
  live : v'.live = v.live
  current : v'.current = v.current
  idle : v'.idle = v.idle

namespace Released

variable {v v' v'' : View} {closed closed' : SemId → Prop} {n : SemId}

theorem none (never : ∀ n, ¬ closed n) (v : View) : Released closed v v where
  woken := ⟨[], rfl, fun _ => iff_of_false List.not_mem_nil fun some =>
    never _ some.choose_spec.1⟩
  reversed n isClosed := absurd isClosed (never n)
  emptied n isClosed := absurd isClosed (never n)
  others _ _ _ := rfl
  context := rfl
  live := rfl
  current := rfl
  idle := rfl

/-- There is nobody to wake. -/
theorem empty (empty : v.queue (.semaphore n) = []) : Released (· = n) v v where
  woken := ⟨[], rfl, by simp [empty]⟩
  reversed m isClosed := by
    rw [isClosed, empty]
    exact List.Sublist.refl _
  emptied m isClosed := isClosed ▸ empty
  others _ _ _ := rfl
  context := rfl
  live := rfl
  current := rfl
  idle := rfl

theorem congr (released : Released closed v v')
    (same : ∀ n, closed' n ↔ closed n) : Released closed' v v' := by
  have equal : closed' = closed := funext fun n => propext (same n)
  rw [equal]
  exact released

theorem ready_sublist (released : Released closed v v') :
    List.Sublist (v.queue .readyqueue) (v'.queue .readyqueue) := by
  obtain ⟨tasks, ready, -⟩ := released.woken
  rw [ready]
  exact List.sublist_append_right _ _

/-- The semaphores of another group keep their waiters. -/
theorem kept (released : Released closed v v') (disjoint : ∀ n, closed n → ¬ closed' n)
    (other : closed' n) : v'.queue (.semaphore n) = v.queue (.semaphore n) := by
  apply released.others _ (by simp)
  intro m isClosed same
  cases same
  exact disjoint n isClosed other

/-- Two groups of semaphores, one after the other. -/
theorem trans (first : Released closed v v') (second : Released closed' v' v'')
    (disjoint : ∀ n, closed n → ¬ closed' n) :
    Released (fun n => closed n ∨ closed' n) v v'' where
  woken := by
    obtain ⟨tasks, ready, members⟩ := first.woken
    obtain ⟨later, readyLater, membersLater⟩ := second.woken
    refine ⟨later ++ tasks, by rw [readyLater, ready, List.append_assoc], ?_⟩
    intro t
    rw [List.mem_append, members, membersLater]
    constructor
    · rintro (⟨n, isClosed, member⟩ | ⟨n, isClosed, member⟩)
      · exact ⟨n, Or.inr isClosed, first.kept disjoint isClosed ▸ member⟩
      · exact ⟨n, Or.inl isClosed, member⟩
    · rintro ⟨n, isClosed | isClosed, member⟩
      · exact Or.inr ⟨n, isClosed, member⟩
      · exact Or.inl ⟨n, isClosed, (first.kept disjoint isClosed).symm ▸ member⟩
  reversed := by
    rintro n (isClosed | isClosed)
    · exact (first.reversed n isClosed).trans second.ready_sublist
    · have later := second.reversed n isClosed
      rw [first.kept disjoint isClosed] at later
      exact (first.ready_sublist.append_left _).trans later
  emptied := by
    rintro n (isClosed | isClosed)
    · rw [second.others _ (by simp)]
      · exact first.emptied n isClosed
      · intro m isLater same
        cases same
        exact disjoint n isClosed isLater
    · exact second.emptied n isClosed
  others q notReady notClosed := by
    rw [second.others q notReady fun n isClosed => notClosed n (Or.inr isClosed)]
    exact first.others q notReady fun n isClosed => notClosed n (Or.inl isClosed)
  context := second.context.trans first.context
  live := second.live.trans first.live
  current := second.current.trans first.current
  idle := second.idle.trans first.idle

/-- The first waiter is woken, and then the others. -/
theorem wake {t : TaskId} {rest : List TaskId}
    (shape : v.queue (.semaphore n) = t :: rest)
    (later : Released (· = n) (v.wake t (.semaphore n)) v') :
    Released (· = n) v v' := by
  have ready : (v.wake t (.semaphore n)).queue .readyqueue =
      t :: v.queue .readyqueue := by
    simp [View.wake, View.remove]
  have waiting : (v.wake t (.semaphore n)).queue (.semaphore n) = rest := by
    simp [View.wake, View.place, View.remove, shape]
  refine ⟨?_, ?_, later.emptied, ?_, later.context, later.live, later.current,
    later.idle⟩
  · obtain ⟨tasks, readyLater, members⟩ := later.woken
    refine ⟨tasks ++ [t], by simp [readyLater, ready], ?_⟩
    intro u
    simp only [exists_eq_left] at members ⊢
    rw [List.mem_append, members, waiting, shape, List.mem_singleton,
      List.mem_cons, or_comm]
  · intro m isClosed
    have order := later.reversed n rfl
    rw [ready, waiting] at order
    rw [isClosed, shape, List.reverse_cons, List.append_assoc]
    exact order
  · intro q notReady notClosed
    rw [later.others q notReady notClosed]
    have different := notClosed n rfl
    simp [View.wake, View.place, View.remove, notReady, different]

end Released

/-- What `sys_sem_destroy` leaves in a slot. -/
def Semaphore.destroyed (sem : Semaphore) : Semaphore :=
  { sem with ownerPID := -1, semID := -1 }

/-- The calls that make a process. -/
def Syscall.Creates : Syscall → Prop
  | .fork => True
  | .clone _ _ => True
  | _ => False

namespace Kernel

variable {s s' s'' : Kernel} {v : View} {q : Queue} {t child : TaskId}
  {context : Context} {n : SemId} {event : Event}

/-! ## Semaphores and PIDs -/

/-- The semaphore table, the PIDs and the two counters are the same. -/
structure KeepsSems (s s' : Kernel) : Prop where
  semaphores : s'.semaphores = s.semaphores
  globalSemID : s'.globalSemID = s.globalSemID
  pid : ∀ t, (s'.task t).pid = (s.task t).pid
  globalPID : s'.globalPID = s.globalPID

namespace KeepsSems

theorem refl (s : Kernel) : s.KeepsSems s := ⟨rfl, rfl, fun _ => rfl, rfl⟩

theorem trans (first : s.KeepsSems s') (second : s'.KeepsSems s'') :
    s.KeepsSems s'' where
  semaphores := second.semaphores.trans first.semaphores
  globalSemID := second.globalSemID.trans first.globalSemID
  pid t := (second.pid t).trans (first.pid t)
  globalPID := second.globalPID.trans first.globalPID

/-- PIDs stay where the PCBs stay but for their status. -/
theorem of_keeps (keeps : s.Keeps s') (semaphores : s'.semaphores = s.semaphores)
    (globalSemID : s'.globalSemID = s.globalSemID)
    (globalPID : s'.globalPID = s.globalPID) : s.KeepsSems s' where
  semaphores := semaphores
  globalSemID := globalSemID
  pid t := by rw [keeps.task t]
  globalPID := globalPID

theorem schedNextRr (s : Kernel) (context : Context) :
    s.KeepsSems (s.schedNextRr context) := by
  apply of_keeps (Keeps.schedNextRr s context)
  all_goals
    unfold Kernel.schedNextRr
    split
    · rfl
    · split <;> rfl

theorem updateProcessStateRr (s : Kernel) (t : TaskId) (q : Queue) :
    s.KeepsSems (s.updateProcessStateRr t (some q)) := by
  apply of_keeps (Keeps.updateProcessStateRr s t (some q))
  all_goals
    unfold Kernel.updateProcessStateRr
    dsimp only
    split <;> rfl

theorem block (s : Kernel) (t : TaskId) (q : Queue) :
    s.KeepsSems (s.block t q) := by
  apply of_keeps (Keeps.block s t q)
  all_goals
    unfold Kernel.block
    dsimp only
    split <;> rfl

theorem unblock (s : Kernel) (t : TaskId) : s.KeepsSems (s.unblock t) :=
  of_keeps (Keeps.unblock s t) rfl rfl rfl

theorem schedule (s : Kernel) : s.KeepsSems s.schedule := by
  rcases s.schedule_cases with ⟨stats, same⟩ | ⟨_, switched⟩
  · rw [same]
    exact ⟨rfl, rfl, fun _ => rfl, rfl⟩
  · rw [switched]
    have ticked : s.KeepsSems s.updateSchedDataRr :=
      ⟨rfl, rfl, fun _ => rfl, rfl⟩
    exact (ticked.trans (updateProcessStateRr _ _ _)).trans (schedNextRr _ _)

end KeepsSems

/-- The semaphores that `sys_exit` destroys. -/
def Owned (s : Kernel) (n : SemId) : Prop :=
  0 ≤ (s.semaphores n).ownerPID ∧
    (s.semaphores n).ownerPID = s.currentTask.pid

instance (s : Kernel) (n : SemId) : Decidable (s.Owned n) := by
  unfold Owned
  infer_instance

/-- One slot of the semaphore table is another; PIDs are the same. -/
structure SetsSem (s : Kernel) (n : SemId) (sem : Semaphore) (s' : Kernel) :
    Prop where
  semaphores : s'.semaphores = Function.update s.semaphores n sem
  pid : ∀ t, (s'.task t).pid = (s.task t).pid
  globalPID : s'.globalPID = s.globalPID

/-- The event is no signal to a semaphore that exists. -/
def Silent (s : Kernel) : Event → Prop
  | .syscall (.semSignal nSem) =>
      ∀ n, semIndex nSem = some n → (s.semaphores n).ownerPID < 0
  | _ => True

/-- The effect of an event on queues, semaphores and PIDs. -/
inductive Turn (s : Kernel) : Event → Kernel → Prop
  | stays {event : Event} {s' : Kernel} :
      s.Silent event →
      s'.view = s.view →
      s.KeepsSems s' →
      s'.mode = .user →
      Turn s event s'
  | preempted {s' : Kernel} :
      s.current ≠ s.idleTask →
      s'.view = s.view.yield .readyqueue .stReady .interrupted →
      s.KeepsSems s' →
      s'.mode = .switched →
      Turn s .clock s'
  | served {scancode beyond : UInt8} {t : TaskId} {rest : List TaskId}
      {s' : Kernel} :
      s.queue .keyboardqueue = t :: rest →
      s'.view = s.view.serve t →
      s.KeepsSems s' →
      s'.mode = .switched →
      Turn s (.keyboard scancode beyond) s'
  | asked {fd count : Int32} {buf : UInt32} {context : Context} {s' : Kernel} :
      s.current ≠ s.idleTask →
      context.Reading →
      s'.view = s.view.arrive context →
      s.KeepsSems s' →
      s'.mode = .switched →
      Turn s (.syscall (.read fd buf count)) s'
  | again {context : Context} {s' : Kernel} :
      s.mode = .switched →
      (s.context s.current).Reading →
      context.Reading →
      s'.view = s.view.comeBack context →
      s.KeepsSems s' →
      s'.mode = .switched →
      Turn s .resume s'
  | took {nSem : Int32} {n : SemId} {s' : Kernel} :
      semIndex nSem = some n →
      0 ≤ (s.semaphores n).ownerPID →
      0 < (s.semaphores n).counter →
      s'.view = s.view →
      s.SetsSem n { s.semaphores n with
        counter := (s.semaphores n).counter - 1 } s' →
      s'.globalSemID = s.globalSemID →
      s'.mode = .user →
      Turn s (.syscall (.semWait nSem)) s'
  | waited {nSem : Int32} {n : SemId} {s' : Kernel} :
      semIndex nSem = some n →
      s.current ≠ s.idleTask →
      0 ≤ (s.semaphores n).ownerPID →
      (s.semaphores n).counter ≤ 0 →
      s'.view = s.view.yield (.semaphore n) .stBlocked
        (.semWait n (s.semaphores n).semID) →
      s.KeepsSems s' →
      s'.mode = .switched →
      Turn s (.syscall (.semWait nSem)) s'
  | raised {nSem : Int32} {n : SemId} {s' : Kernel} :
      semIndex nSem = some n →
      0 ≤ (s.semaphores n).ownerPID →
      s.queue (.semaphore n) = [] →
      s'.view = s.view →
      s.SetsSem n { s.semaphores n with
        counter := int32 ((s.semaphores n).counter + 1) } s' →
      s'.globalSemID = s.globalSemID →
      s'.mode = .user →
      Turn s (.syscall (.semSignal nSem)) s'
  | woke {nSem : Int32} {n : SemId} {t : TaskId} {rest : List TaskId}
      {s' : Kernel} :
      semIndex nSem = some n →
      s.current ≠ s.idleTask →
      0 ≤ (s.semaphores n).ownerPID →
      s.queue (.semaphore n) = t :: rest →
      s'.view = s.view.wake t (.semaphore n) →
      s.KeepsSems s' →
      s'.mode = .user →
      Turn s (.syscall (.semSignal nSem)) s'
  | opened {nSem : Int32} {n : SemId} {value : UInt32} {s' : Kernel} :
      semIndex nSem = some n →
      (s.semaphores n).ownerPID < 0 →
      s'.view = s.view →
      s.SetsSem n ⟨s.currentTask.pid, int32 value.toNat,
        int32 (s.globalSemID + 1)⟩ s' →
      s'.globalSemID = int32 (s.globalSemID + 1) →
      s'.mode = .user →
      Turn s (.syscall (.semInit nSem value)) s'
  | destroyed {nSem : Int32} {n : SemId} {s' : Kernel} :
      semIndex nSem = some n →
      s.current ≠ s.idleTask →
      0 ≤ (s.semaphores n).ownerPID →
      s.currentTask.pid = (s.semaphores n).ownerPID →
      Released (· = n) s.view s'.view →
      s.SetsSem n (s.semaphores n).destroyed s' →
      s'.globalSemID = s.globalSemID →
      s'.mode = .user →
      Turn s (.syscall (.semDestroy nSem)) s'
  | exited {v : View} {s' : Kernel} :
      s.current ≠ s.idleTask →
      Released s.Owned s.view v →
      s'.view = v.retire.dispatch .exited →
      (∀ n, s'.semaphores n = if s.Owned n then (s.semaphores n).destroyed
        else s.semaphores n) →
      s'.globalSemID = s.globalSemID →
      (∀ t, (s'.task t).pid = if t = s.current then -1 else (s.task t).pid) →
      s'.globalPID = s.globalPID →
      s'.mode = .switched →
      Turn s (.syscall .exit) s'
  | created {call : Syscall} {child : TaskId} {s' : Kernel} :
      call.Creates →
      s.current ≠ s.idleTask →
      child ∈ s.queue .freequeue →
      s'.view = s.view.create child .retFromFork →
      s'.semaphores = s.semaphores →
      s'.globalSemID = s.globalSemID →
      (∀ t, (s'.task t).pid = if t = child then s.globalPID else (s.task t).pid) →
      s'.globalPID = int32 (s.globalPID + 1) →
      s'.mode = .user →
      Turn s (.syscall call) s'
  | recycled {child : TaskId} {st : State} {context : Context} {s' : Kernel} :
      s.current ≠ s.idleTask →
      child ∈ s.queue .freequeue →
      s'.view = s.view.recycle child st context →
      s'.semaphores = s.semaphores →
      s'.globalSemID = s.globalSemID →
      (∀ t, t ≠ child → (s'.task t).pid = (s.task t).pid) →
      s'.globalPID = s.globalPID →
      s'.mode = .user →
      Turn s (.syscall .fork) s'

/-! ## Events -/

/-- A call that returns to its caller and does not concern the queues. -/
theorem Turn.returned (refines : s'.Refines s.view) (keeps : s.KeepsSems s')
    (result : Int) (silent : s.Silent event) :
    Turn s event (s'.sysReturn result) :=
  .stays silent refines.view ⟨keeps.semaphores, keeps.globalSemID, keeps.pid,
    keeps.globalPID⟩ rfl

/-- A call that only charges the time. -/
theorem Turn.refused (orderly : s.Orderly) (result : Int)
    (silent : s.Silent event) : Turn s event (s.userToSysStats.sysReturn result) :=
  .returned (show s.userToSysStats.Refines s.view from
    ⟨orderly.refines.threads, rfl⟩) ⟨rfl, rfl, fun _ => rfl, rfl⟩ result silent

theorem clock_turn (orderly : s.Orderly) (mode : s.mode = .user) :
    Turn s .clock s.clockRoutine := by
  have ticked : ({ s with zeosTicks := int32 (s.zeosTicks + 1) } : Kernel).Refines
      s.view := ⟨orderly.refines.threads, rfl⟩
  have keeps := KeepsSems.schedule { s with zeosTicks := int32 (s.zeosTicks + 1) }
  have kept : s.KeepsSems s.clockRoutine :=
    ⟨keeps.semaphores, keeps.globalSemID, keeps.pid, keeps.globalPID⟩
  rcases ticked.schedule orderly.settled with
    ⟨same, sameMode, _⟩ | ⟨busy, switched, mode'⟩
  · exact .stays trivial same.view kept (sameMode.trans mode)
  · exact .preempted busy switched.view kept mode'

theorem keyboard_turn (orderly : s.Orderly) (mode : s.mode = .user)
    (scancode beyond : UInt8) :
    Turn s (.keyboard scancode beyond) (s.keyboardRoutine scancode beyond) := by
  unfold keyboardRoutine
  split_ifs with make
  · have typed : ({ s with kbd := s.keyStored (charOfScancode scancode beyond) } :
        Kernel).Refines s.view := ⟨orderly.refines.threads, rfl⟩
    have emptyIff := typed.listEmpty_iff (q := .keyboardqueue) trivial
    dsimp only
    split_ifs with wakes
    · have waiting : s.queue .keyboardqueue ≠ [] := fun empty =>
        wakes.2 (emptyIff.mpr empty)
      obtain ⟨t, rest, shape⟩ := List.exists_cons_of_ne_nil waiting
      rw [typed.listFirst shape]
      have member : t ∈ s.view.queue .keyboardqueue := by
        change t ∈ s.queue .keyboardqueue
        rw [shape]
        exact List.mem_cons_self
      have woken := typed.unblock orderly.settled.toParked member
      have ran := woken.schedNextRr .interrupted
      have keeps := (KeepsSems.unblock { s with
        kbd := s.keyStored (charOfScancode scancode beyond) } t).trans
          (KeepsSems.schedNextRr _ .interrupted)
      exact .served shape ran.1.view ⟨keeps.semaphores, keeps.globalSemID,
        keeps.pid, keeps.globalPID⟩ ran.2
    · exact .stays trivial rfl ⟨rfl, rfl, fun _ => rfl, rfl⟩ mode
  · exact .stays trivial rfl (KeepsSems.refl s) mode

theorem read_turn (orderly : s.Orderly) (busy : s.current ≠ s.idleTask)
    (fd : Int32) (buf : UInt32) (count : Int32) :
    Turn s (.syscall (.read fd buf count))
      (s.systemCall (.read fd buf count)) := by
  have entered := orderly.userToSysStats
  change Turn s _ (complete (s.userToSysStats.sysRead fd buf count))
  rcases sysRead_cases entered.cbIsEmpty fd buf count with
    ⟨_, result, failed⟩ | ⟨_, waits⟩
  · rw [failed]
    exact .refused orderly result trivial
  · rw [waits]
    have asking : ({ s.userToSysStats with
        kbd := { s.kbd with leftToRead := count.toInt } } : Kernel).Refines
          s.view := ⟨orderly.refines.threads, rfl⟩
    have ran := asking.blockAndSwitch (q := .keyboardqueue) orderly.settled
      trivial (.readKeyboard buf count.toInt [])
    have keeps := (KeepsSems.block { s.userToSysStats with
      kbd := { s.kbd with leftToRead := count.toInt } } s.current
        .keyboardqueue).trans
          (KeepsSems.schedNextRr _ (.readKeyboard buf count.toInt []))
    exact .asked busy (Context.reading_readKeyboard _ _ _) ran.1.view
      ⟨keeps.semaphores, keeps.globalSemID, keeps.pid, keeps.globalPID⟩ ran.2

theorem again_turn (orderly : s.Orderly) (mode : s.mode = .switched)
    {buf : UInt32} {n : Int} {stored : List UInt8}
    (reading : s.context s.current = .readKeyboard buf n stored) :
    Turn s .resume (complete (s.readLoop buf n stored)) := by
  have taken : ({ s with kbd := (deliver n stored s.kbd).2 } : Kernel).Refines
      s.view := ⟨orderly.refines.threads, rfl⟩
  rw [readLoop_eq]
  dsimp only
  split_ifs with more
  · have ran := taken.comeBack orderly.settled
      (.readKeyboard buf n (deliver n stored s.kbd).1)
    have queued := (Keeps.modTask
      ((({ s with kbd := (deliver n stored s.kbd).2 } : Kernel).listAdd s.current
        .keyboardqueue).sysToReadyStats) s.current .stBlocked)
    have kept : s.KeepsSems (((({ s with kbd := (deliver n stored s.kbd).2 } :
        Kernel).listAdd s.current .keyboardqueue).sysToReadyStats).modTask
          s.current fun p => { p with execStatus := .stBlocked }) :=
      ⟨rfl, rfl, fun t => by rw [queued.task t]; rfl, rfl⟩
    have keeps := kept.trans
      (KeepsSems.schedNextRr _ (.readKeyboard buf n (deliver n stored s.kbd).1))
    exact .again mode (by rw [reading]; trivial) (Context.reading_readKeyboard _ _ _)
      ran.1.view keeps ran.2
  · exact .stays trivial rfl ⟨rfl, rfl, fun _ => rfl, rfl⟩ rfl

/-! ## Semaphores -/

theorem semInit_turn (orderly : s.Orderly) (nSem : Int32) (value : UInt32) :
    Turn s (.syscall (.semInit nSem value))
      (s.systemCall (.semInit nSem value)) := by
  have refines := orderly.userToSysStats.refines
  change Turn s _ (Kernel.sysReturn _ _)
  unfold sysSemInit
  split
  · exact .refused orderly _ trivial
  · next n slot =>
      split_ifs with used
      · exact .refused orderly _ trivial
      · have counted : ({ s.userToSysStats with
            globalSemID := int32 (s.globalSemID + 1) } : Kernel).Refines s.view :=
          ⟨refines.threads, rfl⟩
        have opened := counted.openSem (n := n) (by simpa using used) fun _ =>
          ⟨s.currentTask.pid, int32 value.toNat, int32 (s.globalSemID + 1)⟩
        have closed : (s.semaphores n).ownerPID < 0 := by
          have unused : ¬ 0 ≤ (s.semaphores n).ownerPID := used
          omega
        exact .opened slot closed opened.view ⟨rfl, fun _ => rfl, rfl⟩ rfl rfl

theorem semWait_turn (orderly : s.Orderly) (busy : s.current ≠ s.idleTask)
    (nSem : Int32) :
    Turn s (.syscall (.semWait nSem)) (s.systemCall (.semWait nSem)) := by
  have entered := orderly.userToSysStats
  change Turn s _ (complete (s.userToSysStats.sysSemWait nSem))
  unfold sysSemWait
  split
  · exact .refused orderly _ trivial
  · next n slot =>
      split_ifs with unused blocked
      · exact .refused orderly _ trivial
      · have used : 0 ≤ (s.semaphores n).ownerPID := by
          have notUnused : ¬ (s.semaphores n).ownerPID < 0 := unused
          omega
        have ran := entered.refines.blockAndSwitch (q := .semaphore n)
          entered.settled used (.semWait n (s.semaphores n).semID)
        have keeps := (KeepsSems.block s.userToSysStats s.current
          (.semaphore n)).trans
            (KeepsSems.schedNextRr _ (.semWait n (s.semaphores n).semID))
        exact .waited slot busy used blocked ran.1.view
          ⟨keeps.semaphores, keeps.globalSemID, keeps.pid, keeps.globalPID⟩ ran.2
      · have used : 0 ≤ (s.semaphores n).ownerPID := by
          have notUnused : ¬ (s.semaphores n).ownerPID < 0 := unused
          omega
        have positive : 0 < (s.semaphores n).counter := by
          have notBlocked : ¬ (s.semaphores n).counter ≤ 0 := blocked
          omega
        have taken := entered.refines.modSem n (fun sem =>
          { sem with counter := sem.counter - 1 }) Iff.rfl
        exact .took slot used positive taken.view ⟨rfl, fun _ => rfl, rfl⟩ rfl rfl

theorem semSignal_turn (orderly : s.Orderly) (busy : s.current ≠ s.idleTask)
    (nSem : Int32) :
    Turn s (.syscall (.semSignal nSem)) (s.systemCall (.semSignal nSem)) := by
  have entered := orderly.userToSysStats
  change Turn s _ (Kernel.sysReturn _ _)
  unfold sysSemSignal
  split
  · next none =>
      apply Turn.refused orderly _
      intro n slot
      rw [none] at slot
      cases slot
  · next n slot =>
      split_ifs with unused empty
      · apply Turn.refused orderly _
        intro m sameSlot
        rw [slot] at sameSlot
        cases sameSlot
        exact unused
      · have used : 0 ≤ (s.semaphores n).ownerPID := by
          have notUnused : ¬ (s.semaphores n).ownerPID < 0 := unused
          omega
        have signalled := entered.refines.modSem n (fun sem =>
          { sem with counter := int32 (sem.counter + 1) }) Iff.rfl
        rw [entered.refines.listEmpty_iff (q := .semaphore n) used] at empty
        exact .raised slot used empty signalled.view ⟨rfl, fun _ => rfl, rfl⟩ rfl
          rfl
      · have used : 0 ≤ (s.semaphores n).ownerPID := by
          have notUnused : ¬ (s.semaphores n).ownerPID < 0 := unused
          omega
        rw [entered.refines.listEmpty_iff (q := .semaphore n) used] at empty
        obtain ⟨t, rest, shape⟩ := List.exists_cons_of_ne_nil empty
        rw [entered.refines.listFirst shape]
        have member : t ∈ s.userToSysStats.view.queue (.semaphore n) := by
          simp [shape]
        have woken := entered.refines.unblock entered.settled.toParked member
        have keeps := KeepsSems.unblock s.userToSysStats t
        exact .woke slot busy used shape woken.view ⟨keeps.semaphores,
          keeps.globalSemID, keeps.pid, keeps.globalPID⟩ rfl

/-- The loop of `sys_sem_destroy` moves every waiter to the ready queue. -/
theorem releaseWaiters_released :
    ∀ {fuel : Nat} {s : Kernel}, s.Refines s.view → s.view.Settled →
      s.current ≠ s.idleTask → Active s.semaphores (.semaphore n) →
      (s.queue (.semaphore n)).length ≤ fuel →
      Released (· = n) s.view (releaseWaiters n fuel s).view ∧
        s.KeepsSems (releaseWaiters n fuel s)
  | 0, s, _, _, _, _, bound => by
      have empty : s.view.queue (.semaphore n) = [] :=
        List.eq_nil_of_length_eq_zero (Nat.le_zero.mp bound)
      exact ⟨.empty empty, KeepsSems.refl s⟩
  | fuel + 1, s, refines, settled, busy, active, bound => by
      unfold releaseWaiters
      split_ifs with empty
      · rw [refines.listEmpty_iff active] at empty
        exact ⟨.empty empty, KeepsSems.refl s⟩
      · rw [refines.listEmpty_iff active] at empty
        obtain ⟨t, rest, shape⟩ := List.exists_cons_of_ne_nil empty
        have queue : s.queue (.semaphore n) = t :: rest := shape
        rw [refines.listFirst shape]
        obtain ⟨woken, _, semaphores, erased⟩ :=
          unblock_quiet refines settled busy (by rw [queue]; exact List.mem_cons_self)
        have shorter : ((s.unblock t).queue (.semaphore n)).length ≤ fuel := by
          rw [erased, queue, List.erase_cons_head]
          rw [queue, List.length_cons] at bound
          omega
        obtain ⟨later, kept⟩ := releaseWaiters_released woken.refines
          (woken.settled settled) (woken.busy busy) (semaphores ▸ active) shorter
        have view := (refines.unblock settled.toParked
          (show t ∈ s.view.queue (.semaphore n) by rw [shape]; simp)).view
        rw [view] at later
        exact ⟨later.wake shape, (KeepsSems.unblock s t).trans kept⟩

/-- Destroying a semaphore of the caller. -/
theorem semDestroy_released (refines : s.Refines s.view)
    (settled : s.view.Settled) (busy : s.current ≠ s.idleTask)
    (owned : s.Owned n) :
    s.semDestroy n = (0, (s.semDestroy n).2) ∧
      Released (· = n) s.view (s.semDestroy n).2.view ∧
      s.SetsSem n (s.semaphores n).destroyed (s.semDestroy n).2 ∧
      (s.semDestroy n).2.globalSemID = s.globalSemID := by
  have nodup : (s.queue (.semaphore n)).Nodup := settled.nodup (.semaphore n)
  obtain ⟨released, kept⟩ := releaseWaiters_released refines settled busy owned.1
    (length_le_nrTasks nodup)
  unfold semDestroy
  rw [if_neg (by have used := owned.1; omega), if_pos owned.2.symm]
  refine ⟨rfl, released, ⟨?_, kept.pid, kept.globalPID⟩, kept.globalSemID⟩
  change Function.update _ n _ = _
  rw [kept.semaphores]
  rfl

theorem semDestroy_turn (orderly : s.Orderly) (busy : s.current ≠ s.idleTask)
    (nSem : Int32) :
    Turn s (.syscall (.semDestroy nSem)) (s.systemCall (.semDestroy nSem)) := by
  have entered := orderly.userToSysStats
  change Turn s _ (Kernel.sysReturn _ _)
  unfold sysSemDestroy
  split
  · exact .refused orderly _ trivial
  · next n slot =>
      by_cases owned : s.userToSysStats.Owned n
      · obtain ⟨_, released, sets, globalSemID⟩ :=
          semDestroy_released entered.refines entered.settled busy owned
        exact .destroyed slot busy owned.1 owned.2.symm released
          ⟨sets.semaphores, sets.pid, sets.globalPID⟩ globalSemID rfl
      · have refused : s.userToSysStats.semDestroy n =
            ((s.userToSysStats.semDestroy n).1, s.userToSysStats) := by
          unfold semDestroy
          split_ifs with unused owner
          · rfl
          · exact absurd ⟨by omega, owner.symm⟩ owned
          · rfl
        rw [refused]
        exact .refused orderly _ trivial

/-! ## `sys_exit` -/

/-- The loop of `sys_exit` over distinct slots destroys those of the caller. -/
theorem exitSemaphores_released :
    ∀ (names : List SemId) {s : Kernel}, names.Nodup → s.Refines s.view →
      s.view.Settled → s.current ≠ s.idleTask →
      Released (fun n => n ∈ names ∧ s.Owned n) s.view
          (names.foldl exitSemaphore s).view ∧
        (∀ n, (names.foldl exitSemaphore s).semaphores n =
          if n ∈ names ∧ s.Owned n then (s.semaphores n).destroyed
          else s.semaphores n) ∧
        (names.foldl exitSemaphore s).globalSemID = s.globalSemID ∧
        (∀ t, ((names.foldl exitSemaphore s).task t).pid = (s.task t).pid) ∧
        (names.foldl exitSemaphore s).globalPID = s.globalPID
  | [], s, _, _, _, _ =>
      ⟨.none (by simp) _, by simp, rfl, fun _ => rfl, rfl⟩
  | n :: names, s, nodup, refines, settled, busy => by
      obtain ⟨fresh, nodupRest⟩ := List.nodup_cons.mp nodup
      have quiet := (exitSemaphore_quiet refines settled busy n).1
      have kept := (exitSemaphore_quiet refines settled busy n).2
      have rest := exitSemaphores_released names nodupRest quiet.refines
        (quiet.settled settled) (quiet.busy busy)
      have samePid : (s.exitSemaphore n).currentTask.pid = s.currentTask.pid := by
        change ((s.exitSemaphore n).task (s.exitSemaphore n).current).pid = _
        rw [quiet.current, kept.task]
        rfl
      by_cases owned : s.Owned n
      · have step : s.exitSemaphore n = (s.semDestroy n).2 := if_pos owned.2
        obtain ⟨_, released, sets, globalSemID⟩ :=
          semDestroy_released refines settled busy owned
        rw [← step] at released sets globalSemID
        have others : ∀ m ∈ names, (s.exitSemaphore n).Owned m ↔ s.Owned m := by
          intro m member
          have different : m ≠ n := fun same => fresh (same ▸ member)
          unfold Owned
          rw [samePid, sets.semaphores, Function.update_of_ne different]
        obtain ⟨later, semaphores, laterID, pid, globalPID⟩ := rest
        refine ⟨?_, ?_, laterID.trans globalSemID, ?_, globalPID.trans sets.globalPID⟩
        · apply (released.trans later ?_).congr
          · intro m
            rw [List.mem_cons]
            constructor
            · rintro ⟨same | member, isOwned⟩
              · exact Or.inl same
              · exact Or.inr ⟨member, (others m member).mpr isOwned⟩
            · rintro (rfl | ⟨member, isOwned⟩)
              · exact ⟨Or.inl rfl, owned⟩
              · exact ⟨Or.inr member, (others m member).mp isOwned⟩
          · rintro m rfl ⟨member, _⟩
            exact fresh member
        · intro m
          rw [List.foldl_cons, semaphores m, sets.semaphores]
          by_cases same : m = n
          · subst same
            simp [fresh, owned]
          · rw [Function.update_of_ne same]
            by_cases member : m ∈ names
            · simp [member, same, others m member]
            · simp [member, same]
        · intro t
          exact (pid t).trans (sets.pid t)
      · have step : s.exitSemaphore n = s := by
          unfold exitSemaphore
          split_ifs with owner
          · unfold semDestroy
            rw [if_pos]
            by_contra used
            exact owned ⟨by omega, owner⟩
          · rfl
        rw [List.foldl_cons, step]
        rw [step] at rest
        obtain ⟨later, semaphores, laterID, pid, globalPID⟩ := rest
        have same : ∀ m, m ∈ n :: names ∧ s.Owned m ↔ m ∈ names ∧ s.Owned m := by
          intro m
          rw [List.mem_cons]
          constructor
          · rintro ⟨same | member, isOwned⟩
            · exact absurd (same ▸ isOwned) owned
            · exact ⟨member, isOwned⟩
          · rintro ⟨member, isOwned⟩
            exact ⟨Or.inr member, isOwned⟩
        refine ⟨later.congr same, ?_, laterID, pid, globalPID⟩
        intro m
        rw [semaphores m]
        simp only [same m]

/-- The state in which `sys_exit` calls `sched_next_rr`. -/
def exiting (s : Kernel) : Kernel :=
  let s := ((List.finRange 20).foldl exitSemaphore s).releaseProcess
  s.updateProcessStateRr s.current (some .freequeue)

theorem sysExit_eq (s : Kernel) : s.sysExit = s.exiting.schedNextRr .exited :=
  rfl

/-- What `sys_exit` has done when it calls `sched_next_rr`. -/
theorem exiting_spec (refines : s.Refines s.view) (settled : s.view.Settled)
    (busy : s.current ≠ s.idleTask) :
    ∃ v, Released s.Owned s.view v ∧ v.Settled ∧ s.exiting.Refines v.retire ∧
      (∀ n, s.exiting.semaphores n =
        if s.Owned n then (s.semaphores n).destroyed else s.semaphores n) ∧
      s.exiting.globalSemID = s.globalSemID ∧
      (∀ t, (s.exiting.task t).pid =
        if t = s.current then -1 else (s.task t).pid) ∧
      s.exiting.globalPID = s.globalPID := by
  obtain ⟨released, semaphores, globalSemID, pid, globalPID⟩ :=
    exitSemaphores_released (List.finRange 20) (List.nodup_finRange 20) refines
      settled busy
  obtain ⟨quiet, _⟩ :=
    exitSemaphores_quiet (List.finRange 20) refines settled busy
  unfold exiting
  generalize (List.finRange 20).foldl exitSemaphore s = middle at *
  have middleSettled := quiet.settled settled
  have queued := (releaseProcess_refines quiet.refines).updateProcessStateRr
    (q := .freequeue) trivial middleSettled.currentLoose middleSettled.currentRun
  have kept := KeepsSems.updateProcessStateRr middle.releaseProcess middle.current
    .freequeue
  refine ⟨middle.view, released.congr (by simp), middleSettled, queued, ?_,
    kept.globalSemID.trans globalSemID, ?_, kept.globalPID.trans globalPID⟩
  · intro n
    refine (congrFun kept.semaphores n).trans ((semaphores n).trans ?_)
    simp
  · intro t
    refine (kept.pid t).trans ?_
    rw [← quiet.current, ← pid t]
    by_cases same : t = middle.current
    · simp [releaseProcess, modTask, same]
    · simp [releaseProcess, modTask, same]

theorem exit_turn (orderly : s.Orderly) (busy : s.current ≠ s.idleTask) :
    Turn s (.syscall .exit) (s.systemCall .exit) := by
  have entered := orderly.userToSysStats
  obtain ⟨v, released, _, refines, semaphores, globalSemID, pid, globalPID⟩ :=
    exiting_spec entered.refines entered.settled busy
  have ran := refines.schedNextRr .exited
  have kept := KeepsSems.schedNextRr s.userToSysStats.exiting .exited
  change Turn s _ s.userToSysStats.sysExit
  rw [sysExit_eq]
  refine .exited busy released ran.1.view ?_ (kept.globalSemID.trans globalSemID)
    ?_ (kept.globalPID.trans globalPID) ran.2
  · intro n
    rw [kept.semaphores]
    exact semaphores n
  · intro t
    rw [kept.pid t]
    exact pid t

/-! ## `sys_fork` and `sys_clone` -/

theorem allocateDIR_pid (s : Kernel) (t u : TaskId) :
    ((s.allocateDIR t).2.task u).pid = (s.task u).pid ∧
      (s.allocateDIR t).2.semaphores = s.semaphores ∧
      (s.allocateDIR t).2.globalSemID = s.globalSemID ∧
      (s.allocateDIR t).2.globalPID = s.globalPID := by
  unfold allocateDIR
  split
  · refine ⟨?_, rfl, rfl, rfl⟩
    by_cases same : u = t
    · simp [modTask, same]
    · simp [modTask, same]
  · exact ⟨rfl, rfl, rfl, rfl⟩

theorem copyUnion_pid (s : Kernel) {t : TaskId} (other : t ≠ child) :
    ((s.copyUnion child).task t).pid = (s.task t).pid := by
  simp [copyUnion, other]

theorem finishFork_pid (s : Kernel) (mm : Memory) (t : TaskId) :
    ((s.finishFork child mm).task t).pid =
      if t = child then s.globalPID else (s.task t).pid := by
  by_cases same : t = child
  · simp [finishFork, initChild, initStats, modTask, listAddTail, same]
  · simp [finishFork, initChild, initStats, modTask, listAddTail, same]

theorem cloneInto_pid (s : Kernel) (t : TaskId) :
    ((s.cloneInto child).2.task t).pid =
      if t = child then s.globalPID else (s.task t).pid := by
  by_cases same : t = child
  · simp [cloneInto, copyUnion, initChild, initStats, modTask, listAddTail, same]
  · simp [cloneInto, copyUnion, initChild, initStats, modTask, listAddTail, same]

theorem forkInto_turn (orderly : s.Orderly) (busy : s.current ≠ s.idleTask)
    (member : child ∈ s.view.queue .freequeue) (result : Int) :
    Turn s (.syscall .fork)
      (((s.userToSysStats.listDel child).forkInto child).2.sysReturn result) := by
  have entered := orderly.userToSysStats
  have childLoose := removed_loose entered.settled member
  have placed := allocateDIR_refines
    (copied_refines entered.refines entered.settled member) child
  have pids := allocateDIR_pid
    ((s.userToSysStats.listDel child).copyUnion child) child
  have sems := pids child
  unfold forkInto
  dsimp only
  split
  · next mm _ =>
      have refines := abandonChild_refines placed childLoose mm
      rw [returned_copied] at refines
      refine .recycled busy member refines.view sems.2.1 sems.2.2.1 ?_ sems.2.2.2
        rfl
      intro t other
      exact (pids t).1.trans (copyUnion_pid _ other)
  · next mm _ =>
      have refines := finishFork_refines placed childLoose mm
      rw [born_copied] at refines
      refine .created trivial busy member refines.view sems.2.1 sems.2.2.1 ?_
        (congrArg (fun pid => int32 (pid + 1)) sems.2.2.2) rfl
      intro t
      refine (finishFork_pid _ mm t).trans ?_
      by_cases same : t = child
      · rw [if_pos same, if_pos same]
        exact sems.2.2.2
      · rw [if_neg same, if_neg same]
        exact (pids t).1.trans (copyUnion_pid _ same)

theorem fork_turn (orderly : s.Orderly) (busy : s.current ≠ s.idleTask) :
    Turn s (.syscall .fork) (s.systemCall .fork) := by
  have entered := orderly.userToSysStats
  change Turn s _ (Kernel.sysReturn _ _)
  unfold sysFork
  split_ifs with empty
  · exact .refused orderly _ trivial
  · rw [entered.refines.listEmpty_iff (q := .freequeue) trivial] at empty
    obtain ⟨child, rest, shape⟩ := List.exists_cons_of_ne_nil empty
    rw [entered.refines.listFirst shape]
    exact forkInto_turn orderly busy
      (show child ∈ s.userToSysStats.view.queue .freequeue by simp [shape]) _

theorem clone_turn (orderly : s.Orderly) (busy : s.current ≠ s.idleTask)
    (function stack : UInt32) :
    Turn s (.syscall (.clone function stack))
      (s.systemCall (.clone function stack)) := by
  have entered := orderly.userToSysStats
  change Turn s _ (Kernel.sysReturn _ _)
  unfold sysClone
  split_ifs with denied empty
  · exact .refused orderly _ trivial
  · exact .refused orderly _ trivial
  · rw [entered.refines.listEmpty_iff (q := .freequeue) trivial] at empty
    obtain ⟨child, rest, shape⟩ := List.exists_cons_of_ne_nil empty
    have member : child ∈ s.userToSysStats.view.queue .freequeue := by
      simp [shape]
    have refines := cloneInto_refines entered.refines entered.settled member
    rw [entered.refines.listFirst shape]
    exact .created trivial busy member refines.view rfl rfl
      (fun t => cloneInto_pid _ t) rfl rfl

/-! ## The inversion -/

theorem syscall_turn (orderly : s.Orderly) (busy : s.current ≠ s.idleTask)
    (call : Syscall) : Turn s (.syscall call) (s.systemCall call) := by
  have entered := orderly.userToSysStats
  cases call with
  | exit => exact exit_turn orderly busy
  | fork => exact fork_turn orderly busy
  | read fd buf count => exact read_turn orderly busy fd buf count
  | write fd buffer size =>
      change Turn s _ (Kernel.sysReturn _ _)
      obtain ⟨console, fault, written⟩ :=
        s.userToSysStats.sysWrite_cases fd buffer size
      rw [written]
      exact .stays trivial rfl ⟨rfl, rfl, fun _ => rfl, rfl⟩ rfl
  | gettime => exact .refused orderly _ trivial
  | sbrk increment =>
      have heapOnly := HeapOnly.sysSbrk increment s.currentTask s.mm
      have changed := entered.refines.modTask_same s.current
        (fun _ => (Zeos.sysSbrk increment s.currentTask s.mm).2.1)
        heapOnly.execStatus
      refine .stays trivial changed.view ⟨rfl, rfl, ?_, rfl⟩ rfl
      intro t
      by_cases same : t = s.current
      · subst same
        refine (congrArg TaskStruct.pid (Function.update_self _ _ _)).trans ?_
        exact heapOnly.pid
      · exact congrArg TaskStruct.pid (Function.update_of_ne same _ _)
  | clone function stack => exact clone_turn orderly busy function stack
  | getpid => exact .refused orderly _ trivial
  | semInit nSem value => exact semInit_turn orderly nSem value
  | semWait nSem => exact semWait_turn orderly busy nSem
  | semSignal nSem => exact semSignal_turn orderly busy nSem
  | semDestroy nSem => exact semDestroy_turn orderly busy nSem
  | getStats pid st =>
      change Turn s _ (Kernel.sysReturn _ _)
      obtain ⟨stats, ram, fault, same⟩ :=
        s.userToSysStats.sysGetStats_cases pid st
      rw [same]
      exact .stays trivial rfl ⟨rfl, rfl, fun _ => rfl, rfl⟩ rfl
  | niSyscall => exact .refused orderly _ trivial

theorem resume_turn (orderly : s.Orderly) (mode : s.mode = .switched) :
    Turn s .resume s.resume := by
  have same : ∀ result, Turn s .resume (s.sysReturn result) := fun result =>
    .returned orderly.refines (KeepsSems.refl s) result trivial
  unfold resume
  split
  · exact .stays trivial rfl ⟨rfl, rfl, fun _ => rfl, rfl⟩ rfl
  · exact .stays trivial rfl ⟨rfl, rfl, fun _ => rfl, rfl⟩ rfl
  · exact same _
  · exact same _
  · next reading => exact again_turn orderly mode reading
  · exact same _

/-- The inversion of one reaction of the kernel. -/
theorem handle_turn (orderly : s.Orderly) (handled : s.handle event = some s') :
    Turn s event s' := by
  unfold handle at handled
  split at handled
  · split_ifs at handled with mode
    cases handled
    exact clock_turn orderly mode
  · split_ifs at handled with mode
    cases handled
    exact keyboard_turn orderly mode _ _
  · split_ifs at handled with able
    cases handled
    exact syscall_turn orderly able.2 _
  · split_ifs at handled with able
    cases handled
    exact .stays trivial rfl ⟨rfl, rfl, fun _ => rfl, rfl⟩ able.1
  · split_ifs at handled with mode
    cases handled
    exact resume_turn orderly mode

theorem turn_of_step (orderly : s.Orderly) (taken : s.step event = some s') :
    Turn s event s' :=
  handle_turn orderly (handle_of_step taken)

end Kernel

end Zeos
