import Zeos.Sched.Simulation

/-!
# System calls refine the moves

The system calls that change queues: semaphores, `sys_exit`, `sys_fork` and
`sys_clone`.  `Quiet` holds between two states when the second comes from the
first by moves while one process keeps running.
-/

namespace Zeos

namespace Kernel

variable {s s' s'' : Kernel} {v : View} {q : Queue} {t : TaskId}
  {context : Context} {n : SemId}

/-- The queues change by moves, and the same process goes on. -/
structure Quiet (s s' : Kernel) : Prop where
  refines : s'.Refines s'.view
  moves : s.view.Moves s'.view
  current : s'.current = s.current
  idleTask : s'.idleTask = s.idleTask
  kbd : s'.kbd = s.kbd
  readLog : s'.readLog = s.readLog

namespace Quiet

theorem refl (refines : s.Refines s.view) : s.Quiet s :=
  ⟨refines, .refl, rfl, rfl, rfl, rfl⟩

theorem trans (first : s.Quiet s') (second : s'.Quiet s'') : s.Quiet s'' where
  refines := second.refines
  moves := first.moves.trans second.moves
  current := second.current.trans first.current
  idleTask := second.idleTask.trans first.idleTask
  kbd := second.kbd.trans first.kbd
  readLog := second.readLog.trans first.readLog

/-- The queues do not change. -/
theorem of_view (refines : s'.Refines s.view) (kbd : s'.kbd = s.kbd)
    (readLog : s'.readLog = s.readLog) : s.Quiet s' where
  refines := refines.self
  moves := by rw [refines.view]
  current := congrArg View.current refines.view
  idleTask := congrArg View.idle refines.view
  kbd := kbd
  readLog := readLog

theorem of_move {v' : View} (refines : s'.Refines v') (move : s.view.Move v')
    (current : s'.current = s.current) (idleTask : s'.idleTask = s.idleTask)
    (kbd : s'.kbd = s.kbd) (readLog : s'.readLog = s.readLog) :
    s.Quiet s' where
  refines := refines.self
  moves := by
    rw [refines.view]
    exact .single move
  current := current
  idleTask := idleTask
  kbd := kbd
  readLog := readLog

theorem settled (quiet : s.Quiet s') (settled : s.view.Settled) :
    s'.view.Settled :=
  settled.moves quiet.moves

/-- The process that made the call is not the idle process. -/
theorem busy (quiet : s.Quiet s') (busy : s.current ≠ s.idleTask) :
    s'.current ≠ s'.idleTask := by
  rw [quiet.current, quiet.idleTask]
  exact busy

end Quiet

/-! ## Semaphores -/

theorem active_congr {semaphores semaphores' : SemId → Semaphore}
    (same : ∀ n, 0 ≤ (semaphores' n).ownerPID ↔ 0 ≤ (semaphores n).ownerPID) :
    Active semaphores' = Active semaphores := by
  funext q
  cases q with
  | semaphore n => exact propext (same n)
  | _ => rfl

/-- A change of a semaphore that keeps whether it is initialised. -/
theorem Refines.modSem (refines : s.Refines v) (n : SemId)
    (change : Semaphore → Semaphore)
    (same : 0 ≤ (change (s.semaphores n)).ownerPID ↔
      0 ≤ (s.semaphores n).ownerPID) :
    (s.modSem n change).Refines v := by
  have active : Active (s.modSem n change).semaphores = Active s.semaphores := by
    refine active_congr fun other => ?_
    by_cases isChanged : other = n
    · simpa [Kernel.modSem, isChanged] using same
    · simp [Kernel.modSem, isChanged]
  obtain ⟨family, dormant, loose, noFault⟩ := refines.threads
  refine ⟨⟨?_, ?_, loose, noFault⟩, refines.view⟩
  · rw [active]
    exact family
  · rw [active]
    exact dormant

/-- Destroying a semaphore whose queue is empty. -/
theorem Refines.closeSem (refines : s.Refines v)
    (empty : v.queue (.semaphore n) = []) (change : Semaphore → Semaphore)
    (closed : (change (s.semaphores n)).ownerPID < 0) :
    (s.modSem n change).Refines v := by
  have queue : sequence s.links (.semaphore n) = [] := by
    rw [← refines.queue] at empty
    exact empty
  obtain ⟨family, dormant, loose, noFault⟩ := refines.threads
  have others : ∀ r, r ≠ .semaphore n →
      (Active (s.modSem n change).semaphores r ↔ Active s.semaphores r) := by
    intro r different
    cases r with
    | semaphore other =>
        have notChanged : other ≠ n := fun same => different (same ▸ rfl)
        simp [Active, Kernel.modSem, notChanged]
    | _ => exact Iff.rfl
  have inactive : ¬ Active (s.modSem n change).semaphores (.semaphore n) := by
    simpa [Active, Kernel.modSem] using closed
  refine ⟨⟨family.mono fun r active => ?_, fun r notActive => ?_, loose, noFault⟩,
    refines.view⟩
  · exact (others r fun same => inactive (same ▸ active)).mp active
  · by_cases isClosed : r = .semaphore n
    · subst isClosed
      exact queue
    · exact dormant r fun active => notActive ((others r isClosed).mpr active)

/-- Initialising a semaphore: its list head becomes an empty ring. -/
theorem Refines.openSem (refines : s.Refines v)
    (closed : (s.semaphores n).ownerPID < 0) (change : Semaphore → Semaphore) :
    ({ s.modSem n change with
      links := initListHead s.links (.head (.semaphore n)) } : Kernel).Refines
      v := by
  obtain ⟨family, dormant, loose, noFault⟩ := refines.threads
  have empty : sequence s.links (.semaphore n) = [] :=
    dormant _ (by simpa [Active] using closed)
  have opened := family.selfLoop (.semaphore n) fun other _ different => by
    simpa using different.symm
  have pointers : ∀ node, node ≠ .head (.semaphore n) →
      s.links.SameAt (initListHead s.links (.head (.semaphore n))) node :=
    fun node different => Library.Links.Ring.sameAt_selfLoop different
  have others : ∀ r, r ≠ .semaphore n →
      (Active (s.modSem n change).semaphores r ↔ Active s.semaphores r) := by
    intro r different
    cases r with
    | semaphore other =>
        have notChanged : other ≠ n := fun same => different (same ▸ rfl)
        simp [Active, Kernel.modSem, notChanged]
    | _ => exact Iff.rfl
  have sequences : sequence (initListHead s.links (.head (.semaphore n))) =
      sequence s.links := by
    funext r
    by_cases isOpened : r = .semaphore n
    · subst isOpened
      rw [empty]
      have ring := Library.Links.Ring.selfLoop_ring s.links
        (.head (.semaphore n))
      exact sequence_ring (show Library.Links.Ring _ _ (List.map Node.pcb [])
        from ring)
    · by_cases active : Active s.semaphores r
      · have ring := opened.ring r (Or.inl active)
        rw [Function.update_of_ne isOpened] at ring
        exact sequence_ring ring
      · rw [dormant r active]
        exact sequence_nil_congr (dormant r active)
          (pointers (.head r) (by simpa using isOpened)).1
  refine ⟨⟨?_, ?_, ?_, noFault⟩, ?_⟩
  · have items : Function.update (fun r => (sequence s.links r).map Node.pcb)
        (.semaphore n) [] = fun r => (sequence s.links r).map Node.pcb := by
      rw [Function.update_eq_self_iff, empty]
      rfl
    rw [items] at opened
    rw [sequences]
    refine opened.mono fun r active => ?_
    by_cases isOpened : r = .semaphore n
    · exact Or.inr isOpened
    · exact Or.inl ((others r isOpened).mp active)
  · intro r notActive
    rw [sequences]
    by_cases isOpened : r = .semaphore n
    · subst isOpened
      exact empty
    · exact dormant r fun active => notActive ((others r isOpened).mpr active)
  · intro t notMember
    rw [sequences] at notMember
    have kept := pointers (.pcb t) (by simp)
    have before := loose t notMember
    exact ⟨kept.1.trans before.1, kept.2.trans before.2⟩
  · rw [← refines.view]
    unfold Kernel.view Kernel.queue
    rw [sequences]
    rfl

theorem sysSemInit_quiet (refines : s.Refines s.view) (nSem : Int32)
    (value : UInt32) : s.Quiet (s.sysSemInit nSem value).2 := by
  unfold sysSemInit
  split
  · exact Quiet.refl refines
  · next n _ =>
      split_ifs with used
      · exact Quiet.refl refines
      · have counted : ({ s with
            globalSemID := int32 (s.globalSemID + 1) } : Kernel).Refines s.view :=
          ⟨refines.threads, rfl⟩
        exact Quiet.of_view (counted.openSem (by simpa using used) _) rfl rfl

theorem unblock_quiet (refines : s.Refines s.view) (settled : s.view.Settled)
    (busy : s.current ≠ s.idleTask) (member : t ∈ s.queue (.semaphore n)) :
    s.Quiet (s.unblock t) ∧ s.Keeps (s.unblock t) ∧
      (s.unblock t).semaphores = s.semaphores ∧
      (s.unblock t).queue (.semaphore n) = (s.queue (.semaphore n)).erase t := by
  have woken := refines.unblock settled.toParked member
  refine ⟨Quiet.of_move woken (.wake busy member) rfl rfl rfl rfl,
    Keeps.unblock s t, rfl, ?_⟩
  rw [woken.queue]
  simp [View.wake, View.place, View.remove, Kernel.view]

theorem sysSemSignal_quiet (refines : s.Refines s.view)
    (settled : s.view.Settled) (busy : s.current ≠ s.idleTask)
    (nSem : Int32) :
    s.Quiet (s.sysSemSignal nSem).2 ∧ s.Keeps (s.sysSemSignal nSem).2 := by
  unfold sysSemSignal
  split
  · exact ⟨Quiet.refl refines, Keeps.refl s⟩
  · next n _ =>
      split_ifs with unused empty
      · exact ⟨Quiet.refl refines, Keeps.refl s⟩
      · have signalled := refines.modSem n (fun sem =>
          { sem with counter := int32 (sem.counter + 1) }) Iff.rfl
        exact ⟨Quiet.of_view signalled rfl rfl,
          ⟨fun _ => rfl, rfl, rfl, rfl, rfl, rfl⟩⟩
      · have active : Active s.semaphores (.semaphore n) := by
          simpa [Active] using unused
        rw [refines.listEmpty_iff active] at empty
        obtain ⟨t, rest, shape⟩ := List.exists_cons_of_ne_nil empty
        rw [refines.listFirst shape]
        have member : t ∈ s.queue (.semaphore n) := by
          have inView : t ∈ s.view.queue (.semaphore n) := by simp [shape]
          exact inView
        have woken := unblock_quiet refines settled busy member
        exact ⟨woken.1, woken.2.1⟩

/-- The loop of `sys_sem_destroy` empties the queue. -/
theorem releaseWaiters_queue :
    ∀ {fuel : Nat} {s : Kernel}, s.Refines s.view → s.view.Settled →
      s.current ≠ s.idleTask → Active s.semaphores (.semaphore n) →
      (s.queue (.semaphore n)).length ≤ fuel →
      s.Quiet (releaseWaiters n fuel s) ∧ s.Keeps (releaseWaiters n fuel s) ∧
        (releaseWaiters n fuel s).semaphores = s.semaphores ∧
        (releaseWaiters n fuel s).queue (.semaphore n) = []
  | 0, s, refines, _, _, _, bound =>
      ⟨Quiet.refl refines, Keeps.refl s, rfl,
        List.eq_nil_of_length_eq_zero (Nat.le_zero.mp bound)⟩
  | fuel + 1, s, refines, settled, busy, active, bound => by
      unfold releaseWaiters
      split_ifs with empty
      · rw [refines.listEmpty_iff active] at empty
        exact ⟨Quiet.refl refines, Keeps.refl s, rfl, empty⟩
      · rw [refines.listEmpty_iff active] at empty
        obtain ⟨t, rest, shape⟩ := List.exists_cons_of_ne_nil empty
        have queue : s.queue (.semaphore n) = t :: rest := shape
        rw [refines.listFirst shape]
        obtain ⟨woken, kept, semaphores, erased⟩ :=
          unblock_quiet refines settled busy (by rw [queue]; exact List.mem_cons_self)
        have shorter : ((s.unblock t).queue (.semaphore n)).length ≤ fuel := by
          rw [erased, queue, List.erase_cons_head]
          rw [queue, List.length_cons] at bound
          omega
        obtain ⟨later, keptLater, sameLater, emptied⟩ :=
          releaseWaiters_queue woken.refines (woken.settled settled)
            (woken.busy busy) (semaphores ▸ active) shorter
        exact ⟨woken.trans later, kept.trans keptLater,
          sameLater.trans semaphores, emptied⟩

theorem semDestroy_quiet (refines : s.Refines s.view) (settled : s.view.Settled)
    (busy : s.current ≠ s.idleTask) (n : SemId) :
    s.Quiet (s.semDestroy n).2 ∧ s.Keeps (s.semDestroy n).2 := by
  unfold semDestroy
  split_ifs with unused owner
  · exact ⟨Quiet.refl refines, Keeps.refl s⟩
  · have active : Active s.semaphores (.semaphore n) := by
      simpa [Active] using unused
    have nodup : (s.queue (.semaphore n)).Nodup := settled.nodup (.semaphore n)
    obtain ⟨released, kept, _, emptied⟩ :=
      releaseWaiters_queue refines settled busy active (length_le_nrTasks nodup)
    have closed := released.refines.closeSem emptied (fun sem =>
      { sem with ownerPID := -1, semID := -1 }) (show (-1 : Int) < 0 by decide)
    exact ⟨released.trans (Quiet.of_view closed rfl rfl),
      kept.trans ⟨fun _ => rfl, rfl, rfl, rfl, rfl, rfl⟩⟩
  · exact ⟨Quiet.refl refines, Keeps.refl s⟩

theorem sysSemDestroy_quiet (refines : s.Refines s.view)
    (settled : s.view.Settled) (busy : s.current ≠ s.idleTask)
    (nSem : Int32) :
    s.Quiet (s.sysSemDestroy nSem).2 ∧ s.Keeps (s.sysSemDestroy nSem).2 := by
  unfold sysSemDestroy
  split
  · exact ⟨Quiet.refl refines, Keeps.refl s⟩
  · exact semDestroy_quiet refines settled busy _

/-- `sys_sem_wait` answers at once, or the caller goes into the queue of an
initialised semaphore. -/
theorem sysSemWait_cases (refines : s.Refines s.view)
    (settled : s.view.Settled) (nSem : Int32) :
    (∃ result, (s.sysSemWait nSem).1 = some result ∧
        s.Quiet (s.sysSemWait nSem).2) ∨
      ((s.sysSemWait nSem).1 = none ∧ ∃ n context,
        ContextOf context (.semaphore n) ∧
        (s.sysSemWait nSem).2.Refines
          (s.view.yield (.semaphore n) .stBlocked context) ∧
        (s.sysSemWait nSem).2.mode = .switched) := by
  unfold sysSemWait
  split
  · exact Or.inl ⟨_, rfl, Quiet.refl refines⟩
  · next n _ =>
      split_ifs with unused blocked
      · exact Or.inl ⟨_, rfl, Quiet.refl refines⟩
      · have active : Active s.semaphores (.semaphore n) := by
          simpa [Active] using unused
        exact Or.inr ⟨rfl, n, _, ⟨_, rfl⟩,
          refines.blockAndSwitch settled active _⟩
      · have taken := refines.modSem n (fun sem =>
          { sem with counter := sem.counter - 1 }) Iff.rfl
        exact Or.inl ⟨_, rfl, Quiet.of_view taken rfl rfl⟩

theorem sysSemInit_keeps (s : Kernel) (nSem : Int32) (value : UInt32) :
    s.Keeps (s.sysSemInit nSem value).2 := by
  unfold sysSemInit
  split
  · exact Keeps.refl s
  · split_ifs
    · exact Keeps.refl s
    · exact ⟨fun _ => rfl, rfl, rfl, rfl, rfl, rfl⟩

theorem sysSemWait_keeps (s : Kernel) (nSem : Int32) :
    s.Keeps (s.sysSemWait nSem).2 := by
  unfold sysSemWait
  split
  · exact Keeps.refl s
  · split_ifs
    · exact Keeps.refl s
    · exact (Keeps.block _ _ _).trans (Keeps.schedNextRr _ _)
    · exact ⟨fun _ => rfl, rfl, rfl, rfl, rfl, rfl⟩

/-! ## `sys_exit` -/

theorem exitSemaphore_quiet (refines : s.Refines s.view)
    (settled : s.view.Settled) (busy : s.current ≠ s.idleTask) (n : SemId) :
    s.Quiet (s.exitSemaphore n) ∧ s.Keeps (s.exitSemaphore n) := by
  unfold exitSemaphore
  split_ifs
  · exact semDestroy_quiet refines settled busy n
  · exact ⟨Quiet.refl refines, Keeps.refl s⟩

/-- The loop of `sys_exit` over the semaphores. -/
theorem exitSemaphores_quiet :
    ∀ (names : List SemId) {s : Kernel}, s.Refines s.view → s.view.Settled →
      s.current ≠ s.idleTask →
      s.Quiet (names.foldl exitSemaphore s) ∧
        s.Keeps (names.foldl exitSemaphore s)
  | [], s, refines, _, _ => ⟨Quiet.refl refines, Keeps.refl s⟩
  | n :: names, s, refines, settled, busy => by
      have first := exitSemaphore_quiet refines settled busy n
      have later := exitSemaphores_quiet names first.1.refines
        (first.1.settled settled) (first.1.busy busy)
      exact ⟨first.1.trans later.1, first.2.trans later.2⟩

theorem releaseProcess_refines (refines : s.Refines v) :
    s.releaseProcess.Refines
      { v with live := Function.update v.live v.current false } := by
  have cleared := refines.modTask_same s.current
    (fun p => { p with pid := -1 }) rfl
  refine ⟨cleared.threads, ?_⟩
  rw [← cleared.view]
  rfl

/-- `sys_exit` after its loop: the caller becomes a free PCB, and the next
process runs. -/
theorem sysExit_refines (refines : s.Refines s.view) (settled : s.view.Settled)
    (busy : s.current ≠ s.idleTask) :
    ∃ middle, s.Quiet middle ∧
      s.sysExit.Refines (middle.view.retire.dispatch .exited) ∧
      s.sysExit.mode = .switched ∧ s.sysExit.kbd = s.kbd ∧
      s.sysExit.readLog = s.readLog := by
  obtain ⟨quiet, _⟩ :=
    exitSemaphores_quiet (List.finRange 20) refines settled busy
  refine ⟨_, quiet, ?_⟩
  unfold sysExit
  generalize (List.finRange 20).foldl exitSemaphore s = middle at quiet
  have middleSettled := quiet.settled settled
  have released := releaseProcess_refines quiet.refines
  have queued := released.updateProcessStateRr (q := .freequeue) trivial
    middleSettled.currentLoose middleSettled.currentRun
  have ran := queued.schedNextRr .exited
  have keeps := (Keeps.updateProcessStateRr middle.releaseProcess middle.current
    (some .freequeue)).trans (Keeps.schedNextRr _ .exited)
  exact ⟨ran.1, ran.2, keeps.kbd.trans quiet.kbd,
    keeps.readLog.trans quiet.readLog⟩

/-! ## `sys_fork` and `sys_clone` -/

variable {child : TaskId}

theorem Refines.setContext (refines : s.Refines v) (t : TaskId)
    (context : Context) :
    ({ s with context := Function.update s.context t context } : Kernel).Refines
      { v with context := Function.update v.context t context } := by
  obtain ⟨threads, rfl⟩ := refines
  exact ⟨threads, rfl⟩

/-- The copied link fields are null, as the child's own were. -/
theorem copyUnion_refines (refines : s.Refines v)
    (currentLoose : v.Loose v.current) (childLoose : v.Loose child) :
    (s.copyUnion child).Refines
      { v with
        status := Function.update v.status child (v.status v.current)
        context := Function.update v.context child (v.context v.current) } := by
  have current : s.current = v.current := congrArg View.current refines.view
  have nullOf : ∀ {t}, v.Loose t →
      s.links.next (.pcb t) = none ∧ s.links.prev (.pcb t) = none := by
    intro t loose
    refine refines.threads.loose t fun r => ?_
    have notMember := loose r
    rwa [← refines.queue] at notMember
  have parent := nullOf (current ▸ currentLoose)
  have own := nullOf childLoose
  have links : (s.copyUnion child).links = s.links := by
    simp only [copyUnion, parent.1, parent.2, Library.Links.setNext,
      Library.Links.setPrev]
    rw [← own.1, Function.update_eq_self, own.1, ← own.2,
      Function.update_eq_self]
  have status : (fun u => ((s.copyUnion child).task u).execStatus) =
      Function.update (fun u => (s.task u).execStatus) child
        (s.task s.current).execStatus :=
    Function.comp_update TaskStruct.execStatus s.task child (s.task s.current)
  refine ⟨links.symm ▸ refines.threads, ?_⟩
  rw [← refines.view]
  unfold Kernel.view Kernel.queue
  rw [links, status]
  rfl

theorem allocateDIR_refines (refines : s.Refines v) (t : TaskId) :
    (s.allocateDIR t).2.Refines v := by
  unfold allocateDIR
  split
  · next i _ =>
      have changed := refines.modTask_same t
        (fun p => { p with dirPagesBaseAddr := i }) rfl
      exact ⟨changed.threads, changed.view⟩
  · exact refines

theorem allocateDIR_frame (s : Kernel) (t : TaskId) :
    (s.allocateDIR t).2.current = s.current ∧
      (s.allocateDIR t).2.idleTask = s.idleTask ∧
      (s.allocateDIR t).2.kbd = s.kbd ∧
      (s.allocateDIR t).2.readLog = s.readLog := by
  unfold allocateDIR
  split <;> exact ⟨rfl, rfl, rfl, rfl⟩

theorem initChild_refines (refines : s.Refines v) (child : TaskId) :
    (s.initChild child).Refines
      { v with
        status := Function.update v.status child .stReady
        live := Function.update v.live child true } := by
  have ready := refines.modTask child fun p =>
    { p with
      pid := s.globalPID
      quantum := s.currentTask.quantum
      execStatus := .stReady }
  refine ⟨ready.threads, ?_⟩
  rw [← refines.view] at ready ⊢
  have status := congrArg View.status ready.view
  simp only at status
  rw [← status]
  rfl

theorem removed_loose (settled : v.Settled) (member : child ∈ v.queue .freequeue) :
    (v.remove child .freequeue).Loose child := by
  intro r inQueue
  by_cases isFree : r = .freequeue
  · subst isFree
    simp only [View.remove, Function.update_self] at inQueue
    exact (settled.nodup .freequeue).not_mem_erase inQueue
  · simp only [View.remove, Function.update_of_ne isFree] at inQueue
    exact isFree (settled.exclusive _ _ _ inQueue member)

theorem current_loose_removed (settled : v.Settled) (child : TaskId) :
    (v.remove child .freequeue).Loose v.current := by
  intro r inQueue
  by_cases isFree : r = .freequeue
  · subst isFree
    simp only [View.remove, Function.update_self] at inQueue
    exact settled.currentLoose _ (List.mem_of_mem_erase inQueue)
  · simp only [View.remove, Function.update_of_ne isFree] at inQueue
    exact settled.currentLoose r inQueue

/-- The PCB `child` is taken from `freequeue` and made a copy of the caller's. -/
theorem copied_refines (refines : s.Refines v) (settled : v.Settled)
    (member : child ∈ v.queue .freequeue) :
    ((s.listDel child).copyUnion child).Refines
      { v.remove child .freequeue with
        status := Function.update v.status child (v.status v.current)
        context := Function.update v.context child (v.context v.current) } :=
  copyUnion_refines (refines.listDel member)
    (current_loose_removed settled child) (removed_loose settled member)

/-- The child is a free PCB again. -/
def returned (v : View) (child : TaskId) : View :=
  { v with
    queue := Function.update v.queue .freequeue
      (v.queue .freequeue ++ [child]) }

theorem abandonChild_refines (refines : s.Refines v) (loose : v.Loose child)
    (mm : Memory) : (s.abandonChild child mm).Refines (returned v child) :=
  Refines.listAddTail (s := { s with mm := mm })
    ⟨refines.threads, refines.view⟩ trivial loose

/-- The child is ready to run, and will return from the call. -/
def born (v : View) (child : TaskId) : View :=
  { v with
    queue := Function.update v.queue .readyqueue (v.queue .readyqueue ++ [child])
    status := Function.update v.status child .stReady
    context := Function.update v.context child .retFromFork
    live := Function.update v.live child true }

theorem finishFork_refines (refines : s.Refines v) (loose : v.Loose child)
    (mm : Memory) : (s.finishFork child mm).Refines (born v child) := by
  let spaced : Kernel := { s with
    mm := s.forkSpace mm (s.task child).dirPagesBaseAddr
    cr3 := s.currentTask.dirPagesBaseAddr }
  have initial : spaced.Refines v := ⟨refines.threads, refines.view⟩
  have started := initChild_refines initial child
  have returning := started.setContext child .retFromFork
  have heaped := returning.modTask_same child (fun p =>
    { p with
      heapSize := (spaced.initChild child).currentTask.heapSize
      heapPages := (spaced.initChild child).currentTask.heapPages }) rfl
  exact heaped.listAddTail (q := .readyqueue) trivial loose

/-- The copy of the parent's status and context is overwritten. -/
theorem born_copied (v : View) (child : TaskId) (st : State) (context : Context) :
    born { v.remove child .freequeue with
      status := Function.update v.status child st
      context := Function.update v.context child context } child =
        v.create child .retFromFork := by
  simp [born, View.create, View.place, View.remove]

theorem returned_copied (v : View) (child : TaskId) (st : State)
    (context : Context) :
    returned { v.remove child .freequeue with
      status := Function.update v.status child st
      context := Function.update v.context child context } child =
        v.recycle child st context := by
  simp [returned, View.recycle, View.remove]

theorem cloneInto_refines (refines : s.Refines v) (settled : v.Settled)
    (member : child ∈ v.queue .freequeue) :
    ((s.listDel child).cloneInto child).2.Refines
      (v.create child .retFromFork) := by
  have copied := copied_refines refines settled member
  have started := initChild_refines copied child
  have shrunk := started.modTask_same child
    (fun p => { p with heapSize := 0 }) rfl
  have queued := shrunk.listAddTail (q := .readyqueue) trivial
    (removed_loose settled member)
  have returning := queued.setContext child .retFromFork
  rw [← born_copied v child (v.status v.current) (v.context v.current)]
  exact ⟨returning.threads, returning.view⟩

/-- A fork either makes the child a process, or gives its PCB back. -/
theorem forkInto_refines (refines : s.Refines v) (settled : v.Settled)
    (member : child ∈ v.queue .freequeue) :
    ((s.listDel child).forkInto child).2.Refines (v.create child .retFromFork) ∨
      ∃ st context, ((s.listDel child).forkInto child).2.Refines
        (v.recycle child st context) := by
  have childLoose := removed_loose settled member
  have placed := allocateDIR_refines (copied_refines refines settled member) child
  unfold forkInto
  dsimp only
  split
  · next mm _ =>
      refine Or.inr ⟨v.status v.current, v.context v.current, ?_⟩
      rw [← returned_copied]
      exact abandonChild_refines placed childLoose mm
  · next mm _ =>
      rw [← born_copied v child (v.status v.current) (v.context v.current)]
      exact Or.inl (finishFork_refines placed childLoose mm)

theorem forkInto_frame (s : Kernel) (child : TaskId) :
    (s.forkInto child).2.current = s.current ∧
      (s.forkInto child).2.idleTask = s.idleTask ∧
      (s.forkInto child).2.kbd = s.kbd ∧
      (s.forkInto child).2.readLog = s.readLog := by
  have frame := allocateDIR_frame (s.copyUnion child) child
  unfold forkInto
  dsimp only
  split <;> exact frame

theorem sysFork_quiet (refines : s.Refines s.view) (settled : s.view.Settled)
    (busy : s.current ≠ s.idleTask) : s.Quiet s.sysFork.2 := by
  unfold sysFork
  split_ifs with empty
  · exact Quiet.refl refines
  · rw [refines.listEmpty_iff (q := .freequeue) trivial] at empty
    obtain ⟨child, rest, shape⟩ := List.exists_cons_of_ne_nil empty
    have member : child ∈ s.view.queue .freequeue := by simp [shape]
    obtain ⟨current, idleTask, kbd, readLog⟩ :=
      forkInto_frame (s.listDel child) child
    rw [refines.listFirst shape]
    rcases forkInto_refines refines settled member with
      created | ⟨st, context, recycled⟩
    · exact Quiet.of_move created (.create busy member) current idleTask kbd
        readLog
    · exact Quiet.of_move recycled (.recycle member) current idleTask kbd readLog

theorem sysClone_quiet (refines : s.Refines s.view) (settled : s.view.Settled)
    (busy : s.current ≠ s.idleTask) (function stack : UInt32) :
    s.Quiet (s.sysClone function stack).2 := by
  unfold sysClone
  split_ifs with denied empty
  · exact Quiet.refl refines
  · exact Quiet.refl refines
  · rw [refines.listEmpty_iff (q := .freequeue) trivial] at empty
    obtain ⟨child, rest, shape⟩ := List.exists_cons_of_ne_nil empty
    have member : child ∈ s.view.queue .freequeue := by simp [shape]
    rw [refines.listFirst shape]
    exact Quiet.of_move (cloneInto_refines refines settled member)
      (.create busy member) rfl rfl rfl rfl

end Kernel

end Zeos
