import Zeos.Space.Calls

/-!
# The directory of the running process

`task_switch_asm` loads `%cr3` with the directory of the process that it
switches to, and `sys_fork` loads it again with its caller's.  No other code
writes `%cr3` or the directory of a live process, so in every reachable state
the processor translates through the table of the running process.
-/

namespace Zeos

namespace Kernel

variable {s s' s'' : Kernel} {event : Event} {child : TaskId}

/-- `%cr3` holds the directory of the running process. -/
def Paged (s : Kernel) : Prop := s.cr3 = s.currentTask.dirPagesBaseAddr

/-- `%cr3`, the running process and the directories are the same. -/
structure SameRoot (s s' : Kernel) : Prop where
  cr3 : s'.cr3 = s.cr3
  current : s'.current = s.current
  dir : ∀ t, (s'.task t).dirPagesBaseAddr = (s.task t).dirPagesBaseAddr

namespace SameRoot

theorem paged (same : s.SameRoot s') (paged : s.Paged) : s'.Paged := by
  unfold Paged currentTask at paged ⊢
  rw [same.cr3, same.current, same.dir, paged]

theorem refl (s : Kernel) : s.SameRoot s := ⟨rfl, rfl, fun _ => rfl⟩

theorem trans (first : s.SameRoot s') (second : s'.SameRoot s'') :
    s.SameRoot s'' where
  cr3 := second.cr3.trans first.cr3
  current := second.current.trans first.current
  dir t := (second.dir t).trans (first.dir t)

theorem of_eq (cr3 : s'.cr3 = s.cr3) (current : s'.current = s.current)
    (task : s'.task = s.task) : s.SameRoot s' :=
  ⟨cr3, current, fun t => by rw [task]⟩

theorem of_keeps (keeps : s.Keeps s') (cr3 : s'.cr3 = s.cr3)
    (current : s'.current = s.current) : s.SameRoot s' :=
  ⟨cr3, current, fun t => by rw [keeps.task t]⟩

theorem unblock (s : Kernel) (t : TaskId) : s.SameRoot (s.unblock t) :=
  of_keeps (Keeps.unblock s t) rfl rfl

theorem block (s : Kernel) (t : TaskId) (q : Queue) :
    s.SameRoot (s.block t q) := by
  apply of_keeps (Keeps.block s t q)
  all_goals
    unfold Kernel.block
    dsimp only
    split <;> rfl

theorem updateProcessStateRr (s : Kernel) (t : TaskId) (q : Queue) :
    s.SameRoot (s.updateProcessStateRr t (some q)) := by
  apply of_keeps (Keeps.updateProcessStateRr s t (some q))
  all_goals
    unfold Kernel.updateProcessStateRr
    dsimp only
    split <;> rfl

theorem releaseWaiters (n : SemId) : ∀ (fuel : Nat) (s : Kernel),
    s.SameRoot (releaseWaiters n fuel s)
  | 0, s => refl s
  | fuel + 1, s => by
      rw [Kernel.releaseWaiters]
      split
      · exact refl s
      · split
        · exact (unblock s _).trans (releaseWaiters n fuel _)
        · exact of_eq rfl rfl rfl

theorem semDestroy (s : Kernel) (n : SemId) :
    s.SameRoot (s.semDestroy n).2 := by
  rw [Kernel.semDestroy]
  split_ifs
  · exact refl s
  · exact (releaseWaiters n nrTasks s).trans (of_eq rfl rfl rfl)
  · exact refl s

theorem exitSemaphores : ∀ (names : List SemId) (s : Kernel),
    s.SameRoot (names.foldl exitSemaphore s)
  | [], s => refl s
  | n :: names, s => by
      have one : s.SameRoot (s.exitSemaphore n) := by
        rw [exitSemaphore]
        split_ifs
        · exact semDestroy s n
        · exact refl s
      exact one.trans (exitSemaphores names _)

theorem releaseProcess (s : Kernel) : s.SameRoot s.releaseProcess :=
  ⟨rfl, rfl, fun t => (releaseProcess_region s t).dirPagesBaseAddr⟩

end SameRoot

/-! ## The scheduler -/

theorem dispatch_paged (s : Kernel) (context : Context) (t : TaskId) :
    (s.dispatch context t).Paged := rfl

/-- A switch loads `%cr3`. -/
theorem Paged.schedNextRr (paged : s.Paged) (context : Context) :
    (s.schedNextRr context).Paged := by
  rw [Kernel.schedNextRr]
  split
  · exact dispatch_paged s context s.idleTask
  · split
    · exact dispatch_paged _ context _
    · exact paged

theorem Paged.schedule (paged : s.Paged) : s.schedule.Paged := by
  rcases s.schedule_cases with ⟨stats, same⟩ | ⟨_, switched⟩
  · rw [same]
    exact paged
  · rw [switched]
    have ticked : s.updateSchedDataRr.Paged := paged
    exact ((SameRoot.updateProcessStateRr _ _ _).paged ticked).schedNextRr _

/-! ## The calls that switch -/

theorem Paged.readLoop (paged : s.Paged) (buf : UInt32) (n : Int)
    (stored : List UInt8) : (complete (s.readLoop buf n stored)).Paged := by
  rw [readLoop_eq]
  dsimp only
  split_ifs
  · have queued : s.SameRoot ((({ s with
        kbd := (deliver n stored s.kbd).2 } : Kernel).listAdd s.current
          .keyboardqueue).sysToReadyStats) := .of_eq rfl rfl rfl
    have marked := SameRoot.of_keeps (Keeps.modTask ((({ s with
      kbd := (deliver n stored s.kbd).2 } : Kernel).listAdd s.current
        .keyboardqueue).sysToReadyStats) s.current .stBlocked) rfl rfl
    exact ((queued.trans marked).paged paged).schedNextRr _
  · exact paged

theorem Paged.read (paged : s.Paged) (cbIsEmpty : s.kbd.cbIsEmpty = true)
    (fd : Int32) (buf : UInt32) (count : Int32) :
    (complete (s.sysRead fd buf count)).Paged := by
  rcases sysRead_cases cbIsEmpty fd buf count with
    ⟨_, result, failed⟩ | ⟨_, waits⟩
  · rw [failed]
    exact paged
  · rw [waits]
    exact ((SameRoot.block _ _ _).paged (show Paged { s with
      kbd := { s.kbd with leftToRead := count.toInt } } from paged)).schedNextRr _

theorem Paged.semWait (paged : s.Paged) (nSem : Int32) :
    (complete (s.sysSemWait nSem)).Paged := by
  rw [sysSemWait]
  split
  · exact paged
  · split_ifs
    · exact paged
    · exact ((SameRoot.block s _ _).paged paged).schedNextRr _
    · exact paged

theorem Paged.exit (paged : s.Paged) : s.sysExit.Paged := by
  have released := (SameRoot.exitSemaphores (List.finRange 20) s).trans
    (SameRoot.releaseProcess _)
  exact ((SameRoot.updateProcessStateRr _ _ _).paged
    (released.paged paged)).schedNextRr _

/-! ## The calls that make a process -/

theorem forkInto_cr3 (s : Kernel) (different : child ≠ s.current) :
    (s.forkInto child).2.cr3 = s.cr3 ∨
      (s.forkInto child).2.cr3 = s.currentTask.dirPagesBaseAddr := by
  obtain ⟨dir, uses, _, _, task, _, _, current, cr3⟩ := childState s child
  rw [forkInto]
  dsimp only
  generalize ((s.copyUnion child).allocateDIR child).2 = s₁ at task current cr3
  split
  · exact Or.inl cr3
  · refine Or.inr ?_
    change (s₁.task s₁.current).dirPagesBaseAddr = _
    rw [current, task, Function.update_of_ne different.symm]
    rfl

theorem Paged.fork (paged : s.Paged) (orderly : s.Orderly) :
    (s.systemCall .fork).Paged := by
  by_cases free : s.queue .freequeue = []
  · have empty : s.userToSysStats.listEmpty .freequeue = true :=
      (orderly.userToSysStats.refines.listEmpty_iff (q := .freequeue)
        trivial).mpr free
    change (s.userToSysStats.sysFork.2.sysReturn _).Paged
    rw [sysFork, if_pos empty]
    exact paged
  · obtain ⟨child, rest, queue⟩ := List.exists_cons_of_ne_nil free
    have different : child ≠ s.current :=
      orderly.settled.away (show child ∈ s.queue .freequeue by simp [queue])
    obtain ⟨_, _, _, _, _, others, _⟩ :=
      forkInto_space (s.userToSysStats.listDel child) different
    have current := (forkInto_frame (s.userToSysStats.listDel child) child).1
    have sameDir := (others s.current different.symm).dirPagesBaseAddr
    rw [fork_shape orderly queue]
    change ((s.userToSysStats.listDel child).forkInto child).2.cr3 =
      (((s.userToSysStats.listDel child).forkInto child).2.task
        ((s.userToSysStats.listDel child).forkInto child).2.current).dirPagesBaseAddr
    rw [current]
    rcases forkInto_cr3 (s.userToSysStats.listDel child) different with kept | loaded
    · exact kept.trans (paged.trans sameDir.symm)
    · exact loaded.trans sameDir.symm

theorem Paged.clone (paged : s.Paged) (orderly : s.Orderly)
    (function stack : UInt32) : (s.sysClone function stack).2.Paged := by
  rw [sysClone]
  split_ifs with denied empty
  · exact paged
  · exact paged
  · rw [orderly.refines.listEmpty_iff (q := .freequeue) trivial] at empty
    obtain ⟨child, rest, queue⟩ := List.exists_cons_of_ne_nil empty
    have notChild : s.current ≠ child := Ne.symm <|
      orderly.settled.away (show child ∈ s.view.queue .freequeue by simp [queue])
    rw [orderly.refines.listFirst queue]
    have sameTask : (((s.listDel child).cloneInto child).2.task s.current) =
        s.task s.current := by
      simp [cloneInto, copyUnion, initChild, initStats, modTask, listAddTail,
        listDel, notChild]
    change s.cr3 =
      (((s.listDel child).cloneInto child).2.task s.current).dirPagesBaseAddr
    rw [sameTask]
    exact paged

/-! ## Every run -/

theorem Paged.syscall (paged : s.Paged) (orderly : s.Orderly) (call : Syscall) :
    (s.systemCall call).Paged := by
  have entered : s.userToSysStats.Paged := paged
  cases call with
  | exit => exact entered.exit
  | fork => exact paged.fork orderly
  | read fd buf count => exact entered.read orderly.cbIsEmpty fd buf count
  | write fd buffer size =>
      obtain ⟨console, fault, written⟩ :=
        s.userToSysStats.sysWrite_cases fd buffer size
      change Paged (s.userToSysStats.sysWrite fd buffer size).2
      rw [written]
      exact paged
  | gettime => exact paged
  | sbrk increment =>
      have kept := (HeapOnly.sysSbrk increment s.userToSysStats.currentTask
        s.userToSysStats.mm).dirPagesBaseAddr
      change s.cr3 = _
      rw [paged]
      simpa [systemCall, service, complete, sysSbrk, sysReturn, sysToUserStats,
        userToSysStats, chargeTicks, currentTask] using kept.symm
  | clone function stack =>
      exact entered.clone orderly.userToSysStats function stack
  | getpid => exact paged
  | semInit nSem value =>
      have keeps := sysSemInit_keeps s.userToSysStats nSem value
      change Paged (s.userToSysStats.sysSemInit nSem value).2
      apply (SameRoot.of_keeps keeps ?_ ?_).paged entered
      all_goals
        rw [sysSemInit]
        split
        · rfl
        · split_ifs <;> rfl
  | semWait nSem => exact entered.semWait nSem
  | semSignal nSem =>
      change Paged (s.userToSysStats.sysSemSignal nSem).2
      rw [sysSemSignal]
      split
      · exact paged
      · split_ifs
        · exact paged
        · exact paged
        · split
          · exact (SameRoot.unblock _ _).paged entered
          · exact paged
  | semDestroy nSem =>
      change Paged (s.userToSysStats.sysSemDestroy nSem).2
      rw [sysSemDestroy]
      split
      · exact paged
      · exact (SameRoot.semDestroy _ _).paged entered
  | getStats pid st =>
      obtain ⟨stats, ram, fault, charged⟩ :=
        s.userToSysStats.sysGetStats_cases pid st
      change Paged (s.userToSysStats.sysGetStats pid st).2
      rw [charged]
      exact paged
  | niSyscall => exact paged

theorem Paged.keyboard (paged : s.Paged) (scancode beyond : UInt8) :
    (s.keyboardRoutine scancode beyond).Paged := by
  rw [keyboardRoutine]
  split_ifs
  · dsimp only
    split_ifs
    · split
      · exact ((SameRoot.unblock _ _).paged (show Paged { s with
          kbd := s.keyStored (charOfScancode scancode beyond) } from
            paged)).schedNextRr _
      · exact paged
    · exact paged
  · exact paged

theorem Paged.resume (paged : s.Paged) : s.resume.Paged := by
  rw [Kernel.resume]
  split
  · exact paged
  · exact paged
  · exact paged
  · exact paged
  · exact paged.readLoop _ _ _
  · exact paged

theorem Paged.handle (paged : s.Paged) (orderly : s.Orderly)
    (handled : s.handle event = some s') : s'.Paged := by
  cases event with
  | clock =>
      obtain ⟨_, ⟨⟩⟩ := Option.ite_none_right_eq_some.mp handled
      exact (show Paged { s with zeosTicks := int32 (s.zeosTicks + 1) } from
        paged).schedule
  | keyboard scancode beyond =>
      obtain ⟨_, ⟨⟩⟩ := Option.ite_none_right_eq_some.mp handled
      exact paged.keyboard scancode beyond
  | syscall call =>
      obtain ⟨_, ⟨⟩⟩ := Option.ite_none_right_eq_some.mp handled
      exact paged.syscall orderly call
  | badSyscall =>
      obtain ⟨_, ⟨⟩⟩ := Option.ite_none_right_eq_some.mp handled
      exact paged
  | resume =>
      obtain ⟨_, ⟨⟩⟩ := Option.ite_none_right_eq_some.mp handled
      exact paged.resume

theorem boot_paged (image : BootImage) : (boot image).Paged := by
  have runs : (boot image).current = 1 :=
    congrArg View.current (boot_refines image).view
  have idleCurrent : (zeroed image).initSched.initIdle.current = 0 := rfl
  rw [boot] at runs ⊢
  generalize (zeroed image).initSched.initIdle = s₁
    at runs idleCurrent
  rw [initTask1] at runs ⊢
  split
  · rfl
  · next absent =>
      rw [absent] at runs
      change s₁.current = 1 at runs
      rw [idleCurrent] at runs
      exact absurd runs (by decide)

/-- The processor always translates through the running process's table. -/
theorem paged_of_reachable {image : BootImage} (run : Reachable image s) :
    s.Paged := by
  refine Library.Reach.invariant_over Paged (boot_paged image)
    (fun _ plain => orderly_of_reachable plain) ?_ run
  intro before event after orderly paged _ taken
  exact paged.handle orderly (handle_of_step taken)

end Kernel

end Zeos
