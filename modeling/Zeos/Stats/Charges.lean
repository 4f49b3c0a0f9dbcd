import Zeos.Stats.Meters

/-!
# What each event charges

The meters after each event, `handle_meters`: a system call charges the caller
its user time, an interrupt that switches charges the interrupted process
system time, and a dispatch charges the next process ready time.
-/

namespace Zeos

namespace Kernel

variable {s s' : Kernel} {t u child : TaskId} {event : Event} {now : UInt32}

/-! ## Interrupts -/

theorem updateSchedDataRr_meter (s : Kernel) (u : TaskId) :
    s.updateSchedDataRr.meter u = s.meter u :=
  modStats_meter s s.current
    (fun st => { st with remainingTicks := st.remainingTicks - 1 })
    (fun _ => rfl) u

/-- The clock handler keeps the meters, or the quantum of the process that runs
is over and another process is ready. -/
theorem schedule_meters (s : Kernel) :
    (∃ stats, s.schedule = { s with stats := stats } ∧
        ∀ u, (stats u).meter = s.meter u) ∨
      ((s.stats s.current).remainingTicks = 1 ∧
        s.listEmpty .readyqueue = false ∧
        s.schedule = (s.updateSchedDataRr.updateProcessStateRr s.current
          (some .readyqueue)).schedNextRr .interrupted) := by
  have ticked := s.updateSchedDataRr_meter
  have counted : (s.updateSchedDataRr.stats s.current).remainingTicks =
      (s.stats s.current).remainingTicks - 1 := by
    unfold updateSchedDataRr modStats
    dsimp only
    rw [Function.update_self]
  unfold schedule needsSchedRr
  by_cases exhausted : (s.updateSchedDataRr.stats s.current).remainingTicks = 0
  · by_cases empty : s.listEmpty .readyqueue = true
    · have renewed : ∀ u, (s.updateSchedDataRr.modStats s.current fun st =>
          { st with
            remainingTicks := s.updateSchedDataRr.getQuantum s.current
            totalTrans := st.totalTrans + 1 }).meter u =
          s.updateSchedDataRr.meter u :=
        modStats_meter s.updateSchedDataRr s.current _ fun _ => rfl
      rw [if_neg fun both => both.2 empty, if_pos ⟨exhausted, empty⟩]
      exact Or.inl ⟨_, rfl, fun u => (renewed u).trans (ticked u)⟩
    · rw [if_pos ⟨exhausted, empty⟩]
      refine Or.inr ⟨?_, by simpa using empty, rfl⟩
      rw [counted] at exhausted
      exact sub_eq_zero.mp exhausted
  · rw [if_neg fun both => exhausted both.1, if_neg fun both => exhausted both.1]
    exact Or.inl ⟨_, rfl, ticked⟩

theorem updateProcessStateRr_meter (s : Kernel) (q : Queue)
    (reads : ReadsAt s (s.updateProcessStateRr t (some q)) now) :
    s.ChargesCurrent (s.updateProcessStateRr t (some q)) (some .system) now := by
  unfold updateProcessStateRr at reads ⊢
  dsimp only at reads ⊢
  split at reads
  · next queued =>
      rw [if_pos queued]
      exact charge_meter (fun d st => update_system st d) reads
  · next running =>
      rw [if_neg running]
      exact charge_meter (fun d st => update_system st d) reads

theorem clock_meters (orderly : s.Orderly) (mode : s.mode = .user)
    (reads : ReadsAt s s.clockRoutine now) :
    MetersAfter s .clock s.clockRoutine now := by
  have ticked : ({ s with zeosTicks := int32 (s.zeosTicks + 1) } : Kernel).Refines
      s.view := ⟨orderly.refines.threads, rfl⟩
  have live : s.clockRoutine.live = s.live := (Keeps.schedule _).live
  unfold clockRoutine at reads live ⊢
  rcases schedule_meters { s with zeosTicks := int32 (s.zeosTicks + 1) } with
    ⟨stats, same, meters⟩ | ⟨_, _, switched⟩
  · rw [same]
    refine .stayed rfl rfl fun u => ?_
    have notSwitched : entryBill .clock
        ({ s with zeosTicks := int32 (s.zeosTicks + 1), stats := stats } :
          Kernel) = none := if_neg (by simp [mode])
    rw [notSwitched]
    exact (meters u).trans (ite_self _).symm
  · have counted : ({ s with zeosTicks := int32 (s.zeosTicks + 1) } :
        Kernel).updateSchedDataRr.Refines s.view :=
      ⟨orderly.refines.threads, rfl⟩
    have queued := counted.updateProcessStateRr (q := .readyqueue) trivial
      orderly.settled.currentLoose orderly.settled.currentRun
    have dispatches := schedNextRr_meters queued .interrupted
    have ran := queued.schedNextRr .interrupted
    rw [switched] at reads live ⊢
    refine .interrupted (if_pos ran.2) (fun u => by rw [live]; exact id) ?_ ?_
      dispatches reads
    · have clocked := (Steady.updateProcessStateRr ({ s with
        zeosTicks := int32 (s.zeosTicks + 1) } : Kernel).updateSchedDataRr
          s.current .readyqueue).toClocked
      exact ⟨clocked.clock, clocked.reads⟩
    · intro reads u
      have sameMeter : ({ s with zeosTicks := int32 (s.zeosTicks + 1) } :
          Kernel).updateSchedDataRr.meter u = s.meter u :=
        updateSchedDataRr_meter _ u
      rw [← sameMeter]
      exact updateProcessStateRr_meter _ .readyqueue reads u

/-- A key that wakes nobody, or no key at all. -/
theorem MetersAfter.unswitched (mode : s'.mode = .user)
    (bill : entryBill event s' = if s'.mode = .switched then some .system else none)
    (live : s'.live = s.live) (current : s'.current = s.current)
    (stats : s'.stats = s.stats) : MetersAfter s event s' now := by
  have notSwitched : ¬ s'.mode = .switched := by simp [mode]
  refine .stayed live current fun u => ?_
  rw [bill, if_neg notSwitched]
  refine Eq.trans ?_ (ite_self (s.meter u)).symm
  unfold meter
  rw [stats]

theorem keyboard_meters (orderly : s.Orderly) (mode : s.mode = .user)
    (scancode beyond : UInt8)
    (reads : ReadsAt s (s.keyboardRoutine scancode beyond) now) :
    MetersAfter s (.keyboard scancode beyond) (s.keyboardRoutine scancode beyond)
      now := by
  revert reads
  unfold keyboardRoutine
  split_ifs with make
  · have typed : ({ s with kbd := s.keyStored (charOfScancode scancode beyond) } :
        Kernel).Refines s.view := ⟨orderly.refines.threads, rfl⟩
    have emptyIff := typed.listEmpty_iff (q := .keyboardqueue) trivial
    dsimp only
    split_ifs with wakes
    · have waiting : s.queue .keyboardqueue ≠ [] := fun empty =>
        wakes.2 (emptyIff.mpr empty)
      obtain ⟨t, rest, shape⟩ := List.exists_cons_of_ne_nil waiting
      rw [typed.listFirst shape]
      have member : t ∈ s.view.queue .keyboardqueue := by
        change t ∈ s.queue .keyboardqueue
        rw [shape]
        exact List.mem_cons_self
      have woken := typed.unblock orderly.settled.toParked member
      have ran := woken.schedNextRr .interrupted
      have keeps := (Keeps.unblock { s with
        kbd := s.keyStored (charOfScancode scancode beyond) } t).trans
          (Keeps.schedNextRr _ .interrupted)
      have clocked := (Steady.unblock { s with
        kbd := s.keyStored (charOfScancode scancode beyond) } t).toClocked
      dsimp only
      intro reads
      refine .interrupted (if_pos ran.2) (fun u => by rw [keeps.live]; exact id)
        ⟨clocked.clock, clocked.reads⟩ ?_ (schedNextRr_meters woken .interrupted)
        reads
      intro unblocked
      exact charge_meter (fun d st => update_system st d) unblocked
    · exact fun _ => .unswitched mode rfl rfl rfl rfl
  · exact fun _ => .unswitched mode rfl rfl rfl rfl

/-! ## System calls -/

theorem read_meters (orderly : s.Orderly) (fd : Int32) (buf : UInt32)
    (count : Int32)
    (reads : ReadsAt s (s.systemCall (.read fd buf count)) now) :
    MetersAfter s (.syscall (.read fd buf count))
      (s.systemCall (.read fd buf count)) now := by
  have entered := orderly.userToSysStats
  change ReadsAt s (complete (s.userToSysStats.sysRead fd buf count)) now at reads
  change MetersAfter s _ (complete (s.userToSysStats.sysRead fd buf count)) now
  rcases sysRead_cases entered.cbIsEmpty fd buf count with
    ⟨_, result, failed⟩ | ⟨_, waits⟩
  · rw [failed] at reads ⊢
    exact .returned (Steady.refl _) rfl result reads
  · rw [waits] at reads ⊢
    have asking : ({ s.userToSysStats with
        kbd := { s.kbd with leftToRead := count.toInt } } : Kernel).Refines
          s.view := ⟨orderly.refines.threads, rfl⟩
    have queued := asking.block (q := .keyboardqueue) trivial
      orderly.settled.currentLoose orderly.settled.currentRun
    have keeps := (Keeps.block { s.userToSysStats with
      kbd := { s.kbd with leftToRead := count.toInt } } s.current
        .keyboardqueue).trans
          (Keeps.schedNextRr _ (.readKeyboard buf count.toInt []))
    have asked : s.userToSysStats.Steady { s.userToSysStats with
        kbd := { s.kbd with leftToRead := count.toInt } } :=
      .of_eq rfl rfl rfl rfl
    exact .yielded (asked.trans (Steady.block _ s.current .keyboardqueue))
      (fun u alive => (congrFun keeps.live u).symm.trans alive)
      (schedNextRr_meters queued _) reads

theorem semWait_meters (orderly : s.Orderly) (nSem : Int32)
    (reads : ReadsAt s (s.systemCall (.semWait nSem)) now) :
    MetersAfter s (.syscall (.semWait nSem)) (s.systemCall (.semWait nSem)) now := by
  have entered := orderly.userToSysStats
  revert reads
  change ReadsAt s (complete (s.userToSysStats.sysSemWait nSem)) now →
    MetersAfter s _ (complete (s.userToSysStats.sysSemWait nSem)) now
  unfold sysSemWait
  split
  · exact .returned (Steady.refl _) rfl _
  · next n _ =>
      split_ifs with unused blocked
      · exact .returned (Steady.refl _) rfl _
      · have used : 0 ≤ (s.semaphores n).ownerPID := by
          have notUnused : ¬ (s.semaphores n).ownerPID < 0 := unused
          omega
        have queued := entered.refines.block (q := .semaphore n) used
          entered.settled.currentLoose entered.settled.currentRun
        have keeps := (Keeps.block s.userToSysStats s.current
          (.semaphore n)).trans
            (Keeps.schedNextRr _ (.semWait n (s.semaphores n).semID))
        exact .yielded (Steady.block s.userToSysStats s.current (.semaphore n))
          (fun u alive => (congrFun keeps.live u).symm.trans alive)
          (schedNextRr_meters queued _)
      · have taken : s.userToSysStats.Steady (s.userToSysStats.modSem n fun sem =>
            { sem with counter := sem.counter - 1 }) := .of_eq rfl rfl rfl rfl
        exact .returned taken rfl 0

theorem live_of_releaseProcess (alive : s.releaseProcess.live u = true) :
    s.live u = true := by
  unfold releaseProcess at alive
  dsimp only at alive
  by_cases own : u = s.current
  · subst own
    exact absurd ((Function.update_self _ _ _).symm.trans alive) (by decide)
  · exact (Function.update_of_ne own _ _).symm.trans alive

theorem exit_meters (orderly : s.Orderly) (busy : s.current ≠ s.idleTask)
    (reads : ReadsAt s (s.systemCall .exit) now) :
    MetersAfter s (.syscall .exit) (s.systemCall .exit) now := by
  have entered := orderly.userToSysStats
  obtain ⟨_, _, _, refines, _⟩ :=
    exiting_spec entered.refines entered.settled busy
  obtain ⟨_, destroyed⟩ := exitSemaphores_quiet (List.finRange 20)
    entered.refines entered.settled busy
  change ReadsAt s s.userToSysStats.sysExit now at reads
  change MetersAfter s _ s.userToSysStats.sysExit now
  rw [sysExit_eq] at reads ⊢
  refine .yielded (Steady.exiting _) ?_ (schedNextRr_meters refines _) reads
  intro u alive
  have keeps := (Keeps.updateProcessStateRr ((List.finRange 20).foldl exitSemaphore
    s.userToSysStats).releaseProcess ((List.finRange 20).foldl exitSemaphore
      s.userToSysStats).current (some .freequeue)).trans
        (Keeps.schedNextRr _ .exited)
  have released := (congrFun keeps.live u).symm.trans alive
  exact (congrFun destroyed.live u).symm.trans (live_of_releaseProcess released)

/-! ## `sys_fork` and `sys_clone` -/

/-- A child was made, or could not be made, and the parent returns. -/
theorem MetersAfter.parent {call : Syscall} (s' : Kernel) (other : child ≠ s.current)
    (unborn : s.live child = false) (current : s'.current = s.current)
    (live : ∀ u, u ≠ child → s'.live u = s.live u)
    (clocked : s.userToSysStats.Clocked s')
    (others : ∀ u, u ≠ child → s'.meter u = s.userToSysStats.meter u)
    (born : ReadsAt s.userToSysStats s' now → s'.live child = true →
      s'.meter child = .zero now)
    (result : Int) (reads : ReadsAt s (s'.sysReturn result) now) :
    MetersAfter s (.syscall call) (s'.sysReturn result) now := by
  have back := Steady.sysReturn s' result
  have middle := reads.first back.toClocked
  have entered := enter_meters (middle.first clocked)
  have later := reads.second ((enter_clocked s).trans clocked)
  have ownMeter : s'.meter s'.current =
      (s.meter s.current).settle now (some .user) := by
    rw [current, others _ (Ne.symm other), entered.own]
  have kept : ∀ u, (s'.sysReturn result).meter u = s'.meter u := by
    intro u
    by_cases own : u = s'.current
    · subst own
      exact back.own now later (by rw [ownMeter]; rfl)
    · exact back.others u own
  intro u alive
  rw [kept]
  by_cases isChild : u = child
  · subst isChild
    exact Or.inl ⟨unborn, born (middle.second (enter_clocked s)) alive⟩
  · refine Or.inr ⟨(live u isChild).symm.trans alive, ?_⟩
    rw [others u isChild]
    unfold billed
    by_cases own : u = s.current
    · subst own
      rw [if_pos rfl]
      exact entered.own
    · have notNext : u ≠ (s'.sysReturn result).current := by
        rw [back.current, current]
        exact own
      rw [if_neg own, if_neg notNext]
      exact entered.other own

theorem initStats_meter (reads : ReadsAt s (s.initStats t) now) :
    (s.initStats t).meter t = .zero now := by
  have read : s.clock s.clockReads = now :=
    reads s.clockReads (Nat.lt_succ_self _) (Nat.le_refl _)
  unfold meter initStats
  dsimp only
  rw [Function.update_self, read]
  apply Meter.ext
  · funext account
    cases account <;> rfl
  · rfl

theorem forkInto_meters (orderly : s.Orderly)
    (member : child ∈ s.queue .freequeue) (result : Int)
    (reads : ReadsAt s
      (((s.userToSysStats.listDel child).forkInto child).2.sysReturn result) now) :
    MetersAfter s (.syscall .fork)
      (((s.userToSysStats.listDel child).forkInto child).2.sysReturn result) now := by
  have unborn : s.live child = false := orderly.dead member
  have other : child ≠ s.current := orderly.settled.away member
  revert reads
  unfold forkInto
  dsimp only
  generalize copied :
    (((s.userToSysStats.listDel child).copyUnion child).allocateDIR child).2 =
      placed
  have same := copied_stats s child
  rw [copied] at same
  obtain ⟨stats, live, current, clock, clockReads⟩ := same
  have kept : ∀ u, u ≠ child → placed.meter u = s.userToSysStats.meter u := by
    intro u notChild
    unfold meter
    rw [stats, Function.update_of_ne notChild]
  split
  · next mm _ =>
      have stillborn : (placed.abandonChild child mm).live child = false :=
        (congrFun live child).trans unborn
      refine MetersAfter.parent (placed.abandonChild child mm) other unborn
        current (fun u _ => congrFun live u) ⟨clock, clockReads.ge⟩ kept ?_ result
      intro _ alive
      exact absurd (stillborn.symm.trans alive) (by decide)
  · next mm _ =>
      refine MetersAfter.parent (placed.finishFork child mm) other unborn
        current ?_ ⟨clock, clockReads.ge.trans (Nat.le_succ _)⟩ ?_ ?_ result
      · intro u notChild
        exact (Function.update_of_ne notChild _ _).trans (congrFun live u)
      · intro u notChild
        refine Eq.trans ?_ (kept u notChild)
        exact congrArg Stats.meter (Function.update_of_ne notChild _ _)
      · intro reads _
        have started : (({ placed with
            mm := placed.forkSpace mm (placed.task child).dirPagesBaseAddr
            cr3 := placed.currentTask.dirPagesBaseAddr } : Kernel).initStats
              child).meter child = .zero now :=
          initStats_meter fun k bound later =>
            reads k bound (clockReads ▸ later)
        exact started

theorem fork_meters (orderly : s.Orderly)
    (reads : ReadsAt s (s.systemCall .fork) now) :
    MetersAfter s (.syscall .fork) (s.systemCall .fork) now := by
  have entered := orderly.userToSysStats
  revert reads
  change ReadsAt s (Kernel.sysReturn _ _) now → MetersAfter s _ (Kernel.sysReturn _ _) now
  unfold sysFork
  split_ifs with empty
  · exact .returned (Steady.refl _) rfl _
  · rw [entered.refines.listEmpty_iff (q := .freequeue) trivial] at empty
    obtain ⟨child, rest, shape⟩ := List.exists_cons_of_ne_nil empty
    have member : child ∈ s.queue .freequeue := by
      change child ∈ s.userToSysStats.view.queue .freequeue
      simp [shape]
    rw [entered.refines.listFirst shape]
    exact forkInto_meters orderly member _

theorem clone_meters (orderly : s.Orderly) (function stack : UInt32)
    (reads : ReadsAt s (s.systemCall (.clone function stack)) now) :
    MetersAfter s (.syscall (.clone function stack))
      (s.systemCall (.clone function stack)) now := by
  have entered := orderly.userToSysStats
  revert reads
  change ReadsAt s (Kernel.sysReturn _ _) now → MetersAfter s _ (Kernel.sysReturn _ _) now
  unfold sysClone
  split_ifs with denied empty
  · exact .returned (Steady.refl _) rfl _
  · exact .returned (Steady.refl _) rfl _
  · rw [entered.refines.listEmpty_iff (q := .freequeue) trivial] at empty
    obtain ⟨child, rest, shape⟩ := List.exists_cons_of_ne_nil empty
    have member : child ∈ s.queue .freequeue := by
      change child ∈ s.userToSysStats.view.queue .freequeue
      simp [shape]
    have other : child ≠ s.current := orderly.settled.away member
    rw [entered.refines.listFirst shape]
    refine MetersAfter.parent ((s.userToSysStats.listDel child).cloneInto child).2
      other (orderly.dead member) rfl ?_
        ⟨rfl, Nat.le_succ _⟩ ?_ ?_ _
    · exact fun u notChild => Function.update_of_ne notChild _ _
    · intro u notChild
      refine congrArg Stats.meter ?_
      exact (Function.update_of_ne notChild _ _).trans
        (Function.update_of_ne notChild _ _)
    · intro reads _
      have started : (((s.userToSysStats.listDel child).copyUnion child).initStats
          child).meter child = .zero now :=
        initStats_meter fun k bound later => reads k bound later
      exact started

/-! ## All events -/

theorem sysGetStats_steady (s : Kernel) (pid : Int32) (st : UInt32) :
    s.Steady (s.sysGetStats pid st).2 := by
  unfold sysGetStats
  split_ifs
  · exact Steady.refl s
  · exact Steady.refl s
  · exact .of_eq rfl rfl rfl rfl
  · split
    · next i _ =>
        refine .of_meters rfl (fun u => ?_) rfl rfl
        exact modStats_meter s i (fun found => { found with
          remainingTicks := (s.stats s.current).remainingTicks }) (fun _ => rfl) u
    · exact Steady.refl s
  · exact Steady.refl s

theorem syscall_meters (orderly : s.Orderly) (busy : s.current ≠ s.idleTask)
    (call : Syscall) (reads : ReadsAt s (s.systemCall call) now) :
    MetersAfter s (.syscall call) (s.systemCall call) now := by
  have entered := orderly.userToSysStats
  cases call with
  | exit => exact exit_meters orderly busy reads
  | fork => exact fork_meters orderly reads
  | read fd buf count => exact read_meters orderly fd buf count reads
  | write fd buffer size =>
      obtain ⟨console, fault, written⟩ :=
        s.userToSysStats.sysWrite_cases fd buffer size
      have printed : s.userToSysStats.Steady
          (s.userToSysStats.sysWrite fd buffer size).2 := by
        rw [written]
        exact .of_eq rfl rfl rfl rfl
      exact .returned printed (by rw [written]; rfl) _ reads
  | gettime => exact .returned (Steady.refl _) rfl _ reads
  | sbrk increment =>
      have moved : s.userToSysStats.Steady
          (s.userToSysStats.sysSbrk increment).2 := .of_eq rfl rfl rfl rfl
      exact .returned moved rfl _ reads
  | clone function stack => exact clone_meters orderly function stack reads
  | getpid => exact .returned (Steady.refl _) rfl _ reads
  | semInit nSem value =>
      have opened : s.userToSysStats.Steady
          (s.userToSysStats.sysSemInit nSem value).2 := by
        unfold sysSemInit
        split
        · exact Steady.refl _
        · split_ifs
          · exact Steady.refl _
          · exact .of_eq rfl rfl rfl rfl
      exact .returned opened (sysSemInit_keeps _ nSem value).live _ reads
  | semWait nSem => exact semWait_meters orderly nSem reads
  | semSignal nSem =>
      have signalled : s.userToSysStats.Steady
          (s.userToSysStats.sysSemSignal nSem).2 := by
        unfold sysSemSignal
        split
        · exact Steady.refl _
        · split_ifs
          · exact Steady.refl _
          · exact .of_eq rfl rfl rfl rfl
          · split
            · exact Steady.unblock _ _
            · exact .of_eq rfl rfl rfl rfl
      have kept := (sysSemSignal_quiet entered.refines entered.settled busy nSem).2
      exact .returned signalled kept.live _ reads
  | semDestroy nSem =>
      have destroyed : s.userToSysStats.Steady
          (s.userToSysStats.sysSemDestroy nSem).2 := by
        unfold sysSemDestroy
        split
        · exact Steady.refl _
        · exact Steady.semDestroy _ _
      have kept := (sysSemDestroy_quiet entered.refines entered.settled busy nSem).2
      exact .returned destroyed kept.live _ reads
  | getStats pid st =>
      obtain ⟨stats, ram, fault, same⟩ := s.userToSysStats.sysGetStats_cases pid st
      exact .returned (sysGetStats_steady _ pid st) (by rw [same]; rfl) _ reads
  | niSyscall => exact .returned (Steady.refl _) rfl _ reads

/-- The part of a `resume` that charges at most the process that goes on. -/
theorem resumed_charges (stamped : (s.meter s.current).stamp = now)
    (steady : s.Steady s') (reads : ReadsAt s s' now) :
    s.ChargesCurrent s' none now := by
  intro u
  by_cases own : u = s.current
  · subst own
    rw [if_pos rfl]
    exact steady.own now reads stamped
  · rw [if_neg own]
    exact steady.others u own

/-- A process that was just switched to goes on. -/
theorem MetersAfter.resumed (stamped : (s.meter s.current).stamp = now)
    (steady : s.Steady s') (live : s'.live = s.live) (reads : ReadsAt s s' now) :
    MetersAfter s .resume s' now :=
  .stayed live steady.current (resumed_charges stamped steady reads)

theorem again_meters (orderly : s.Orderly)
    (stamped : (s.meter s.current).stamp = now) {buf : UInt32} {n : Int}
    {stored : List UInt8}
    (reads : ReadsAt s (complete (s.readLoop buf n stored)) now) :
    MetersAfter s .resume (complete (s.readLoop buf n stored)) now := by
  have taken : ({ s with kbd := (deliver n stored s.kbd).2 } : Kernel).Refines
      s.view := ⟨orderly.refines.threads, rfl⟩
  revert reads
  rw [readLoop_eq]
  dsimp only
  split_ifs with more
  · intro reads
    have queued := taken.listAdd (q := .keyboardqueue) (t := s.current) trivial
      orderly.settled.currentLoose
    have charged : ((({ s with kbd := (deliver n stored s.kbd).2 } :
        Kernel).listAdd s.current .keyboardqueue).sysToReadyStats).Refines _ :=
      ⟨queued.threads, queued.view⟩
    have marked := charged.modTask s.current fun p =>
      { p with execStatus := .stBlocked }
    have dispatches := schedNextRr_meters marked
      (.readKeyboard buf n (deliver n stored s.kbd).1)
    have steady : s.Steady ((({ s with kbd := (deliver n stored s.kbd).2 } :
        Kernel).listAdd s.current .keyboardqueue).sysToReadyStats.modTask s.current
          fun p => { p with execStatus := .stBlocked }) := by
      apply Steady.queued <;> rfl
    have keeps := Keeps.schedNextRr ((({ s with
      kbd := (deliver n stored s.kbd).2 } : Kernel).listAdd s.current
        .keyboardqueue).sysToReadyStats.modTask s.current fun p =>
          { p with execStatus := .stBlocked })
      (.readKeyboard buf n (deliver n stored s.kbd).1)
    have charges := resumed_charges stamped steady
      (reads.first dispatches.toClocked)
    refine .switched (fun u alive => (congrFun keeps.live u).symm.trans alive)
      charges ?_ dispatches (reads.second steady.toClocked)
    rw [charges.own]
    exact stamped
  · intro reads
    have finished : s.Steady (({ s with kbd := (deliver n stored s.kbd).2 } :
        Kernel).finishRead buf n (deliver n stored s.kbd).1).2 :=
      .of_eq rfl rfl rfl rfl
    exact .resumed stamped (finished.trans (Steady.sysReturn _ _)) rfl reads

theorem resume_meters (orderly : s.Orderly)
    (stamped : (s.meter s.current).stamp = now) (reads : ReadsAt s s.resume now) :
    MetersAfter s .resume s.resume now := by
  have returns : ∀ result, ReadsAt s (s.sysReturn result) now →
      MetersAfter s .resume (s.sysReturn result) now := fun result =>
    .resumed stamped (Steady.sysReturn s result) rfl
  revert reads
  unfold resume
  split
  · exact .resumed stamped (.of_eq rfl rfl rfl rfl) rfl
  · exact .resumed stamped (.of_eq rfl rfl rfl rfl) rfl
  · exact returns 0
  · exact returns _
  · exact again_meters orderly stamped
  · exact returns 0

/-- The meters after any event.  A process that was just switched to was
charged at that time. -/
theorem handle_meters (orderly : s.Orderly)
    (stamped : s.mode = .switched → (s.meter s.current).stamp = now)
    (handled : s.handle event = some s') (reads : ReadsAt s s' now) :
    MetersAfter s event s' now := by
  unfold handle at handled
  split at handled
  · split_ifs at handled with mode
    cases handled
    exact clock_meters orderly mode reads
  · split_ifs at handled with mode
    cases handled
    exact keyboard_meters orderly mode _ _ reads
  · split_ifs at handled with able
    cases handled
    exact syscall_meters orderly able.2 _ reads
  · split_ifs at handled with able
    cases handled
    exact .stayed rfl rfl fun u => (ite_self _).symm
  · split_ifs at handled with mode
    cases handled
    exact resume_meters orderly (stamped mode) reads

end Kernel

end Zeos
