import Zeos.Sched.Births
import Zeos.Sched.Shares

/-!
# Turns, and the counters of `struct stats`

`total_trans` counts the turns of a process: the times it was switched to, and the quanta that
it was granted because nobody was ready.  `remaining_ticks` of the process that runs is what is
left of its turn.
-/

namespace Zeos

namespace Kernel

variable {s s' : Kernel} {v : View} {event : Event} {call : Syscall} {t u child : TaskId}

/-- `total_trans`. -/
def trans (s : Kernel) (t : TaskId) : UInt32 := (s.stats t).totalTrans

/-! ## What does not count -/

theorem chargeTicks_trans {charge : UInt32 → Stats → Stats}
    (keeps : ∀ d st, (charge d st).totalTrans = st.totalTrans) (s : Kernel) (t : TaskId) :
    (s.chargeTicks t charge).trans = s.trans := by
  funext u
  unfold trans chargeTicks
  by_cases same : u = t
  · subst same
    simp [keeps]
  · simp [same]

theorem modStats_trans {change : Stats → Stats}
    (keeps : ∀ st, (change st).totalTrans = st.totalTrans) (s : Kernel) (t : TaskId) :
    (s.modStats t change).trans = s.trans := by
  funext u
  unfold trans modStats
  by_cases same : u = t
  · subst same
    simp [keeps]
  · simp [same]

theorem userToSysStats_trans (s : Kernel) : s.userToSysStats.trans = s.trans := by
  apply chargeTicks_trans
  exact fun _ _ => rfl

theorem sysToReadyStats_trans (s : Kernel) : s.sysToReadyStats.trans = s.trans := by
  apply chargeTicks_trans
  exact fun _ _ => rfl

theorem sysReturn_trans (s : Kernel) (result : Int) : (s.sysReturn result).trans = s.trans :=
  sysToReadyStats_trans s

theorem updateSchedDataRr_trans (s : Kernel) : s.updateSchedDataRr.trans = s.trans := by
  apply modStats_trans
  exact fun _ => rfl

theorem unblock_trans (s : Kernel) (t : TaskId) : (s.unblock t).trans = s.trans :=
  sysToReadyStats_trans _

theorem block_trans (s : Kernel) (t : TaskId) (q : Queue) : (s.block t q).trans = s.trans := by
  unfold block
  dsimp only
  split
  · exact sysToReadyStats_trans _
  · exact sysToReadyStats_trans _

theorem updateProcessStateRr_trans (s : Kernel) (t : TaskId) (q : Queue) :
    (s.updateProcessStateRr t (some q)).trans = s.trans := by
  unfold updateProcessStateRr
  dsimp only
  split
  · exact sysToReadyStats_trans _
  · exact sysToReadyStats_trans _

theorem releaseWaiters_trans (n : SemId) : ∀ (fuel : Nat) (s : Kernel),
    (releaseWaiters n fuel s).trans = s.trans
  | 0, _ => rfl
  | fuel + 1, s => by
      unfold releaseWaiters
      split
      · rfl
      · split
        · next t _ => exact (releaseWaiters_trans n fuel (s.unblock t)).trans (unblock_trans s t)
        · rfl

theorem semDestroy_trans (s : Kernel) (n : SemId) : (s.semDestroy n).2.trans = s.trans := by
  unfold semDestroy
  split_ifs
  · rfl
  · exact releaseWaiters_trans n nrTasks s
  · rfl

theorem exitSemaphores_trans : ∀ (names : List SemId) (s : Kernel),
    (names.foldl exitSemaphore s).trans = s.trans
  | [], _ => rfl
  | n :: names, s => by
      have one : (s.exitSemaphore n).trans = s.trans := by
        unfold exitSemaphore
        split_ifs
        · exact semDestroy_trans s n
        · rfl
      exact (exitSemaphores_trans names (s.exitSemaphore n)).trans one

theorem exiting_trans (s : Kernel) : s.exiting.trans = s.trans :=
  (updateProcessStateRr_trans _ _ _).trans (exitSemaphores_trans (List.finRange 20) s)

/-! ## What counts -/

/-- A dispatch counts for the process that it chooses. -/
theorem dispatch_trans (s : Kernel) (context : Context) (t : TaskId) :
    (s.dispatch context t).trans = Function.update s.trans t (s.trans t + 1) := by
  funext u
  by_cases same : u = t
  · subst same
    simp [trans, dispatch, taskSwitch, modTask, modStats, sysToProcessStats, chargeTicks]
  · simp [trans, dispatch, taskSwitch, modTask, modStats, sysToProcessStats, chargeTicks, same]

theorem schedNextRr_trans (refines : s.Refines v) (context : Context) :
    (s.schedNextRr context).trans = Function.update s.trans (s.schedNextRr context).current
      (s.trans (s.schedNextRr context).current + 1) := by
  have emptyIff := refines.listEmpty_iff (q := .readyqueue) trivial
  unfold schedNextRr
  cases shape : v.queue .readyqueue with
  | nil =>
      rw [if_pos (emptyIff.mpr shape)]
      exact dispatch_trans s context s.idleTask
  | cons t rest =>
      have notEmpty : ¬ s.listEmpty .readyqueue = true := by
        rw [emptyIff, shape]
        simp
      rw [if_neg notEmpty, refines.listFirst shape]
      exact dispatch_trans (s.listDel t) context t

/-- `schedule` counts a renewed quantum, or it switches. -/
theorem schedule_trans (s : Kernel) :
    (s.schedule.mode = s.mode ∧ s.schedule.live = s.live ∧ s.schedule.trans =
        if s.remaining s.current = 1 then Function.update s.trans s.current (s.trans s.current + 1)
        else s.trans) ∨
      s.schedule = (s.updateSchedDataRr.updateProcessStateRr s.current
        (some .readyqueue)).schedNextRr .interrupted := by
  have exhausted : (s.updateSchedDataRr.stats s.updateSchedDataRr.current).remainingTicks = 0 ↔
      s.remaining s.current = 1 := by
    change (Function.update s.stats s.current _ s.current).remainingTicks = 0 ↔ _
    rw [Function.update_self]
    exact sub_eq_zero
  unfold schedule needsSchedRr
  by_cases last : s.remaining s.current = 1
  · by_cases empty : s.updateSchedDataRr.listEmpty .readyqueue = true
    · rw [if_neg fun both => both.2 empty, if_pos ⟨exhausted.mpr last, empty⟩, if_pos last]
      refine Or.inl ⟨rfl, rfl, ?_⟩
      funext u
      by_cases own : u = s.current
      · subst own
        simp [trans, modStats, updateSchedDataRr]
      · simp [trans, modStats, updateSchedDataRr, own]
    · rw [if_pos ⟨exhausted.mpr last, empty⟩]
      exact Or.inr rfl
  · rw [if_neg fun both => last (exhausted.mp both.1),
      if_neg fun both => last (exhausted.mp both.1), if_neg last]
    exact Or.inl ⟨rfl, rfl, updateSchedDataRr_trans s⟩

/-! ## Events -/

/-- What an event does to the counters. -/
inductive TransTurn (s : Kernel) : Event → Kernel → Prop
  | goesOn {event : Event} {s' : Kernel} :
      event ≠ .clock →
      s'.mode = .user →
      (∀ t, s.live t = true → s'.trans t = s.trans t) →
      (∀ t, MadeIn s s' t → s'.trans t = 0) →
      TransTurn s event s'
  | ticks {s' : Kernel} :
      s'.mode = .user →
      s'.live = s.live →
      (s'.trans = if s.remaining s.current = 1 then
        Function.update s.trans s.current (s.trans s.current + 1) else s.trans) →
      TransTurn s .clock s'
  | yields {event : Event} {s' : Kernel} :
      s'.mode = .switched →
      (∀ t, s'.live t = true → s.live t = true) →
      s'.trans = Function.update s.trans s'.current (s.trans s'.current + 1) →
      TransTurn s event s'

namespace TransTurn

theorem same (notClock : event ≠ .clock) (mode : s'.mode = .user) (live : s'.live = s.live)
    (trans : s'.trans = s.trans) : TransTurn s event s' := by
  refine .goesOn notClock mode (fun t _ => congrFun trans t) fun t made => ?_
  rw [MadeIn, live] at made
  rw [made.1] at made
  cases made.2

/-- A call that returns to its caller. -/
theorem returned (kept : s'.trans = s.userToSysStats.trans)
    (live : s'.live = s.userToSysStats.live)
    (result : Int) : TransTurn s (.syscall call) (s'.sysReturn result) :=
  .same (by simp) rfl live
    ((sysReturn_trans s' result).trans (kept.trans (userToSysStats_trans s)))

theorem refused (s : Kernel) (result : Int) :
    TransTurn s (.syscall call) (s.userToSysStats.sysReturn result) :=
  .returned rfl rfl result

/-- A dispatch after something that does not count. -/
theorem dispatched {middle : Kernel} {context : Context} (refines : middle.Refines v)
    (kept : middle.trans = s.trans) (live : ∀ t, middle.live t = true → s.live t = true) :
    TransTurn s event (middle.schedNextRr context) := by
  refine .yields (refines.schedNextRr context).2 (fun t alive => ?_) ?_
  · rw [(Keeps.schedNextRr middle context).live] at alive
    exact live t alive
  · rw [schedNextRr_trans refines context, kept]

end TransTurn

theorem clock_trans (orderly : s.Orderly) (mode : s.mode = .user) :
    TransTurn s .clock s.clockRoutine := by
  unfold clockRoutine
  rcases schedule_trans { s with zeosTicks := int32 (s.zeosTicks + 1) } with
    ⟨same, live, counted⟩ | switched
  · exact .ticks (same.trans mode) live counted
  · rw [switched]
    have counted : ({ s with zeosTicks := int32 (s.zeosTicks + 1) } :
        Kernel).updateSchedDataRr.Refines s.view := ⟨orderly.refines.threads, rfl⟩
    have queued := counted.updateProcessStateRr (q := .readyqueue) trivial
      orderly.settled.currentLoose orderly.settled.currentRun
    have keeps := Keeps.updateProcessStateRr ({ s with
      zeosTicks := int32 (s.zeosTicks + 1) } : Kernel).updateSchedDataRr s.current
        (some .readyqueue)
    exact .dispatched queued
      ((updateProcessStateRr_trans _ _ _).trans (updateSchedDataRr_trans _))
      fun t alive => (congrFun keeps.live t).symm.trans alive

theorem keyboard_trans (orderly : s.Orderly) (mode : s.mode = .user) (scancode beyond : UInt8) :
    TransTurn s (.keyboard scancode beyond) (s.keyboardRoutine scancode beyond) := by
  unfold keyboardRoutine
  split_ifs with make
  · have refines : ({ s with kbd := s.keyStored (charOfScancode scancode beyond) } :
        Kernel).Refines s.view := ⟨orderly.refines.threads, rfl⟩
    have emptyIff := refines.listEmpty_iff (q := .keyboardqueue) trivial
    dsimp only
    split_ifs with wakes
    · have waiting : s.queue .keyboardqueue ≠ [] := fun empty =>
        wakes.2 (emptyIff.mpr empty)
      obtain ⟨t, rest, shape⟩ := List.exists_cons_of_ne_nil waiting
      rw [refines.listFirst shape]
      have member : t ∈ s.view.queue .keyboardqueue := by
        change t ∈ s.queue .keyboardqueue
        rw [shape]
        exact List.mem_cons_self
      have keeps := Keeps.unblock { s with
        kbd := s.keyStored (charOfScancode scancode beyond) } t
      exact .dispatched (refines.unblock orderly.settled.toParked member) (unblock_trans _ t)
        fun u alive => (congrFun keeps.live u).symm.trans alive
    · exact .same (by simp) mode rfl rfl
  · exact .same (by simp) mode rfl rfl

theorem read_trans (orderly : s.Orderly) (fd : Int32) (buf : UInt32) (count : Int32) :
    TransTurn s (.syscall (.read fd buf count)) (s.systemCall (.read fd buf count)) := by
  have entered := orderly.userToSysStats
  change TransTurn s _ (complete (s.userToSysStats.sysRead fd buf count))
  rcases sysRead_cases entered.cbIsEmpty fd buf count with
    ⟨_, result, failed⟩ | ⟨_, waits⟩
  · rw [failed]
    exact .refused s result
  · rw [waits]
    have asking : ({ s.userToSysStats with
        kbd := { s.kbd with leftToRead := count.toInt } } : Kernel).Refines
          s.view := ⟨orderly.refines.threads, rfl⟩
    have queued := asking.block (q := .keyboardqueue) trivial
      orderly.settled.currentLoose orderly.settled.currentRun
    have keeps := Keeps.block { s.userToSysStats with
      kbd := { s.kbd with leftToRead := count.toInt } } s.current .keyboardqueue
    exact .dispatched queued ((block_trans _ _ _).trans (userToSysStats_trans s))
      fun u alive => (congrFun keeps.live u).symm.trans alive

theorem semWait_trans (orderly : s.Orderly) (nSem : Int32) :
    TransTurn s (.syscall (.semWait nSem)) (s.systemCall (.semWait nSem)) := by
  have entered := orderly.userToSysStats
  change TransTurn s _ (complete (s.userToSysStats.sysSemWait nSem))
  unfold sysSemWait
  split
  · exact .refused s _
  · next n _ =>
      split_ifs with unused blocked
      · exact .refused s _
      · have used : 0 ≤ (s.semaphores n).ownerPID := not_lt.mp unused
        have queued := entered.refines.block (q := .semaphore n) used
          entered.settled.currentLoose entered.settled.currentRun
        have keeps := Keeps.block s.userToSysStats s.current (.semaphore n)
        exact .dispatched queued ((block_trans _ _ _).trans (userToSysStats_trans s))
          fun u alive => (congrFun keeps.live u).symm.trans alive
      · have kept : (s.userToSysStats.modSem n fun sem =>
            { sem with counter := sem.counter - 1 }).trans = s.userToSysStats.trans := rfl
        exact .returned kept rfl 0

theorem exit_trans (orderly : s.Orderly) (busy : s.current ≠ s.idleTask) :
    TransTurn s (.syscall .exit) (s.systemCall .exit) := by
  have entered := orderly.userToSysStats
  obtain ⟨_, _, _, refines, _⟩ := exiting_spec entered.refines entered.settled busy
  obtain ⟨_, destroyed⟩ := exitSemaphores_quiet (List.finRange 20)
    entered.refines entered.settled busy
  change TransTurn s _ s.userToSysStats.sysExit
  rw [sysExit_eq]
  refine .dispatched refines ((exiting_trans _).trans (userToSysStats_trans s)) ?_
  intro u alive
  have keeps := Keeps.updateProcessStateRr ((List.finRange 20).foldl exitSemaphore
    s.userToSysStats).releaseProcess ((List.finRange 20).foldl exitSemaphore
      s.userToSysStats).current (some .freequeue)
  have released := (congrFun keeps.live u).symm.trans alive
  exact (congrFun destroyed.live u).symm.trans (live_of_releaseProcess released)

/-! ## `sys_fork` and `sys_clone` -/

/-- A child begins without turns. -/
theorem TransTurn.born (dead : s.live child = false)
    (live : s'.live = Function.update s.live child true)
    (trans : s'.trans = Function.update s.userToSysStats.trans child 0) (result : Int) :
    TransTurn s (.syscall call) (s'.sysReturn result) := by
  have counted : (s'.sysReturn result).trans = Function.update s.trans child 0 := by
    rw [sysReturn_trans, trans, userToSysStats_trans]
  refine .goesOn (by simp) rfl (fun t alive => ?_) fun t made => ?_
  · have other : t ≠ child := by
      rintro rfl
      rw [dead] at alive
      cases alive
    rw [counted, Function.update_of_ne other]
  · have isChild : t = child := (madeIn_iff_of_born dead live).mp made
    rw [counted, isChild, Function.update_self]

theorem forkInto_trans (orderly : s.Orderly) (member : child ∈ s.queue .freequeue)
    (result : Int) :
    TransTurn s (.syscall .fork)
      (((s.userToSysStats.listDel child).forkInto child).2.sysReturn result) := by
  have dead : s.live child = false := orderly.dead member
  unfold forkInto
  dsimp only
  generalize copied :
    (((s.userToSysStats.listDel child).copyUnion child).allocateDIR child).2 = placed
  have same := copied_stats s child
  rw [copied] at same
  obtain ⟨stats, live, _, _, _⟩ := same
  have kept : ∀ u, u ≠ child → placed.trans u = s.userToSysStats.trans u := by
    intro u other
    unfold trans
    rw [stats, Function.update_of_ne other]
  split
  · next mm _ =>
      refine .goesOn (by simp) rfl (fun t alive => ?_) fun t made => ?_
      · have other : t ≠ child := by
          rintro rfl
          rw [dead] at alive
          cases alive
        exact (congrFun (sysReturn_trans _ result) t).trans
          ((kept t other).trans (congrFun (userToSysStats_trans s) t))
      · refine absurd made (not_madeIn fun alive => ?_)
        exact (congrFun live t).symm.trans alive
  · next mm _ =>
      refine .born dead ?_ ?_ result
      · change Function.update placed.live child true = Function.update s.live child true
        rw [live]
      · funext u
        by_cases isChild : u = child
        · subst isChild
          simp [trans, finishFork, initChild, initStats, modTask, listAddTail]
        · rw [Function.update_of_ne isChild, ← kept u isChild]
          simp [trans, finishFork, initChild, initStats, modTask, listAddTail, isChild]

theorem fork_trans (orderly : s.Orderly) :
    TransTurn s (.syscall .fork) (s.systemCall .fork) := by
  have entered := orderly.userToSysStats
  change TransTurn s _ (Kernel.sysReturn _ _)
  unfold sysFork
  split_ifs with empty
  · exact .refused s _
  · rw [entered.refines.listEmpty_iff (q := .freequeue) trivial] at empty
    obtain ⟨child, rest, shape⟩ := List.exists_cons_of_ne_nil empty
    have member : child ∈ s.queue .freequeue := by
      change child ∈ s.userToSysStats.view.queue .freequeue
      simp [shape]
    rw [entered.refines.listFirst shape]
    exact forkInto_trans orderly member _

theorem clone_trans (orderly : s.Orderly) (function stack : UInt32) :
    TransTurn s (.syscall (.clone function stack)) (s.systemCall (.clone function stack)) := by
  have entered := orderly.userToSysStats
  change TransTurn s _ (Kernel.sysReturn _ _)
  unfold sysClone
  split_ifs with denied empty
  · exact .refused s _
  · exact .refused s _
  · rw [entered.refines.listEmpty_iff (q := .freequeue) trivial] at empty
    obtain ⟨child, rest, shape⟩ := List.exists_cons_of_ne_nil empty
    have member : child ∈ s.queue .freequeue := by
      change child ∈ s.userToSysStats.view.queue .freequeue
      simp [shape]
    rw [entered.refines.listFirst shape]
    refine .born (orderly.dead member) rfl ?_ _
    funext u
    by_cases isChild : u = child
    · subst isChild
      simp [trans, cloneInto, copyUnion, initChild, initStats, modTask, listAddTail]
    · simp [trans, cloneInto, copyUnion, initChild, initStats, modTask, listAddTail, isChild,
        listDel]

/-! ## All events -/

theorem sysGetStats_trans (s : Kernel) (pid : Int32) (st : UInt32) :
    (s.sysGetStats pid st).2.trans = s.trans := by
  unfold sysGetStats
  split_ifs
  · rfl
  · rfl
  · rfl
  · split
    · next i _ =>
        have marked : (s.modStats i fun found => { found with
            remainingTicks := (s.stats s.current).remainingTicks }).trans = s.trans := by
          apply modStats_trans
          exact fun _ => rfl
        exact marked
    · rfl
  · rfl

theorem syscall_trans (orderly : s.Orderly) (busy : s.current ≠ s.idleTask) (call : Syscall) :
    TransTurn s (.syscall call) (s.systemCall call) := by
  have entered := orderly.userToSysStats
  cases call with
  | exit => exact exit_trans orderly busy
  | fork => exact fork_trans orderly
  | read fd buf count => exact read_trans orderly fd buf count
  | write fd buffer size =>
      obtain ⟨console, fault, written⟩ := s.userToSysStats.sysWrite_cases fd buffer size
      exact .returned (by rw [written]; rfl) (by rw [written]) _
  | gettime => exact .refused s _
  | sbrk increment =>
      have kept : (s.userToSysStats.sysSbrk increment).2.trans = s.userToSysStats.trans := rfl
      exact .returned kept rfl _
  | clone function stack => exact clone_trans orderly function stack
  | getpid => exact .refused s _
  | semInit nSem value =>
      refine .returned ?_ (sysSemInit_keeps s.userToSysStats nSem value).live _
      unfold sysSemInit
      split
      · rfl
      · split_ifs <;> rfl
  | semWait nSem => exact semWait_trans orderly nSem
  | semSignal nSem =>
      have kept := (sysSemSignal_quiet entered.refines entered.settled busy nSem).2
      refine .returned ?_ kept.live _
      unfold sysSemSignal
      split
      · rfl
      · split_ifs
        · rfl
        · rfl
        · split
          · exact unblock_trans _ _
          · rfl
  | semDestroy nSem =>
      have kept := (sysSemDestroy_quiet entered.refines entered.settled busy nSem).2
      refine .returned ?_ kept.live _
      unfold sysSemDestroy
      split
      · rfl
      · exact semDestroy_trans _ _
  | getStats pid st =>
      obtain ⟨stats, ram, fault, same⟩ := s.userToSysStats.sysGetStats_cases pid st
      exact .returned (sysGetStats_trans _ pid st) (by rw [same]) _
  | niSyscall => exact .refused s _

theorem again_trans (orderly : s.Orderly) {buf : UInt32} {n : Int} {stored : List UInt8} :
    TransTurn s .resume (complete (s.readLoop buf n stored)) := by
  have taken : ({ s with kbd := (deliver n stored s.kbd).2 } : Kernel).Refines
      s.view := ⟨orderly.refines.threads, rfl⟩
  rw [readLoop_eq]
  dsimp only
  split_ifs with more
  · have queued := taken.listAdd (q := .keyboardqueue) (t := s.current) trivial
      orderly.settled.currentLoose
    have charged : ((({ s with kbd := (deliver n stored s.kbd).2 } :
        Kernel).listAdd s.current .keyboardqueue).sysToReadyStats).Refines _ :=
      ⟨queued.threads, queued.view⟩
    have marked := charged.modTask s.current fun p =>
      { p with execStatus := .stBlocked }
    exact .dispatched marked (sysToReadyStats_trans _) fun _ alive => alive
  · exact .same (by simp) rfl rfl (sysReturn_trans _ _)

theorem resume_trans (orderly : s.Orderly) : TransTurn s .resume s.resume := by
  have returns : ∀ result, TransTurn s .resume (s.sysReturn result) := fun result =>
    .same (by simp) rfl rfl (sysReturn_trans s result)
  unfold resume
  split
  · exact .same (by simp) rfl rfl rfl
  · exact .same (by simp) rfl rfl rfl
  · exact returns 0
  · exact returns _
  · exact again_trans orderly
  · exact returns 0

theorem trans_of_step (orderly : s.Orderly) (taken : s.step event = some s') :
    TransTurn s event s' := by
  have handled := handle_of_step taken
  unfold handle at handled
  split at handled
  · split_ifs at handled with mode
    cases handled
    exact clock_trans orderly mode
  · split_ifs at handled with mode
    cases handled
    exact keyboard_trans orderly mode _ _
  · split_ifs at handled with able
    cases handled
    exact syscall_trans orderly able.2 _
  · split_ifs at handled with able
    cases handled
    exact .same (by simp) able.1 rfl rfl
  · split_ifs at handled with mode
    cases handled
    exact resume_trans orderly

/-! ## The observer -/

/-- What the observer of turns knows: how many each process was given since it was made, and
the ticks of the clock in the present one. -/
structure Rota where
  turns : TaskId → Nat
  used : Nat

/-- The process that runs is granted another quantum: the clock ticks for the last time in its
turn, and it is not replaced. -/
def Renewed (s : Kernel) (event : Event) (s' : Kernel) (r : Rota) (t : TaskId) : Prop :=
  event = .clock ∧ s'.mode = .user ∧ s.current = t ∧ r.used + 1 = defaultQuantum.toNat

instance (s : Kernel) (event : Event) (s' : Kernel) (r : Rota) (t : TaskId) :
    Decidable (Renewed s event s' r t) :=
  inferInstanceAs (Decidable (_ ∧ _ ∧ _ ∧ _))

def watchTurns (s : Kernel) (event : Event) (s' : Kernel) (r : Rota) : Rota where
  turns t :=
    if MadeIn s s' t then 0
    else r.turns t + dispatches s' t + if Renewed s event s' r t then 1 else 0
  used :=
    if s'.mode = .switched then 0
    else if event = .clock then (r.used + 1) % defaultQuantum.toNat
    else r.used

/-- The counters and the observer agree. -/
structure Rostered (s : Kernel) (r : Rota) : Prop where
  turns : ∀ t, s.live t = true → (s.stats t).totalTrans = UInt32.ofNat (r.turns t)
  used : (s.remaining s.current).toNat + r.used = defaultQuantum.toNat

theorem ofNat_succ (k : Nat) : UInt32.ofNat (k + 1) = UInt32.ofNat k + 1 := by
  rw [UInt32.ofNat_add]
  rfl

theorem Rostered.used_step {r : Rota} (rostered : Rostered s r) (sliced : s.Sliced)
    (after : s'.Sliced) (live : s'.live s'.current = true) (slice : SliceTurn s event s') :
    (s'.remaining s'.current).toNat + (watchTurns s event s' r).used =
      defaultQuantum.toNat := by
  have before := rostered.used
  have left := sliced.left
  have quantum : defaultQuantum.toNat = 10 := rfl
  by_cases mode : s'.mode = .switched
  · have none : (watchTurns s event s' r).used = 0 := if_pos mode
    rw [none, slice.renewed after live mode, Nat.add_zero]
  · have used : (watchTurns s event s' r).used =
        if event = .clock then (r.used + 1) % defaultQuantum.toNat else r.used := if_neg mode
    cases slice with
    | goesOn notClock accrues _ _ =>
        rw [used, if_neg notClock, accrues.current, accrues.remaining]
        exact before
    | ticks ticks _ =>
        have ticked := used.trans (if_pos rfl)
        rw [quantum] at ticked before ⊢
        rw [ticked, ticks.current]
        rcases ticks.counted with ⟨more, less⟩ | ⟨last, _, renewed⟩
        · have several : (s.remaining s.current).toNat ≠ 1 := fun one =>
            more (UInt32.toNat_inj.mp one)
          rw [less, toNat_pred left]
          omega
        · have one : (s.remaining s.current).toNat = 1 := by
            rw [last]
            rfl
          have whole : (s'.getQuantum s'.current).toNat = 10 := by
            have granted := after.granted s'.current live
            rw [← quantum, ← getQuantum_toNat granted, Int.toNat_natCast]
          have same : s.getQuantum s.current = s'.getQuantum s'.current := by
            unfold getQuantum
            rw [ticks.current, ticks.quantum]
          rw [renewed, same, whole]
          omega
    | preempted _ _ _ _ switched => exact absurd switched mode
    | yields _ _ _ _ switched => exact absurd switched mode
    | starts starts _ =>
        rw [used, if_neg (by simp), starts.current, starts.remaining]
        exact before

theorem Rostered.turns_step {r : Rota} (rostered : Rostered s r)
    (turn : TransTurn s event s') (alive : s'.live t = true) :
    (s'.stats t).totalTrans = UInt32.ofNat ((watchTurns s event s' r).turns t) := by
  change s'.trans t = _
  have old : s.live t = true → s.trans t = UInt32.ofNat (r.turns t) := rostered.turns t
  dsimp only [watchTurns]
  by_cases made : MadeIn s s' t
  · rw [if_pos made]
    cases turn with
    | goesOn _ _ _ born => exact born t made
    | ticks _ live _ => exact absurd made (not_madeIn fun _ => live ▸ alive)
    | yields _ live _ => exact absurd made (not_madeIn (live t))
  · have before : s.live t = true := by
      by_contra dead
      exact made ⟨by simpa using dead, alive⟩
    rw [if_neg made]
    have still : s'.mode = .user → dispatches s' t = 0 := by
      intro mode
      exact if_neg fun both => absurd (mode.symm.trans both.1) (by decide)
    cases turn with
    | goesOn notClock mode kept _ =>
        have notRenewed : ¬ Renewed s event s' r t := fun renewed => notClock renewed.1
        rw [still mode, if_neg notRenewed, kept t before, old before]
        rfl
    | ticks mode _ counts =>
        rw [still mode, counts]
        have last : s.remaining s.current = 1 ↔ r.used + 1 = defaultQuantum.toNat := by
          have balance := rostered.used
          have quantum : defaultQuantum.toNat = 10 := rfl
          rw [← UInt32.toNat_inj]
          change (s.remaining s.current).toNat = 1 ↔ _
          omega
        by_cases renewed : Renewed s .clock s' r t
        · rw [if_pos renewed, if_pos (last.mpr renewed.2.2.2), renewed.2.2.1,
            Function.update_self, old before]
          exact (ofNat_succ _).symm
        · rw [if_neg renewed, Nat.add_zero, ← old before]
          split_ifs with isLast
          · have other : t ≠ s.current := fun same =>
              renewed ⟨rfl, mode, same.symm, last.mp isLast⟩
            rw [Function.update_of_ne other]
          · rfl
    | yields mode _ counts =>
        have notRenewed : ¬ Renewed s event s' r t := fun renewed =>
          absurd (mode.symm.trans renewed.2.1) (by decide)
        rw [if_neg notRenewed, Nat.add_zero, counts]
        by_cases chosen : s'.current = t
        · have one : dispatches s' t = 1 := if_pos ⟨mode, chosen⟩
          rw [one, chosen, Function.update_self, old before, ofNat_succ]
        · have none : dispatches s' t = 0 := if_neg fun both => chosen both.2
          rw [none, Function.update_of_ne (Ne.symm chosen), old before, Nat.add_zero]

theorem boot_rostered (image : BootImage) : Rostered (boot image) ⟨fun _ => 0, 0⟩ := by
  have idle : ((boot image).stats 0).totalTrans = 0 := rfl
  have first : ((boot image).stats 1).totalTrans = 0 := rfl
  have current : (boot image).current = 1 := congrArg View.current (boot_refines image).view
  have remaining : ((boot image).stats 1).remainingTicks = UInt32.ofInt defaultQuantum := rfl
  refine ⟨fun t alive => ?_, ?_⟩
  · rcases boot_live alive with rfl | rfl
    · exact idle
    · exact first
  · rw [current]
    unfold Kernel.remaining
    rw [remaining]
    decide

/-- In every run, `total_trans` of every process is the number of turns that it was given since
it was made, modulo `2 ^ 32`, and `remaining_ticks` of the one that runs is what is left of its
turn. -/
theorem turns_counted {image : BootImage} {r : Rota}
    (run : Library.Observe step watchTurns (fun _ _ => True) (boot image) ⟨fun _ => 0, 0⟩ s r) :
    Rostered s r := by
  refine Library.Reach.observe_invariant Rostered (boot_rostered image)
    (fun _ plain => (⟨orderly_of_reachable plain, sliced_of_reachable plain⟩ :
      Orderly _ ∧ Sliced _)) ?_ run
  intro before event after r base rostered _ taken
  obtain ⟨orderly, sliced⟩ := base
  have slice := slice_of_step orderly taken
  have live := (orderly.step taken).settled.currentLive
  have slicedAfter := sliced.turn orderly.settled.currentLive live slice
  exact ⟨fun t alive => rostered.turns_step (trans_of_step orderly taken) alive,
    rostered.used_step sliced slicedAfter live slice⟩

/-- A process is alone for a quantum and makes a child, which has the processor after it. -/
theorem turns_counted_forked :
    let last := Library.lastState (Library.observed step watchTurns)
      (boot sampleImage, ⟨fun _ => 0, 0⟩) (List.replicate 10 .clock ++ [.syscall .fork] ++
        List.replicate 10 .clock ++ [.resume, .clock, .clock])
    last.2.turns 1 = 1 ∧ last.2.turns 2 = 1 ∧ last.2.used = 2 ∧ Rostered last.1 last.2 := by
  intro last
  have run : Library.Observe step watchTurns (fun _ _ => True) (boot sampleImage)
      ⟨fun _ => 0, 0⟩ last.1 last.2 := Library.Reach.lastObserved fun _ _ _ => trivial
  exact ⟨by decide +kernel, by decide +kernel, by decide +kernel, turns_counted run⟩

end Kernel

end Zeos
