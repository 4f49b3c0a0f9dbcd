import Zeos.Stats.Charges

/-!
# Time slices, and the two readings of a charge

Each accounting function calls `get_ticks` twice, once for the interval that it
charges and once for the new time stamp.  What passes between the two calls is
charged to nobody.  `SliceTurn` says, for any clock, what a step does to the sums
of the counters, and what it does to the quantum of the process that runs.
-/

namespace Zeos

/-- What passes between the readings number `k` and `k + 1`. -/
def gap (clock : Nat → UInt32) (k : Nat) : UInt32 :=
  clock (k + 1) - clock k

/-- The gaps of `n` charges in a row. -/
def gaps (clock : Nat → UInt32) : Nat → Nat → UInt32
  | _, 0 => 0
  | first, n + 1 => gap clock first + gaps clock (first + 2) n

theorem gaps_one (clock : Nat → UInt32) (first : Nat) :
    gaps clock first 1 = gap clock first := by
  simp [gaps]

theorem gaps_add (clock : Nat → UInt32) (m : Nat) :
    ∀ (n first : Nat),
      gaps clock first (n + m) = gaps clock first n + gaps clock (first + 2 * n) m
  | 0, first => by simp [gaps]
  | n + 1, first => by
      have later := gaps_add clock m n (first + 2)
      rw [show first + 2 + 2 * n = first + 2 * (n + 1) by omega] at later
      rw [show n + 1 + m = n + m + 1 by omega]
      calc
        gaps clock first (n + m + 1)
            = gap clock first + gaps clock (first + 2) (n + m) := rfl
        _ = gaps clock first (n + 1) + gaps clock (first + 2 * (n + 1)) m := by
            rw [later, ← add_assoc]
            rfl

/-- The sum of the four counters. -/
def Stats.total (st : Stats) : UInt32 :=
  st.userTicks + st.systemTicks + st.blockedTicks + st.readyTicks

namespace Kernel

variable {s s' s'' : Kernel} {t u child : TaskId} {event : Event} {n m : Nat}

/-- The time stamp less the time that was charged. -/
def balance (s : Kernel) (t : TaskId) : UInt32 :=
  (s.stats t).elapsedTotalTicks - (s.stats t).total

def remaining (s : Kernel) (t : TaskId) : UInt32 := (s.stats t).remainingTicks

/-! ## Charges of the running process -/

/-- The running process was charged `n` times, and nothing else happened to time
slices. -/
structure Accrues (s s' : Kernel) (n : Nat) : Prop where
  clock : s'.clock = s.clock
  reads : s'.clockReads = s.clockReads + 2 * n
  current : s'.current = s.current
  live : ∀ u, u ≠ s.current → s'.live u = s.live u
  own : s'.balance s.current = s.balance s.current + gaps s.clock s.clockReads n
  others : ∀ u, u ≠ s.current → s.live u = true → s'.balance u = s.balance u
  remaining : s'.remaining s.current = s.remaining s.current
  quantum : ∀ u, (u = s.current ∨ s.live u = true) →
    (s'.task u).quantum = (s.task u).quantum

namespace Accrues

theorem trans (first : s.Accrues s' n) (second : s'.Accrues s'' m) :
    s.Accrues s'' (n + m) where
  clock := second.clock.trans first.clock
  reads := by
    rw [second.reads, first.reads]
    omega
  current := second.current.trans first.current
  live u other := by
    rw [second.live u (first.current ▸ other), first.live u other]
  own := by
    have later := second.own
    rw [first.current, first.own, first.clock, first.reads] at later
    rw [later, gaps_add, add_assoc]
  others u other alive := by
    have still : s'.live u = true := (first.live u other).trans alive
    rw [second.others u (first.current ▸ other) still, first.others u other alive]
  remaining := by
    have later := second.remaining
    rw [first.current] at later
    exact later.trans first.remaining
  quantum u known := by
    have still : u = s'.current ∨ s'.live u = true := by
      rw [first.current]
      by_cases own : u = s.current
      · exact Or.inl own
      · exact Or.inr ((first.live u own).trans (known.resolve_left own))
    exact (second.quantum u still).trans (first.quantum u known)

/-- Neither the statistics nor the clock nor a quantum differ. -/
theorem of_eq (clock : s'.clock = s.clock) (reads : s'.clockReads = s.clockReads)
    (current : s'.current = s.current) (live : ∀ u, u ≠ s.current → s'.live u = s.live u)
    (stats : s'.stats = s.stats) (quantum : ∀ u, (s'.task u).quantum = (s.task u).quantum) :
    s.Accrues s' 0 where
  clock := clock
  reads := reads
  current := current
  live := live
  own := by simp [balance, stats, gaps]
  others u _ _ := by
    unfold balance
    rw [stats]
  remaining := by
    unfold Kernel.remaining
    rw [stats]
  quantum u _ := quantum u

/-- Charges, and then something else. -/
theorem still (first : s.Accrues s' n) (second : s'.Accrues s'' 0) : s.Accrues s'' n :=
  first.trans second

theorem refl (s : Kernel) : s.Accrues s 0 :=
  of_eq rfl rfl rfl (fun _ _ => rfl) rfl fun _ => rfl

/-- One charge. -/
theorem charge {charge : UInt32 → Stats → Stats}
    (charges : ∀ d st, (charge d st).total = st.total + d ∧
      (charge d st).remainingTicks = st.remainingTicks) (s : Kernel) :
    s.Accrues (s.chargeTicks s.current charge) 1 where
  clock := rfl
  reads := rfl
  current := rfl
  live _ _ := rfl
  own := by
    rw [gaps_one]
    unfold balance chargeTicks gap
    dsimp only
    rw [Function.update_self]
    have total := (charges (s.clock s.clockReads - (s.stats s.current).elapsedTotalTicks)
      (s.stats s.current)).1
    unfold Stats.total at total ⊢
    dsimp only
    rw [total]
    abel
  others u other _ := by
    unfold balance chargeTicks
    simp [other]
  remaining := by
    unfold Kernel.remaining chargeTicks
    dsimp only
    rw [Function.update_self]
    exact (charges _ _).2
  quantum _ _ := rfl

/-- `sys_to_user_stats` and `sys_to_ready_stats`. -/
theorem system (s : Kernel) : s.Accrues s.sysToReadyStats 1 := by
  apply charge
  intro d st
  refine ⟨?_, rfl⟩
  unfold Stats.total
  dsimp only
  abel

theorem enter (s : Kernel) : s.Accrues s.userToSysStats 1 := by
  apply charge
  intro d st
  refine ⟨?_, rfl⟩
  unfold Stats.total
  dsimp only
  abel

theorem sysReturn (s : Kernel) (result : Int) : s.Accrues (s.sysReturn result) 1 :=
  (system s).still (of_eq rfl rfl rfl (fun _ _ => rfl) rfl fun _ => rfl)

/-- The PCBs stay but for their status. -/
theorem of_keeps (keeps : s.Keeps s') (clock : s'.clock = s.clock)
    (reads : s'.clockReads = s.clockReads) (current : s'.current = s.current)
    (stats : s'.stats = s.stats) : s.Accrues s' 0 :=
  of_eq clock reads current (fun _ _ => congrFun keeps.live _) stats fun u => by
    rw [keeps.task u]

/-- A change of queues, the charge, and a change of a status field. -/
theorem queued (clock : s'.clock = s.clock) (reads : s'.clockReads = s.clockReads)
    (current : s'.current = s.current) (live : s'.live = s.live)
    (stats : s'.stats = s.stats) (task : s'.task = s.task) (t : TaskId) (st : State) :
    s.Accrues (s'.sysToReadyStats.modTask t fun p => { p with execStatus := st }) 1 := by
  have moved : s.Accrues s' 0 :=
    of_eq clock reads current (fun _ _ => congrFun live _) stats fun u => by rw [task]
  have charged : s.Accrues s'.sysToReadyStats (0 + 1) := moved.trans (system s')
  exact charged.still (of_keeps (Keeps.modTask s'.sysToReadyStats t st) rfl rfl rfl rfl)

theorem unblock (s : Kernel) (t : TaskId) : s.Accrues (s.unblock t) 1 := by
  unfold Kernel.unblock
  apply queued <;> rfl

theorem block (s : Kernel) (t : TaskId) (q : Queue) : s.Accrues (s.block t q) 1 := by
  unfold Kernel.block
  dsimp only
  split <;> apply queued <;> rfl

theorem updateProcessStateRr (s : Kernel) (t : TaskId) (q : Queue) :
    s.Accrues (s.updateProcessStateRr t (some q)) 1 := by
  unfold Kernel.updateProcessStateRr
  dsimp only
  split <;> apply queued <;> rfl

theorem releaseWaiters (n : SemId) : ∀ (fuel : Nat) (s : Kernel),
    ∃ m, s.Accrues (releaseWaiters n fuel s) m
  | 0, s => ⟨0, refl s⟩
  | fuel + 1, s => by
      unfold Kernel.releaseWaiters
      split
      · exact ⟨0, refl s⟩
      · split
        · next t _ =>
            obtain ⟨m, later⟩ := releaseWaiters n fuel (s.unblock t)
            exact ⟨1 + m, (unblock s t).trans later⟩
        · exact ⟨0, of_eq rfl rfl rfl (fun _ _ => rfl) rfl fun _ => rfl⟩

theorem semDestroy (s : Kernel) (n : SemId) : ∃ m, s.Accrues (s.semDestroy n).2 m := by
  unfold Kernel.semDestroy
  split_ifs
  · exact ⟨0, refl s⟩
  · obtain ⟨m, released⟩ := releaseWaiters n nrTasks s
    exact ⟨m, released.still (of_eq rfl rfl rfl (fun _ _ => rfl) rfl fun _ => rfl)⟩
  · exact ⟨0, refl s⟩

theorem exitSemaphores : ∀ (names : List SemId) (s : Kernel),
    ∃ m, s.Accrues (names.foldl exitSemaphore s) m
  | [], s => ⟨0, refl s⟩
  | n :: names, s => by
      have one : ∃ m, s.Accrues (s.exitSemaphore n) m := by
        unfold exitSemaphore
        split_ifs
        · exact semDestroy s n
        · exact ⟨0, refl s⟩
      obtain ⟨m, first⟩ := one
      obtain ⟨k, later⟩ := exitSemaphores names (s.exitSemaphore n)
      exact ⟨m + k, first.trans later⟩

theorem exiting (s : Kernel) : ∃ m, s.Accrues s.exiting m := by
  have released : ∀ s : Kernel, s.Accrues s.releaseProcess 0 := by
    intro s
    refine of_eq rfl rfl rfl (fun u other => Function.update_of_ne other _ _) rfl fun u => ?_
    unfold releaseProcess modTask
    by_cases own : u = s.current
    · subst own
      simp
    · simp [own]
  obtain ⟨m, closed⟩ := exitSemaphores (List.finRange 20) s
  exact ⟨m + 0 + 1, (closed.trans (released _)).trans (updateProcessStateRr _ _ _)⟩

end Accrues

/-! ## The process that is dispatched -/

/-- The next process is charged and begins a new slice. -/
structure HandsOver (s s' : Kernel) : Prop where
  clock : s'.clock = s.clock
  reads : s'.clockReads = s.clockReads + 2
  live : s'.live = s.live
  balance : ∀ u, s'.balance u =
    s.balance u + if u = s'.current then gap s.clock s.clockReads else 0
  renewed : s'.remaining s'.current = s'.getQuantum s'.current
  quantum : ∀ u, (s'.task u).quantum = (s.task u).quantum

theorem dispatch_handsOver (s : Kernel) (context : Context) (t : TaskId) :
    s.HandsOver (s.dispatch context t) where
  clock := rfl
  reads := rfl
  live := rfl
  balance u := by
    change (s.dispatch context t).balance u =
      s.balance u + if u = t then gap s.clock s.clockReads else 0
    unfold balance dispatch gap
    by_cases same : u = t
    · subst same
      simp only [taskSwitch, modTask, modStats, sysToProcessStats, chargeTicks,
        Function.update_self, if_true, Stats.total]
      abel
    · simp [taskSwitch, modTask, modStats, sysToProcessStats, chargeTicks, same]
  renewed := by
    change (s.dispatch context t).remaining t = (s.dispatch context t).getQuantum t
    simp [remaining, getQuantum, dispatch, taskSwitch, modTask, modStats, sysToProcessStats,
      chargeTicks]
  quantum u := by
    by_cases same : u = t
    · subst same
      simp [dispatch, taskSwitch, modTask, modStats, sysToProcessStats, chargeTicks]
    · simp [dispatch, taskSwitch, modTask, modStats, sysToProcessStats, chargeTicks, same]

theorem schedNextRr_handsOver {v : View} (refines : s.Refines v) (context : Context) :
    s.HandsOver (s.schedNextRr context) := by
  have emptyIff := refines.listEmpty_iff (q := .readyqueue) trivial
  unfold schedNextRr
  cases shape : v.queue .readyqueue with
  | nil =>
      rw [if_pos (emptyIff.mpr shape)]
      exact dispatch_handsOver s context s.idleTask
  | cons t rest =>
      have notEmpty : ¬ s.listEmpty .readyqueue = true := by
        rw [emptyIff, shape]
        simp
      rw [if_neg notEmpty, refines.listFirst shape]
      have ran := dispatch_handsOver (s.listDel t) context t
      exact ⟨ran.clock, ran.reads, ran.live, ran.balance, ran.renewed, ran.quantum⟩

/-! ## What a step does -/

/-- A process was made: it begins with the reading of `init_stats` and the quantum of
its parent. -/
structure Starts (s : Kernel) (child : TaskId) (s' : Kernel) : Prop where
  clock : s'.clock = s.clock
  reads : s'.clockReads = s.clockReads + 5
  current : s'.current = s.current
  unborn : s.live child = false
  live : s'.live = Function.update s.live child true
  own : s'.balance s.current =
    s.balance s.current + (gap s.clock s.clockReads + gap s.clock (s.clockReads + 3))
  others : ∀ u, u ≠ s.current → s.live u = true → s'.balance u = s.balance u
  blank : (s'.stats child).total = 0
  remaining : s'.remaining s.current = s.remaining s.current
  quantum : ∀ u, s.live u = true → (s'.task u).quantum = (s.task u).quantum
  inherited : (s'.task child).quantum = s.currentTask.quantum

/-- A tick of the clock after which the same process goes on. -/
structure Ticks (s s' : Kernel) : Prop where
  clock : s'.clock = s.clock
  reads : s'.clockReads = s.clockReads
  current : s'.current = s.current
  live : s'.live = s.live
  balance : ∀ u, s'.balance u = s.balance u
  quantum : ∀ u, (s'.task u).quantum = (s.task u).quantum
  counted : (s.remaining s.current ≠ 1 ∧
      s'.remaining s.current = s.remaining s.current - 1) ∨
    (s.remaining s.current = 1 ∧ s.queue .readyqueue = [] ∧
      s'.remaining s.current = s.getQuantum s.current)

/-- The effect of an event on time slices and charges. -/
inductive SliceTurn (s : Kernel) : Event → Kernel → Prop
  | goesOn {event : Event} {n : Nat} {s' : Kernel} :
      event ≠ .clock →
      s.Accrues s' n →
      s'.live = s.live →
      s'.mode = .user →
      SliceTurn s event s'
  | ticks {s' : Kernel} :
      s.Ticks s' →
      s'.mode = .user →
      SliceTurn s .clock s'
  | preempted {middle s' : Kernel} :
      s.remaining s.current = 1 →
      s.updateSchedDataRr.Accrues middle 1 →
      middle.HandsOver s' →
      s'.live = s.live →
      s'.mode = .switched →
      SliceTurn s .clock s'
  | yields {event : Event} {n : Nat} {middle s' : Kernel} :
      event ≠ .clock →
      s.Accrues middle n →
      middle.HandsOver s' →
      (∀ u, s'.live u = true → s.live u = true) →
      s'.mode = .switched →
      SliceTurn s event s'
  | starts {call : Syscall} {child : TaskId} {s' : Kernel} :
      s.Starts child s' →
      s'.mode = .user →
      SliceTurn s (.syscall call) s'

/-! ## Interrupts -/

/-- The statistics change, but no counter does. -/
theorem modStats_balance (s : Kernel) (t : TaskId) (change : Stats → Stats)
    (keeps : ∀ st, (change st).elapsedTotalTicks = st.elapsedTotalTicks ∧
      (change st).total = st.total) (u : TaskId) :
    (s.modStats t change).balance u = s.balance u := by
  unfold balance modStats
  by_cases same : u = t
  · subst same
    simp [keeps]
  · simp [same]

theorem updateSchedDataRr_balance (s : Kernel) (u : TaskId) :
    s.updateSchedDataRr.balance u = s.balance u :=
  modStats_balance s s.current (fun st => { st with remainingTicks := st.remainingTicks - 1 })
    (fun _ => ⟨rfl, rfl⟩) u

/-- What `schedule` does to a slice. -/
theorem schedule_slices (s : Kernel) :
    (∃ stats, s.schedule = { s with stats := stats } ∧
        (∀ u, ({ s with stats := stats } : Kernel).balance u = s.balance u) ∧
        ((s.remaining s.current ≠ 1 ∧
            (stats s.current).remainingTicks = s.remaining s.current - 1) ∨
          (s.remaining s.current = 1 ∧ s.listEmpty .readyqueue = true ∧
            (stats s.current).remainingTicks = s.getQuantum s.current))) ∨
      (s.remaining s.current = 1 ∧
        s.schedule = (s.updateSchedDataRr.updateProcessStateRr s.current
          (some .readyqueue)).schedNextRr .interrupted) := by
  have ticked := updateSchedDataRr_balance s
  have counted : (s.updateSchedDataRr.stats s.current).remainingTicks =
      s.remaining s.current - 1 := by
    simp [updateSchedDataRr, modStats, remaining]
  unfold schedule needsSchedRr
  by_cases exhausted : (s.updateSchedDataRr.stats s.current).remainingTicks = 0
  · have one : s.remaining s.current = 1 := sub_eq_zero.mp (counted.symm.trans exhausted)
    by_cases empty : s.listEmpty .readyqueue = true
    · have renewed : ∀ u, (s.updateSchedDataRr.modStats s.current fun st =>
          { st with
            remainingTicks := s.updateSchedDataRr.getQuantum s.current
            totalTrans := st.totalTrans + 1 }).balance u =
          s.updateSchedDataRr.balance u :=
        modStats_balance s.updateSchedDataRr s.current _ fun _ => ⟨rfl, rfl⟩
      rw [if_neg fun both => both.2 empty, if_pos ⟨exhausted, empty⟩]
      refine Or.inl ⟨_, rfl, fun u => (renewed u).trans (ticked u), Or.inr ⟨one, empty, ?_⟩⟩
      change (Function.update s.updateSchedDataRr.stats s.current _ s.current).remainingTicks =
        s.getQuantum s.current
      rw [Function.update_self]
      rfl
    · rw [if_pos ⟨exhausted, empty⟩]
      exact Or.inr ⟨one, rfl⟩
  · rw [if_neg fun both => exhausted both.1, if_neg fun both => exhausted both.1]
    refine Or.inl ⟨_, rfl, ticked, Or.inl ⟨?_, counted⟩⟩
    intro one
    apply exhausted
    rw [counted, one]
    rfl

theorem clock_slices (orderly : s.Orderly) (mode : s.mode = .user) :
    SliceTurn s .clock s.clockRoutine := by
  have counted : ({ s with zeosTicks := int32 (s.zeosTicks + 1) } :
      Kernel).updateSchedDataRr.Refines s.view := ⟨orderly.refines.threads, rfl⟩
  have emptyIff := orderly.refines.listEmpty_iff (q := .readyqueue) trivial
  unfold clockRoutine
  rcases schedule_slices { s with zeosTicks := int32 (s.zeosTicks + 1) } with
    ⟨stats, same, balance, ticked⟩ | ⟨one, switched⟩
  · rw [same]
    refine .ticks ⟨rfl, rfl, rfl, rfl, balance, fun _ => rfl, ?_⟩ mode
    rcases ticked with later | ⟨one, empty, renewed⟩
    · exact Or.inl later
    · exact Or.inr ⟨one, emptyIff.mp empty, renewed⟩
  · rw [switched]
    have queued := counted.updateProcessStateRr (q := .readyqueue) trivial
      orderly.settled.currentLoose orderly.settled.currentRun
    have handsOver := schedNextRr_handsOver queued .interrupted
    have keeps := Keeps.updateProcessStateRr ({ s with
      zeosTicks := int32 (s.zeosTicks + 1) } : Kernel).updateSchedDataRr s.current
        (some .readyqueue)
    have charged := Accrues.updateProcessStateRr ({ s with
      zeosTicks := int32 (s.zeosTicks + 1) } : Kernel).updateSchedDataRr s.current .readyqueue
    exact .preempted one ⟨charged.clock, charged.reads, charged.current, charged.live,
      charged.own, charged.others, charged.remaining, charged.quantum⟩ handsOver
      (handsOver.live.trans keeps.live) (queued.schedNextRr .interrupted).2

theorem keyboard_slices (orderly : s.Orderly) (mode : s.mode = .user)
    (scancode beyond : UInt8) :
    SliceTurn s (.keyboard scancode beyond) (s.keyboardRoutine scancode beyond) := by
  have typed : s.Accrues { s with kbd := s.keyStored (charOfScancode scancode beyond) } 0 :=
    .of_eq rfl rfl rfl (fun _ _ => rfl) rfl fun _ => rfl
  unfold keyboardRoutine
  split_ifs with make
  · have refines : ({ s with kbd := s.keyStored (charOfScancode scancode beyond) } :
        Kernel).Refines s.view := ⟨orderly.refines.threads, rfl⟩
    have emptyIff := refines.listEmpty_iff (q := .keyboardqueue) trivial
    dsimp only
    split_ifs with wakes
    · have waiting : s.queue .keyboardqueue ≠ [] := fun empty =>
        wakes.2 (emptyIff.mpr empty)
      obtain ⟨t, rest, shape⟩ := List.exists_cons_of_ne_nil waiting
      rw [refines.listFirst shape]
      have member : t ∈ s.view.queue .keyboardqueue := by
        change t ∈ s.queue .keyboardqueue
        rw [shape]
        exact List.mem_cons_self
      have woken := refines.unblock orderly.settled.toParked member
      have handsOver := schedNextRr_handsOver woken .interrupted
      have keeps := Keeps.unblock { s with
        kbd := s.keyStored (charOfScancode scancode beyond) } t
      refine .yields (by simp) (typed.trans (Accrues.unblock _ t)) handsOver ?_
        (woken.schedNextRr .interrupted).2
      intro u alive
      rw [handsOver.live, keeps.live] at alive
      exact alive
    · exact .goesOn (by simp) typed rfl mode
  · exact .goesOn (by simp) (.refl s) rfl mode

/-! ## System calls -/

/-- A call that returns to its caller. -/
theorem SliceTurn.returned {call : Syscall} (accrues : s.userToSysStats.Accrues s' n)
    (live : s'.live = s.live) (result : Int) :
    SliceTurn s (.syscall call) (s'.sysReturn result) :=
  .goesOn (by simp) (((Accrues.enter s).trans accrues).trans (.sysReturn s' result)) live rfl

theorem SliceTurn.refused {call : Syscall} (s : Kernel) (result : Int) :
    SliceTurn s (.syscall call) (s.userToSysStats.sysReturn result) :=
  .returned (.refl _) rfl result

/-- A call that ends in a dispatch. -/
theorem SliceTurn.yielded {call : Syscall} {middle : Kernel}
    (accrues : s.userToSysStats.Accrues middle n) (handsOver : middle.HandsOver s')
    (live : ∀ u, middle.live u = true → s.live u = true) (mode : s'.mode = .switched) :
    SliceTurn s (.syscall call) s' := by
  refine .yields (by simp) ((Accrues.enter s).trans accrues) handsOver ?_ mode
  intro u alive
  rw [handsOver.live] at alive
  exact live u alive

theorem read_slices (orderly : s.Orderly) (fd : Int32) (buf : UInt32) (count : Int32) :
    SliceTurn s (.syscall (.read fd buf count)) (s.systemCall (.read fd buf count)) := by
  have entered := orderly.userToSysStats
  change SliceTurn s _ (complete (s.userToSysStats.sysRead fd buf count))
  rcases sysRead_cases entered.cbIsEmpty fd buf count with
    ⟨_, result, failed⟩ | ⟨_, waits⟩
  · rw [failed]
    exact .refused s result
  · rw [waits]
    have asking : ({ s.userToSysStats with
        kbd := { s.kbd with leftToRead := count.toInt } } : Kernel).Refines
          s.view := ⟨orderly.refines.threads, rfl⟩
    have queued := asking.block (q := .keyboardqueue) trivial
      orderly.settled.currentLoose orderly.settled.currentRun
    have asked : s.userToSysStats.Accrues { s.userToSysStats with
        kbd := { s.kbd with leftToRead := count.toInt } } 0 :=
      .of_eq rfl rfl rfl (fun _ _ => rfl) rfl fun _ => rfl
    have keeps := Keeps.block { s.userToSysStats with
      kbd := { s.kbd with leftToRead := count.toInt } } s.current .keyboardqueue
    exact .yielded (asked.trans (.block _ s.current .keyboardqueue))
      (schedNextRr_handsOver queued _)
      (fun u alive => (congrFun keeps.live u).symm.trans alive) (queued.schedNextRr _).2

theorem semWait_slices (orderly : s.Orderly) (nSem : Int32) :
    SliceTurn s (.syscall (.semWait nSem)) (s.systemCall (.semWait nSem)) := by
  have entered := orderly.userToSysStats
  change SliceTurn s _ (complete (s.userToSysStats.sysSemWait nSem))
  unfold sysSemWait
  split
  · exact .refused s _
  · next n _ =>
      split_ifs with unused blocked
      · exact .refused s _
      · have used : 0 ≤ (s.semaphores n).ownerPID := by
          have notUnused : ¬ (s.semaphores n).ownerPID < 0 := unused
          omega
        have queued := entered.refines.block (q := .semaphore n) used
          entered.settled.currentLoose entered.settled.currentRun
        have keeps := Keeps.block s.userToSysStats s.current (.semaphore n)
        exact .yielded (.block s.userToSysStats s.current (.semaphore n))
          (schedNextRr_handsOver queued _)
          (fun u alive => (congrFun keeps.live u).symm.trans alive)
          (queued.schedNextRr _).2
      · have taken : s.userToSysStats.Accrues (s.userToSysStats.modSem n fun sem =>
            { sem with counter := sem.counter - 1 }) 0 :=
          .of_eq rfl rfl rfl (fun _ _ => rfl) rfl fun _ => rfl
        exact .returned taken rfl 0

theorem exit_slices (orderly : s.Orderly) (busy : s.current ≠ s.idleTask) :
    SliceTurn s (.syscall .exit) (s.systemCall .exit) := by
  have entered := orderly.userToSysStats
  obtain ⟨_, _, _, refines, _⟩ :=
    exiting_spec entered.refines entered.settled busy
  obtain ⟨_, destroyed⟩ := exitSemaphores_quiet (List.finRange 20)
    entered.refines entered.settled busy
  obtain ⟨n, exits⟩ := Accrues.exiting s.userToSysStats
  change SliceTurn s _ s.userToSysStats.sysExit
  rw [sysExit_eq]
  refine .yielded exits (schedNextRr_handsOver refines _) ?_ (refines.schedNextRr _).2
  intro u alive
  have keeps := Keeps.updateProcessStateRr ((List.finRange 20).foldl exitSemaphore
    s.userToSysStats).releaseProcess ((List.finRange 20).foldl exitSemaphore
      s.userToSysStats).current (some .freequeue)
  have released := (congrFun keeps.live u).symm.trans alive
  exact (congrFun destroyed.live u).symm.trans (live_of_releaseProcess released)

/-! ## `sys_fork` and `sys_clone` -/

/-- The child is made while its parent is in the kernel. -/
structure Spawns (s : Kernel) (child : TaskId) (s' : Kernel) : Prop where
  clock : s'.clock = s.clock
  reads : s'.clockReads = s.clockReads + 1
  current : s'.current = s.current
  live : s'.live = Function.update s.live child true
  others : ∀ u, u ≠ child → s'.stats u = s.stats u
  blank : (s'.stats child).total = 0
  quantum : ∀ u, u ≠ child → (s'.task u).quantum = (s.task u).quantum
  inherited : (s'.task child).quantum = s.currentTask.quantum

theorem Spawns.starts (spawns : s.userToSysStats.Spawns child s') (other : child ≠ s.current)
    (unborn : s.live child = false) (result : Int) :
    s.Starts child (s'.sysReturn result) := by
  have entered := Accrues.enter s
  have current : s'.current = s.current := spawns.current
  have away : ∀ u, s.live u = true → u ≠ child := by
    rintro u alive rfl
    rw [unborn] at alive
    cases alive
  have returned := Accrues.sysReturn s' result
  have same : ∀ u, u ≠ child → s'.balance u = s.userToSysStats.balance u := by
    intro u notChild
    unfold balance
    rw [spawns.others u notChild]
  have own := returned.own
  have remaining := returned.remaining
  rw [current] at own remaining
  rw [same _ (Ne.symm other), entered.own, gaps_one, gaps_one, spawns.clock, spawns.reads]
    at own
  refine ⟨returned.clock.trans spawns.clock, ?_, returned.current.trans current, unborn,
    spawns.live, own.trans (add_assoc _ _ _), ?_, ?_, ?_, ?_, spawns.inherited⟩
  · rw [returned.reads, spawns.reads]
    rfl
  · intro u notCurrent alive
    have still : s'.live u = true := by
      rw [spawns.live, Function.update_of_ne (away u alive)]
      exact alive
    rw [returned.others u (current ▸ notCurrent) still, same u (away u alive),
      entered.others u notCurrent alive]
  · have notCharged : (s'.sysReturn result).stats child = s'.stats child := by
      have notOwn : child ≠ s'.current := current ▸ other
      simp [Kernel.sysReturn, sysToUserStats, chargeTicks, notOwn]
    rw [notCharged]
    exact spawns.blank
  · rw [remaining]
    unfold Kernel.remaining
    rw [spawns.others _ (Ne.symm other)]
    exact entered.remaining
  · intro u alive
    exact spawns.quantum u (away u alive)

theorem forkInto_slices (orderly : s.Orderly) (member : child ∈ s.queue .freequeue)
    (result : Int) :
    SliceTurn s (.syscall .fork)
      (((s.userToSysStats.listDel child).forkInto child).2.sysReturn result) := by
  have unborn : s.live child = false := orderly.dead member
  have other : child ≠ s.current := orderly.settled.away member
  have away : ∀ u, (u = s.current ∨ s.live u = true) → u ≠ child := by
    rintro u known rfl
    rcases known with own | alive
    · exact other own
    · rw [unborn] at alive
      cases alive
  unfold forkInto
  dsimp only
  generalize copied :
    (((s.userToSysStats.listDel child).copyUnion child).allocateDIR child).2 =
      placed
  have same := copied_stats s child
  rw [copied] at same
  obtain ⟨stats, live, current, clock, clockReads⟩ := same
  have quantum : ∀ u, (placed.task u).quantum =
      if u = child then s.currentTask.quantum else (s.task u).quantum := by
    subst copied
    have copiedQuantum : ∀ u, (((s.userToSysStats.listDel child).copyUnion child).task
        u).quantum = if u = child then s.currentTask.quantum else (s.task u).quantum := by
      intro u
      unfold copyUnion
      by_cases isChild : u = child
      · subst isChild
        simp only [Function.update_self, if_true]
        rfl
      · simp only [Function.update_of_ne isChild, if_neg isChild]
        rfl
    unfold allocateDIR
    split
    · intro u
      rw [← copiedQuantum u]
      unfold modTask
      by_cases isChild : u = child
      · subst isChild
        simp
      · simp [isChild]
    · exact copiedQuantum
  have kept : ∀ u, u ≠ child → placed.stats u = s.userToSysStats.stats u := by
    intro u notChild
    rw [stats, Function.update_of_ne notChild]
  split
  · next mm _ =>
      have abandoned : s.userToSysStats.Accrues (placed.abandonChild child mm) 0 := by
        have own := kept s.current (away s.current (Or.inl rfl))
        refine ⟨clock, clockReads, current, fun u _ => congrFun live u, ?_, ?_, ?_, ?_⟩
        · change placed.balance s.current = s.userToSysStats.balance s.current + 0
          unfold balance
          rw [own, add_zero]
        · intro u _ alive
          change placed.balance u = s.userToSysStats.balance u
          unfold balance
          rw [kept u (away u (Or.inr alive))]
        · exact congrArg Stats.remainingTicks own
        · intro u known
          exact (quantum u).trans (if_neg (away u known))
      exact .returned abandoned live result
  · next mm _ =>
      have spawns : s.userToSysStats.Spawns child (placed.finishFork child mm) := by
        refine ⟨clock, congrArg Nat.succ clockReads, current, ?_, ?_, ?_, ?_, ?_⟩
        · change Function.update placed.live child true = Function.update s.live child true
          rw [live]
        · intro u notChild
          exact (Function.update_of_ne notChild _ _).trans (kept u notChild)
        · change (Function.update placed.stats child _ child).total = 0
          rw [Function.update_self]
          rfl
        · intro u notChild
          refine Eq.trans ?_ ((quantum u).trans (if_neg notChild))
          simp [finishFork, initChild, initStats, modTask, listAddTail, notChild]
        · have parent := (quantum s.current).trans (if_neg (Ne.symm other))
          refine Eq.trans ?_ parent
          rw [← current]
          simp [finishFork, initChild, initStats, modTask, listAddTail, currentTask]
      exact .starts (spawns.starts other unborn result) rfl

theorem fork_slices (orderly : s.Orderly) :
    SliceTurn s (.syscall .fork) (s.systemCall .fork) := by
  have entered := orderly.userToSysStats
  change SliceTurn s _ (Kernel.sysReturn _ _)
  unfold sysFork
  split_ifs with empty
  · exact .refused s _
  · rw [entered.refines.listEmpty_iff (q := .freequeue) trivial] at empty
    obtain ⟨child, rest, shape⟩ := List.exists_cons_of_ne_nil empty
    have member : child ∈ s.queue .freequeue := by
      change child ∈ s.userToSysStats.view.queue .freequeue
      simp [shape]
    rw [entered.refines.listFirst shape]
    exact forkInto_slices orderly member _

theorem clone_slices (orderly : s.Orderly) (function stack : UInt32) :
    SliceTurn s (.syscall (.clone function stack))
      (s.systemCall (.clone function stack)) := by
  have entered := orderly.userToSysStats
  change SliceTurn s _ (Kernel.sysReturn _ _)
  unfold sysClone
  split_ifs with denied empty
  · exact .refused s _
  · exact .refused s _
  · rw [entered.refines.listEmpty_iff (q := .freequeue) trivial] at empty
    obtain ⟨child, rest, shape⟩ := List.exists_cons_of_ne_nil empty
    have member : child ∈ s.queue .freequeue := by
      change child ∈ s.userToSysStats.view.queue .freequeue
      simp [shape]
    have other : child ≠ s.current := orderly.settled.away member
    have notParent := Ne.symm other
    rw [entered.refines.listFirst shape]
    have spawns : s.userToSysStats.Spawns child
        ((s.userToSysStats.listDel child).cloneInto child).2 := by
      refine ⟨rfl, rfl, rfl, rfl, ?_, ?_, ?_, ?_⟩
      · intro u notChild
        exact (Function.update_of_ne notChild _ _).trans (Function.update_of_ne notChild _ _)
      · simp [cloneInto, copyUnion, initChild, initStats, modTask, listAddTail, Stats.total]
      · intro u notChild
        simp [cloneInto, copyUnion, initChild, initStats, modTask, listAddTail, notChild,
          listDel]
      · simp [cloneInto, copyUnion, initChild, initStats, modTask, listAddTail, currentTask,
          listDel, userToSysStats, chargeTicks, notParent]
    exact .starts (spawns.starts other (orderly.dead member) _) rfl

/-! ## All events -/

theorem sysGetStats_accrues (s : Kernel) (pid : Int32) (st : UInt32) :
    s.Accrues (s.sysGetStats pid st).2 0 := by
  unfold sysGetStats
  split_ifs with negative null denied own
  · exact .refl s
  · exact .refl s
  · exact .of_eq rfl rfl rfl (fun _ _ => rfl) rfl fun _ => rfl
  · split
    · next i found =>
        have named : (s.task i).pid = pid.toInt := by
          simpa using List.find?_some found
        have notOwn : s.current ≠ i := by
          intro same
          apply own
          rw [← named, ← same]
          rfl
        have meters := modStats_balance s i (fun found => { found with
          remainingTicks := (s.stats s.current).remainingTicks }) fun _ => ⟨rfl, rfl⟩
        refine ⟨rfl, rfl, rfl, fun _ _ => rfl, ?_, fun u _ _ => meters u, ?_, fun _ _ => rfl⟩
        · exact (meters s.current).trans (add_zero _).symm
        · exact congrArg Stats.remainingTicks (Function.update_of_ne notOwn _ _)
    · exact .refl s
  · exact .refl s

theorem syscall_slices (orderly : s.Orderly) (busy : s.current ≠ s.idleTask)
    (call : Syscall) : SliceTurn s (.syscall call) (s.systemCall call) := by
  have entered := orderly.userToSysStats
  have quiet : ∀ {s s' : Kernel}, s'.clock = s.clock → s'.clockReads = s.clockReads →
      s'.current = s.current → s'.live = s.live → s'.stats = s.stats → s'.task = s.task →
      s.Accrues s' 0 := fun clock reads current live stats task =>
    .of_eq clock reads current (fun _ _ => congrFun live _) stats fun u => by rw [task]
  cases call with
  | exit => exact exit_slices orderly busy
  | fork => exact fork_slices orderly
  | read fd buf count => exact read_slices orderly fd buf count
  | write fd buffer size =>
      obtain ⟨console, fault, written⟩ :=
        s.userToSysStats.sysWrite_cases fd buffer size
      have printed : s.userToSysStats.Accrues
          (s.userToSysStats.sysWrite fd buffer size).2 0 := by
        rw [written]
        exact quiet rfl rfl rfl rfl rfl rfl
      exact .returned printed (by rw [written]; rfl) _
  | gettime => exact .refused s _
  | sbrk increment =>
      have heapOnly := HeapOnly.sysSbrk increment s.currentTask s.mm
      have moved : s.userToSysStats.Accrues
          (s.userToSysStats.sysSbrk increment).2 0 := by
        refine .of_eq rfl rfl rfl (fun _ _ => rfl) rfl fun u => ?_
        by_cases own : u = s.current
        · subst own
          refine (congrArg TaskStruct.quantum (Function.update_self _ _ _)).trans ?_
          exact heapOnly.quantum
        · exact congrArg TaskStruct.quantum (Function.update_of_ne own _ _)
      exact .returned moved rfl _
  | clone function stack => exact clone_slices orderly function stack
  | getpid => exact .refused s _
  | semInit nSem value =>
      have opened : s.userToSysStats.Accrues
          (s.userToSysStats.sysSemInit nSem value).2 0 := by
        unfold sysSemInit
        split
        · exact .refl _
        · split_ifs
          · exact .refl _
          · exact quiet rfl rfl rfl rfl rfl rfl
      exact .returned opened (sysSemInit_keeps _ nSem value).live _
  | semWait nSem => exact semWait_slices orderly nSem
  | semSignal nSem =>
      have signalled : ∃ n, s.userToSysStats.Accrues
          (s.userToSysStats.sysSemSignal nSem).2 n := by
        unfold sysSemSignal
        split
        · exact ⟨0, .refl _⟩
        · split_ifs
          · exact ⟨0, .refl _⟩
          · exact ⟨0, quiet rfl rfl rfl rfl rfl rfl⟩
          · split
            · exact ⟨1, .unblock _ _⟩
            · exact ⟨0, quiet rfl rfl rfl rfl rfl rfl⟩
      obtain ⟨n, signalled⟩ := signalled
      have kept := (sysSemSignal_quiet entered.refines entered.settled busy nSem).2
      exact .returned signalled kept.live _
  | semDestroy nSem =>
      have destroyed : ∃ n, s.userToSysStats.Accrues
          (s.userToSysStats.sysSemDestroy nSem).2 n := by
        unfold sysSemDestroy
        split
        · exact ⟨0, .refl _⟩
        · exact Accrues.semDestroy _ _
      obtain ⟨n, destroyed⟩ := destroyed
      have kept := (sysSemDestroy_quiet entered.refines entered.settled busy nSem).2
      exact .returned destroyed kept.live _
  | getStats pid st =>
      obtain ⟨stats, ram, fault, same⟩ := s.userToSysStats.sysGetStats_cases pid st
      exact .returned (sysGetStats_accrues _ pid st) (by rw [same]; rfl) _
  | niSyscall => exact .refused s _

theorem again_slices (orderly : s.Orderly) {buf : UInt32} {n : Int} {stored : List UInt8} :
    SliceTurn s .resume (complete (s.readLoop buf n stored)) := by
  have taken : ({ s with kbd := (deliver n stored s.kbd).2 } : Kernel).Refines
      s.view := ⟨orderly.refines.threads, rfl⟩
  rw [readLoop_eq]
  dsimp only
  split_ifs with more
  · have queued := taken.listAdd (q := .keyboardqueue) (t := s.current) trivial
      orderly.settled.currentLoose
    have charged : ((({ s with kbd := (deliver n stored s.kbd).2 } :
        Kernel).listAdd s.current .keyboardqueue).sysToReadyStats).Refines _ :=
      ⟨queued.threads, queued.view⟩
    have marked := charged.modTask s.current fun p =>
      { p with execStatus := .stBlocked }
    have accrues : s.Accrues ((({ s with kbd := (deliver n stored s.kbd).2 } :
        Kernel).listAdd s.current .keyboardqueue).sysToReadyStats.modTask s.current
          fun p => { p with execStatus := .stBlocked }) 1 := by
      apply Accrues.queued <;> rfl
    have handsOver := schedNextRr_handsOver marked
      (.readKeyboard buf n (deliver n stored s.kbd).1)
    exact .yields (by simp) accrues handsOver
      (fun u alive => (congrFun handsOver.live u).symm.trans alive) (marked.schedNextRr _).2
  · have finished : s.Accrues (({ s with kbd := (deliver n stored s.kbd).2 } :
        Kernel).finishRead buf n (deliver n stored s.kbd).1).2 0 :=
      .of_eq rfl rfl rfl (fun _ _ => rfl) rfl fun _ => rfl
    exact .goesOn (by simp) (finished.trans (.sysReturn _ _)) rfl rfl

theorem resume_slices (orderly : s.Orderly) : SliceTurn s .resume s.resume := by
  have returns : ∀ result, SliceTurn s .resume (s.sysReturn result) := fun result =>
    .goesOn (by simp) (.sysReturn s result) rfl rfl
  have goes : SliceTurn s .resume { s with mode := .user } :=
    .goesOn (by simp) (.of_eq rfl rfl rfl (fun _ _ => rfl) rfl fun _ => rfl) rfl rfl
  unfold resume
  split
  · exact goes
  · exact goes
  · exact returns 0
  · exact returns _
  · exact again_slices orderly
  · exact returns 0

/-- Every step is one of these. -/
theorem slice_of_step (orderly : s.Orderly) (taken : s.step event = some s') :
    SliceTurn s event s' := by
  have handled := handle_of_step taken
  unfold handle at handled
  split at handled
  · split_ifs at handled with mode
    cases handled
    exact clock_slices orderly mode
  · split_ifs at handled with mode
    cases handled
    exact keyboard_slices orderly mode _ _
  · split_ifs at handled with able
    cases handled
    exact syscall_slices orderly able.2 _
  · split_ifs at handled with able
    cases handled
    exact .goesOn (by simp) (.of_eq rfl rfl rfl (fun _ _ => rfl) rfl fun _ => rfl) rfl able.1
  · split_ifs at handled with mode
    cases handled
    exact resume_slices orderly

end Kernel

end Zeos
