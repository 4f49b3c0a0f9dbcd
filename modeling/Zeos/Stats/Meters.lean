import Zeos.Sched.Turns

/-!
# What a step charges

The four tick counters of a process and its time stamp are a meter: to charge
it is to add the time since the stamp to one counter and to move the stamp.
When the clock stands still during a step, only the first charge of a process
in the step counts.
-/

namespace Zeos

/-- What a process can spend its time with, and the counters for it. -/
inductive Account where
  | user
  | system
  | blocked
  | ready
  deriving DecidableEq

/-- The counters and `elapsed_total_ticks`. -/
@[ext]
structure Meter where
  ticks : Account → UInt32
  stamp : UInt32

namespace Meter

/-- Charge the time since the stamp. -/
def charge (m : Meter) (account : Account) (now : UInt32) : Meter where
  ticks := Function.update m.ticks account (m.ticks account + (now - m.stamp))
  stamp := now

/-- The meter of a new process. -/
def zero (now : UInt32) : Meter where
  ticks _ := 0
  stamp := now

variable {m : Meter} {account : Account} {now : UInt32}

@[simp]
theorem charge_stamp : (m.charge account now).stamp = now := rfl

/-- No time has passed since the last charge. -/
theorem charge_now (stamped : m.stamp = now) : m.charge account now = m := by
  subst stamped
  apply Meter.ext
  · unfold charge
    rw [UInt32.sub_self, UInt32.add_zero]
    exact Function.update_eq_self _ _
  · rfl

/-- Charge an account, if there is one. -/
def settle (m : Meter) (now : UInt32) : Option Account → Meter
  | some account => m.charge account now
  | none => m

end Meter

def Stats.meter (st : Stats) : Meter where
  ticks
    | .user => st.userTicks
    | .system => st.systemTicks
    | .blocked => st.blockedTicks
    | .ready => st.readyTicks
  stamp := st.elapsedTotalTicks

namespace Kernel

variable {s s' s'' : Kernel} {v : View} {t u child : TaskId} {event : Event}
  {now : UInt32}

def meter (s : Kernel) (t : TaskId) : Meter := (s.stats t).meter

/-- Every value of `get_ticks` that is read between two states is `now`. -/
def ReadsAt (s s' : Kernel) (now : UInt32) : Prop :=
  ∀ k < s'.clockReads, s.clockReads ≤ k → s'.clock k = now

/-- The clock goes on. -/
structure Clocked (s s' : Kernel) : Prop where
  clock : s'.clock = s.clock
  reads : s.clockReads ≤ s'.clockReads

theorem Clocked.trans (first : s.Clocked s') (second : s'.Clocked s'') :
    s.Clocked s'' :=
  ⟨second.clock.trans first.clock, first.reads.trans second.reads⟩

theorem ReadsAt.first (reads : ReadsAt s s'' now) (second : s'.Clocked s'') :
    ReadsAt s s' now := by
  intro k bound later
  rw [← second.clock]
  exact reads k (lt_of_lt_of_le bound second.reads) later

theorem ReadsAt.second (reads : ReadsAt s s'' now) (first : s.Clocked s') :
    ReadsAt s' s'' now :=
  fun k bound later => reads k bound (first.reads.trans later)

/-! ## The accounting functions -/

theorem charge_meter {charge : UInt32 → Stats → Stats} {account : Account}
    (charges : ∀ d st, (charge d st).meter.ticks =
      Function.update st.meter.ticks account (st.meter.ticks account + d))
    (reads : ReadsAt s (s.chargeTicks t charge) now) (u : TaskId) :
    (s.chargeTicks t charge).meter u =
      if u = t then (s.meter u).charge account now else s.meter u := by
  have first : s.clock s.clockReads = now :=
    reads s.clockReads (Nat.lt_add_of_pos_right (by decide)) (Nat.le_refl _)
  have second : s.clock (s.clockReads + 1) = now :=
    reads (s.clockReads + 1) (Nat.lt_succ_self _) (Nat.le_succ _)
  unfold meter chargeTicks
  dsimp only
  rw [first, second]
  by_cases same : u = t
  · subst same
    rw [Function.update_self, if_pos rfl]
    apply Meter.ext
    · exact charges _ _
    · rfl
  · rw [Function.update_of_ne same, if_neg same]

theorem update_user (st : Stats) (d : UInt32) :
    ({ st with userTicks := st.userTicks + d } : Stats).meter.ticks =
      Function.update st.meter.ticks .user (st.meter.ticks .user + d) := by
  funext account
  cases account <;> rfl

theorem update_system (st : Stats) (d : UInt32) :
    ({ st with systemTicks := st.systemTicks + d } : Stats).meter.ticks =
      Function.update st.meter.ticks .system (st.meter.ticks .system + d) := by
  funext account
  cases account <;> rfl

theorem update_ready (st : Stats) (d : UInt32) :
    ({ st with readyTicks := st.readyTicks + d } : Stats).meter.ticks =
      Function.update st.meter.ticks .ready (st.meter.ticks .ready + d) := by
  funext account
  cases account <;> rfl

/-- The statistics change, but no meter does. -/
theorem modStats_meter (s : Kernel) (t : TaskId) (change : Stats → Stats)
    (keeps : ∀ st, (change st).meter = st.meter) (u : TaskId) :
    (s.modStats t change).meter u = s.meter u := by
  unfold meter modStats
  by_cases same : u = t
  · subst same
    simp [keeps]
  · simp [same]

/-! ## Parts of the kernel that charge at most the running process -/

/-- Only the running process may be charged, which is no change when it was
charged just before. -/
structure Steady (s s' : Kernel) : Prop extends Clocked s s' where
  current : s'.current = s.current
  others : ∀ u, u ≠ s.current → s'.meter u = s.meter u
  own : ∀ now, ReadsAt s s' now → (s.meter s.current).stamp = now →
    s'.meter s.current = s.meter s.current

namespace Steady

theorem trans (first : s.Steady s') (second : s'.Steady s'') : s.Steady s'' where
  toClocked := first.toClocked.trans second.toClocked
  current := second.current.trans first.current
  others u other := by
    rw [second.others u (first.current ▸ other), first.others u other]
  own now reads stamped := by
    have before := first.own now (reads.first second.toClocked) stamped
    have after := second.own now (reads.second first.toClocked)
    rw [first.current, before] at after
    exact after stamped

/-- The statistics and the clock are the same. -/
theorem of_eq (current : s'.current = s.current) (stats : s'.stats = s.stats)
    (clock : s'.clock = s.clock) (reads : s'.clockReads = s.clockReads) :
    s.Steady s' where
  clock := clock
  reads := reads ▸ Nat.le_refl _
  current := current
  others u _ := by
    unfold meter
    rw [stats]
  own _ _ _ := by
    unfold meter
    rw [stats]

theorem refl (s : Kernel) : s.Steady s := of_eq rfl rfl rfl rfl

/-- The meters are the same. -/
theorem of_meters (current : s'.current = s.current)
    (meters : ∀ u, s'.meter u = s.meter u) (clock : s'.clock = s.clock)
    (reads : s'.clockReads = s.clockReads) : s.Steady s' where
  clock := clock
  reads := reads ▸ Nat.le_refl _
  current := current
  others u _ := meters u
  own _ _ _ := meters s.current

/-- `sys_to_user_stats` and `sys_to_ready_stats`. -/
theorem system (s : Kernel) : s.Steady s.sysToReadyStats where
  clock := rfl
  reads := Nat.le_add_right _ _
  current := rfl
  others u other := by
    unfold meter sysToReadyStats chargeTicks
    simp [other]
  own now reads stamped := by
    have charged := charge_meter (fun d st => update_system st d) reads s.current
    rw [if_pos rfl, Meter.charge_now stamped] at charged
    exact charged

theorem sysReturn (s : Kernel) (result : Int) : s.Steady (s.sysReturn result) :=
  (system s).trans (of_eq rfl rfl rfl rfl)

/-- A change of queues, the charge, and a change of a status field. -/
theorem queued (current : s'.current = s.current) (stats : s'.stats = s.stats)
    (clock : s'.clock = s.clock) (reads : s'.clockReads = s.clockReads)
    (t : TaskId) (change : TaskStruct → TaskStruct) :
    s.Steady (s'.sysToReadyStats.modTask t change) :=
  ((of_eq current stats clock reads).trans (system s')).trans
    (of_eq rfl rfl rfl rfl)

theorem unblock (s : Kernel) (t : TaskId) : s.Steady (s.unblock t) := by
  unfold Kernel.unblock
  apply queued <;> rfl

theorem block (s : Kernel) (t : TaskId) (q : Queue) : s.Steady (s.block t q) := by
  unfold Kernel.block
  dsimp only
  split <;> apply queued <;> rfl

theorem updateProcessStateRr (s : Kernel) (t : TaskId) (q : Queue) :
    s.Steady (s.updateProcessStateRr t (some q)) := by
  unfold Kernel.updateProcessStateRr
  dsimp only
  split <;> apply queued <;> rfl

theorem releaseWaiters (n : SemId) : ∀ (fuel : Nat) (s : Kernel),
    s.Steady (releaseWaiters n fuel s)
  | 0, s => refl s
  | fuel + 1, s => by
      unfold Kernel.releaseWaiters
      split
      · exact refl s
      · split
        · exact (unblock s _).trans (releaseWaiters n fuel _)
        · exact of_eq rfl rfl rfl rfl

theorem semDestroy (s : Kernel) (n : SemId) : s.Steady (s.semDestroy n).2 := by
  unfold Kernel.semDestroy
  split_ifs
  · exact refl s
  · exact (releaseWaiters n nrTasks s).trans (of_eq rfl rfl rfl rfl)
  · exact refl s

theorem exitSemaphores : ∀ (names : List SemId) (s : Kernel),
    s.Steady (names.foldl exitSemaphore s)
  | [], s => refl s
  | n :: names, s => by
      have one : s.Steady (s.exitSemaphore n) := by
        unfold exitSemaphore
        split_ifs
        · exact semDestroy s n
        · exact refl s
      exact one.trans (exitSemaphores names _)

theorem exiting (s : Kernel) : s.Steady s.exiting := by
  have released : ∀ s : Kernel, s.Steady s.releaseProcess := fun s =>
    of_eq rfl rfl rfl rfl
  exact ((exitSemaphores _ s).trans (released _)).trans
    (updateProcessStateRr _ _ _)

end Steady

/-! ## The process that is dispatched -/

/-- The next process is charged for its time as a ready process. -/
structure Dispatches (s s' : Kernel) : Prop extends Clocked s s' where
  meters : ∀ now, ReadsAt s s' now → ∀ u, s'.meter u =
    if u = s'.current then (s.meter u).charge .ready now else s.meter u

theorem dispatch_meters (s : Kernel) (context : Context) (t : TaskId) :
    s.Dispatches (s.dispatch context t) where
  clock := rfl
  reads := Nat.le_add_right _ _
  meters now reads u := by
    have renewed : ∀ u, (s.modStats t fun st =>
        { st with remainingTicks := s.getQuantum t }).meter u = s.meter u :=
      modStats_meter s t _ fun _ => rfl
    have counted : (s.dispatch context t).meter u =
        ((s.modStats t fun st =>
          { st with remainingTicks := s.getQuantum t }).sysToProcessStats t).meter
            u :=
      modStats_meter _ t (fun st => { st with totalTrans := st.totalTrans + 1 })
        (fun _ => rfl) u
    have charged : ((s.modStats t fun st =>
          { st with remainingTicks := s.getQuantum t }).sysToProcessStats t).meter
            u = if u = t then ((s.modStats t fun st => { st with
              remainingTicks := s.getQuantum t }).meter u).charge .ready now
            else (s.modStats t fun st => { st with
              remainingTicks := s.getQuantum t }).meter u :=
      charge_meter (fun d st => update_ready st d) reads u
    rw [counted, charged, renewed]
    rfl

theorem schedNextRr_meters (refines : s.Refines v) (context : Context) :
    s.Dispatches (s.schedNextRr context) := by
  have emptyIff := refines.listEmpty_iff (q := .readyqueue) trivial
  unfold schedNextRr
  cases shape : v.queue .readyqueue with
  | nil =>
      rw [if_pos (emptyIff.mpr shape)]
      exact dispatch_meters s context s.idleTask
  | cons t rest =>
      have notEmpty : ¬ s.listEmpty .readyqueue = true := by
        rw [emptyIff, shape]
        simp
      rw [if_neg notEmpty, refines.listFirst shape]
      have ran := dispatch_meters (s.listDel t) context t
      exact ⟨⟨ran.clock, ran.reads⟩, ran.meters⟩

/-! ## Steps -/

/-- What the process that ran is charged. -/
def entryBill (event : Event) (s' : Kernel) : Option Account :=
  match event with
  | .syscall _ => some .user
  | .clock => if s'.mode = .switched then some .system else none
  | .keyboard _ _ => if s'.mode = .switched then some .system else none
  | _ => none

/-- What a step that leads to `s'` charges a process that existed before. -/
def billed (s : Kernel) (event : Event) (s' : Kernel) (u : TaskId) :
    Option Account :=
  if u = s.current then entryBill event s'
  else if u = s'.current then some .ready
  else none

/-- The meters after a step in which every reading of the clock is `now`. -/
def MetersAfter (s : Kernel) (event : Event) (s' : Kernel) (now : UInt32) :
    Prop :=
  ∀ u, s'.live u = true →
    (s.live u = false ∧ s'.meter u = .zero now) ∨
      (s.live u = true ∧
        s'.meter u = (s.meter u).settle now (s.billed event s' u))

/-- Only the running process was charged, one account or none. -/
def ChargesCurrent (s s' : Kernel) (bill : Option Account) (now : UInt32) :
    Prop :=
  ∀ u, s'.meter u =
    if u = s.current then (s.meter u).settle now bill else s.meter u

theorem ChargesCurrent.own {bill : Option Account}
    (charges : s.ChargesCurrent s' bill now) :
    s'.meter s.current = (s.meter s.current).settle now bill :=
  (charges s.current).trans (if_pos rfl)

theorem ChargesCurrent.other {bill : Option Account}
    (charges : s.ChargesCurrent s' bill now) (other : u ≠ s.current) :
    s'.meter u = s.meter u :=
  (charges u).trans (if_neg other)

/-- The process that ran goes on. -/
theorem MetersAfter.stayed (live : s'.live = s.live)
    (current : s'.current = s.current)
    (charges : s.ChargesCurrent s' (entryBill event s') now) :
    MetersAfter s event s' now := by
  intro u alive
  rw [live] at alive
  refine Or.inr ⟨alive, (charges u).trans ?_⟩
  unfold billed
  rw [current]
  split
  · rfl
  · rfl

/-- The next process is dispatched. -/
theorem MetersAfter.switched {middle : Kernel}
    (live : ∀ u, s'.live u = true → s.live u = true)
    (charges : s.ChargesCurrent middle (entryBill event s') now)
    (stamped : (middle.meter s.current).stamp = now)
    (dispatches : middle.Dispatches s') (reads : ReadsAt middle s' now) :
    MetersAfter s event s' now := by
  intro u alive
  refine Or.inr ⟨live u alive, ?_⟩
  have ran := dispatches.meters now reads u
  unfold billed
  by_cases own : u = s.current
  · subst own
    rw [if_pos rfl, ← charges.own, ran, Meter.charge_now stamped, ite_self]
  · rw [if_neg own, ran, charges.other own]
    split
    · rfl
    · rfl

/-- `sys_fork` after it has copied the caller's `task_union`. -/
theorem copied_stats (s : Kernel) (child : TaskId) :
    let placed :=
      (((s.userToSysStats.listDel child).copyUnion child).allocateDIR child).2
    placed.stats = Function.update s.userToSysStats.stats child
        (s.userToSysStats.stats s.current) ∧
      placed.live = s.live ∧ placed.current = s.current ∧
      placed.clock = s.clock ∧ placed.clockReads = s.userToSysStats.clockReads := by
  unfold allocateDIR
  dsimp only
  split
  · exact ⟨rfl, rfl, rfl, rfl, rfl⟩
  · exact ⟨rfl, rfl, rfl, rfl, rfl⟩

/-- The process that enters the kernel by a system call was charged. -/
theorem enter_meters (reads : ReadsAt s s.userToSysStats now) :
    s.ChargesCurrent s.userToSysStats (some .user) now :=
  charge_meter (fun d st => update_user st d) reads

theorem enter_clocked (s : Kernel) : s.Clocked s.userToSysStats :=
  ⟨rfl, Nat.le_add_right _ _⟩

/-- After the entry, a part of the call that charges at most the caller. -/
theorem entered_meters (steady : s.userToSysStats.Steady s')
    (reads : ReadsAt s s' now) :
    s.ChargesCurrent s' (some .user) now := by
  intro u
  have entered := enter_meters (reads.first steady.toClocked)
  by_cases own : u = s.current
  · subst own
    have stamped : (s.userToSysStats.meter s.current).stamp = now := by
      rw [entered.own]
      rfl
    rw [if_pos rfl, ← entered.own]
    exact steady.own now (reads.second (enter_clocked s)) stamped
  · rw [if_neg own, ← entered.other own]
    exact steady.others u own

/-- A call that returns to its caller. -/
theorem MetersAfter.returned {call : Syscall}
    (steady : s.userToSysStats.Steady s') (live : s'.live = s.live)
    (result : Int) (reads : ReadsAt s (s'.sysReturn result) now) :
    MetersAfter s (.syscall call) (s'.sysReturn result) now :=
  .stayed live steady.current
    (entered_meters (steady.trans (Steady.sysReturn s' result)) reads)

/-- A call that ends in a dispatch. -/
theorem MetersAfter.yielded {call : Syscall} {middle : Kernel}
    (steady : s.userToSysStats.Steady middle)
    (live : ∀ u, s'.live u = true → s.live u = true)
    (dispatches : middle.Dispatches s') (reads : ReadsAt s s' now) :
    MetersAfter s (.syscall call) s' now := by
  have charges := entered_meters steady (reads.first dispatches.toClocked)
  refine .switched live charges ?_ dispatches
    (reads.second ((enter_clocked s).trans steady.toClocked))
  rw [charges.own]
  rfl

/-- An interrupt that takes the processor away. -/
theorem MetersAfter.interrupted {middle : Kernel}
    (bill : entryBill event s' = some .system)
    (live : ∀ u, s'.live u = true → s.live u = true) (clocked : s.Clocked middle)
    (charges : ReadsAt s middle now →
      s.ChargesCurrent middle (some .system) now)
    (dispatches : middle.Dispatches s') (reads : ReadsAt s s' now) :
    MetersAfter s event s' now := by
  have charged := charges (reads.first dispatches.toClocked)
  refine .switched live (bill ▸ charged) ?_ dispatches (reads.second clocked)
  rw [charged.own]
  rfl

end Kernel

end Zeos
