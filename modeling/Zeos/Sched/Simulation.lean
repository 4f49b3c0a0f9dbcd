import Zeos.Machine
import Zeos.Sched.Moves
import Zeos.Sched.Threads

/-!
# The scheduler functions refine the moves

Each function of `sched.c`, and each system call on semaphores, changes the
linked memory as one of the moves changes the sequences.  `Keeps` collects
what scheduling never touches.
-/

namespace Zeos

namespace Kernel

variable {s s' s'' : Kernel} {v : View} {q : Queue} {t : TaskId}
  {context : Context} {n : SemId}

/-! ## What scheduling leaves alone -/

/-- Only queues, status fields, contexts, statistics and semaphores differ. -/
structure Keeps (s s' : Kernel) : Prop where
  task : ∀ t, s'.task t =
    { s.task t with execStatus := (s'.task t).execStatus }
  live : s'.live = s.live
  idleTask : s'.idleTask = s.idleTask
  mm : s'.mm = s.mm
  kbd : s'.kbd = s.kbd
  readLog : s'.readLog = s.readLog

theorem needsSchedRr_cases (s : Kernel) :
    (s.listEmpty .readyqueue = false ∧ s.needsSchedRr = (true, s)) ∨
      ∃ stats, s.needsSchedRr = (false, { s with stats := stats }) := by
  unfold needsSchedRr
  split_ifs with exhausted renewed
  · exact Or.inl ⟨by simpa using exhausted.2, rfl⟩
  · exact Or.inr ⟨_, rfl⟩
  · exact Or.inr ⟨s.stats, rfl⟩

/-- The clock handler only counts ticks, or it preempts the running process. -/
theorem schedule_cases (s : Kernel) :
    (∃ stats, s.schedule = { s with stats := stats }) ∨
      (s.listEmpty .readyqueue = false ∧
        s.schedule = (s.updateSchedDataRr.updateProcessStateRr s.current
          (some .readyqueue)).schedNextRr .interrupted) := by
  unfold schedule
  rcases s.updateSchedDataRr.needsSchedRr_cases with
    ⟨nonempty, needed⟩ | ⟨stats, kept⟩
  · rw [needed]
    exact Or.inr ⟨nonempty, rfl⟩
  · rw [kept]
    exact Or.inl ⟨stats, rfl⟩

namespace Keeps

theorem refl (s : Kernel) : s.Keeps s :=
  ⟨fun _ => rfl, rfl, rfl, rfl, rfl, rfl⟩

theorem trans (first : s.Keeps s') (second : s'.Keeps s'') : s.Keeps s'' where
  task t := by rw [second.task t, first.task t]
  live := second.live.trans first.live
  idleTask := second.idleTask.trans first.idleTask
  mm := second.mm.trans first.mm
  kbd := second.kbd.trans first.kbd
  readLog := second.readLog.trans first.readLog

theorem modTask (s : Kernel) (t : TaskId) (st : State) :
    s.Keeps (s.modTask t fun p => { p with execStatus := st }) where
  task u := by
    by_cases same : u = t
    · simp [Kernel.modTask, same]
    · simp [Kernel.modTask, same]
  live := rfl
  idleTask := rfl
  mm := rfl
  kbd := rfl
  readLog := rfl

theorem dispatch (s : Kernel) (context : Context) (t : TaskId) :
    s.Keeps (s.dispatch context t) :=
  have clocked : s.Keeps (((s.modStats t fun st =>
      { st with remainingTicks := s.getQuantum t }).sysToProcessStats
        t).modStats t fun st => { st with totalTrans := st.totalTrans + 1 }) :=
    ⟨fun _ => rfl, rfl, rfl, rfl, rfl, rfl⟩
  have ran := clocked.trans (modTask _ t .stRun)
  ⟨ran.task, ran.live, ran.idleTask, ran.mm, ran.kbd, ran.readLog⟩

theorem schedNextRr (s : Kernel) (context : Context) :
    s.Keeps (s.schedNextRr context) := by
  unfold Kernel.schedNextRr
  split
  · exact dispatch s context s.idleTask
  · split
    · next t _ =>
        have removed : s.Keeps (s.listDel t) :=
          ⟨fun _ => rfl, rfl, rfl, rfl, rfl, rfl⟩
        exact removed.trans (dispatch _ context t)
    · exact ⟨fun _ => rfl, rfl, rfl, rfl, rfl, rfl⟩

theorem unlink (s : Kernel) (t : TaskId) :
    s.Keeps (if (s.task t).execStatus ≠ .stRun then s.listDel t else s) := by
  split
  · exact ⟨fun _ => rfl, rfl, rfl, rfl, rfl, rfl⟩
  · exact refl s

theorem updateProcessStateRr (s : Kernel) (t : TaskId) (dest : Option Queue) :
    s.Keeps (s.updateProcessStateRr t dest) := by
  cases dest with
  | none => exact unlink s t
  | some q =>
      have linked := unlink s t
      have queued : s.Keeps
          (((if (s.task t).execStatus ≠ .stRun then s.listDel t
            else s).listAddTail t q).sysToReadyStats) :=
        ⟨linked.task, linked.live, linked.idleTask, linked.mm, linked.kbd,
          linked.readLog⟩
      exact queued.trans (modTask _ t _)

theorem block (s : Kernel) (t : TaskId) (q : Queue) : s.Keeps (s.block t q) := by
  have linked := unlink s t
  have queued : s.Keeps
      (((if (s.task t).execStatus ≠ .stRun then s.listDel t
        else s).listAddTail t q).sysToReadyStats) :=
    ⟨linked.task, linked.live, linked.idleTask, linked.mm, linked.kbd,
      linked.readLog⟩
  exact queued.trans (modTask _ t _)

theorem unblock (s : Kernel) (t : TaskId) : s.Keeps (s.unblock t) := by
  have queued : s.Keeps (((s.listDel t).listAdd t .readyqueue).sysToReadyStats) :=
    ⟨fun _ => rfl, rfl, rfl, rfl, rfl, rfl⟩
  exact queued.trans (modTask _ t _)

theorem schedule (s : Kernel) : s.Keeps s.schedule := by
  rcases s.schedule_cases with ⟨stats, same⟩ | ⟨_, switched⟩
  · rw [same]
    exact ⟨fun _ => rfl, rfl, rfl, rfl, rfl, rfl⟩
  · rw [switched]
    have ticked : s.Keeps s.updateSchedDataRr :=
      ⟨fun _ => rfl, rfl, rfl, rfl, rfl, rfl⟩
    exact (ticked.trans (updateProcessStateRr _ _ _)).trans (schedNextRr _ _)

end Keeps

/-! ## The functions of `sched.c` -/

namespace Refines

/-- Scheduling data that the sequences do not depend on may change. -/
theorem frame (refines : s.Refines v) (links : s'.links = s.links)
    (semaphores : s'.semaphores = s.semaphores)
    (fault : s'.listFault = s.listFault) (view : s'.view = s.view) :
    s'.Refines v :=
  ⟨by rw [links, semaphores, fault]; exact refines.threads,
    view.trans refines.view⟩

theorem modTask (refines : s.Refines v) (t : TaskId)
    (change : TaskStruct → TaskStruct) :
    (s.modTask t change).Refines
      { v with status :=
          Function.update v.status t (change (s.task t)).execStatus } := by
  refine ⟨refines.threads, ?_⟩
  rw [← refines.view]
  have status : (fun u =>
      (Function.update s.task t (change (s.task t)) u).execStatus) =
        Function.update (fun u => (s.task u).execStatus) t
          (change (s.task t)).execStatus :=
    Function.comp_update TaskStruct.execStatus s.task t (change (s.task t))
  simp only [Kernel.view, Kernel.modTask]
  rw [status]
  rfl

/-- A change of a PCB that keeps its status does not concern the queues. -/
theorem modTask_same (refines : s.Refines v) (t : TaskId)
    (change : TaskStruct → TaskStruct)
    (same : (change (s.task t)).execStatus = (s.task t).execStatus) :
    (s.modTask t change).Refines v := by
  have changed := refines.modTask t change
  have kept : Function.update v.status t (change (s.task t)).execStatus =
      v.status := by
    rw [same, ← refines.view]
    exact Function.update_eq_self t _
  rwa [kept] at changed

theorem dispatch (refines : s.Refines v) (context : Context) (t : TaskId) :
    (s.dispatch context t).Refines
      { v with
        status := Function.update v.status t .stRun
        context := Function.update v.context v.current context
        current := t } := by
  have clocked : (((s.modStats t fun st =>
      { st with remainingTicks := s.getQuantum t }).sysToProcessStats
        t).modStats t fun st =>
          { st with totalTrans := st.totalTrans + 1 }).Refines v :=
    ⟨refines.threads, refines.view⟩
  have ran := clocked.modTask t fun p => { p with execStatus := .stRun }
  refine ⟨ran.threads, ?_⟩
  rw [← refines.view] at ran ⊢
  have sameStatus := congrArg View.status ran.view
  simp only at sameStatus
  rw [← sameStatus]
  rfl

theorem schedNextRr (refines : s.Refines v) (context : Context) :
    (s.schedNextRr context).Refines (v.dispatch context) ∧
      (s.schedNextRr context).mode = .switched := by
  have emptyIff := refines.listEmpty_iff (q := .readyqueue) trivial
  unfold Kernel.schedNextRr
  cases shape : v.queue .readyqueue with
  | nil =>
      rw [if_pos (emptyIff.mpr shape)]
      have idle : s.idleTask = v.idle := congrArg View.idle refines.view
      have ran := refines.dispatch context s.idleTask
      have same : Function.update v.queue .readyqueue [] = v.queue := by
        rw [← shape]
        exact Function.update_eq_self _ _
      refine ⟨?_, rfl⟩
      rw [idle] at ran ⊢
      simpa [View.dispatch, View.next, shape, same] using ran
  | cons t rest =>
      have notEmpty : ¬ s.listEmpty .readyqueue = true := by
        rw [emptyIff, shape]
        simp
      rw [if_neg notEmpty, refines.listFirst shape]
      have removed := refines.listDel (t := t) (q := .readyqueue) (by simp [shape])
      have ran := removed.dispatch context t
      refine ⟨?_, rfl⟩
      simpa [View.dispatch, View.next, View.remove, shape] using ran

theorem unlink_running (refines : s.Refines v) (running : v.status t = .stRun) :
    (if (s.task t).execStatus ≠ .stRun then s.listDel t else s) = s := by
  rw [← refines.view] at running
  exact if_neg (not_not.mpr running)

/-- A running process that is put in a queue. -/
theorem queueTask (refines : s.Refines v) (active : Active s.semaphores q)
    (loose : v.Loose t) (st : State) :
    (((s.listAddTail t q).sysToReadyStats).modTask t fun p =>
      { p with execStatus := st }).Refines
      (v.place t q (v.queue q ++ [t]) st) := by
  have queued := refines.listAddTail active loose
  have charged : ((s.listAddTail t q).sysToReadyStats).Refines _ :=
    ⟨queued.threads, queued.view⟩
  exact charged.modTask t _

theorem updateProcessStateRr (refines : s.Refines v)
    (active : Active s.semaphores q) (loose : v.Loose t)
    (running : v.status t = .stRun) :
    (s.updateProcessStateRr t (some q)).Refines
      (v.place t q (v.queue q ++ [t])
        (if q ≠ .readyqueue then .stBlocked else .stReady)) := by
  unfold Kernel.updateProcessStateRr
  rw [refines.unlink_running running]
  exact refines.queueTask active loose _

theorem block (refines : s.Refines v) (active : Active s.semaphores q)
    (loose : v.Loose t) (running : v.status t = .stRun) :
    (s.block t q).Refines (v.place t q (v.queue q ++ [t]) .stBlocked) := by
  unfold Kernel.block
  rw [refines.unlink_running running]
  exact refines.queueTask active loose _

theorem unblock (refines : s.Refines v) (parked : v.Parked)
    (member : t ∈ v.queue q) : (s.unblock t).Refines (v.wake t q) := by
  have removed := refines.listDel member
  have loose : (v.remove t q).Loose t := by
    intro r inQueue
    by_cases same : r = q
    · subst same
      simp only [View.remove, Function.update_self] at inQueue
      exact absurd inQueue (parked.nodup r).not_mem_erase
    · simp only [View.remove, Function.update_of_ne same] at inQueue
      exact same (parked.exclusive _ _ _ inQueue member)
  have queued := removed.listAdd (q := .readyqueue) trivial loose
  have charged : (((s.listDel t).listAdd t .readyqueue).sysToReadyStats).Refines
      _ := ⟨queued.threads, queued.view⟩
  exact charged.modTask t fun p => { p with execStatus := .stReady }

/-- The running process leaves the processor for a queue. -/
theorem blockAndSwitch (refines : s.Refines v) (settled : v.Settled)
    (active : Active s.semaphores q) (context : Context) :
    ((s.block s.current q).schedNextRr context).Refines
        (v.yield q .stBlocked context) ∧
      ((s.block s.current q).schedNextRr context).mode = .switched := by
  have current : s.current = v.current := congrArg View.current refines.view
  have blocked := refines.block active
    (current ▸ settled.currentLoose) (current ▸ settled.currentRun)
  rw [current] at blocked ⊢
  exact blocked.schedNextRr context

theorem schedule (refines : s.Refines v) (settled : v.Settled) :
    (s.schedule.Refines v ∧ s.schedule.mode = s.mode ∧
        s.schedule.current = s.current) ∨
      (v.current ≠ v.idle ∧
        s.schedule.Refines (v.yield .readyqueue .stReady .interrupted) ∧
        s.schedule.mode = .switched) := by
  rcases s.schedule_cases with ⟨stats, same⟩ | ⟨nonempty, switched⟩
  · rw [same]
    exact Or.inl ⟨⟨refines.threads, refines.view⟩, rfl, rfl⟩
  · have current : s.current = v.current := congrArg View.current refines.view
    have busy : v.current ≠ v.idle := by
      intro resting
      have empty := settled.idleAlone resting
      rw [← refines.listEmpty_iff (q := .readyqueue) trivial, nonempty] at empty
      cases empty
    have ticked : s.updateSchedDataRr.Refines v :=
      ⟨refines.threads, refines.view⟩
    have queued := ticked.updateProcessStateRr (q := .readyqueue) trivial
      (current ▸ settled.currentLoose) (current ▸ settled.currentRun)
    rw [switched]
    rw [current] at queued ⊢
    exact Or.inr ⟨busy, queued.schedNextRr .interrupted⟩

end Refines

end Kernel

end Zeos
